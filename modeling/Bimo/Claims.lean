import Bimo.Custody

/-!
What claims hand out.

Any number of claims and of the warming loops of warm fills run on one pool. A guest is in the
hands of one process at a time, and while it is there its record is not one that another process
would take. What is warm in a guest is what its record says, locked to the egress that its
secrets name, or nothing.
-/

namespace Bimo.Proxmox

variable {S : Settings} {s t : World} {g g' : Doing} {c : Call} {r : c.Ret}

/-- Claims, and the warming loops of warm fills. -/
def Command.claims : Command → Prop
  | .claim _ | .warm _ _ _ _ => True
  | _ => False

/-- A process that has handed out a guest is kept, as what tells of it. -/
def Unreturned (p : Io (Option Claim)) : Prop := ∀ x, p ≠ .ret (some x)

/-! ### Calls -/

/-- Nothing is new in a guest. -/
structure Less (v : ℕ) (s t : World) : Prop where
  inside : ∀ w, (t.inside v).warm = some w → (s.inside v).warm = some w
  secrets : ∀ f, t.secrets v = some f → s.secrets v = some f

lemma Less.refl (v : ℕ) (s : World) : Less v s s := ⟨fun _ h => h, fun _ h => h⟩

@[simp] lemma enter_self (s : World) (v : ℕ) (x : Inside) : (s.enter v x).inside v = x :=
  Function.update_self _ _ _

lemma enter_of_ne (s : World) {v w : ℕ} (h : v ≠ w) (x : Inside) :
    (s.enter w x).inside v = s.inside v :=
  Function.update_of_ne h _ _

/-- A guest that is entered without a warm runtime. -/
lemma less_enter (v w : ℕ) (s : World) {x : Inside} (hx : x.warm = none) :
    Less v s (s.enter w x) := by
  refine ⟨fun y hy => ?_, fun _ h => h⟩
  by_cases hv : v = w
  · subst hv
    rw [enter_self, hx] at hy
    cases hy
  · rw [enter_of_ne s hv] at hy
    exact hy

/-- A section changes records only. -/
lemma pool_inside {d : Section} {x : Except FabricError d.Ret} (h : step S s (.pool d) x t) :
    t.inside = s.inside ∧ t.secrets = s.secrets ∧ t.cluster = s.cluster ∧ t.next = s.next := by
  rcases h with ⟨o, y, shelf, hrun, hx, ht⟩ | ⟨-, rfl⟩
  · cases d with
    | take tenant agent warm =>
        cases y with
        | none =>
            obtain rfl := ht
            exact ⟨rfl, rfl, rfl, rfl⟩
        | some z =>
            rcases ht with rfl | ⟨-, rfl⟩
            · exact ⟨rfl, rfl, rfl, rfl⟩
            · exact ⟨rfl, rfl, rfl, rfl⟩
    | _ =>
        obtain rfl := ht
        exact ⟨rfl, rfl, rfl, rfl⟩
  · exact ⟨rfl, rfl, rfl, rfl⟩

/-- The other calls leave the pool's records as they are. -/
lemma guests_eq (h : step S s c r t) (hc : ∀ d, c ≠ .pool d) :
    t.shelf.guests = s.shelf.guests ∧ t.shelf.templateVersion = s.shelf.templateVersion := by
  have hshelves := step_shelves h
  generalize t.shelf = u at hshelves
  cases hshelves with
  | none => exact ⟨rfl, rfl⟩
  | save => exact ⟨rfl, rfl⟩
  | drop => exact ⟨rfl, rfl⟩
  | run => exact absurd rfl (hc _)

/-- The calls that put something into a guest or its secrets. -/
def Call.fits : Call → Bool
  | .writeSecrets _ _ | .startWarm _ _ _ => true
  | _ => false

lemma less_quiet (h : step S s c r t) (hc : c.fits = false) (v : ℕ) : Less v s t := by
  cases c with
  | pool d =>
      obtain ⟨hinside, hsecrets, -⟩ := pool_inside h
      exact ⟨fun w hw => hinside ▸ hw, fun f hf => hsecrets ▸ hf⟩
  | writeSecrets | startWarm => cases hc
  | removeSecrets w =>
      rcases h with rfl | rfl
      · refine ⟨fun _ hw => hw, fun f hf => ?_⟩
        by_cases hvw : v = w
        · subst hvw
          cases (Function.update_self _ _ _).symm.trans hf
        · exact (Function.update_of_ne hvw _ _).symm.trans hf
      · exact .refl v _
  | stop w =>
      rcases h with rfl | ⟨-, rfl⟩
      · exact less_enter v w s rfl
      · exact .refl v _
  | delete w =>
      rcases h with rfl | ⟨-, rfl⟩
      · exact ⟨(less_enter v w s rfl).inside, fun _ hf => hf⟩
      · exact .refl v _
  | clone w tenant agent =>
      rcases h with ⟨-, rfl⟩ | ⟨-, rfl⟩
      · exact ⟨(less_enter v w s rfl).inside, fun _ hf => hf⟩
      · exact .refl v _
  | bind w address payload =>
      rcases h with ⟨-, rfl⟩ | ⟨-, rfl⟩
      · exact less_enter v w s rfl
      · exact .refl v _
  | saveRecord | touching =>
      rcases h with rfl | ⟨-, rfl⟩
      · exact ⟨fun _ hw => hw, fun _ hf => hf⟩
      · exact .refl v _
  | dropRecord =>
      rcases h with rfl | rfl
      · exact ⟨fun _ hw => hw, fun _ hf => hf⟩
      · exact .refl v _
  | readSecrets | readRecord | templateVersion | waitForBindAgent =>
      obtain ⟨rfl, -⟩ := h
      exact .refl v _
  | _ =>
      obtain rfl := h
      exact .refl v _

/-- Something new comes into a guest only from the process that warms it. -/
lemma less_step (hpre : Allowed g c) (h : step S s c r t) {v : ℕ}
    (hv : ∀ x, g.hand = some (.warming, x) → x.vmid ≠ v) : Less v s t := by
  by_cases hc : c.fits = false
  · exact less_quiet h hc v
  cases c with
  | writeSecrets w x =>
      obtain ⟨y, hy, rfl, -⟩ := hpre
      rcases h with rfl | ⟨-, rfl⟩
      · refine ⟨fun _ hw => hw, fun f hf => ?_⟩
        exact (Function.update_of_ne (hv y hy).symm _ _).symm.trans hf
      · exact .refl v _
  | startWarm w key egress =>
      obtain ⟨y, hy, rfl, -⟩ := hpre
      rcases h with ⟨-, rfl⟩ | ⟨-, rfl⟩
      · refine ⟨fun x hx => ?_, fun _ hf => hf⟩
        rw [enter_of_ne s (hv y hy).symm] at hx
        exact hx
      · exact .refl v _
  | _ => exact absurd rfl hc

/-! ### The invariant -/

/-- What is warm in a guest is what its record says, with the egress of its secrets. -/
def WarmAs (s : World) : Prop :=
  ∀ z ∈ s.shelf.guests, ∀ key, z.warm = some key → ∀ w, (s.inside z.vmid).warm = some w →
    w.1 = key ∧ ∀ f, s.secrets z.vmid = some f → f.egress = some w.2

/-- The guests of the cluster are numbered as they come. -/
structure Numbered (s : World) : Prop where
  below : ∀ v n, s.cluster v = some n → n < s.next
  single : ∀ v v' n, s.cluster v = some n → s.cluster v' = some n → v = v'

/-- What is known of a guest in hand, by how it was come by. -/
def OfKind (s : World) (g : Doing) : Hand → PoolGuest → Prop
  | .taken, x => (∃ q, g.task = .claim q ∧ x.tenant = q.tenant ∧ (x.warm = none ∨ x.warm = q.warm)) ∧
      x.templateVersion.isSome ∧ x.templateVersion = s.shelf.templateVersion ∧
      (x.warm = none → g.checked = true → (s.inside x.vmid).warm = none) ∧
      (x.warm ≠ none → ∀ f, g.secrets = some f → ∀ w, (s.inside x.vmid).warm = some w →
        f.egress = some w.2)
  | .cold, x => (∃ q, g.task = .claim q ∧ x.tenant = q.tenant) ∧ x.warm = none ∧
      (g.checked = true → (s.inside x.vmid).warm = none)
  | .warming, x => x.warm = none ∧
      (∀ f, g.secrets = some f → ∀ f', s.secrets x.vmid = some f' → f' = f) ∧
      ∀ w, g.began = some w → ∀ w', (s.inside x.vmid).warm = some w' → w' = w
  | .filling, _ => False

/-- The guest in hand has a record, which is not one that another process would take. -/
structure InHand (s : World) (g : Doing) (k : Hand) (x : PoolGuest) : Prop where
  recorded : ∃ z ∈ s.shelf.guests, z.vmid = x.vmid ∧ z.state ≠ .ready ∧ z.tenant = x.tenant ∧
    z.warm = x.warm
  kind : OfKind s g k x

structure Keeping (s : World) (g : Doing) : Prop where
  task : g.task.claims
  victims : g.victims = []
  record : g.record = none
  lock : g.lock = none
  hand : ∀ k x, g.hand = some (k, x) → InHand s g k x

/-- Two processes do not have one guest. -/
def Parted (g g' : Doing) : Prop :=
  ∀ k x k' x', g.hand = some (k, x) → g'.hand = some (k', x') → x.vmid ≠ x'.vmid

lemma Parted.symm (h : Parted g g') : Parted g' g :=
  fun k x k' x' hx hx' he => h k' x' k x hx' hx he.symm

/-- The records and guests of a target. -/
structure Stock (S : Settings) (s : World) : Prop where
  unique : Unique S s.shelf
  warm : WarmAs s
  numbered : Numbered s

lemma Unique.same {s : Shelf} (h : Unique S s) {z z' : PoolGuest} (hz : z ∈ s.guests)
    (hz' : z' ∈ s.guests) (hv : z.vmid = z'.vmid) : z = z' :=
  List.inj_on_of_nodup_map (List.nodup_append.mp h.vmids).1 hz hz' hv

lemma Keeping.has {v : ℕ} (h : Keeping s g) (hv : Has g v) :
    ∃ k x, g.hand = some (k, x) ∧ x.vmid = v := by
  rcases hv with hv | ⟨k, x, hx, hv, -⟩ | hv | ⟨r, hr, -⟩ | ⟨a, ha⟩
  · exact hv
  · exact ⟨k, x, hx, hv⟩
  · rw [h.victims] at hv
    cases hv
  · cases h.record.symm.trans hr
  · have htask := h.task
    rw [ha] at htask
    cases htask

lemma Command.claims_not_retires {c : Command} (h : c.claims) :
    c.retires = false ∧ c.proxies = false := by
  cases c <;> first | exact ⟨rfl, rfl⟩ | cases h

/-- What is known of a guest in hand stays, when nothing is new in the guest. -/
lemma OfKind.less {k : Hand} {x : PoolGuest} (h : OfKind s g k x) (hl : Less x.vmid s t)
    (hversion : t.shelf.templateVersion = s.shelf.templateVersion) : OfKind t g k x := by
  have hnone : (s.inside x.vmid).warm = none → (t.inside x.vmid).warm = none := by
    intro hs
    cases ht : (t.inside x.vmid).warm with
    | none => rfl
    | some w => cases hs.symm.trans (hl.inside w ht)
  cases k with
  | taken =>
      obtain ⟨hq, hsome, hv, hchecked, hsecrets⟩ := h
      exact ⟨hq, hsome, hv.trans hversion.symm, fun hw hc => hnone (hchecked hw hc),
        fun hw f hf w hin => hsecrets hw f hf w (hl.inside w hin)⟩
  | cold =>
      obtain ⟨hq, hw, hchecked⟩ := h
      exact ⟨hq, hw, fun hc => hnone (hchecked hc)⟩
  | warming =>
      obtain ⟨hw, hsecrets, hbegan⟩ := h
      exact ⟨hw, fun f hf f' hf' => hsecrets f hf f' (hl.secrets f' hf'),
        fun w hb w' hin => hbegan w hb w' (hl.inside w' hin)⟩
  | filling => exact h

/-- The note of a guest in hand matters by what it says of the guest. -/
lemma OfKind.note {k : Hand} {x : PoolGuest} (h : OfKind s g k x) (htask : g'.task = g.task)
    (hchecked : g'.checked = g.checked) (hsecrets : g'.secrets = g.secrets)
    (hbegan : g'.began = g.began) : OfKind s g' k x := by
  cases k with
  | filling => exact h
  | _ => simpa only [OfKind, htask, hchecked, hsecrets, hbegan] using h

/-! ### Steps -/

lemma Keeping.holds (h : Keeping s g) : Holds s g := by
  intro x hx
  cases h.record.symm.trans hx

/-- The template's version in the pool is what a fill has found. -/
lemma version_step (hpre : Allowed g c) (htask : g.task.retires = false) (h : step S s c r t) :
    t.shelf.templateVersion = s.shelf.templateVersion := by
  have hshelves := step_shelves h
  generalize t.shelf = u at hshelves
  cases hshelves with
  | none => rfl
  | save => rfl
  | drop => rfl
  | @run d o y u hrun =>
      cases d with
      | review => cases htask.symm.trans hpre
      | reserve | reserveProxy =>
          obtain ⟨⟨v, l⟩, hslot, hrun⟩ := bind_eq_ok.mp hrun
          obtain ⟨-, rfl⟩ := Prod.mk.inj (Except.ok.inj hrun)
          rfl
      | _ =>
          obtain ⟨-, rfl⟩ := Prod.mk.inj (Except.ok.inj hrun)
          rfl

lemma warmAs_step (hs : Stock S s) (hpre : Allowed g c) (hg : Keeping s g) (h : step S s c r t) :
    WarmAs t := by
  intro z' hz' key hkey w hw
  by_cases hc : ∀ d, c ≠ .pool d
  · -- the records are as they were, so the guest is not one that is being warmed
    rw [(guests_eq h hc).1] at hz'
    have hl : Less z'.vmid s t := by
      refine less_step hpre h fun x hx hv => ?_
      obtain ⟨⟨z, hz, hzv, -, -, hzw⟩, hwarm, -⟩ := hg.hand _ x hx
      obtain rfl := hs.unique.same hz hz' (hzv.trans hv)
      cases hkey.symm.trans (hzw.trans hwarm)
    obtain ⟨hk, hf⟩ := hs.warm z' hz' key hkey w (hl.inside w hw)
    exact ⟨hk, fun f hft => hf f (hl.secrets f hft)⟩
  · obtain ⟨d, rfl⟩ := not_forall_not.mp hc
    obtain ⟨hinside, hsecrets, -⟩ := pool_inside h
    rw [hinside] at hw
    rw [hsecrets]
    rcases guests_step hpre h hz' with ⟨z, hz, hturns⟩ | hfresh
    · cases hturns with
      | same => exact hs.warm _ hz key hkey w hw
      | claims => exact hs.warm z hz key hkey w hw
      | marks => exact hs.warm z hz key hkey w hw
      | warms _ hwarm => cases hkey.symm.trans hwarm
      | unwarms => cases hkey
      | @warmed x f k e hx hv hsec he hb =>
          obtain ⟨-, -, hfile, hbegan⟩ := hg.hand _ x hx
          obtain rfl := Option.some.inj hkey
          rw [hv] at hfile hbegan
          obtain rfl := hbegan _ hb w hw
          refine ⟨rfl, fun f' hf' => ?_⟩
          rw [hfile f hsec f' hf', he]
    · cases hkey.symm.trans hfresh.warm

lemma numbered_step (hs : Numbered s) (h : step S s c r t) : Numbered t := by
  have hkeep : t.cluster = s.cluster → t.next = s.next → Numbered t := by
    intro hcluster hnext
    exact ⟨by rw [hcluster, hnext]; exact hs.below, by rw [hcluster]; exact hs.single⟩
  cases c with
  | pool d =>
      obtain ⟨-, -, hcluster, hnext⟩ := pool_inside h
      exact hkeep hcluster hnext
  | delete v =>
      rcases h with rfl | ⟨-, rfl⟩
      · have hgone : ∀ w n, (s.deleted v).cluster w = some n → s.cluster w = some n := by
          intro w n hw
          by_cases hwv : w = v
          · subst hwv
            cases (Function.update_self _ _ _).symm.trans hw
          · exact (Function.update_of_ne hwv _ _).symm.trans hw
        exact ⟨fun w n hw => hs.below w n (hgone w n hw),
          fun w w' n hw hw' => hs.single w w' n (hgone w n hw) (hgone w' n hw')⟩
      · exact hs
  | clone v tenant agent =>
      rcases h with ⟨-, rfl⟩ | ⟨-, rfl⟩
      · have hnew : ∀ w n, (s.cloned v agent).cluster w = some n →
            (w = v ∧ n = s.next) ∨ s.cluster w = some n := by
          intro w n hw
          by_cases hwv : w = v
          · subst hwv
            have hself : (s.cloned w agent).cluster w = some s.next := Function.update_self _ _ _
            exact .inl ⟨rfl, (Option.some.inj (hself.symm.trans hw)).symm⟩
          · exact .inr ((Function.update_of_ne hwv _ _).symm.trans hw)
        refine ⟨fun w n hw => ?_, fun w w' n hw hw' => ?_⟩
        · change n < s.next + 1
          rcases hnew w n hw with ⟨-, rfl⟩ | hw
          · omega
          · have := hs.below w n hw
            omega
        · rcases hnew w n hw with ⟨rfl, rfl⟩ | hold
          · rcases hnew w' s.next hw' with ⟨rfl, -⟩ | hold'
            · rfl
            · exact absurd (hs.below w' _ hold') (lt_irrefl _)
          · rcases hnew w' n hw' with ⟨rfl, rfl⟩ | hold'
            · exact absurd (hs.below w _ hold) (lt_irrefl _)
            · exact hs.single w w' n hold hold'
      · exact hs
  | removeSecrets | dropRecord =>
      rcases h with rfl | rfl
      · exact hkeep rfl rfl
      · exact hs
  | writeSecrets | saveRecord | touching | stop =>
      rcases h with rfl | ⟨-, rfl⟩
      · exact hkeep rfl rfl
      · exact hs
  | bind | startWarm =>
      rcases h with ⟨-, rfl⟩ | ⟨-, rfl⟩
      · exact hkeep rfl rfl
      · exact hs
  | readSecrets | readRecord | templateVersion | waitForBindAgent =>
      obtain ⟨rfl, -⟩ := h
      exact hs
  | _ =>
      obtain rfl := h
      exact hs

lemma stock_step (hs : Stock S s) (hpre : Allowed g c) (hg : Keeping s g) (h : step S s c r t) :
    Stock S t :=
  ⟨unique_step hs.unique hpre hg.holds h, warmAs_step hs hpre hg h, numbered_step hs.numbered h⟩

/-- A process keeps its guest whatever the others do. -/
lemma keeping_other (hpre : Allowed g c) (hg : Keeping s g) (h : step S s c r t)
    (hg' : Keeping s g') (hparted : Parted g g') : Keeping t g' := by
  refine ⟨hg'.task, hg'.victims, hg'.record, hg'.lock, fun k x hx => ?_⟩
  have hhas : ¬ Has g x.vmid := by
    intro hhas
    obtain ⟨k', x', hx', hv⟩ := hg.has hhas
    exact hparted k' x' k x hx' hx hv
  obtain ⟨⟨z, hz, hzv, hstate, hrest⟩, hkind⟩ := hg'.hand k x hx
  refine ⟨⟨z, guests_other hpre h hz hstate (hzv ▸ hhas), hzv, hstate, hrest⟩, ?_⟩
  refine hkind.less (less_step hpre h fun y hy hv => hhas (.inl ⟨_, y, hy, hv⟩)) ?_
  exact version_step hpre (Command.claims_not_retires hg.task).1 h

lemma noteCheck_task (g : Doing) (c : Call) (r : c.Ret) :
    (noteCheck g c r).task = g.task ∧ (noteCheck g c r).victims = g.victims := by
  unfold noteCheck
  split
  · split <;> exact ⟨rfl, rfl⟩
  · split
    · split_ifs <;> exact ⟨rfl, rfl⟩
    · exact ⟨rfl, rfl⟩
  · split_ifs <;> exact ⟨rfl, rfl⟩
  · exact ⟨rfl, rfl⟩

lemma note_task (g : Doing) (c : Call) (r : c.Ret) : (note g c r).task = g.task := by
  cases c with
  | pool d =>
      cases d with
      | take | takeUnwarmed => rcases r with e | (_ | x) <;> rfl
      | reserve | review | outdated | victims | reserveProxy => rcases r with e | x <;> rfl
      | mark =>
          simp only [note, notePool]
          split_ifs <;> rfl
      | forget v =>
          change (g.drop v).task = g.task
          unfold Doing.drop
          split_ifs <;> rfl
      | _ => rfl
  | readSecrets | guestStatus | guestRuntime =>
      simp only [note]
      split_ifs
      · exact (noteCheck_task _ _ _).1
      · rfl
  | bind | writeSecrets | startWarm =>
      simp only [note]
      split_ifs <;> rfl
  | clone v tenant agent =>
      cases agent with
      | none => rfl
      | some a => rcases r with e | x <;> rfl
  | templateVersion | lockTenant | readRecord => rcases r with e | x <;> rfl
  | runs v => rcases r with e | (_ | _) <;> rfl
  | _ => rfl

/-- The guests to destroy are named by the sections that list them. -/
lemma note_victims (hpre : Allowed g c) (htask : g.task.retires = false) (hv : g.victims = [])
    (r : c.Ret) : (note g c r).victims = [] := by
  cases c with
  | pool d =>
      cases d with
      | take | takeUnwarmed => rcases r with e | (_ | x) <;> exact hv
      | reserve | reserveProxy => rcases r with e | x <;> exact hv
      | review | outdated | victims => cases htask.symm.trans hpre
      | mark =>
          simp only [note, notePool]
          split_ifs <;> exact hv
      | forget v =>
          change (g.drop v).victims = []
          unfold Doing.drop
          split_ifs
          · change g.victims.erase v = []
            rw [hv, List.erase_nil]
          · change g.victims.erase v = []
            rw [hv, List.erase_nil]
      | _ => exact hv
  | readSecrets | guestStatus | guestRuntime =>
      simp only [note]
      split_ifs
      · exact (noteCheck_task _ _ _).2.trans hv
      · exact hv
  | bind | writeSecrets | startWarm =>
      simp only [note]
      split_ifs <;> exact hv
  | clone v tenant agent =>
      cases agent with
      | none => exact hv
      | some a => rcases r with e | x <;> exact hv
  | templateVersion | lockTenant | readRecord => rcases r with e | x <;> exact hv
  | runs v =>
      rcases r with e | (_ | _)
      · exact hv
      · exact hv
      · change g.victims.erase v = []
        rw [hv, List.erase_nil]
  | _ => exact hv

lemma note_noProxy (hpre : Allowed g c) (hg : Keeping s g) (r : c.Ret) :
    (note g c r).record = none ∧ (note g c r).lock = none := by
  by_cases hc : c.ofProxy = false
  · rw [(note_record g hc r).1, (note_record g hc r).2]
    exact ⟨hg.record, hg.lock⟩
  cases c with
  | lockTenant => cases (Command.claims_not_retires hg.task).2.symm.trans hpre
  | unlockTenant => exact ⟨rfl, rfl⟩
  | readRecord => cases hg.lock.symm.trans hpre
  | dropRecord => cases hg.lock.symm.trans hpre
  | saveRecord => cases hg.lock.symm.trans hpre.1
  | pool d =>
      cases d with
      | reserveProxy => cases hg.lock.symm.trans hpre.1
      | _ => exact absurd rfl hc
  | _ => exact absurd rfl hc

/-- What is known of a guest that stays in hand, after a section. -/
lemma notePool_kept {d : Section} {k : Hand} {x : PoolGuest} (hpre : AllowedPool g d)
    (hx : g.hand = some (k, x)) (y : Except FabricError d.Ret)
    (hk : (notePool g d y).hand = some (k, x)) :
    (notePool g d y).checked = g.checked ∧ (notePool g d y).secrets = g.secrets ∧
      (notePool g d y).began = g.began ∧ (notePool g d y).failed = g.failed ∧
      (notePool g d y).cloned = g.cloned := by
  cases d with
  | take | takeUnwarmed | reserve => cases hpre.1.symm.trans hx
  | review | outdated | victims | reserveProxy =>
      rcases y with e | y <;> exact ⟨rfl, rfl, rfl, rfl, rfl⟩
  | mark =>
      simp only [notePool] at hk ⊢
      split_ifs at hk ⊢
      · exact ⟨rfl, rfl, rfl, rfl, rfl⟩
      · cases hk
  | setWarm => cases hk
  | forget v =>
      simp only [notePool, Doing.drop] at hk ⊢
      split_ifs at hk ⊢
      · cases hk
      · exact ⟨rfl, rfl, rfl, rfl, rfl⟩
  | _ => exact ⟨rfl, rfl, rfl, rfl, rfl⟩

/-- A guest that stays in hand keeps a record that nobody would take. -/
lemma recorded_kept {k : Hand} {x : PoolGuest} (hpre : Allowed g c) (h : step S s c r t)
    (hk : (note g c r).hand = some (k, x))
    (hz : ∃ z ∈ s.shelf.guests, z.vmid = x.vmid ∧ z.state ≠ .ready ∧ z.tenant = x.tenant ∧
      z.warm = x.warm) :
    ∃ z ∈ t.shelf.guests, z.vmid = x.vmid ∧ z.state ≠ .ready ∧ z.tenant = x.tenant ∧
      z.warm = x.warm := by
  obtain ⟨z, hz, hv, hstate, htenant, hwarm⟩ := hz
  rcases guests_keep hpre h hz with ⟨z', hz', hturns⟩ | ⟨rfl, -⟩
  · cases hturns with
    | same => exact ⟨_, hz', hv, hstate, htenant, hwarm⟩
    | claims hready => exact absurd hready hstate
    | warms hready => exact absurd hready hstate
    | unwarms hready => exact absurd hready hstate
    | @marks k' x' state agent hx' hv' hm =>
        refine ⟨_, hz', hv, ?_, htenant, hwarm⟩
        simp only [note, notePool] at hk
        split_ifs at hk with hclaimed
        · change state ≠ .ready
          rw [hclaimed]
          rintro ⟨⟩
        · cases hk
    | warmed => cases hk
  · exact absurd hv.symm (drop_hand hk).2

/-- What is known of a guest that stays in hand, after its process's own call. -/
lemma kind_own {k : Hand} {x : PoolGuest} (hs : Stock S s) (hpre : Allowed g c)
    (hg : Keeping s g) (h : step S s c r t) (hx : g.hand = some (k, x))
    (hk : (note g c r).hand = some (k, x)) : OfKind t (note g c r) k x := by
  obtain ⟨⟨z, hz, hzv, -, -, hzw⟩, hkind⟩ := hg.hand k x hx
  have hversion := version_step hpre (Command.claims_not_retires hg.task).1 h
  have hthis : ∀ {k' x'}, g.hand = some (k', x') → k' = k ∧ x' = x := fun hx' =>
    Prod.mk.inj (Option.some.inj (hx'.symm.trans hx))
  have hquiet : c.fits = false → OfKind t g k x := fun hc =>
    hkind.less (less_quiet h hc x.vmid) hversion
  cases c with
  | pool d =>
      obtain ⟨hchecked, hsecrets, hbegan, -⟩ := notePool_kept hpre hx r hk
      exact (hquiet rfl).note (note_task g (.pool d) r) hchecked hsecrets hbegan
  | readSecrets v =>
      have hkind' := hquiet rfl
      obtain ⟨rfl, hfile⟩ := h
      simp only [note]
      split_ifs with htaken
      · rw [hx, Option.any_some, decide_eq_true_eq] at htaken
        obtain rfl := htaken
        simp only [noteCheck]
        cases hf : secretsFor (egressOf g) r with
        | error e => exact hkind'.note rfl rfl rfl rfl
        | ok f =>
            obtain ⟨hq, hsome, hver, hchecked, -⟩ := hkind'
            refine ⟨hq, hsome, hver, hchecked, fun hw f' hf' w hin => ?_⟩
            obtain rfl : f = f' := Option.some.inj hf'
            obtain ⟨key, hkey⟩ := Option.ne_none_iff_exists'.mp hw
            have hread := hfile (some f) (secretsFor_ok hf).1
            rw [← hpre x hx, ← hzv] at hread
            exact (hs.warm z hz key (hzw.trans hkey) w (hzv ▸ hin)).2 f hread.symm
      · exact hkind'
  | guestStatus v credential =>
      simp only [note]
      split_ifs
      · unfold noteCheck
        dsimp only
        split
        · split_ifs
          · exact hquiet rfl
          · exact (hquiet rfl).note rfl rfl rfl rfl
        · exact hquiet rfl
      · exact hquiet rfl
  | guestRuntime v credential =>
      simp only [note]
      split_ifs with htaken
      · rw [hx, Option.any_some, decide_eq_true_eq] at htaken
        obtain rfl := htaken
        simp only [noteCheck]
        split_ifs
        · -- only a warm guest is asked for its runtime
          obtain ⟨hq, hsome, hver, -, hsecrets⟩ := hquiet rfl
          exact ⟨hq, hsome, hver, fun hw _ => absurd hw (hpre x hx), hsecrets⟩
        · exact (hquiet rfl).note rfl rfl rfl rfl
      · exact hquiet rfl
  | writeSecrets v f =>
      obtain ⟨y, hy, rfl, hnone⟩ := hpre
      obtain ⟨rfl, rfl⟩ := hthis hy
      obtain ⟨hw, -, hbegan⟩ := hkind
      have hstart : ∀ {u : World}, u.inside = s.inside → ∀ w, g.began = some w → ∀ w',
          (u.inside y.vmid).warm = some w' → w' = w := by
        intro u hu
        rw [hu]
        exact hbegan
      rcases h with rfl | ⟨hr, rfl⟩
      · simp only [note]
        split_ifs
        · refine ⟨hw, fun f₁ hf₁ f₂ hf₂ => ?_, hstart rfl⟩
          have hself := (Function.update_self (f := s.secrets) y.vmid (some f)).symm.trans hf₂
          exact (Option.some.inj hself).symm.trans (Option.some.inj hf₁)
        · refine ⟨hw, fun f₁ hf₁ => ?_, hstart rfl⟩
          cases hnone.symm.trans hf₁
      · simp only [note, hr, Bool.false_eq_true, if_false]
        refine ⟨hw, fun f₁ hf₁ => ?_, hbegan⟩
        cases hnone.symm.trans hf₁
  | startWarm v key egress =>
      obtain ⟨y, hy, rfl, hnone⟩ := hpre
      obtain ⟨rfl, rfl⟩ := hthis hy
      obtain ⟨hw, hfile, -⟩ := hkind
      rcases h with ⟨-, rfl⟩ | ⟨hr, rfl⟩
      · simp only [note]
        split_ifs
        · refine ⟨hw, hfile, fun w hb w' hin => ?_⟩
          rw [enter_self] at hin
          exact (Option.some.inj hin).symm.trans (Option.some.inj hb)
        · refine ⟨hw, hfile, fun w hb => ?_⟩
          cases hnone.symm.trans hb
      · simp only [note, hr, Bool.false_eq_true, if_false]
        refine ⟨hw, hfile, fun w hb => ?_⟩
        cases hnone.symm.trans hb
  | bind v address payload =>
      rcases hpre with ⟨k', y, hy, rfl, -⟩ | ⟨y, hy, -⟩
      · obtain ⟨rfl, rfl⟩ := hthis hy
        rcases h with ⟨-, rfl⟩ | ⟨hr, rfl⟩
        · have hin : ((s.enter y.vmid (.bound none)).inside y.vmid).warm = none := by
            rw [enter_self]
            rfl
          simp only [note]
          split_ifs
          · cases k' with
            | taken =>
                obtain ⟨hq, hsome, hver, -, hsecrets⟩ := hquiet rfl
                exact ⟨hq, hsome, hver, fun _ _ => hin, hsecrets⟩
            | cold =>
                obtain ⟨hq, hw, -⟩ := hquiet rfl
                exact ⟨hq, hw, fun _ => hin⟩
            | warming => exact hquiet rfl
            | filling => exact hkind
          · exact (hquiet rfl).note rfl rfl rfl rfl
        · simp only [note, hr, Bool.false_eq_true, if_false]
          exact hkind.note rfl rfl rfl rfl
      · cases hg.record.symm.trans hy
  | clone v tenant agent =>
      cases agent with
      | none => exact hquiet rfl
      | some a => rcases r with e | y <;> exact (hquiet rfl).note rfl rfl rfl rfl
  | templateVersion | lockTenant | readRecord =>
      rcases r with e | y <;> exact (hquiet rfl).note rfl rfl rfl rfl
  | runs v => rcases r with e | (_ | _) <;> exact (hquiet rfl).note rfl rfl rfl rfl
  | unlockTenant | dropRecord => exact (hquiet rfl).note rfl rfl rfl rfl
  | _ => exact hquiet rfl

/-- What is known of a guest that has just come to hand. -/
lemma inHand_obtained {k : Hand} {x : PoolGuest} (hg : Keeping s g) (h : Obtains s t g k x)
    (hversion : t.shelf.templateVersion = s.shelf.templateVersion) : InHand t (g.hold k x) k x := by
  cases h with
  | @taken q z htask hz hw ht =>
      obtain ⟨htenant, -, hsome, hv, hwarm⟩ := wanted_ready hw
      refine ⟨⟨_, ht, rfl, nofun, rfl, rfl⟩, ⟨q, htask, htenant, hwarm⟩, ?_, hv.trans hversion.symm,
        fun _ => nofun, fun _ => nofun⟩
      rw [hv]
      exact hsome
  | warming hz hw ht =>
      exact ⟨⟨_, ht, rfl, nofun, rfl, rfl⟩, (canWarm_ready hw).2, nofun, nofun⟩
  | @cold q x htask htenant hfresh ht =>
      refine ⟨⟨_, ht, rfl, ?_, rfl, rfl⟩, ⟨q, htask, htenant⟩, hfresh.warm, nofun⟩
      rw [hfresh.state]
      exact nofun
  | filling htask => cases (Command.claims_not_retires hg.task).1.symm.trans htask

lemma keeping_own (hs : Stock S s) (hpre : Allowed g c) (hg : Keeping s g) (h : step S s c r t) :
    Keeping t (note g c r) := by
  obtain ⟨hrecord, hlock⟩ := note_noProxy hpre hg r
  refine ⟨?_, note_victims hpre (Command.claims_not_retires hg.task).1 hg.victims r, hrecord, hlock,
    fun k x hk => ?_⟩
  · rw [note_task]
    exact hg.task
  · rcases hand_note hpre h hk with hx | ⟨-, hnote, hobtains⟩
    · exact ⟨recorded_kept hpre h hk (hg.hand k x hx).recorded, kind_own hs hpre hg h hx hk⟩
    · rw [hnote]
      exact inHand_obtained hg hobtains
        (version_step hpre (Command.claims_not_retires hg.task).1 h)

/-- A guest is come by only where no other process has it. -/
lemma parted_note (hs : Stock S s) (hpre : Allowed g c) (h : step S s c r t) (hg' : Keeping s g')
    (hparted : Parted g g') : Parted (note g c r) g' := by
  intro k x k' x' hk hx' hv
  obtain ⟨z', hz', hzv', hstate, -⟩ := (hg'.hand k' x' hx').recorded
  have hready : ∀ z ∈ s.shelf.guests, z.vmid = x.vmid → z.state ≠ .ready := by
    intro z hz hzv
    rw [hs.unique.same hz hz' (hzv.trans (hv.trans hzv'.symm))]
    exact hstate
  have hold : ¬ Fresh s g x := by
    intro hfresh
    refine hfresh.vmid (List.mem_append_left _ ?_)
    rw [hv, ← hzv']
    exact List.mem_map_of_mem hz'
  rcases hand_note hpre h hk with hx | ⟨-, -, hobtains⟩
  · exact hparted k x k' x' hx hx' hv
  · cases hobtains with
    | taken _ hz hw => exact hready x hz rfl (wanted_ready hw).2.1
    | @warming _ _ z hz hw => exact hready z hz rfl (canWarm_ready hw).1
    | cold _ _ hfresh => exact hold hfresh
    | filling _ hfresh => exact hold hfresh

/-! ### Runs -/

abbrev Claimed (S : Settings) : World → (ℕ → Option Doing) → Prop :=
  Threads.Each (Stock S) Keeping Parted

lemma less_moves (h : Moves s t) (v : ℕ) : Less v s t := by
  cases h with
  | restart w => exact less_enter v w s rfl
  | ends w => exact less_enter v w s rfl
  | rebuild => exact ⟨fun _ hw => hw, fun _ hf => hf⟩

lemma stock_moves (hs : Stock S s) (h : Moves s t) : Stock S t := by
  have hless := less_moves h
  refine ⟨?_, ?_, ?_⟩
  · rw [moves_shelf h]
    exact hs.unique
  · intro z hz key hkey w hw
    rw [moves_shelf h] at hz
    obtain ⟨hk, hf⟩ := hs.warm z hz key hkey w ((hless _).inside w hw)
    exact ⟨hk, fun f hft => hf f ((hless _).secrets f hft)⟩
  · cases h with
    | restart => exact ⟨hs.numbered.below, hs.numbered.single⟩
    | ends => exact ⟨hs.numbered.below, hs.numbered.single⟩
    | rebuild => exact ⟨hs.numbered.below, hs.numbered.single⟩

lemma keeping_moves (hg : Keeping s g) (h : Moves s t) : Keeping t g := by
  refine ⟨hg.task, hg.victims, hg.record, hg.lock, fun k x hx => ?_⟩
  obtain ⟨hrecorded, hkind⟩ := hg.hand k x hx
  have hshelf := moves_shelf h
  exact ⟨hshelf ▸ hrecorded, hkind.less (less_moves h _) (by rw [hshelf])⟩

lemma keeps_claimed (S : Settings) :
    Threads.Keeps (driver S Command.claims Unreturned) Threads.always Allowed (fun _ => True)
      (Claimed S) where
  start := by
    rintro s ns i g p - ⟨c, pid, fuel, hc, rfl, -⟩ hI
    refine hI.set hI.all (fun j x _ _ hx => ⟨hx, ?_, ?_⟩)
      ⟨hc, rfl, rfl, rfl, fun _ _ hk => by cases hk⟩
    · exact fun _ _ _ _ _ hx' => nomatch hx'
    · exact fun _ _ _ _ hx' => nomatch hx'
  call := by
    intro s ns i g c r t hi hpre hstep _ hI
    have hg := hI.one i g hi
    refine hI.set (stock_step hI.all hpre hg hstep) (fun j x hne hj hx => ?_)
      (keeping_own hI.all hpre hg hstep)
    have hparted : Parted g x := hI.two i j g x hne.symm hi hj
    have hparted' := parted_note hI.all hpre hstep hx hparted
    exact ⟨keeping_other hpre hg hstep hx hparted, hparted'.symm, hparted'⟩
  leave := fun _ _ i _ _ _ hI => hI.drop i
  idle := fun _ _ _ ht hI =>
    hI.move (stock_moves hI.all ht) fun _ _ _ hx => keeping_moves hx ht

abbrev claims (S : Settings) := driver S Command.claims Unreturned

lemma lets_answers (S : Settings) (I : World → (ℕ → Option Doing) → Prop) :
    Threads.Lets (claims S) Threads.always I fun _ => Answers :=
  fun _ _ _ _ _ _ _ _ _ hstep _ => answers_step hstep

lemma good_claims {c : Configured} (h0 : Stock S s)
    (h : Threads.Run (claims S) Threads.always (.empty s) c) :
    Threads.Good (claims S) (fun _ => Answers) Allowed Hands (Claimed S) c :=
  Threads.good _ (lets_answers S _) (fun _ _ => safe_begins) (fun _ _ _ _ => trivial)
    (keeps_claimed S) (.empty h0) h

/-! ### Guests that failed -/

lemma noteCheck_failed (h : g.failed = true) (c : Call) (r : c.Ret) :
    (noteCheck g c r).failed = true := by
  unfold noteCheck
  split
  · split
    · exact h
    · rfl
  · split
    · split_ifs
      · exact h
      · rfl
    · exact h
  · split_ifs
    · exact h
    · rfl
  · exact h

/-- A guest that has failed has failed while it is in hand. -/
lemma failed_kept {k : Hand} {x : PoolGuest} (hpre : Allowed g c) (hx : g.hand = some (k, x))
    (hk : (note g c r).hand = some (k, x)) (hf : g.failed = true) : (note g c r).failed = true := by
  cases c with
  | pool d =>
      obtain ⟨-, -, -, hfailed, -⟩ := notePool_kept hpre hx r hk
      exact hfailed.trans hf
  | readSecrets | guestStatus | guestRuntime =>
      simp only [note]
      split_ifs
      · exact noteCheck_failed hf _ _
      · exact hf
  | bind =>
      simp only [note]
      split_ifs
      · exact hf
      · rfl
  | writeSecrets | startWarm =>
      simp only [note]
      split_ifs <;> exact hf
  | clone v tenant agent =>
      cases agent with
      | none => exact hf
      | some a => rcases r with e | y <;> exact hf
  | templateVersion | lockTenant | readRecord => rcases r with e | y <;> exact hf
  | runs v => rcases r with e | (_ | _) <;> exact hf
  | _ => exact hf

/-- The guest of the pool is as good as gone: its record is not ready, and a process that has it
in hand has seen it fail. -/
structure Spent (v : ℕ) (s : World) (ns : ℕ → Option Doing) : Prop where
  recorded : ∃ z ∈ s.shelf.guests, z.vmid = v ∧ z.state ≠ .ready
  hands : ∀ j g k x, ns j = some g → g.hand = some (k, x) → x.vmid = v →
    k = .taken ∧ g.failed = true

lemma keeps_spent (S : Settings) (v : ℕ) :
    Threads.Keeps (claims S) Threads.always Allowed (fun _ => True)
      fun s ns => Claimed S s ns ∧ Spent v s ns where
  start := by
    intro s ns i g p hi hb hI
    refine ⟨(keeps_claimed S).start hi hb hI.1, hI.2.recorded, fun j g' k x hj hx => ?_⟩
    obtain ⟨rfl, rfl⟩ | ⟨-, hj⟩ := Threads.update_some hj
    · obtain ⟨c, pid, fuel, -, rfl, -⟩ := hb
      cases hx
    · exact hI.2.hands j g' k x hj hx
  call := by
    rintro s ns i g c r t hi hpre hstep hM ⟨hI, hspent⟩
    have hg := hI.one i g hi
    obtain ⟨z, hz, rfl, hstate⟩ := hspent.recorded
    refine ⟨(keeps_claimed S).call hi hpre hstep hM hI, ?_, fun j g' k x hj hx hv => ?_⟩
    · rcases guests_keep hpre hstep hz with ⟨z', hz', hturns⟩ | ⟨-, hin⟩
      · refine ⟨z', hz', hturns.vmid, ?_⟩
        cases hturns with
        | same => exact hstate
        | claims hready => exact absurd hready hstate
        | warms hready => exact absurd hready hstate
        | unwarms hready => exact absurd hready hstate
        | @marks k x state agent hx hv hm =>
            obtain ⟨rfl, -⟩ := hspent.hands i g k x hi hx hv
            change state ≠ .ready
            rw [hm.1]
            exact nofun
        | @warmed x _ _ _ hx hv => cases (hspent.hands i g _ x hi hx hv).1
      · rcases hin with ⟨k, x, hx, hv, hne⟩ | hin | ⟨y, hy, -⟩ | ⟨a, ha⟩
        · exact absurd (hspent.hands i g k x hi hx hv).1 hne
        · rw [hg.victims] at hin
          cases hin
        · cases hg.record.symm.trans hy
        · have htask := hg.task
          rw [ha] at htask
          cases htask
    · obtain ⟨rfl, rfl⟩ | ⟨-, hj⟩ := Threads.update_some hj
      · rcases hand_note hpre hstep hx with hx' | ⟨-, -, hobtains⟩
        · obtain ⟨rfl, hf⟩ := hspent.hands _ g k x hi hx' hv
          exact ⟨rfl, failed_kept hpre hx' hx hf⟩
        · have hold : ¬ Fresh s g x := by
            intro hfresh
            refine hfresh.vmid (List.mem_append_left _ ?_)
            rw [hv]
            exact List.mem_map_of_mem hz
          cases hobtains with
          | taken _ hz' hw =>
              rw [hI.all.unique.same hz' hz hv] at hw
              exact absurd (wanted_ready hw).2.1 hstate
          | @warming _ _ z' hz' hw =>
              rw [hI.all.unique.same hz' hz hv] at hw
              exact absurd (canWarm_ready hw).1 hstate
          | cold _ _ hfresh => exact absurd hfresh hold
          | filling _ hfresh => exact absurd hfresh hold
      · exact hspent.hands j g' k x hj hx hv
  leave := fun _ _ i g hi hl hI => ⟨(keeps_claimed S).leave hi hl hI.1, hI.2.recorded,
    fun j g' k x hj => hI.2.hands j g' k x (Threads.update_none hj).2⟩
  idle := by
    intro s ns t ht hI
    refine ⟨(keeps_claimed S).idle ht hI.1, ?_, hI.2.hands⟩
    rw [moves_shelf ht]
    exact hI.2.recorded

/-- A guest that is in the cluster after a call was there before, or is the next one. -/
lemma cluster_step (h : step S s c r t) :
    s.next ≤ t.next ∧ ∀ v n, t.cluster v = some n → n < s.next → s.cluster v = some n := by
  cases c with
  | pool d =>
      obtain ⟨-, -, hcluster, hnext⟩ := pool_inside h
      exact ⟨hnext.ge, fun v n hv _ => hcluster ▸ hv⟩
  | delete w =>
      rcases h with rfl | ⟨-, rfl⟩
      · refine ⟨le_rfl, fun v n hv _ => ?_⟩
        by_cases hvw : v = w
        · subst hvw
          cases (Function.update_self _ _ _).symm.trans hv
        · exact (Function.update_of_ne hvw _ _).symm.trans hv
      · exact ⟨le_rfl, fun v n hv _ => hv⟩
  | clone w tenant agent =>
      rcases h with ⟨-, rfl⟩ | ⟨-, rfl⟩
      · refine ⟨Nat.le_succ _, fun v n hv hn => ?_⟩
        by_cases hvw : v = w
        · subst hvw
          have hself : (s.cloned v agent).cluster v = some s.next := Function.update_self _ _ _
          obtain rfl := Option.some.inj (hself.symm.trans hv)
          exact absurd hn (lt_irrefl _)
        · exact (Function.update_of_ne hvw _ _).symm.trans hv
      · exact ⟨le_rfl, fun v n hv _ => hv⟩
  | removeSecrets | dropRecord =>
      rcases h with rfl | rfl
      · exact ⟨le_rfl, fun v n hv _ => hv⟩
      · exact ⟨le_rfl, fun v n hv _ => hv⟩
  | writeSecrets | saveRecord | touching | stop =>
      rcases h with rfl | ⟨-, rfl⟩
      · exact ⟨le_rfl, fun v n hv _ => hv⟩
      · exact ⟨le_rfl, fun v n hv _ => hv⟩
  | bind | startWarm =>
      rcases h with ⟨-, rfl⟩ | ⟨-, rfl⟩
      · exact ⟨le_rfl, fun v n hv _ => hv⟩
      · exact ⟨le_rfl, fun v n hv _ => hv⟩
  | readSecrets | readRecord | templateVersion | waitForBindAgent =>
      obtain ⟨rfl, -⟩ := h
      exact ⟨le_rfl, fun v n hv _ => hv⟩
  | _ =>
      obtain rfl := h
      exact ⟨le_rfl, fun v n hv _ => hv⟩

lemma noteCheck_cloned (g : Doing) (c : Call) (r : c.Ret) : (noteCheck g c r).cloned = g.cloned := by
  unfold noteCheck
  split
  · split <;> rfl
  · split
    · split_ifs <;> rfl
    · rfl
  · split_ifs <;> rfl
  · rfl

/-- A guest that is in the cluster is not cloned again. -/
lemma cloned_kept {x : PoolGuest} {n : ℕ} (hpre : Allowed g c) (h : step S s c r t)
    (hrecord : g.record = none) (hx : g.hand = some (.cold, x))
    (hk : (note g c r).hand = some (.cold, x)) (hn : s.cluster x.vmid = some n) :
    (note g c r).cloned = g.cloned := by
  cases c with
  | pool d => exact (notePool_kept hpre hx r hk).2.2.2.2
  | clone v tenant agent =>
      cases agent with
      | none => rfl
      | some a =>
          rcases r with e | y
          · rfl
          · rcases hpre with ⟨k, x', hx', rfl, -⟩ | ⟨-, y, hy, -⟩
            · obtain ⟨-, rfl⟩ := Prod.mk.inj (Option.some.inj (hx'.symm.trans hx))
              rcases h with ⟨hnone, -⟩ | ⟨hr, -⟩
              · cases hnone.symm.trans hn
              · cases hr
            · cases hrecord.symm.trans hy
  | readSecrets | guestStatus | guestRuntime =>
      simp only [note]
      split_ifs
      · exact noteCheck_cloned _ _ _
      · rfl
  | bind | writeSecrets | startWarm =>
      simp only [note]
      split_ifs <;> rfl
  | templateVersion | lockTenant | readRecord => rcases r with e | y <;> rfl
  | runs v => rcases r with e | (_ | _) <;> rfl
  | _ => rfl

/-- The guest of this number is as good as gone, wherever it is. -/
structure Lost (n : ℕ) (s : World) (ns : ℕ → Option Doing) : Prop where
  below : n < s.next
  records : ∀ z ∈ s.shelf.guests, s.cluster z.vmid = some n → z.state ≠ .ready
  hands : ∀ j g k x, ns j = some g → g.hand = some (k, x) → s.cluster x.vmid = some n →
    k ≠ .warming ∧ (g.failed = true ∨ (k = .cold ∧ g.cloned = false))

lemma keeps_lost (S : Settings) (n : ℕ) :
    Threads.Keeps (claims S) Threads.always Allowed (fun _ => True)
      fun s ns => Claimed S s ns ∧ Lost n s ns where
  start := by
    intro s ns i g p hi hb hI
    refine ⟨(keeps_claimed S).start hi hb hI.1, hI.2.below, hI.2.records,
      fun j g' k x hj hx => ?_⟩
    obtain ⟨rfl, rfl⟩ | ⟨-, hj⟩ := Threads.update_some hj
    · obtain ⟨c, pid, fuel, -, rfl, -⟩ := hb
      cases hx
    · exact hI.2.hands j g' k x hj hx
  call := by
    rintro s ns i g c r t hi hpre hstep hM ⟨hI, hlost⟩
    have hg := hI.one i g hi
    obtain ⟨hnext, hcluster⟩ := cluster_step hstep
    have hwas : ∀ v, t.cluster v = some n → s.cluster v = some n :=
      fun v hv => hcluster v n hv hlost.below
    refine ⟨(keeps_claimed S).call hi hpre hstep hM hI, hlost.below.trans_le hnext,
      fun z' hz' hn => ?_, fun j g' k x hj hx hn => ?_⟩
    · rcases guests_step hpre hstep hz' with ⟨z, hz, hturns⟩ | hfresh
      · have hzn : s.cluster z.vmid = some n := by
          rw [← hturns.vmid]
          exact hwas _ hn
        have hstate := hlost.records z hz hzn
        cases hturns with
        | same => exact hstate
        | claims hready => exact absurd hready hstate
        | warms hready => exact absurd hready hstate
        | unwarms hready => exact absurd hready hstate
        | @marks k x state agent hx hv hm =>
            change state ≠ .ready
            cases k with
            | taken =>
                rw [hm.1]
                exact nofun
            | cold =>
                rw [hm.1]
                exact nofun
            | warming => exact absurd rfl (hlost.hands i g _ x hi hx (hv ▸ hzn)).1
            | filling => exact (hg.hand _ x hx).kind.elim
        | @warmed x _ _ _ hx hv => exact absurd rfl (hlost.hands i g _ x hi hx (hv ▸ hzn)).1
      · rw [hfresh.state]
        exact nofun
    · have hsn := hwas _ hn
      obtain ⟨rfl, rfl⟩ | ⟨-, hj⟩ := Threads.update_some hj
      · rcases hand_note hpre hstep hx with hx' | ⟨-, hnote, hobtains⟩
        · obtain ⟨hne, hf | ⟨rfl, hcloned⟩⟩ := hlost.hands _ g k x hi hx' hsn
          · exact ⟨hne, .inl (failed_kept hpre hx' hx hf)⟩
          · refine ⟨hne, .inr ⟨rfl, ?_⟩⟩
            exact (cloned_kept hpre hstep hg.record hx' hx hsn).trans hcloned
        · cases hobtains with
          | taken _ hz hw => exact absurd (wanted_ready hw).2.1 (hlost.records _ hz hsn)
          | @warming _ _ z hz hw => exact absurd (canWarm_ready hw).1 (hlost.records z hz hsn)
          | cold =>
              refine ⟨nofun, .inr ⟨rfl, ?_⟩⟩
              rw [show (claims S).note = note from rfl, hnote]
              rfl
          | filling htask => cases (Command.claims_not_retires hg.task).1.symm.trans htask
      · exact hlost.hands j g' k x hj hx hsn
  leave := fun _ _ i g hi hl hI => ⟨(keeps_claimed S).leave hi hl hI.1, hI.2.below, hI.2.records,
    fun j g' k x hj => hI.2.hands j g' k x (Threads.update_none hj).2⟩
  idle := by
    intro s ns t ht hI
    have hworld : t.shelf = s.shelf ∧ t.cluster = s.cluster ∧ t.next = s.next := by
      cases ht <;> exact ⟨rfl, rfl, rfl⟩
    refine ⟨(keeps_claimed S).idle ht hI.1, ?_, ?_, ?_⟩
    · rw [hworld.2.2]
      exact hI.2.below
    · rw [hworld.1, hworld.2.1]
      exact hI.2.records
    · rw [hworld.2.1]
      exact hI.2.hands

/-! ### What is handed out -/

/-- A claim has come back with a guest. -/
def Returned (c : Configured) (i : ℕ) (q : Request) (x : Claim) : Prop :=
  ∃ g, c.threads i = some (g, .ret (some x)) ∧ g.task = .claim q

lemma returned_handed {I : World → (ℕ → Option Doing) → Prop} {c : Configured} {i : ℕ} {q : Request}
    {x : Claim} (h : Threads.Good (claims S) (fun _ => Answers) Allowed Hands I c)
    (hx : Returned c i q x) : ∃ g, c.notes i = some g ∧ g.task = .claim q ∧ Handed g x := by
  obtain ⟨g, hi, htask⟩ := hx
  refine ⟨g, by simp [Threads.Config.notes, hi], htask, ?_⟩
  have hsafe := (safe_ret _ _ _).mp (h.2 i g _ hi)
  exact hsafe x rfl

lemma noteCheck_version (g : Doing) (c : Call) (r : c.Ret) :
    (noteCheck g c r).version = g.version := by
  unfold noteCheck
  split
  · split <;> rfl
  · split
    · split_ifs <;> rfl
    · rfl
  · split_ifs <;> rfl
  · rfl

/-- A process knows the template's version from the template. -/
lemma version_note {v : String} (h : step S s c r t) (hv : (note g c r).version = some v) :
    g.version = some v ∨ s.template = v := by
  cases c with
  | templateVersion =>
      rcases r with e | y
      · exact .inl hv
      · obtain rfl : y = v := Option.some.inj hv
        exact .inr (h.2 y rfl).symm
  | pool d =>
      cases d with
      | take | takeUnwarmed => rcases r with e | (_ | x) <;> exact .inl hv
      | reserve | review | outdated | victims | reserveProxy =>
          rcases r with e | x <;> exact .inl hv
      | mark =>
          simp only [note, notePool] at hv
          split_ifs at hv <;> exact .inl hv
      | forget w =>
          simp only [note, notePool, Doing.drop] at hv
          split_ifs at hv <;> exact .inl hv
      | _ => exact .inl hv
  | readSecrets | guestStatus | guestRuntime =>
      simp only [note] at hv
      split_ifs at hv
      · rw [noteCheck_version] at hv
        exact .inl hv
      · exact .inl hv
  | bind | writeSecrets | startWarm =>
      simp only [note] at hv
      split_ifs at hv <;> exact .inl hv
  | clone w tenant agent =>
      cases agent with
      | none => exact .inl hv
      | some a => rcases r with e | y <;> exact .inl hv
  | lockTenant | readRecord => rcases r with e | y <;> exact .inl hv
  | runs w => rcases r with e | (_ | _) <;> exact .inl hv
  | _ => exact .inl hv

/-- The version a process knows is one that the template had since the process began. -/
lemma version_read {c : Configured} {i : ℕ} {g : Doing} {v : String}
    (h : Threads.Run (claims S) Threads.always (.empty s) c) (hi : c.notes i = some g)
    (hv : g.version = some v) :
    ∃ c', Threads.Run (claims S) Threads.always (.empty s) c' ∧
      Threads.Run (claims S) Threads.always c' c ∧ c'.notes i ≠ none ∧ c'.shared.template = v := by
  induction h generalizing g with
  | refl => cases hi
  | @tail b d hrun hstep ih =>
      have hbefore : ∀ g', b.notes i = some g' → g'.version = some v →
          ∃ c', Threads.Run (claims S) Threads.always (.empty s) c' ∧
            Threads.Run (claims S) Threads.always c' d ∧ c'.notes i ≠ none ∧
            c'.shared.template = v := by
        intro g' hg' hv'
        obtain ⟨c', h₁, h₂, h₃, h₄⟩ := ih hg' hv'
        exact ⟨c', h₁, h₂.tail hstep, h₃, h₄⟩
      cases id hstep with
      | @start j g₀ p hj hb =>
          rw [Threads.Config.set_notes] at hi
          obtain ⟨rfl, rfl⟩ | ⟨-, hi⟩ := Threads.update_some hi
          · obtain ⟨c, pid, fuel, -, rfl, -⟩ := hb
            cases hv
          · exact hbefore g hi hv
      | @call j g₀ o k r t hj hr hM =>
          rw [Threads.Config.set_notes] at hi
          obtain ⟨rfl, rfl⟩ | ⟨-, hi⟩ := Threads.update_some hi
          · have hg₀ : b.notes i = some g₀ := by simp [Threads.Config.notes, hj]
            rcases version_note hr hv with hold | hnow
            · exact hbefore g₀ hg₀ hold
            · exact ⟨b, hrun, .single hstep, by rw [hg₀]; rintro ⟨⟩, hnow⟩
          · exact hbefore g hi hv
      | @leave j g₀ p hj hp =>
          rw [Threads.Config.set_notes] at hi
          exact hbefore g (Threads.update_none hi).2 hv
      | idle ht => exact hbefore g hi hv

/-- What is warm in a guest that is handed out was asked for. -/
lemma handed_warm {x : Claim} {q : Request} (hs : Stock S s) (hg : Keeping s g) (h : Handed g x)
    (hq : g.task = .claim q) {w : String × String} (hw : (s.inside x.vmid).warm = some w) :
    q.warm = some w.1 ∧ (q.egress ≠ none → q.egress = some w.2) := by
  obtain ⟨q', k, y, hq', hy, hv, -, hchecked, hkind⟩ := h
  obtain rfl : q' = q := by
    rw [hq] at hq'
    exact (Command.claim.inj hq').symm
  rw [hv] at hw
  obtain ⟨⟨z, hz, hzv, -, -, hzw⟩, hof⟩ := hg.hand k y hy
  rcases hkind with ⟨-, rfl, -, hsecrets⟩ | ⟨-, rfl, -, -⟩
  · obtain ⟨⟨q'', hq'', -, hwarm⟩, -, -, hnone, hegress⟩ := hof
    obtain rfl : q'' = q' := by
      rw [hq''] at hq'
      exact Command.claim.inj hq'
    cases hkey : y.warm with
    | none => cases (hnone hkey hchecked).symm.trans hw
    | some key =>
        have hne : y.warm ≠ none := by
          rw [hkey]
          exact nofun
        obtain ⟨rfl, -⟩ := hs.warm z hz key (hzw.trans hkey) w (hzv ▸ hw)
        obtain ⟨f, hf, hasked⟩ := hsecrets hne
        refine ⟨?_, fun he => ?_⟩
        · rcases hwarm with hwarm | hwarm
          · exact absurd hwarm hne
          · exact hwarm.symm.trans hkey
        · exact (hasked he).symm.trans (hegress hne f hf w hw)
  · obtain ⟨-, -, hnone⟩ := hof
    cases (hnone hchecked).symm.trans hw

/-- **A guest is handed out once, to its tenant, as it was asked for.** Any number of claims and
warming loops run on one pool, each stopped anywhere. Two claims do not come back with one guest.
A guest that comes back is the tenant's; one from the pool is of the version the pool is at, and
one cloned for the claim of a version that the template had since the claim began; and what is
warm in it is of the key and the egress that were asked for. A guest that a claim has seen fail
is in no later claim. -/
theorem claims_exclusive {s : World} (h0 : Stock S s) {c : Configured}
    (h : Threads.Run (claims S) Threads.always (.empty s) c) :
    (∀ i j q q' x y, i ≠ j → Returned c i q x → Returned c j q' y → x.vmid ≠ y.vmid) ∧
    (∀ i q x, Returned c i q x →
      (∃ z ∈ c.shared.shelf.guests, z.vmid = x.vmid ∧ z.tenant = q.tenant) ∧
      (x.pooled = true → c.shared.shelf.templateVersion = some x.templateVersion) ∧
      (x.pooled = false → ∃ c', Threads.Run (claims S) Threads.always (.empty s) c' ∧
        Threads.Run (claims S) Threads.always c' c ∧ c'.notes i ≠ none ∧
        c'.shared.template = x.templateVersion) ∧
      ∀ w, (c.shared.inside x.vmid).warm = some w →
        q.warm = some w.1 ∧ (q.egress ≠ none → q.egress = some w.2)) ∧
    ∀ i g k y c', c.notes i = some g → g.hand = some (k, y) → k = .taken ∨ k = .cold →
      g.failed = true → Threads.Run (claims S) Threads.always c c' →
      ∀ j q x, Returned c' j q x → (k = .taken → x.vmid ≠ y.vmid) ∧
        ∀ n, c.shared.cluster y.vmid = some n → c'.shared.cluster x.vmid ≠ some n := by
  have hgood := good_claims h0 h
  obtain ⟨hI, hsafe⟩ := id hgood
  refine ⟨fun i j q q' x y hij hx hy => ?_, fun i q x hx => ?_,
    fun i g k y c' hi hy hk hf hrun j q x hx => ⟨fun htaken hv => ?_, fun n hn hn' => ?_⟩⟩
  · obtain ⟨g, hi, -, _, k, x', -, hx', hv, -⟩ := returned_handed hgood hx
    obtain ⟨g', hj, -, _, k', y', -, hy', hv', -⟩ := returned_handed hgood hy
    rw [hv, hv']
    exact hI.two i j g g' hij hi hj k x' k' y' hx' hy'
  · obtain ⟨g, hi, hq, hhanded⟩ := returned_handed hgood hx
    have hg := hI.one i g hi
    obtain ⟨q', k, y, hq', hy, hv, -, -, hkind⟩ := id hhanded
    obtain rfl : q' = q := by
      rw [hq] at hq'
      exact (Command.claim.inj hq').symm
    obtain ⟨⟨z, hz, hzv, -, htenant, -⟩, hof⟩ := hg.hand k y hy
    refine ⟨⟨z, hz, hzv.trans hv.symm, ?_⟩, fun hpooled => ?_, fun hcold => ?_,
      fun w hw => handed_warm hI.all hg hhanded hq hw⟩
    · rw [htenant]
      rcases hkind with ⟨-, rfl, -⟩ | ⟨-, rfl, -⟩
      · obtain ⟨⟨q'', hq'', ht, -⟩, -⟩ := hof
        rw [ht, Command.claim.inj (hq''.symm.trans hq)]
      · obtain ⟨⟨q'', hq'', ht⟩, -⟩ := hof
        rw [ht, Command.claim.inj (hq''.symm.trans hq)]
    · rcases hkind with ⟨-, rfl, hversion, -⟩ | ⟨hfalse, -⟩
      · obtain ⟨-, hsome, hpool, -⟩ := hof
        obtain ⟨v, hsv⟩ := Option.isSome_iff_exists.mp hsome
        rw [← hpool, hversion, hsv]
        rfl
      · cases hpooled.symm.trans hfalse
    · rcases hkind with ⟨htrue, -⟩ | ⟨-, -, -, hversion⟩
      · cases hcold.symm.trans htrue
      · exact version_read h hi hversion
  · -- a guest of the pool that has failed
    obtain ⟨⟨z, hz, hzv, hstate, -⟩, -⟩ := (hI.one i g hi).hand k y hy
    have hspent : Spent y.vmid c.shared c.notes := by
      refine ⟨⟨z, hz, hzv, hstate⟩, fun j' g' k' x' hj' hx' hv' => ?_⟩
      by_cases hji : j' = i
      · subst hji
        obtain rfl := Option.some.inj (hi.symm.trans hj')
        obtain ⟨rfl, -⟩ := Prod.mk.inj (Option.some.inj (hx'.symm.trans hy))
        exact ⟨htaken, hf⟩
      · exact absurd hv' (hI.two j' i g' g hji hj' hi k' x' k y hx' hy)
    have hgood' := Threads.good_run (lets_answers S _) (fun _ _ => safe_begins)
      (fun _ _ _ _ => trivial) (keeps_spent S y.vmid) hrun ⟨⟨hI, hspent⟩, hsafe⟩
    obtain ⟨g', hj, -, _, k', x', -, hx', hv', hfalse, -⟩ := returned_handed hgood' hx
    obtain ⟨-, htrue⟩ := hgood'.1.2.hands j g' k' x' hj hx' (hv'.symm.trans hv)
    cases hfalse.symm.trans htrue
  · obtain ⟨⟨z, hz, hzv, hstate, -⟩, -⟩ := (hI.one i g hi).hand k y hy
    have hlost : Lost n c.shared c.notes := by
      refine ⟨hI.all.numbered.below _ n hn, fun z' hz' hz'n => ?_, fun j' g' k' x' hj' hx' hx'n => ?_⟩
      · have hv := hI.all.numbered.single _ _ n hz'n hn
        rw [hI.all.unique.same hz' hz (hv.trans hzv.symm)]
        exact hstate
      · have hv := hI.all.numbered.single _ _ n hx'n hn
        by_cases hji : j' = i
        · subst hji
          obtain rfl := Option.some.inj (hi.symm.trans hj')
          obtain ⟨rfl, -⟩ := Prod.mk.inj (Option.some.inj (hx'.symm.trans hy))
          refine ⟨?_, .inl hf⟩
          rcases hk with rfl | rfl <;> exact nofun
        · exact absurd hv (hI.two j' i g' g hji hj' hi k' x' k y hx' hy)
    have hgood' := Threads.good_run (lets_answers S _) (fun _ _ => safe_begins)
      (fun _ _ _ _ => trivial) (keeps_lost S n) hrun ⟨⟨hI, hlost⟩, hsafe⟩
    obtain ⟨g', hj, -, _, k', x', -, hx', hv', hfalse, -, hkind⟩ := returned_handed hgood' hx
    obtain ⟨-, htrue | ⟨rfl, hcloned⟩⟩ := hgood'.1.2.hands j g' k' x' hj hx' (hv' ▸ hn')
    · cases hfalse.symm.trans htrue
    · rcases hkind with ⟨-, hne, -⟩ | ⟨-, -, htrue, -⟩
      · cases hne
      · cases hcloned.symm.trans htrue

/-! ### Runs of three claims -/

lemma returned_of_outcome {c : Configured} {i : ℕ} {q : Request} {x : Claim}
    (h : outcome c i = some (.claim q, x)) : Returned c i q x := by
  unfold outcome at h
  split at h
  · rename_i g y hi
    obtain ⟨htask, rfl⟩ := Prod.mk.inj (Option.some.inj h)
    exact ⟨g, hi, htask⟩
  · cases h

def plainGuest : PoolGuest where
  vmid := 100
  node := "n"
  tenant := "t"
  address := 10
  state := .ready
  templateVersion := some "1"
  owner := none
  claimedBy := none
  warm := none

def warmedGuest : PoolGuest := { plainGuest with vmid := 101, address := 11, warm := some "k" }

/-- A pool of one plain and one warm guest, of a template that has been built anew since. -/
def stocked : World where
  shelf := { templateVersion := some "1", guests := [plainGuest, warmedGuest] }
  secrets v := if v = 101 then some ⟨"c", "k", "r", some "e"⟩ else none
  inside v := if v = 101 then .bound (some ("k", "e")) else .unbound
  template := "2"
  cluster v := if v = 100 then some 0 else if v = 101 then some 1 else none
  next := 2

lemma stock_stocked : Stock demoSettings stocked := by
  refine ⟨⟨.nil, by decide, by decide, by decide, fun a ha => ?_⟩, ?_, ⟨fun v n h => ?_, ?_⟩⟩
  · have hin : ∀ b ∈ stocked.shelf.addresses, 10 ≤ b ∧ b ≤ 19 := by decide
    exact hin a ha
  · intro z hz key hkey w hw
    rcases List.mem_cons.mp hz with rfl | hz
    · cases hkey
    · obtain rfl := List.mem_singleton.mp hz
      obtain rfl := Option.some.inj hkey
      obtain rfl : ("k", "e") = w := Option.some.inj hw
      refine ⟨rfl, fun f hf => ?_⟩
      obtain rfl : ⟨"c", "k", "r", some "e"⟩ = f := Option.some.inj hf
      rfl
  · have hn : n < 2 := by
      simp only [stocked] at h
      split_ifs at h <;> grind
    exact hn
  · intro v v' n h h'
    simp only [stocked] at h h'
    split_ifs at h h' <;> grind

def theClaims : List Request :=
  [⟨"t", "a", some "k", some "e"⟩, ⟨"t", "b", none, none⟩, ⟨"t", "c", none, none⟩]

/-- Three claims at once: the warm guest, the plain one, and a new one. -/
lemma run_theClaims : ∃ c : Configured, ∃ x y z : Claim,
    Threads.Run (claims demoSettings) Threads.always (.empty stocked) c ∧
    Returned c 0 ⟨"t", "a", some "k", some "e"⟩ x ∧ Returned c 1 ⟨"t", "b", none, none⟩ y ∧
    Returned c 2 ⟨"t", "c", none, none⟩ z ∧ z.templateVersion = "2" ∧
    c.shared.shelf.templateVersion = some "1" := by
  have hplay : ((demo demoSettings (fun _ _ => false) (fun _ _ _ => true) stocked
      (theClaims.map .claim)
      [0, 1, 2, 0, 1, 2, 0, 1, 2, 0, 2, 0, 2, 2, 2, 2, 2, 2, 2, 2]).any fun c =>
        (outcome c 0).any (fun x => x.1 = .claim ⟨"t", "a", some "k", some "e"⟩) &&
        (outcome c 1).any (fun x => x.1 = .claim ⟨"t", "b", none, none⟩) &&
        (outcome c 2).any (fun x => x.1 = .claim ⟨"t", "c", none, none⟩ ∧
          x.2.templateVersion = "2") &&
        decide (c.shared.shelf.templateVersion = some "1")) = true := by decide +kernel
  obtain ⟨c, hc, hx⟩ := (Option.any_eq_true _ _).mp hplay
  simp only [Bool.and_eq_true, Option.any_eq_true, decide_eq_true_eq, Prod.exists] at hx
  obtain ⟨⟨⟨⟨_, x, hx, rfl⟩, ⟨_, y, hy, rfl⟩⟩, ⟨_, z, hz, rfl, hversion⟩⟩, hpool⟩ := hx
  refine ⟨c, x, y, z, run_demo (fun a ha => ?_) (fun _ _ _ _ _ => trivial) hc,
    returned_of_outcome hx, returned_of_outcome hy, returned_of_outcome hz, hversion, hpool⟩
  obtain ⟨q, -, rfl⟩ := List.mem_map.mp ha
  trivial

/-- Three claims at once come back with three guests, and what is warm in the first was asked
for. -/
theorem claims_exclusive_three : ∃ c : Configured, ∃ x y z : Claim,
    Threads.Run (claims demoSettings) Threads.always (.empty stocked) c ∧
    Returned c 0 ⟨"t", "a", some "k", some "e"⟩ x ∧ Returned c 1 ⟨"t", "b", none, none⟩ y ∧
    Returned c 2 ⟨"t", "c", none, none⟩ z ∧ x.vmid ≠ y.vmid ∧ y.vmid ≠ z.vmid ∧
    ∀ w, (c.shared.inside x.vmid).warm = some w → w = ("k", "e") := by
  obtain ⟨c, x, y, z, hrun, hx, hy, hz, -⟩ := run_theClaims
  obtain ⟨hsingle, hasked, -⟩ := claims_exclusive stock_stocked hrun
  refine ⟨c, x, y, z, hrun, hx, hy, hz, hsingle 0 1 _ _ x y (by decide) hx hy,
    hsingle 1 2 _ _ y z (by decide) hy hz, fun w hw => ?_⟩
  obtain ⟨hkey, hegress⟩ := (hasked 0 _ x hx).2.2.2 w hw
  exact Prod.ext (Option.some.inj hkey).symm (Option.some.inj (hegress nofun)).symm

/-- The bind agent does not answer the first process. -/
def bindFails : ℕ → Call → Bool
  | 0, .bind _ _ _ => true
  | _, _ => false

/-- A claim that finds the pool empty clones the template as it is, whatever version the pool is
at; and a guest that would not bind for a warming loop is handed out later, once the loop has
found it restarted. -/
theorem claims_beside_the_pool :
    (∃ c i q x, Threads.Run (claims demoSettings) Threads.always (.empty stocked) c ∧
      Returned c i q x ∧ c.shared.shelf.templateVersion ≠ some x.templateVersion) ∧
    ∃ c c' i g k y j q x, Threads.Run (claims demoSettings) Threads.always (.empty stocked) c ∧
      c.notes i = some g ∧ g.hand = some (k, y) ∧ g.failed = true ∧
      Threads.Run (claims demoSettings) Threads.always c c' ∧ Returned c' j q x ∧
      x.vmid = y.vmid := by
  refine ⟨?_, ?_⟩
  · obtain ⟨c, -, -, z, hrun, -, -, hz, hversion, hpool⟩ := run_theClaims
    refine ⟨c, 2, _, z, hrun, hz, ?_⟩
    rw [hversion, hpool]
    decide
  · have hplay : ((demo demoSettings bindFails (fun _ _ _ => true) stocked
        [.warm "t" "1" ⟨"z", 1, 0⟩ "e", .claim ⟨"t", "b", none, none⟩] [0, 0, 0]).any fun c =>
          (c.notes 0).any (fun g => g.failed && g.hand.any fun x => x.2.vmid = 100) &&
          (resume demoSettings bindFails (fun _ _ _ => true) [0, 0, 0, 1, 1, 1] c).any fun c' =>
            (outcome c' 1).any fun x => x.1 = .claim ⟨"t", "b", none, none⟩ ∧ x.2.vmid = 100) =
              true := by decide +kernel
    obtain ⟨c, hc, hx⟩ := (Option.any_eq_true _ _).mp hplay
    simp only [Bool.and_eq_true, Option.any_eq_true, decide_eq_true_eq, Prod.exists] at hx
    obtain ⟨⟨g, hg, hf, k, y, hy, hv⟩, c', hc', _, x, hx, rfl, hxv⟩ := hx
    refine ⟨c, c', 0, g, k, y, 1, _, x, run_demo (fun a ha => ?_) (fun _ _ _ _ _ => trivial) hc,
      hg, hy, hf, run_resume (threads_demo hc) hc', returned_of_outcome hx, hxv.trans hv.symm⟩
    rcases List.mem_cons.mp ha with rfl | ha
    · trivial
    · rw [List.mem_singleton.mp ha]
      trivial

end Bimo.Proxmox
