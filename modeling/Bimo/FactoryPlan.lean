import Bimo.FactoryRecovery
import Mathlib.Data.List.Perm.Subperm

/-!
The plan of a factory, beside its apply.

`commandPlan` looks at each pod for itself, and at the pods that are no longer in the manifest.
`apply` decides once for the whole factory, after its recovery, and then keeps every process or
replaces every process. So the two agree when the whole factory is as the manifest says, or when
no pod of it is; in between the plan promises pods that the apply replaces.

Both are run in a world that stands still: no process dies by itself, and a process that is
asked for is alive when it runs.
-/

namespace Bimo.Factory

/-! ### The plan -/

inductive PodAction
  | noOp | replace | create
  deriving DecidableEq, Repr

/-- What is printed: a line for each pod of the manifest, and one for each pod to destroy. -/
structure Plan where
  factory : String
  actions : List (PodAction × PodManifest)
  destroyed : List String

/-- How many of the lines are changes; with none the plan says that there are no changes. -/
def Plan.changes (p : Plan) : ℕ :=
  (p.actions.filter fun x => x.1 ≠ .noOp).length + p.destroyed.length

def managedProcessIsAlive (p : PodState) : Act Bool :=
  match processIdentity p with
  | some identity => ask (.identityAlive identity)
  | none => return false

section

variable (fingerprint : PodManifest → Except String String)

def planPod (current : Option FactoryState) (p : PodManifest) : Act PodAction := do
  let fp ← .ofExcept (fingerprint p)
  match current.bind (·.pods[p.name]?) with
  | some existing => do
    if (← managedProcessIsAlive existing) ∧ existing.launchFingerprint = some fp then return .noOp
    else return .replace
  | none => return .create

def planPods (current : Option FactoryState) : List PodManifest → Act (List (PodAction × PodManifest))
  | [] => return []
  | p :: l => do
    let action ← planPod fingerprint current p
    let rest ← planPods current l
    return (action, p) :: rest

/-- The pods of the state that the manifest does not have. -/
def removed (m : Manifest) (s : FactoryState) : List String :=
  s.pods.keys.filter fun name => name ∉ m.pods.map (·.name)

def commandPlan (m : Manifest) : Act Plan := do
  let current ← readState
  let actions ← planPods fingerprint current m.pods
  return { factory := m.name, actions, destroyed := (current.map (removed m)).getD [] }

end

/-! ### A world that stands still -/

/-- A process that is asked for is alive when it runs. -/
def Truthful (w : World) : (c : Call) → c.Ret → Prop
  | .identityAlive i, alive => alive = decide (i ∈ w.procs)
  | _, _ => True

def still : Env Call Call.Ret World where
  step w c x t := w.step c x t ∧ Truthful w c x

variable {fingerprint : PodManifest → Except String String} {w t : World}

/-- The process that the state names for a pod. -/
def processOf (s : Option FactoryState) (p : PodManifest) : Option ProcessIdentity :=
  (s.bind (·.pods[p.name]?)).bind processIdentity

/-- The pod runs, as it was launched from this manifest. -/
def Runs (fingerprint : PodManifest → Except String String) (s : Option FactoryState)
    (procs : List ProcessIdentity) (p : PodManifest) : Prop :=
  ∃ i ∈ procs, ∃ existing, s.bind (·.pods[p.name]?) = some existing ∧
    processIdentity existing = some i ∧ ∃ fp, fingerprint p = .ok fp ∧
      existing.launchFingerprint = some fp

/-- The factory is as the manifest says: its name, its pods, and each of them runs and has not
failed. -/
def Unchanged (fingerprint : PodManifest → Except String String) (s : Option FactoryState)
    (procs : List ProcessIdentity) (m : Manifest) : Prop :=
  ∃ old, s = some old ∧ old.factoryName = m.name ∧ old.pods.size = m.pods.length ∧
    ∀ p ∈ m.pods, Runs fingerprint s procs p ∧
      ∀ existing, old.pods[p.name]? = some existing → existing.status ≠ .failed

abbrev Stands {α : Type} (p : Act α) (w : World) (Q : Except String α → World → Prop) : Prop :=
  Safe still (fun _ _ => True) p w Q

lemma stands_ask {c : Call} {Q : Except String c.Ret → World → Prop}
    (h : ∀ x u, w.step c x u → Truthful w c x → Q (.ok x) u) : Stands (ask c) w Q :=
  (safe_ask _ _ _).mpr ⟨trivial, fun x u hx => h x u hx.1 hx.2⟩

lemma stands_readState {Q : Except String (Option FactoryState) → World → Prop}
    (hok : Q (.ok w.state) w.recovered) (herr : ∀ e, Q (.error e) w.recovered) :
    Stands readState w Q := by
  refine (safe_bind _ _ _ _).mpr (stands_ask fun x u hx _ => ?_)
  obtain ⟨hstate, rfl⟩ := hx
  match x with
  | .error e => exact herr e
  | .ok s =>
      obtain rfl := hstate s rfl
      exact hok

lemma stands_alive {i : ProcessIdentity} {Q : Except String Bool → World → Prop}
    (h : Q (.ok (decide (i ∈ w.procs))) w) : Stands (ask (.identityAlive i)) w Q := by
  refine stands_ask fun x u hx halive => ?_
  obtain rfl : u = w := hx
  obtain rfl : x = decide (i ∈ u.procs) := halive
  exact h

/-! ### What the plan says -/

lemma stands_planPod {s : Option FactoryState} {p : PodManifest} :
    Stands (planPod fingerprint s p) w fun r t => t = w ∧
      ∀ action, r = .ok action → (action = .noOp ↔ Runs fingerprint s w.procs p) := by
  unfold planPod
  refine (safe_bind _ _ _ _).mpr ((safe_ofExcept _ _ _).mpr ?_)
  cases hfp : fingerprint p with
  | error e => exact ⟨rfl, nofun⟩
  | ok fp =>
      cases hpod : s.bind (·.pods[p.name]?) with
      | none =>
          refine ⟨rfl, fun action ha => ?_⟩
          obtain rfl := Except.ok.inj ha
          refine ⟨nofun, ?_⟩
          rintro ⟨i, -, existing, hex, -⟩
          cases hpod.symm.trans hex
      | some existing =>
          have hruns : Runs fingerprint s w.procs p ↔ (∃ i ∈ w.procs,
              processIdentity existing = some i) ∧ existing.launchFingerprint = some fp := by
            constructor
            · rintro ⟨i, hi, x, hx, hid, fp', hfp', hlaunch⟩
              obtain rfl := Option.some.inj (hpod.symm.trans hx)
              obtain rfl := Except.ok.inj (hfp.symm.trans hfp')
              exact ⟨⟨i, hi, hid⟩, hlaunch⟩
            · rintro ⟨⟨i, hi, hid⟩, hlaunch⟩
              exact ⟨i, hi, existing, hpod, hid, fp, hfp, hlaunch⟩
          have halive : Stands (managedProcessIsAlive existing) w fun r t => t = w ∧
              ∃ b, r = .ok b ∧ (b = true ↔ ∃ i ∈ w.procs, processIdentity existing = some i) := by
            unfold managedProcessIsAlive
            cases hid : processIdentity existing with
            | none => exact ⟨rfl, false, rfl, by simp⟩
            | some i => exact stands_alive ⟨rfl, _, rfl, by simp⟩
          refine (safe_bind _ _ _ _).mpr (halive.mono ?_)
          rintro _ _ ⟨rfl, b, rfl, hb⟩
          dsimp only
          split_ifs with hboth
          · refine ⟨rfl, fun action ha => ?_⟩
            obtain rfl := Except.ok.inj ha
            exact ⟨fun _ => hruns.mpr ⟨hb.mp hboth.1, hboth.2⟩, fun _ => rfl⟩
          · refine ⟨rfl, fun action ha => ?_⟩
            obtain rfl := Except.ok.inj ha
            refine ⟨nofun, fun hr => absurd ?_ hboth⟩
            exact ⟨hb.mpr (hruns.mp hr).1, (hruns.mp hr).2⟩

lemma stands_planPods {s : Option FactoryState} (l : List PodManifest) :
    Stands (planPods fingerprint s l) w fun r t => t = w ∧
      ∀ actions, r = .ok actions → actions.map Prod.snd = l ∧
        ∀ x ∈ actions, x.1 = .noOp ↔ Runs fingerprint s w.procs x.2 := by
  induction l with
  | nil =>
      refine ⟨rfl, fun actions ha => ?_⟩
      obtain rfl := Except.ok.inj ha
      exact ⟨rfl, nofun⟩
  | cons p l ih =>
      unfold planPods
      refine (safe_bind _ _ _ _).mpr (stands_planPod.mono ?_)
      rintro (e | action) _ ⟨rfl, haction⟩
      · exact ⟨rfl, nofun⟩
      refine (safe_bind _ _ _ _).mpr (ih.mono ?_)
      rintro (e | rest) _ ⟨rfl, hrest⟩
      · exact ⟨rfl, nofun⟩
      obtain ⟨hmap, hall⟩ := hrest rest rfl
      refine ⟨rfl, fun actions ha => ?_⟩
      obtain rfl := Except.ok.inj ha
      refine ⟨by simp [hmap], fun x hx => ?_⟩
      rcases List.mem_cons.mp hx with rfl | hx
      · exact haction action rfl
      · exact hall x hx

/-- What the plan of a factory says. -/
structure Says (fingerprint : PodManifest → Except String String) (w : World) (m : Manifest)
    (P : Plan) : Prop where
  pods : P.actions.map Prod.snd = m.pods
  noOp : ∀ x ∈ P.actions, x.1 = .noOp ↔ Runs fingerprint w.state w.procs x.2
  destroyed : P.destroyed = (w.state.map (removed m)).getD []

lemma stands_commandPlan (m : Manifest) :
    Stands (commandPlan fingerprint m) w fun r _ => ∀ P, r = .ok P → Says fingerprint w m P := by
  unfold commandPlan
  refine (safe_bind _ _ _ _).mpr (stands_readState ?_ fun e => nofun)
  refine (safe_bind _ _ _ _).mpr ((stands_planPods m.pods).mono ?_)
  rintro (e | actions) _ ⟨rfl, hactions⟩
  · exact nofun
  · intro P hP
    obtain rfl := Except.ok.inj hP
    obtain ⟨hmap, hall⟩ := hactions actions rfl
    exact ⟨hmap, hall, rfl⟩

/-! ### What the apply does -/

/-- The world after some processes were stopped. -/
structure Less (l : List ProcessIdentity) (w t : World) : Prop where
  state : t.state = w.state
  procs : ∀ i, i ∈ t.procs ↔ i ∈ w.procs ∧ i ∉ l

lemma stands_stopGroup (i : ProcessIdentity) :
    Stands (stopGroup i) w fun r t => r = .ok () ∧ t = w.stop i :=
  (safe_bind _ _ _ _).mpr (stands_ask fun _ _ hx _ => ⟨rfl, hx⟩)

lemma stands_stopAll (l : List ProcessIdentity) :
    Stands (Prog.each stopGroup l) w fun r t => r = .ok () ∧ Less l w t := by
  induction l generalizing w with
  | nil => exact ⟨rfl, rfl, by simp⟩
  | cons i l ih =>
      refine Safe.bind (stands_stopGroup i) ?_ ?_
      · rintro _ _ ⟨-, rfl⟩
        refine ih.mono ?_
        rintro _ t ⟨rfl, hstate, hprocs⟩
        refine ⟨rfl, hstate, fun k => ?_⟩
        rw [hprocs]
        simp only [World.stop, List.mem_filter, decide_eq_true_eq, List.mem_cons, not_or]
        tauto
      · rintro e _ ⟨hr, -⟩
        cases hr

lemma stands_append (e : Entry) :
    Stands (append e) w fun r t => t = w ∨ (r = .ok () ∧ t = w.append e) := by
  refine (safe_bind _ _ _ _).mpr (stands_ask fun x u hx _ => ?_)
  match x with
  | .error m => exact .inl hx
  | .ok _ => exact .inr ⟨rfl, hx⟩

lemma append_less {l : List ProcessIdentity} {u : World} (h : Less l w t)
    (hu : u = t ∨ ∃ e, u = t.append e) : Less l w u := by
  rcases hu with rfl | ⟨e, rfl⟩
  · exact h
  · exact ⟨h.state, h.procs⟩

/-- Recovery stops what the journal owes, and leaves the state file. -/
lemma stands_recover :
    Stands recoverIncompleteApply w fun r t => r.isOk → Less (owed (seen w.journal)) w t := by
  unfold recoverIncompleteApply readJournal
  refine (safe_bind _ _ _ _).mpr ((safe_bind _ _ _ _).mpr (stands_ask fun x u hx _ => ?_))
  obtain ⟨hj, rfl⟩ := hx
  match x with
  | .error e => exact nofun
  | .ok j =>
      obtain rfl := hj j rfl
      have hclose : ∀ (l : List ProcessIdentity) (e : Entry), Stands (do
          Prog.each stopGroup l
          append e) u fun r t => r.isOk → Less l u t := by
        intro l e
        refine Safe.bind (stands_stopAll l) ?_ fun _ _ _ => nofun
        rintro _ t ⟨-, hless⟩
        refine (stands_append e).mono fun r v hv _ => append_less hless ?_
        rcases hv with rfl | ⟨-, rfl⟩
        · exact .inl rfl
        · exact .inr ⟨e, rfl⟩
      refine (safe_ofExcept _ _ _).mpr ?_
      dsimp only
      unfold owed
      cases hintent : (seen u.journal).intent with
      | none => exact fun _ => ⟨rfl, by simp⟩
      | some g =>
          dsimp only
          split_ifs
          · exact hclose _ _
          · exact fun _ => ⟨rfl, by simp⟩
          · exact hclose _ _

lemma stands_podUnchanged {old : FactoryState} {p : PodManifest} :
    Stands (podUnchanged fingerprint old p) w fun r t => t = w ∧ ∃ b, r = .ok b ∧
      (b = true ↔ Runs fingerprint (some old) w.procs p ∧
        ∀ existing, old.pods[p.name]? = some existing → existing.status ≠ .failed) := by
  have hno : ¬ Runs fingerprint (some old) w.procs p → Stands (pure false : Act Bool) w
      fun r t => t = w ∧ ∃ b, r = .ok b ∧ (b = true ↔ Runs fingerprint (some old) w.procs p ∧
        ∀ existing, old.pods[p.name]? = some existing → existing.status ≠ .failed) :=
    fun h => ⟨rfl, false, rfl, nofun, fun hr => absurd hr.1 h⟩
  unfold podUnchanged
  split
  · rename_i fp existing hfp hpod
    split_ifs with hsame
    · cases hid : processIdentity existing with
      | none =>
          refine hno ?_
          rintro ⟨i, -, x, hx, hxi, -⟩
          obtain rfl := Option.some.inj (hpod.symm.trans hx)
          cases hid.symm.trans hxi
      | some i =>
          refine stands_alive ⟨rfl, _, rfl, ?_⟩
          rw [decide_eq_true_eq]
          constructor
          · refine fun hi => ⟨⟨i, hi, existing, hpod, hid, fp, hfp, hsame.1⟩, fun x hx => ?_⟩
            obtain rfl := Option.some.inj (hpod.symm.trans hx)
            exact hsame.2
          · rintro ⟨⟨k, hk, x, hx, hxi, -⟩, -⟩
            obtain rfl := Option.some.inj (hpod.symm.trans hx)
            obtain rfl := Option.some.inj (hid.symm.trans hxi)
            exact hk
    · refine ⟨rfl, false, rfl, nofun, ?_⟩
      rintro ⟨⟨i, -, x, hx, -, fp', hfp', hlaunch⟩, hstatus⟩
      obtain rfl := Option.some.inj (hpod.symm.trans hx)
      obtain rfl := Except.ok.inj (hfp.symm.trans hfp')
      exact absurd ⟨hlaunch, hstatus existing hpod⟩ hsame
  · rename_i hnone
    refine hno ?_
    rintro ⟨i, -, x, hx, -, fp, hfp, -⟩
    exact hnone fp x hfp hx

lemma stands_podsUnchanged {old : FactoryState} (l : List PodManifest) :
    Stands (podsUnchanged fingerprint old l) w fun r t => t = w ∧ ∃ b, r = .ok b ∧
      (b = true ↔ ∀ p ∈ l, Runs fingerprint (some old) w.procs p ∧
        ∀ existing, old.pods[p.name]? = some existing → existing.status ≠ .failed) := by
  induction l with
  | nil => exact ⟨rfl, true, rfl, by simp⟩
  | cons p l ih =>
      unfold podsUnchanged
      refine (safe_bind _ _ _ _).mpr (stands_podUnchanged.mono ?_)
      rintro _ _ ⟨rfl, b, rfl, hb⟩
      dsimp only
      split_ifs with hp
      · refine ih.mono ?_
        rintro _ _ ⟨rfl, b', rfl, hb'⟩
        refine ⟨rfl, b', rfl, ?_⟩
        rw [hb', List.forall_mem_cons]
        exact ⟨fun h => ⟨hb.mp hp, h⟩, fun h => h.2⟩
      · refine ⟨rfl, false, rfl, nofun, fun h => ?_⟩
        exact absurd (hb.mpr (h p List.mem_cons_self)) hp

/-- The one decision of an apply. -/
lemma stands_unchanged (m : Manifest) :
    Stands (unchanged fingerprint w.state m) w fun r t => t = w ∧ ∃ x, r = .ok x ∧
      ((Unchanged fingerprint w.state w.procs m ∧ x = w.state) ∨
        (¬ Unchanged fingerprint w.state w.procs m ∧ x = none)) := by
  unfold unchanged
  cases hs : w.state with
  | none =>
      refine ⟨rfl, none, rfl, .inr ⟨?_, rfl⟩⟩
      rintro ⟨old, ho, -⟩
      cases ho
  | some old =>
      dsimp only
      split_ifs with hname
      · refine (safe_bind _ _ _ _).mpr ((stands_podsUnchanged m.pods).mono ?_)
        rintro _ _ ⟨rfl, b, rfl, hb⟩
        cases b with
        | true => exact ⟨rfl, some old, rfl, .inl ⟨⟨old, rfl, hname.1, hname.2, hb.mp rfl⟩, rfl⟩⟩
        | false =>
            refine ⟨rfl, none, rfl, .inr ⟨?_, rfl⟩⟩
            rintro ⟨old', ho, -, -, hall⟩
            obtain rfl := Option.some.inj ho
            cases hb.mpr hall
      · refine ⟨rfl, none, rfl, .inr ⟨?_, rfl⟩⟩
        rintro ⟨old', ho, hn, hsize, -⟩
        obtain rfl := Option.some.inj ho
        exact absurd ⟨hn, hsize⟩ hname

/-! ### A factory that is replaced -/

lemma does_any {α : Type} (p : Act α) : p.Does (fun _ => True) fun _ => True := by
  induction p with
  | ret => trivial
  | fail => trivial
  | call o k ih => exact ⟨trivial, ih⟩

lemma stands_of_does {α : Type} {R : α → Prop} {p : Act α} (h : p.Does (fun _ => True) R) :
    Stands p w fun r _ => ∀ a, r = .ok a → R a := by
  induction p generalizing w with
  | ret a =>
      intro b hb
      obtain rfl := Except.ok.inj hb
      exact h
  | fail => exact nofun
  | call o k ih => exact ⟨trivial, fun r t _ => ih r (h.2 r)⟩

/-- Where a program fails after another one, it returns nothing. -/
lemma does_fail {α β : Type} {R : α → Prop} (p : Act β) (e : String) :
    (do let _ ← p; .fail e : Act α).Does (fun _ => True) R :=
  (does_any p).bind fun _ _ => trivial

lemma does_stagePod (m : Manifest) (g : ℕ) (p : PodManifest) (staged : List ProcessIdentity)
    (next : FactoryState) : (stagePod fingerprint m g p staged next).Does (fun _ => True)
      fun x => x.2.generation = next.generation := by
  unfold stagePod
  refine (does_any _).bind fun fp _ => (does_any _).bind fun x _ => ?_
  match x with
  | .error e => exact (does_any _).bind fun _ _ => does_fail _ e
  | .ok (pid, session) =>
      refine (does_any _).bind fun y _ => ?_
      match y with
      | .error e => exact does_fail _ e
      | .ok n =>
          refine (does_any _).bind fun z _ => ?_
          match z with
          | .error e => exact does_fail _ e
          | .ok _ => exact place_generation next p.name _

lemma does_stage (m : Manifest) (g : ℕ) (l : List PodManifest) (staged : List ProcessIdentity)
    (next : FactoryState) : (stage fingerprint m g l staged next).Does (fun _ => True)
      fun x => x.2.generation = next.generation := by
  induction l generalizing staged next with
  | nil => rfl
  | cons p l ih =>
      unfold stage
      refine (does_stagePod m g p staged next).bind fun x hx => ?_
      exact (ih x.1 x.2).mono fun y hy => hy.trans hx

/-- A generation that is recorded has replaced every process of the one before. -/
lemma stands_record {previous : Option FactoryState} {g : ℕ} {staged : List ProcessIdentity}
    {next : FactoryState} :
    Stands (record previous g staged next) w fun r t => ∀ s, r = .ok s →
      s = next ∧ ∀ i ∈ identitiesOf previous, i ∉ t.procs := by
  unfold record
  refine Safe.bind (stands_of_does (does_any _)) (fun _ t _ => ?_) fun _ _ _ => nofun
  refine (safe_bind _ _ _ _).mpr ((safe_attempt _ _ _).mpr
    ((stands_of_does (does_any _)).mono fun x u _ => ?_))
  match x with
  | .error e =>
      have hfail : Stands (rollback staged g e : Act FactoryState) u _ :=
        stands_of_does (R := fun _ => False) ((does_any _).bind fun _ _ => does_fail _ e)
      exact hfail.mono fun r t h s hs => (h s hs).elim
  | .ok _ =>
      refine Safe.bind (stands_append _) (fun _ v _ => ?_) fun _ _ _ => nofun
      refine Safe.bind (stands_stopAll _) ?_ fun _ _ _ => nofun
      rintro _ v' ⟨-, hless⟩
      refine Safe.bind (stands_append _) ?_ fun _ _ _ => nofun
      intro _ v'' hv s hs
      obtain rfl := Except.ok.inj hs
      refine ⟨rfl, fun i hi hin => ?_⟩
      have hless' : Less (identitiesOf previous) v v'' := by
        refine append_less hless ?_
        rcases hv with rfl | ⟨-, rfl⟩
        · exact .inl rfl
        · exact .inr ⟨_, rfl⟩
      exact ((hless'.procs i).mp hin).2 hi

/-- What an apply that returns has done: it has kept every process, or replaced every process. -/
lemma stands_apply (m : Manifest) :
    Stands (apply fingerprint m) w fun r t => ∀ s, r = .ok s →
      ∃ procs, (∀ i, i ∈ procs ↔ i ∈ w.procs ∧ i ∉ owed (seen w.journal)) ∧
        ((Unchanged fingerprint w.state procs m ∧ w.state = some s ∧ t.procs = procs) ∨
          (¬ Unchanged fingerprint w.state procs m ∧ s.generation = nextGeneration w.state ∧
            ∀ i ∈ identitiesOf w.state, i ∉ t.procs)) := by
  unfold apply lock
  refine (safe_bind _ _ _ _).mpr ((safe_bind _ _ _ _).mpr (stands_ask fun x u hu _ => ?_))
  obtain rfl : u = w := hu
  match x with
  | .error e => exact nofun
  | .ok _ =>
      refine Safe.bind stands_recover ?_ fun _ _ _ => nofun
      intro _ v hv
      obtain ⟨hstate, hprocs⟩ := hv rfl
      refine (safe_bind _ _ _ _).mpr (stands_readState ?_ fun _ => nofun)
      dsimp only
      refine (safe_bind _ _ _ _).mpr ((stands_unchanged (w := v.recovered) m).mono ?_)
      rintro _ _ ⟨rfl, x, rfl, hx⟩
      have hs : v.recovered.state = u.state := hstate
      rcases hx with ⟨hsame, rfl⟩ | ⟨hdiffer, rfl⟩
      · obtain ⟨old, hold, -⟩ := id hsame
        rw [hold]
        intro s hr
        obtain rfl := Except.ok.inj hr
        exact ⟨v.procs, hprocs, .inl ⟨hs ▸ hsame, hs.symm.trans hold, rfl⟩⟩
      · dsimp only
        refine Safe.bind (stands_append _) (fun _ v' _ => ?_) fun _ _ _ => nofun
        refine Safe.bind (stands_of_does (does_stage m _ m.pods [] _)) ?_ fun _ _ _ => nofun
        rintro ⟨staged, next⟩ v'' hgen
        refine stands_record.mono fun r t hr s hrs => ?_
        obtain ⟨rfl, hgone⟩ := hr s hrs
        refine ⟨v.procs, hprocs, .inr ⟨hs ▸ hdiffer, ?_, hs ▸ hgone⟩⟩
        rw [hgen _ rfl, ← hs]
        rfl

/-! ### Plan and apply -/

/-- The processes that recovery leaves. -/
def spared (w : World) : List ProcessIdentity :=
  w.procs.filter (· ∉ owed (seen w.journal))

lemma Runs.mono {s : Option FactoryState} {l l' : List ProcessIdentity} {p : PodManifest}
    (h : Runs fingerprint s l p) (hl : ∀ i ∈ l, i ∈ l') : Runs fingerprint s l' p := by
  obtain ⟨i, hi, hrest⟩ := h
  exact ⟨i, hl i hi, hrest⟩

lemma Unchanged.mono {s : Option FactoryState} {l l' : List ProcessIdentity} {m : Manifest}
    (h : Unchanged fingerprint s l m) (hl : ∀ i ∈ l, i ∈ l') : Unchanged fingerprint s l' m := by
  obtain ⟨old, hold, hname, hsize, hall⟩ := h
  exact ⟨old, hold, hname, hsize, fun p hp => ⟨(hall p hp).1.mono hl, (hall p hp).2⟩⟩

lemma mem_identitiesOf {s : Option FactoryState} {p : PodManifest} {i : ProcessIdentity}
    (h : processOf s p = some i) : i ∈ identitiesOf s := by
  obtain ⟨existing, hex, hi⟩ := Option.bind_eq_some_iff.mp h
  obtain ⟨old, rfl, hpod⟩ := Option.bind_eq_some_iff.mp hex
  exact mem_identities.mpr ⟨p.name, existing, hpod, hi⟩

/-- A factory with the manifest's pods, and no more of them, has none to destroy. -/
lemma removed_eq_nil {m : Manifest} {old : FactoryState} (hsize : old.pods.size = m.pods.length)
    (hpods : ∀ p ∈ m.pods, p.name ∈ old.pods) : removed m old = [] := by
  have hsub : m.pods.map (·.name) ⊆ old.pods.keys := by
    intro name hname
    obtain ⟨p, hp, rfl⟩ := List.mem_map.mp hname
    exact Std.TreeMap.mem_keys.mpr (hpods p hp)
  have hlen : old.pods.keys.length = (m.pods.map (·.name)).length := by
    rw [Std.TreeMap.length_keys, List.length_map, hsize]
  have hperm : (m.pods.map (·.name)).Perm old.pods.keys :=
    (m.distinct.subperm hsub).perm_of_length_le (Nat.le_of_eq hlen)
  refine List.filter_eq_nil_iff.mpr fun name hname => ?_
  simpa using hperm.mem_iff.mpr hname

/-- **A plan and its apply agree when the whole factory is as the manifest says, or no pod of it
is.** The plan calls the pods no-ops whose processes an apply that returns leaves running, and
says that there are no changes when the apply returns the state as it was: if and only if the
factory is unchanged as a whole after the apply's recovery, or no pod of the manifest runs as it
was launched. -/
theorem factory_plan_agrees_iff {m : Manifest} (hm : m.pods ≠ []) {w t t' : World} {P : Plan}
    {s : FactoryState} (hplan : Exec still (commandPlan fingerprint m) w (.ret P) t)
    (happly : Exec still (apply fingerprint m) w (.ret s) t') :
    ((∀ x ∈ P.actions, x.1 = .noOp ↔ ∃ i, processOf w.state x.2 = some i ∧ i ∈ t'.procs) ∧
      (P.changes = 0 ↔ w.state = some s)) ↔
    Unchanged fingerprint w.state (spared w) m ∨
      ∀ p ∈ m.pods, ¬ Runs fingerprint w.state w.procs p := by
  have hsaid : Says fingerprint w m P :=
    (safe_ret _ _ _).mp ((stands_commandPlan m).exec hplan) P rfl
  obtain ⟨procs, hprocs, hdone⟩ := (safe_ret _ _ _).mp ((stands_apply m).exec happly) s rfl
  have hspared : ∀ i, i ∈ spared w ↔ i ∈ procs := by
    intro i
    rw [hprocs]
    simp [spared]
  have hmem : ∀ x ∈ P.actions, x.2 ∈ m.pods := by
    intro x hx
    rw [← hsaid.pods]
    exact List.mem_map_of_mem hx
  rcases hdone with ⟨hsame, hstate, hleft⟩ | ⟨hdiffer, hgen, hgone⟩
  · -- everything is kept, and everything is a no-op
    refine ⟨fun _ => .inl (hsame.mono fun i hi => (hspared i).mpr hi), fun _ => ?_⟩
    obtain ⟨old, hold, -, hsize, hall⟩ := hsame
    have hnoop : ∀ x ∈ P.actions, x.1 = .noOp := fun x hx =>
      (hsaid.noOp x hx).mpr ((hall _ (hmem x hx)).1.mono fun i hi => ((hprocs i).mp hi).1)
    refine ⟨fun x hx => ⟨fun _ => ?_, fun _ => hnoop x hx⟩, fun _ => hstate, fun _ => ?_⟩
    · obtain ⟨i, hi, existing, hex, hid, -⟩ := (hall _ (hmem x hx)).1
      exact ⟨i, Option.bind_eq_some_iff.mpr ⟨existing, hex, hid⟩, hleft ▸ hi⟩
    · have hfilter : P.actions.filter (fun x => x.1 ≠ .noOp) = [] :=
        List.filter_eq_nil_iff.mpr fun x hx => by simpa using hnoop x hx
      have hremoved : removed m old = [] := by
        refine removed_eq_nil hsize fun p hp => ?_
        obtain ⟨i, -, existing, hex, -⟩ := (hall p hp).1
        rw [hold] at hex
        exact Std.TreeMap.mem_iff_isSome_getElem?.mpr (Option.isSome_of_eq_some hex)
      unfold Plan.changes
      rw [hfilter, hsaid.destroyed, hold, Option.map_some, Option.getD_some, hremoved]
      rfl
  · have hnot : ¬ Unchanged fingerprint w.state (spared w) m :=
      fun h => hdiffer (h.mono fun i hi => (hspared i).mp hi)
    have hnew : w.state ≠ some s := by
      intro h
      rw [h] at hgen
      simp [nextGeneration] at hgen
    constructor
    · rintro ⟨hpods, -⟩
      refine .inr fun p hp hruns => ?_
      rw [← hsaid.pods] at hp
      obtain ⟨x, hx, rfl⟩ := List.mem_map.mp hp
      obtain ⟨i, hi, hin⟩ := (hpods x hx).mp ((hsaid.noOp x hx).mpr hruns)
      exact hgone i (mem_identitiesOf hi) hin
    · rintro (h | hnone)
      · exact absurd h hnot
      have hchange : ∀ x ∈ P.actions, x.1 ≠ .noOp := fun x hx hno =>
        hnone _ (hmem x hx) ((hsaid.noOp x hx).mp hno)
      refine ⟨fun x hx => ⟨fun hno => absurd hno (hchange x hx), ?_⟩, fun hzero => ?_,
        fun h => absurd h hnew⟩
      · rintro ⟨i, hi, hin⟩
        exact absurd hin (hgone i (mem_identitiesOf hi))
      · exfalso
        have hfilter : P.actions.filter (fun x => x.1 ≠ .noOp) = P.actions :=
          List.filter_eq_self.mpr fun x hx => by simpa using hchange x hx
        unfold Plan.changes at hzero
        rw [hfilter] at hzero
        have hnil : P.actions = [] := List.eq_nil_of_length_eq_zero (by omega)
        have hpods := hsaid.pods
        rw [hnil] at hpods
        exact hm hpods.symm

lemma still_well (w : World) (c : Call) (h : wellCan w c (well w c)) :
    still.step w c (well w c) (wellNext w c (well w c)) := by
  refine ⟨worldStep_well w c h, ?_⟩
  cases c <;> first | exact rfl | exact trivial

/-- The factory of one pod, applied. -/
def applied : World := reach wellCan wellNext well 20 demoApply {}

lemma unchanged_applied :
    Unchanged (fun p => .ok p.engine) applied.state (spared applied) demoManifest := by
  have hstate : applied.state.any (fun old => decide (old.factoryName = "factory" ∧
      old.pods.size = 1 ∧ old.pods["worker"]?.any fun existing => decide
        (existing.status ≠ .failed ∧ existing.launchFingerprint = some "e" ∧
          (processIdentity existing).any fun i => decide (i ∈ spared applied)))) = true := by
    decide +kernel
  obtain ⟨old, hold, hpods⟩ := (Option.any_eq_true _ _).mp hstate
  obtain ⟨hname, hsize, hpod⟩ := of_decide_eq_true hpods
  obtain ⟨existing, hex, hruns⟩ := (Option.any_eq_true _ _).mp hpod
  obtain ⟨hstatus, hlaunch, hprocess⟩ := of_decide_eq_true hruns
  obtain ⟨i, hi, hspared⟩ := (Option.any_eq_true _ _).mp hprocess
  refine ⟨old, hold, hname, hsize, fun p hp => ?_⟩
  obtain rfl := List.mem_singleton.mp hp
  refine ⟨⟨i, of_decide_eq_true hspared, existing, ?_, hi, _, rfl, hlaunch⟩, fun x hx => ?_⟩
  · rw [hold]
    exact hex
  · obtain rfl := Option.some.inj (hex.symm.trans hx)
    exact hstatus

/-- The pod runs on, so the plan is a no-op and a second apply keeps everything. -/
theorem factory_plan_agrees_applied : ∃ (P : Plan) (s : FactoryState) (t t' : World),
    Exec still (commandPlan (fun p => .ok p.engine) demoManifest) applied (.ret P) t ∧
    Exec still (apply (fun p => .ok p.engine) demoManifest) applied (.ret s) t' ∧
    (∀ x ∈ P.actions, x.1 = .noOp ↔ ∃ i, processOf applied.state x.2 = some i ∧ i ∈ t'.procs) ∧
    P.actions.map Prod.fst = [.noOp] ∧ P.changes = 0 ∧ applied.state = some s := by
  obtain ⟨P, hP, hplan⟩ := exec_reach_returns still_well (n := 9)
    (p := commandPlan (fun p => .ok p.engine) demoManifest) (s := applied)
    (P := fun P => decide (P.actions.map Prod.fst = [.noOp] ∧ P.changes = 0)) (by decide +kernel)
  obtain ⟨s, happly⟩ := exec_reach_ret still_well (n := 30) (p := demoApply) (s := applied)
    (by decide +kernel)
  obtain ⟨hpods, hchanges⟩ :=
    (factory_plan_agrees_iff (by decide) hplan happly).mpr (.inl unchanged_applied)
  obtain ⟨hactions, hzero⟩ := of_decide_eq_true hP
  exact ⟨P, s, _, _, hplan, happly, hpods, hactions, hzero, hchanges.mp hzero⟩

/-- The same pod in a factory of another name. -/
def renamed : Manifest := { demoManifest with name := "other" }

/-- The plan for a renamed factory says that there are no changes. The apply replaces its pod. -/
theorem factory_plan_misses_rename :
    ¬ ∀ (m : Manifest) (w t t' : World) (P : Plan) (s : FactoryState), m.pods ≠ [] →
      Exec still (commandPlan (fun p => .ok p.engine) m) w (.ret P) t →
      Exec still (apply (fun p => .ok p.engine) m) w (.ret s) t' →
      (∀ x ∈ P.actions, x.1 = .noOp ↔ ∃ i, processOf w.state x.2 = some i ∧ i ∈ t'.procs) ∧
        (P.changes = 0 ↔ w.state = some s) := by
  intro h
  obtain ⟨P, hP, hplan⟩ := exec_reach_returns still_well (n := 9)
    (p := commandPlan (fun p => .ok p.engine) renamed) (s := applied)
    (P := fun P => decide (P.changes = 0)) (by decide +kernel)
  obtain ⟨s, hs, happly⟩ := exec_reach_returns still_well (n := 30)
    (p := apply (fun p => .ok p.engine) renamed) (s := applied)
    (P := fun s => decide (s.factoryName = "other")) (by decide +kernel)
  obtain ⟨-, hchanges⟩ := h renamed applied _ _ P s (by decide) hplan happly
  have hstate := hchanges.mp (of_decide_eq_true hP)
  have hname : applied.state.any (fun s => s.factoryName = "factory") = true := by decide +kernel
  rw [hstate, Option.any_some, of_decide_eq_true hs] at hname
  cases hname

end Bimo.Factory
