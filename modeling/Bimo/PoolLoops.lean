import Bimo.PoolCalls
import Mathlib.Data.List.Perm.Subperm
import Mathlib.Logic.Function.Iterate

/-!
How long the loops over a pool go on.

A claim tries one ready guest after the other, and a warming loop warms one after the other. A
guest that fails is put back at most once, and only by the warming loop, so both loops use up the
ready guests there are. Other processes go on meanwhile: before each call they may do anything
that does not make a guest ready or fit.
-/

namespace Bimo.PoolLoops

open Proxmox Relation

/-! ### Rounds -/

section

variable (S : Settings)

/-- One round of a claim, and what it goes on with when the guest would not bind. -/
def claimRound (q : Request) (pid : ℕ) (again : Io Claim) : Io Claim := do
  match ← pool (.take q.tenant q.agent q.warm) with
  | none => coldClaim S q pid
  | some g => do
    match ← attempt (bindTaken q g) with
    | .ok (claimId, credential, status, goToken) => do
      tryAsk (.created q.agent g.vmid) fun x => x
      return {
        vmid := g.vmid, address := g.address, claimId := claimId, credential := credential,
        pooled := true, templateVersion := g.templateVersion.getD "", status := status,
        goToken := goToken }
    | .error _ => do
      mark g.vmid .cloning none
      again

lemma claimLoop_eq (q : Request) (pid n : ℕ) :
    claimLoop S q pid n = (claimRound S q pid)^[n] (.fail (failedError "stopped")) := by
  induction n with
  | zero => rfl
  | succ n ih =>
    rw [Function.iterate_succ_apply', ← ih]
    rfl

/-- One round of a warming loop. -/
def warmRound (tenant version : String) (recipe : WarmRecipe) (egress : String) (pid : ℕ)
    (again : List ℕ → Io Unit) (retried : List ℕ) : Io Unit := do
  match ← pool (.takeUnwarmed tenant version pid) with
  | none => return ()
  | some g => do
    match ← attempt (warmGuest S g recipe egress) with
    | .ok _ => do
      pool (.setWarm g.vmid recipe.key)
      again retried
    | .error _ => do
      if ← restarted g retried then do
        ask (.removeSecrets g.vmid)
        mark g.vmid .ready none
        again (g.vmid :: retried)
      else do
        discard S g.vmid
        again retried

lemma warmLoop_eq (tenant version : String) (recipe : WarmRecipe) (egress : String) (pid n : ℕ) :
    warmLoop S tenant version recipe egress pid n =
      (warmRound S tenant version recipe egress pid)^[n]
        fun _ => .fail (failedError "stopped") := by
  induction n with
  | zero => rfl
  | succ n ih =>
    rw [Function.iterate_succ_apply', ← ih]
    rfl

end

/-! ### Other processes -/

/-- The call adds a ready guest. -/
def addsReady : Call → Bool
  | .pool (.mark _ .ready _) | .pool (.setWarm _ _) => true
  | _ => false

/-- The call makes a ready guest fit: it takes the pool to another version, or a guest's warm
runtime away. -/
def refits (s : World) : Call → Bool
  | .pool (.review _ version) => s.shelf.templateVersion ≠ some version
  | .pool (.unwarm _) => true
  | _ => false

/-- What another process does, but for the calls that are excluded, or happens by itself. -/
inductive Others (S : Settings) (excluded : World → Call → Bool) (s : World) : World → Prop
  | call {c : Call} {r : c.Ret} {t : World} (hc : excluded s c = false) (h : step S s c r t) :
    Others S excluded s t
  | moves {t : World} (h : Moves s t) : Others S excluded s t

/-- The rounds that have begun, and the guests a warming loop has begun with. -/
structure Tally where
  rounds : ℕ := 0
  handled : List ℕ := []

def tally (l : Tally) : (c : Call) → c.Ret → Tally
  | .pool (.take _ _ _), _ => { l with rounds := l.rounds + 1 }
  | .pool (.takeUnwarmed _ _ _), .ok (some g) =>
    { rounds := l.rounds + 1, handled := g.vmid :: l.handled }
  | .pool (.takeUnwarmed _ _ _), _ => { l with rounds := l.rounds + 1 }
  | _, _ => l

/-- A process with others beside it. -/
def beside (S : Settings) (excluded : World → Call → Bool) : Env Call Call.Ret (World × Tally) where
  step s c r t := ∃ u, ReflTransGen (Others S excluded) s.1 u ∧ step S u c r t.1 ∧
    t.2 = tally s.2 c r

/-- The call begins a round. -/
def starts : Call → Bool
  | .pool (.take _ _ _) | .pool (.takeUnwarmed _ _ _) => true
  | _ => false

/-- Not more than so many rounds begin. -/
def atMost (n : ℕ) (s : World × Tally) (c : Call) : Prop := starts c = true → s.2.rounds < n

lemma starts_of_plain {c : Call} (h : plain c = true) : starts c = false := by
  unfold starts
  split
  · cases h
  · cases h
  · rfl

/-! ### Ready guests -/

def readyOf (s : World) : List PoolGuest := s.shelf.guests.filter (·.state = .ready)

/-- No ready guest is new, and the pool is at the same version. -/
structure Less (s t : World) : Prop where
  ready : (readyOf t).Sublist (readyOf s)
  version : t.shelf.templateVersion = s.shelf.templateVersion

lemma Less.refl (s : World) : Less s s := ⟨.refl _, rfl⟩

lemma Less.trans {s t u : World} (h : Less s t) (h' : Less t u) : Less s u :=
  ⟨h'.ready.trans h.ready, h'.version.trans h.version⟩

variable {S : Settings}

lemma filter_modifyFirst_sublist {p q : PoolGuest → Bool} {f : PoolGuest → PoolGuest}
    (h : ∀ g, p g = true → q (f g) = false) (l : List PoolGuest) :
    ((modifyFirst p f l).filter q).Sublist (l.filter q) := by
  induction l with
  | nil => exact .slnil
  | cons g l ih =>
    rw [modifyFirst]
    split_ifs with hp
    · rw [List.filter_cons_of_neg (by rw [h g hp]; exact Bool.false_ne_true)]
      exact (List.sublist_cons_self g l).filter q
    · rw [List.filter_cons, List.filter_cons]
      split_ifs
      · exact ih.cons_cons g
      · exact ih

lemma less_run {s : Shelf} {c : Section} {o : Oracle} {x : c.Ret} {t : Shelf}
    (hadds : addsReady (.pool c) = false) (hunwarm : ∀ vmid, c ≠ .unwarm vmid)
    (hversion : ∀ tenant version, c = .review tenant version → s.templateVersion = some version)
    (h : c.run S o s = .ok (x, t)) :
    (t.guests.filter (·.state = .ready)).Sublist (s.guests.filter (·.state = .ready)) ∧
      t.templateVersion = s.templateVersion := by
  cases c with
  | take | takeUnwarmed =>
    obtain ⟨-, rfl⟩ := Prod.mk.inj (Except.ok.inj h)
    exact ⟨filter_modifyFirst_sublist (fun _ _ => rfl) _, rfl⟩
  | mark vmid state agent =>
    obtain ⟨-, rfl⟩ := Prod.mk.inj (Except.ok.inj h)
    refine ⟨filter_modifyFirst_sublist (fun g _ => ?_) _, rfl⟩
    cases state with
    | ready => cases hadds
    | cloning | claimed => rfl
  | forget vmid =>
    obtain ⟨-, rfl⟩ := Prod.mk.inj (Except.ok.inj h)
    exact ⟨List.filter_sublist.filter _, rfl⟩
  | review tenant version =>
    obtain ⟨-, rfl⟩ := Prod.mk.inj (Except.ok.inj h)
    exact ⟨.refl _, (hversion tenant version rfl).symm⟩
  | unwarm vmid => exact absurd rfl (hunwarm vmid)
  | setWarm => cases hadds
  | reserve tenant agent version pid seen =>
    obtain ⟨⟨vmid, addresses⟩, -, h⟩ := bind_eq_ok.mp h
    obtain ⟨-, rfl⟩ := Prod.mk.inj (Except.ok.inj h)
    refine ⟨?_, rfl⟩
    rw [List.filter_append, List.filter_cons_of_neg (by exact nofun), List.filter_nil,
      List.append_nil]
  | reserveProxy tenant vlan version pid seen =>
    obtain ⟨⟨vmid, addresses⟩, -, h⟩ := bind_eq_ok.mp h
    obtain ⟨-, rfl⟩ := Prod.mk.inj (Except.ok.inj h)
    exact ⟨.refl _, rfl⟩
  | held | ready | outdated | warmed | victims =>
    obtain ⟨-, rfl⟩ := Prod.mk.inj (Except.ok.inj h)
    exact ⟨.refl _, rfl⟩

/-- A call that neither adds a ready guest nor makes one fit. -/
lemma less_step {s t : World} {c : Call} {r : c.Ret} (hadds : addsReady c = false)
    (hrefits : refits s c = false) (h : step S s c r t) : Less s t := by
  rcases pool_of_step h with ⟨hguests, hversion⟩ | ⟨sec, o, x, rfl, hrun⟩
  · exact ⟨by rw [readyOf, readyOf, hguests], hversion⟩
  · obtain ⟨hready, hversion⟩ := less_run hadds (by rintro vmid rfl; cases hrefits)
      (by
        rintro tenant version rfl
        simpa [refits] using hrefits) hrun
    exact ⟨hready, hversion⟩

/-- The calls of other processes that are excluded. -/
def spoils (s : World) (c : Call) : Bool := addsReady c || refits s c

lemma less_others {s t : World} (h : ReflTransGen (Others S spoils) s t) : Less s t := by
  induction h with
  | refl => exact .refl s
  | tail _ h ih =>
    refine ih.trans ?_
    cases h with
    | call hc h =>
      obtain ⟨hadds, hrefits⟩ := Bool.or_eq_false_iff.mp hc
      exact less_step hadds hrefits h
    | moves h => cases h <;> exact ⟨.refl _, rfl⟩

/-- Plain calls use up no more than others do, and begin no round. -/
lemma safe_plain {ε α : Type} {p : Prog Call Call.Ret ε α} (hp : Plain p)
    {pre : World × Tally → Call → Prop} {s : World × Tally}
    (hpre : ∀ t c, t.2 = s.2 → plain c = true → pre t c) :
    Safe (beside S spoils) pre p s fun _ t => Less s.1 t.1 ∧ t.2 = s.2 := by
  have htally : ∀ (c : Call) (r : c.Ret) (l : Tally), plain c = true → tally l c r = l := by
    intro c r l hc
    unfold tally
    split
    · cases hc
    · cases hc
    · cases hc
    · rfl
  have hless : ∀ (s t : World) (c : Call) (r : c.Ret), plain c = true → step S s c r t →
      Less s t := by
    intro s t c r hc h
    refine less_step ?_ ?_ h
    · unfold addsReady
      split
      · cases hc
      · cases hc
      · rfl
    · unfold refits
      split
      · cases hc
      · cases hc
      · rfl
  have hmain : ∀ t : World × Tally, Less s.1 t.1 → t.2 = s.2 →
      Safe (beside S spoils) pre p t fun _ t => Less s.1 t.1 ∧ t.2 = s.2 := by
    induction p with
    | ret a => exact fun t hl ht => ⟨hl, ht⟩
    | fail e => exact fun t hl ht => ⟨hl, ht⟩
    | call c k ih =>
      intro t hl ht
      refine ⟨hpre t c ht hp.1, ?_⟩
      rintro r v ⟨u, hothers, hstep, htal⟩
      refine ih r (hp.2 r) v ((hl.trans (less_others hothers)).trans
        (hless _ _ c r hp.1 hstep)) ?_
      rw [htal, htally c r t.2 hp.1, ht]
  exact hmain s (.refl s.1) rfl

/-- What follows plain calls, whether they failed or not. -/
lemma safe_then {ε α β : Type} {p : Prog Call Call.Ret ε α} (hp : Plain p)
    {pre : World × Tally → Call → Prop} {Q : Except FabricError β → World × Tally → Prop}
    {s : World × Tally} (hpre : ∀ t c, t.2 = s.2 → plain c = true → pre t c)
    {f : Except ε α → Io β}
    (hf : ∀ x t, Less s.1 t.1 → t.2 = s.2 → Safe (beside S spoils) pre (f x) t Q) :
    Safe (beside S spoils) pre (attempt p >>= f) s Q :=
  Safe.bind (R := fun r t => r.isOk = true ∧ Less s.1 t.1 ∧ t.2 = s.2)
    ((safe_attempt p s _).mpr ((safe_plain hp hpre).mono fun _ _ h => ⟨rfl, h⟩))
    (fun x t h => hf x t h.2.1 h.2.2) fun _ _ h => by cases h.1

/-! ### Claims -/

/-- The guests that a claim of the tenant may take. -/
def usableOf (s : World) (tenant : String) : ℕ := s.shelf.guests.countP (usable s.shelf tenant)

lemma usable_ready {s : Shelf} {tenant : String} {g : PoolGuest} (h : usable s tenant g = true) :
    g.state = .ready := by
  simp only [usable, Bool.and_eq_true, decide_eq_true_eq] at h
  exact h.1.1.2

lemma usable_congr {s t : Shelf} (h : t.templateVersion = s.templateVersion) (tenant : String) :
    usable t tenant = usable s tenant := by
  funext g
  simp only [usable, h]

lemma Less.usableOf_le {s t : World} (h : Less s t) (tenant : String) :
    usableOf t tenant ≤ usableOf s tenant := by
  have hready : ∀ u : World, usableOf u tenant =
      (readyOf u).countP (usable u.shelf tenant) := by
    intro u
    rw [usableOf, readyOf, List.countP_filter]
    refine List.countP_congr fun g _ => ?_
    rw [Bool.and_eq_true, decide_eq_true_eq]
    exact ⟨fun hg => ⟨hg, usable_ready hg⟩, fun hg => hg.1⟩
  rw [hready, hready, usable_congr h.version]
  exact h.ready.countP_le

/-- Of the guests as described there is one fewer, when the first one of some is no more. -/
lemma countP_modifyFirst {p q : PoolGuest → Bool} {f : PoolGuest → PoolGuest} {l : List PoolGuest}
    {g : PoolGuest} (hpq : ∀ g, p g = true → q g = true) (hf : ∀ g, q (f g) = false)
    (h : l.find? p = some g) : (modifyFirst p f l).countP q + 1 = l.countP q := by
  induction l with
  | nil => cases h
  | cons x l ih =>
    rw [modifyFirst]
    by_cases hp : p x = true
    · rw [if_pos hp, List.countP_cons_of_neg (by rw [hf]; exact Bool.false_ne_true),
        List.countP_cons_of_pos (hpq x hp)]
    · rw [List.find?_cons_of_neg hp] at h
      rw [if_neg hp, List.countP_cons, List.countP_cons, ← ih h]
      omega

/-- A claim that takes a guest leaves one fewer. -/
lemma usableOf_take {s t : World} {tenant agent : String} {warm : Option String} {g : PoolGuest}
    (h : step S s (.pool (.take tenant agent warm)) (.ok (some g)) t) :
    usableOf t tenant + 1 = usableOf s tenant := by
  rcases h with ⟨o, x, shelf, hrun, hx, h⟩ | ⟨hok, -⟩
  · obtain rfl := hx _ rfl
    obtain ⟨hfind, rfl⟩ := Prod.mk.inj (Except.ok.inj hrun)
    rcases h with rfl | ⟨hok, -⟩
    · refine countP_modifyFirst (fun g hg => ?_) (fun g => ?_) hfind
      · exact (Bool.and_eq_true _ _).mp hg |>.1
      · simp [usable, claimedFor]
    · cases hok
  · cases hok

lemma safe_claimRounds (q : Request) (pid : ℕ) (last : Io Claim) {n N : ℕ} {s : World × Tally}
    (hn : usableOf s.1 q.tenant < n) (hN : s.2.rounds + usableOf s.1 q.tenant ≤ N) :
    Safe (beside S spoils) (atMost (N + 1)) ((claimRound S q pid)^[n] last) s
      fun _ _ => True := by
  induction n generalizing s with
  | zero => exact absurd hn (Nat.not_lt_zero _)
  | succ n ih =>
    rw [Function.iterate_succ_apply']
    have hplain : ∀ t u : World × Tally, ∀ c, u.2 = t.2 → plain c = true →
        atMost (N + 1) u c := by
      intro t u c _ hc hstarts
      rw [starts_of_plain hc] at hstarts
      cases hstarts
    refine ⟨fun _ => by omega, ?_⟩
    rintro r t ⟨u, hothers, hstep, htally⟩
    have hle := (less_others hothers).usableOf_le q.tenant
    cases r with
    | error e => trivial
    | ok picked =>
      cases picked with
      | none =>
        exact (safe_plain (plain_coldClaim S q pid) (hplain _)).mono
          fun _ _ _ => trivial
      | some g =>
        have htake := usableOf_take hstep
        refine safe_then (plain_bindTaken q g) (hplain t) fun bound v hless hv => ?_
        cases bound with
        | ok b =>
          refine (safe_plain (plain_bind (plain_tryAsk rfl) fun _ => plain_ret _)
            (hplain _)).mono fun _ _ _ => trivial
        | error e =>
          refine ⟨(fun hstarts => by cases hstarts), ?_⟩
          rintro m w ⟨x, hothers', hmark, hw⟩
          cases m with
          | error e => trivial
          | ok _ =>
            have hless' := (hless.trans (less_others hothers')).trans
              (less_step rfl rfl hmark)
            have hround : w.2.rounds = s.2.rounds + 1 := by
              rw [hw, hv, htally]
              rfl
            have := hless'.usableOf_le q.tenant
            exact ih (by omega) (by omega)

/-! ### Warming -/

/-- The VMIDs of the guests a warming loop is after. -/
def coldOf (tenant version : String) (s : World) : List ℕ :=
  vmidsOf s.shelf (canWarm tenant version)

/-- Every guest is begun with at most twice for each time it was there, and not more rounds begin
than that takes. -/
def Twice (there : List ℕ) (l : Tally) : Prop := ∀ v, l.handled.count v ≤ 2 * there.count v

def twice (there : List ℕ) (s : World × Tally) (c : Call) : Prop :=
  Twice there s.2 ∧ (starts c = true → s.2.rounds < 2 * there.length + 1)

variable {tenant version : String}

lemma canWarm_ready {g : PoolGuest} (h : canWarm tenant version g = true) : g.state = .ready := by
  simp only [canWarm, isReady, Bool.and_eq_true, decide_eq_true_eq] at h
  exact h.1.1.2

lemma Less.coldOf_sublist {s t : World} (h : Less s t) :
    (coldOf tenant version t).Sublist (coldOf tenant version s) := by
  have hready : ∀ u : World, coldOf tenant version u =
      ((readyOf u).filter (canWarm tenant version)).map (·.vmid) := by
    intro u
    rw [coldOf, vmidsOf, readyOf, List.filter_filter]
    congr 1
    refine List.filter_congr fun g _ => ?_
    rw [Bool.eq_iff_iff, Bool.and_eq_true, decide_eq_true_eq]
    exact ⟨fun hg => ⟨hg, canWarm_ready hg⟩, fun hg => hg.1⟩
  rw [hready, hready]
  exact (h.ready.filter _).map _

/-- Taking the first of the guests takes its VMID from the list. -/
lemma count_take {p : PoolGuest → Bool} {f : PoolGuest → PoolGuest} {l : List PoolGuest}
    {g : PoolGuest} (hf : ∀ g, p (f g) = false) (h : l.find? p = some g) (v : ℕ) :
    (((modifyFirst p f l).filter p).map (·.vmid)).count v + (if g.vmid = v then 1 else 0) =
      ((l.filter p).map (·.vmid)).count v := by
  induction l with
  | nil => cases h
  | cons x l ih =>
    rw [modifyFirst]
    by_cases hp : p x = true
    · rw [List.find?_cons_of_pos hp] at h
      obtain rfl := Option.some.inj h
      rw [if_pos hp, List.filter_cons_of_neg (by rw [hf]; exact Bool.false_ne_true),
        List.filter_cons_of_pos hp, List.map_cons, List.count_cons]
      simp only [beq_iff_eq]
    · rw [List.find?_cons_of_neg hp] at h
      rw [if_neg hp, List.filter_cons_of_neg hp, List.filter_cons_of_neg hp]
      exact ih h

/-- Changing a guest adds its VMID at most. -/
lemma count_change {q : PoolGuest → Bool} {f : PoolGuest → PoolGuest}
    (hf : ∀ g, (f g).vmid = g.vmid) (w v : ℕ) (l : List PoolGuest) :
    (((modifyFirst (·.vmid = w) f l).filter q).map (·.vmid)).count v ≤
      ((l.filter q).map (·.vmid)).count v + if w = v then 1 else 0 := by
  induction l with
  | nil => exact Nat.zero_le _
  | cons x l ih =>
    rw [modifyFirst]
    by_cases hw : x.vmid = w
    · -- the guest is changed, and the ones behind it are not
      subst hw
      rw [if_pos (decide_eq_true rfl)]
      have htail : ((l.filter q).map (·.vmid)).count v ≤
          (((x :: l).filter q).map (·.vmid)).count v :=
        (((List.sublist_cons_self x l).filter q).map _).count_le v
      have hhead : (((f x :: l).filter q).map (·.vmid)).count v ≤
          ((l.filter q).map (·.vmid)).count v + if x.vmid = v then 1 else 0 := by
        rw [List.filter_cons]
        split
        · simp only [List.map_cons, List.count_cons, hf, beq_iff_eq]
          exact le_rfl
        · exact Nat.le_add_right _ _
      omega
    · rw [if_neg (by simpa using hw), List.filter_cons, List.filter_cons]
      split
      · simp only [List.map_cons, List.count_cons]
        omega
      · exact ih

lemma coldOf_take {s t : World} {pid : ℕ} {g : PoolGuest}
    (h : step S s (.pool (.takeUnwarmed tenant version pid)) (.ok (some g)) t) (v : ℕ) :
    (coldOf tenant version t).count v + (if g.vmid = v then 1 else 0) =
      (coldOf tenant version s).count v := by
  rcases h with ⟨o, x, shelf, hrun, hx, rfl⟩ | ⟨hok, -⟩
  · obtain rfl := hx _ rfl
    obtain ⟨hfind, rfl⟩ := Prod.mk.inj (Except.ok.inj hrun)
    obtain ⟨g₀, hg₀, rfl⟩ := Option.map_eq_some_iff.mp hfind
    exact count_take (fun g => by simp [canWarm, isReady, warming]) hg₀ v
  · cases hok

/-- A warmed guest is not one that the loop is after. -/
lemma coldOf_setWarm {s t : World} {vmid : ℕ} {key : String} {r : Except FabricError Unit}
    (h : step S s (.pool (.setWarm vmid key)) r t) :
    (coldOf tenant version t).Sublist (coldOf tenant version s) := by
  rcases pool_of_step h with ⟨hguests, -⟩ | ⟨sec, o, x, hsec, hrun⟩
  · rw [coldOf, coldOf, vmidsOf, vmidsOf, hguests]
  · cases hsec
    obtain ⟨-, hshelf⟩ := Prod.mk.inj (Except.ok.inj hrun)
    rw [coldOf, coldOf, ← hshelf]
    exact (filter_modifyFirst_sublist (fun g _ => by simp [canWarm, warmWith]) _).map _

lemma coldOf_mark {s t : World} {vmid : ℕ} {r : Except FabricError Unit}
    (h : step S s (.pool (.mark vmid .ready none)) r t) (v : ℕ) :
    (coldOf tenant version t).count v ≤
      (coldOf tenant version s).count v + if vmid = v then 1 else 0 := by
  rcases pool_of_step h with ⟨hguests, -⟩ | ⟨sec, o, x, hsec, hrun⟩
  · rw [coldOf, coldOf, vmidsOf, vmidsOf, hguests]
    exact Nat.le_add_right _ _
  · cases hsec
    obtain ⟨-, hshelf⟩ := Prod.mk.inj (Except.ok.inj hrun)
    rw [coldOf, coldOf, ← hshelf]
    exact @count_change _ (marked .ready none) (fun g => rfl) vmid v s.shelf.guests

/-- Of every guest, what has been begun with and what is left, with one more time for a guest that
is not yet retried, is no more than there was. -/
structure Fits (tenant version : String) (there retried : List ℕ) (s : World × Tally) : Prop where
  count : ∀ v, s.2.handled.count v + (coldOf tenant version s.1).count v +
    (if v ∈ retried then 0 else min 1 (there.count v)) ≤ there.count v + min 1 (there.count v)
  rounds : s.2.rounds = s.2.handled.length

variable {there retried : List ℕ} {s t : World × Tally}

lemma Fits.twice (h : Fits tenant version there retried s) : Twice there s.2 := fun v => by
  have := h.count v
  omega

lemma Twice.length_le {l : Tally} (h : Twice there l) : l.handled.length ≤ 2 * there.length := by
  have hsub : l.handled.Subperm (there ++ there) := List.subperm_iff_count.mpr fun v => by
    have := h v
    rw [List.count_append]
    omega
  have := hsub.length_le
  rw [List.length_append] at this
  omega

lemma Fits.mono (h : Fits tenant version there retried s)
    (hcold : (coldOf tenant version t.1).Sublist (coldOf tenant version s.1)) (ht : t.2 = s.2) :
    Fits tenant version there retried t := by
  refine ⟨fun v => ?_, by rw [ht]; exact h.rounds⟩
  have := h.count v
  have := hcold.count_le v
  rw [ht]
  omega

lemma Fits.less (h : Fits tenant version there retried s) (hless : Less s.1 t.1)
    (ht : t.2 = s.2) : Fits tenant version there retried t := h.mono hless.coldOf_sublist ht

/-- A guest that is retried was there, and is retried no more. -/
lemma Fits.retry {v : ℕ} (h : Fits tenant version there retried s)
    (hhandled : 0 < s.2.handled.count v) (hv : v ∉ retried)
    (hcold : ∀ w, (coldOf tenant version t.1).count w ≤
      (coldOf tenant version s.1).count w + if v = w then 1 else 0)
    (ht : t.2 = s.2) : Fits tenant version there (v :: retried) t := by
  refine ⟨fun w => ?_, by rw [ht]; exact h.rounds⟩
  have hw := h.count w
  have hc := hcold w
  rw [ht]
  by_cases hvw : v = w
  · subst hvw
    rw [if_neg hv] at hw
    rw [if_pos rfl] at hc
    rw [if_pos List.mem_cons_self]
    omega
  · have hmem : w ∈ v :: retried ↔ w ∈ retried :=
      List.mem_cons.trans (or_iff_right fun h => hvw h.symm)
    rw [if_neg hvw] at hc
    simp only [hmem]
    omega

lemma safe_warmRounds (recipe : WarmRecipe) (egress : String) (pid : ℕ)
    (last : List ℕ → Io Unit) {n : ℕ} (h : Fits tenant version there retried s)
    (hn : 2 * there.length < n + s.2.rounds) :
    Safe (beside S spoils) (twice there)
      ((warmRound S tenant version recipe egress pid)^[n] last retried) s
      fun _ t => Twice there t.2 := by
  induction n generalizing s retried with
  | zero =>
    have := h.twice.length_le
    have := h.rounds
    omega
  | succ n ih =>
    rw [Function.iterate_succ_apply']
    have hplain : ∀ t : World × Tally, Twice there t.2 → ∀ u c, u.2 = t.2 → plain c = true →
        twice there u c := by
      intro t ht u c hu hc
      refine ⟨hu ▸ ht, fun hstarts => ?_⟩
      rw [starts_of_plain hc] at hstarts
      cases hstarts
    have hrounds := h.rounds
    have hlength := h.twice.length_le
    refine ⟨⟨h.twice, fun _ => by omega⟩, ?_⟩
    rintro r t ⟨u, hothers, hstep, htally⟩
    cases r with
    | error e =>
      show Twice there t.2
      rw [htally]
      exact h.twice
    | ok picked =>
    cases picked with
    | none =>
      show Twice there t.2
      rw [htally]
      exact h.twice
    | some g =>
    have hhandled : t.2.handled = g.vmid :: s.2.handled := by rw [htally]; rfl
    have hround : t.2.rounds = s.2.rounds + 1 := by rw [htally]; rfl
    have hfits : Fits tenant version there retried t := by
      refine ⟨fun v => ?_, by rw [hround, hhandled, hrounds, List.length_cons]⟩
      have hu := (h.less (less_others hothers) (t := (u, s.2)) rfl).count v
      have htake := coldOf_take hstep v
      rw [hhandled, List.count_cons]
      simp only [beq_iff_eq]
      dsimp only at hu
      omega
    -- from here on this guest is begun with, and the loop goes on with what fits
    have hagain : ∀ retried (x : World × Tally), Fits tenant version there retried x →
        x.2 = t.2 → Safe (beside S spoils) (twice there)
          ((warmRound S tenant version recipe egress pid)^[n] last retried) x
          fun _ t => Twice there t.2 :=
      fun retried x hx hxt => ih hx (by rw [hxt, hround]; omega)
    refine safe_then (plain_warmGuest S g recipe egress) (hplain t hfits.twice)
      fun warmed v hless hv => ?_
    have hv' := hfits.less hless hv
    cases warmed with
    | ok _ =>
      refine ⟨⟨hv'.twice, (fun hstarts => by cases hstarts)⟩, ?_⟩
      rintro m w ⟨x, hothers', hset, hw⟩
      have hx := hv'.less (less_others hothers') (t := (x, v.2)) rfl
      have hw' := hx.mono (coldOf_setWarm hset) hw
      cases m with
      | error e => exact hw'.twice
      | ok _ => exact hagain retried w hw' (hw.trans hv)
    | error e =>
    have hdiscard : ∀ x : World × Tally, Fits tenant version there retried x → x.2 = t.2 →
        Safe (beside S spoils) (twice there) (discard S g.vmid >>= fun _ =>
          (warmRound S tenant version recipe egress pid)^[n] last retried) x
          fun _ t => Twice there t.2 := by
      intro x hx hxt
      refine Safe.bind (safe_plain (plain_discard S g.vmid) (hplain x hx.twice)) ?_ ?_
      · rintro _ w ⟨hless', hw⟩
        exact hagain retried w (hx.less hless' hw) (hw.trans hxt)
      · rintro _ w ⟨hless', hw⟩
        exact (hx.less hless' hw).twice
    by_cases hmem : g.vmid ∈ retried
    · have hrestarted : restarted g retried = .ret false := if_pos hmem
      show Safe _ _ (restarted g retried >>= _) _ _
      rw [hrestarted]
      exact hdiscard v hv' hv
    · refine Safe.bind (safe_plain (plain_restarted g retried) (hplain v hv'.twice)) ?_ ?_
      · rintro again w ⟨hless', hw⟩
        have hw' := hv'.less hless' hw
        cases again with
        | false => exact hdiscard w hw' (hw.trans hv)
        | true =>
          refine Safe.bind (safe_plain (plain_ask rfl) (hplain w hw'.twice)) ?_ ?_
          · rintro _ x ⟨hless'', hx⟩
            have hx' := hw'.less hless'' hx
            refine ⟨⟨hx'.twice, (fun hstarts => by cases hstarts)⟩, ?_⟩
            rintro m y ⟨z, hothers', hmark, hy⟩
            have hz := hx'.less (less_others hothers') (t := (z, x.2)) rfl
            have hcount : 0 < x.2.handled.count g.vmid := by
              rw [hx, hw, hv, hhandled, List.count_cons_self]
              exact Nat.succ_pos _
            have hy' := hz.retry hcount hmem (coldOf_mark hmark) hy
            cases m with
            | error e => exact hy'.twice
            | ok _ => exact hagain _ y hy' (((hy.trans hx).trans hw).trans hv)
          · rintro _ x ⟨hless'', hx⟩
            exact (hw'.less hless'' hx).twice
      · rintro _ w ⟨hless', hw⟩
        exact (hv'.less hless' hw).twice

lemma fits_start (tenant version : String) (s : World) :
    Fits tenant version (coldOf tenant version s) [] (s, {}) := by
  refine ⟨fun v => ?_, rfl⟩
  rw [if_neg List.not_mem_nil, List.count_nil, Nat.zero_add]

/-- **The loops over a pool end.** From any records, with any answers of the cluster and the
guests, and with other processes that make no guest ready or fit: a claim begins at most one round
more than there are guests it may take; a warming loop begins with every guest at most twice for
each time it was there to be warmed, and begins at most one round more than that makes. So what
would come after more rounds than that does not matter. -/
theorem pool_loops_end (S : Settings) (s : World) :
    (∀ (q : Request) (pid : ℕ) (last : Io Claim) (n : ℕ), usableOf s q.tenant < n →
      Safe (beside S spoils) (atMost (usableOf s q.tenant + 1)) ((claimRound S q pid)^[n] last)
        (s, {}) fun _ _ => True) ∧
    ∀ (tenant version : String) (recipe : WarmRecipe) (egress : String) (pid : ℕ)
      (last : List ℕ → Io Unit) (n : ℕ), 2 * (coldOf tenant version s).length < n →
      Safe (beside S spoils) (twice (coldOf tenant version s))
        ((warmRound S tenant version recipe egress pid)^[n] last []) (s, {})
        fun _ t => Twice (coldOf tenant version s) t.2 :=
  ⟨fun q pid last _ hn => safe_claimRounds q pid last hn (Nat.zero_add _).le,
    fun tenant version recipe egress pid last _ hn =>
      safe_warmRounds recipe egress pid last (fits_start tenant version s) hn⟩

/-! ### Loops on one guest -/

def oneTarget : Settings where
  target := "g"
  node := "n"
  pool := "p"
  vmidLow := 100
  vmidHigh := 109
  addresses := ⟨10, 19⟩

/-- A pool of one ready guest. -/
def oneGuest (templateVersion : Option String) : World where
  shelf := {
    templateVersion
    guests := [⟨100, "n", "t", 10, .ready, some "1", none, none, none⟩] }

def oneClaim : Request := ⟨"t", "a", none, none⟩

def oneRecipe : WarmRecipe := ⟨"k-1", 1, 0⟩

/-- One guest allows a claim two rounds, and a warming loop three. -/
theorem pool_loops_end_one :
    Safe (beside oneTarget spoils) (atMost 2) (claimLoop oneTarget oneClaim 0 2)
      (oneGuest (some "1"), {}) (fun _ _ => True) ∧
    Safe (beside oneTarget spoils) (twice [100])
      (warmLoop oneTarget "t" "1" oneRecipe "e" 0 3 []) (oneGuest (some "1"), {})
      fun _ t => Twice [100] t.2 := by
  rw [claimLoop_eq, warmLoop_eq]
  exact ⟨(pool_loops_end oneTarget (oneGuest (some "1"))).1 oneClaim 0 _ 2 (by decide),
    (pool_loops_end oneTarget (oneGuest (some "1"))).2 "t" "1" oneRecipe "e" 0 _ 3 (by decide)⟩

/-- A run in which some calls fail and some come after another process's call, up to its next
call. -/
def walk (S : Settings) (fails : ℕ → Call → Bool) (other : ℕ → Option Call) {ε α : Type} :
    ℕ → ℕ → Prog Call Call.Ret ε α → World × Tally → Option (Call × World × Tally)
  | 0, _, .call c _, s => some (c, s)
  | n + 1, i, .call c k, s =>
    let u := (other i).elim s.1 fun c' => demoNext S s.1 c' (goodAnswer S s.1 c')
    let r := demoAnswer S fails i u c
    walk S fails other n (i + 1) (k r) (demoNext S u c r, tally s.2 c r)
  | _, _, _, _ => none

lemma pre_of_walk {fails : ℕ → Call → Bool} {other : ℕ → Option Call} {ε α : Type}
    {excluded : World → Call → Bool} {pre : World × Tally → Call → Prop}
    {Q : Except ε α → World × Tally → Prop} {n i : ℕ} {p : Prog Call Call.Ret ε α}
    {s t : World × Tally} {c : Call}
    (hother : ∀ i c, other i = some c → ∀ w, excluded w c = false)
    (h : Safe (beside S excluded) pre p s Q) (hw : walk S fails other n i p s = some (c, t)) :
    pre t c := by
  induction n generalizing i p s with
  | zero =>
    cases p with
    | call c' k =>
      obtain ⟨rfl, rfl⟩ := Prod.mk.inj (Option.some.inj hw)
      exact h.1
    | ret | fail => cases hw
  | succ n ih =>
    cases p with
    | call c' k =>
      refine ih (h.2 _ _ ⟨_, ?_, step_demo S fails i _ c', rfl⟩) hw
      cases ho : other i with
      | none => exact .refl
      | some c'' => exact .single (.call (hother i c'' ho s.1) (step_good S s.1 c''))
    | ret | fail => cases hw

/-- The bind agent does not answer the second call. -/
def bindFails (i : ℕ) : Call → Bool
  | .bind _ _ _ => i == 1
  | _ => false

/-- Another process brings the pool to a version, or finds a guest's warm runtime gone. -/
def reviews (i : ℕ) : Option Call := if i = 0 then some (.pool (.review "u" "1")) else none

def unwarms (i : ℕ) : Option Call := if i = 13 then some (.pool (.unwarm 100)) else none

/-- Other processes that add no ready guest make the loops longer all the same. -/
theorem others_prolong :
    (usableOf (oneGuest none) "t" = 0 ∧
      ¬Safe (beside oneTarget fun _ => addsReady) (atMost (0 + 1))
        (claimLoop oneTarget oneClaim 0 2) (oneGuest none, {}) fun _ _ => True) ∧
    coldOf "t" "1" (oneGuest (some "1")) = [100] ∧
      ¬Safe (beside oneTarget fun _ => addsReady) (fun s _ => Twice [100] s.2)
        (warmLoop oneTarget "t" "1" oneRecipe "e" 0 4 []) (oneGuest (some "1"), {})
        fun _ _ => True := by
  refine ⟨⟨by decide, fun h => ?_⟩, by decide, fun h => ?_⟩
  · have hwalk : ((walk oneTarget bindFails reviews 3 0 (claimLoop oneTarget oneClaim 0 2)
        (oneGuest none, {})).any fun x => starts x.1 && decide (1 ≤ x.2.2.rounds)) = true := by
      decide +kernel
    obtain ⟨⟨c, t⟩, hc, hx⟩ := (Option.any_eq_true _ _).mp hwalk
    simp only [Bool.and_eq_true, decide_eq_true_eq] at hx
    have hpre := pre_of_walk (fun i c ho w => ?_) h hc hx.1
    · omega
    · unfold reviews at ho
      split_ifs at ho
      obtain rfl := Option.some.inj ho
      rfl
  · have hwalk : ((walk oneTarget bindFails unwarms 14 0
        (warmLoop oneTarget "t" "1" oneRecipe "e" 0 4 []) (oneGuest (some "1"), {})).any fun x =>
          decide (3 ≤ x.2.2.handled.count 100)) = true := by decide +kernel
    obtain ⟨⟨c, t⟩, hc, hx⟩ := (Option.any_eq_true _ _).mp hwalk
    have hpre := pre_of_walk (fun i c ho w => ?_) h hc 100
    · have hcount : [100].count 100 = 1 := rfl
      rw [hcount] at hpre
      have := of_decide_eq_true hx
      dsimp only at this
      omega
    · unfold unwarms at ho
      split_ifs at ho
      obtain rfl := Option.some.inj ho
      rfl

end Bimo.PoolLoops
