import Bimo.PoolCalls

/-!
How many guests the fills of a tenant hold.

A fill counts the tenant's guests in one section under the pool's lock and reserves another one
in a later section, with the request for the cluster's guests in between. So a reservation keeps
to the size of the pool as long as nothing has filled it up between the two.

Which processes are alive is part of the state here: a process may die at any time, and stays
dead. The note of a process is the tenant it has counted too few guests of, until it reserves.
-/

namespace Bimo.PoolSize

open Proxmox

/-! ### The target -/

structure Target where
  world : World := {}
  alive : ℕ → Bool := fun _ => true

/-- A guest of the tenant that a fill counts. -/
def counts (alive : ℕ → Bool) (tenant : String) (g : PoolGuest) : Bool :=
  g.tenant = tenant && g.claimedBy = none &&
    (g.state = .ready || (g.state = .cloning && g.owner.any alive))

/-- The unclaimed guests of the tenant that are ready or cloned by a process that is alive. -/
def heldOf (alive : ℕ → Bool) (tenant : String) (guests : List PoolGuest) : ℕ :=
  guests.countP (counts alive tenant)

def held (s : Target) (tenant : String) : ℕ := heldOf s.alive tenant s.world.shelf.guests

/-- A count is one of the processes that are alive. -/
def Counted (s : Target) : (c : Call) → c.Ret → Prop
  | .pool (.held tenant), .ok n => n = held s tenant
  | _, _ => True

def step (S : Settings) (s : Target) (c : Call) (r : c.Ret) (t : Target) : Prop :=
  Proxmox.step S s.world c r t.world ∧ t.alive = s.alive ∧ Counted s c r

inductive Moves (s : Target) : Target → Prop
  | world {w : World} (h : Proxmox.Moves s.world w) : Moves s { s with world := w }
  | dies (pid : ℕ) : Moves s { s with alive := Function.update s.alive pid false }

def note (size : ℕ) (g : Option String) : (c : Call) → c.Ret → Option String
  | .pool (.held tenant), .ok n => if n < size then some tenant else none
  | .pool (.reserve _ none _ _ _), _ => none
  | .listing, .error _ => none
  | _, _ => g

/-- The processes of a target, of any commands. -/
def system (S : Settings) :
    Threads Call Call.Ret FabricError (Option Claim) Target (Option String) where
  env := ⟨step S⟩
  idle := Moves
  begins g p := g = none ∧ ∃ (c : Command) (pid fuel : ℕ), p = c.program S pid fuel
  note := note S.warmPoolSize
  leaves _ := True

/-- The section adds to the tenant's guests that are counted: a reservation of a fill, or a guest
that is made ready although the process that had it is dead. -/
def Adds (s : Target) (tenant : String) : Section → Prop
  | .reserve owner none _ _ _ => owner = tenant
  | .mark vmid .ready _ | .setWarm vmid _ => ∃ g ∈ s.world.shelf.guests, g.vmid = vmid ∧
      g.tenant = tenant ∧ g.claimedBy = none ∧ counts s.alive tenant g = false
  | _ => False

/-- No pool is filled up while another process has counted it and not yet reserved. -/
def Spaced (size : ℕ) : Threads.Condition Call Call.Ret Target (Option String) :=
  fun s ns i c _ => ∀ sec tenant, c = .pool sec → Adds s tenant sec → size ≤ held s tenant + 1 →
    ∀ j, j ≠ i → ns j ≠ some (some tenant)

/-! ### What a section adds -/

variable {S : Settings} {alive : ℕ → Bool} {tenant : String}

lemma heldOf_append (l : List PoolGuest) (g : PoolGuest) : heldOf alive tenant (l ++ [g]) =
    heldOf alive tenant l + if counts alive tenant g then 1 else 0 := by
  unfold heldOf
  rw [List.countP_append, List.countP_singleton]

lemma heldOf_modifyFirst {p : PoolGuest → Bool} {f : PoolGuest → PoolGuest} {l : List PoolGuest}
    (h : ∀ g ∈ l, p g = true → counts alive tenant (f g) = true → counts alive tenant g = true) :
    heldOf alive tenant (modifyFirst p f l) ≤ heldOf alive tenant l := by
  unfold heldOf
  induction l with
  | nil => exact le_rfl
  | cons g l ih =>
    rw [modifyFirst]
    split_ifs with hp
    · rw [List.countP_cons, List.countP_cons]
      refine Nat.add_le_add_left ?_ _
      have hg := h g List.mem_cons_self hp
      split_ifs with hf hc
      · exact le_rfl
      · exact absurd (hg hf) hc
      · exact Nat.zero_le _
      · exact le_rfl
    · rw [List.countP_cons, List.countP_cons]
      exact Nat.add_le_add_right (ih fun x hx => h x (List.mem_cons_of_mem _ hx)) _

lemma heldOf_modifyFirst_succ (p : PoolGuest → Bool) (f : PoolGuest → PoolGuest)
    (l : List PoolGuest) :
    heldOf alive tenant (modifyFirst p f l) ≤ heldOf alive tenant l + 1 := by
  unfold heldOf
  induction l with
  | nil => exact Nat.zero_le _
  | cons g l ih =>
    rw [modifyFirst]
    split_ifs with hp
    · rw [List.countP_cons, List.countP_cons]
      split_ifs <;> omega
    · rw [List.countP_cons, List.countP_cons]
      omega

lemma counts_iff {g : PoolGuest} : counts alive tenant g = true ↔
    g.tenant = tenant ∧ g.claimedBy = none ∧
      (g.state = .ready ∨ (g.state = .cloning ∧ g.owner.any alive = true)) := by
  simp [counts, and_assoc]

/-- A guest that is changed by its VMID, to one that is counted only as ready and unclaimed. -/
lemma heldOf_change {s : Target} {vmid : ℕ} {f : PoolGuest → PoolGuest}
    (hf : ∀ g, counts s.alive tenant (f g) = true → g.tenant = tenant ∧ g.claimedBy = none)
    (hadd : ¬∃ g ∈ s.world.shelf.guests, g.vmid = vmid ∧ g.tenant = tenant ∧ g.claimedBy = none ∧
      counts s.alive tenant g = false) :
    heldOf s.alive tenant (modifyFirst (·.vmid = vmid) f s.world.shelf.guests) ≤
      held s tenant := by
  refine heldOf_modifyFirst fun g hg hv hc => ?_
  by_contra hnot
  obtain ⟨htenant, hclaimed⟩ := hf g hc
  exact hadd ⟨g, hg, of_decide_eq_true hv, htenant, hclaimed, Bool.not_eq_true _ ▸ hnot⟩

/-- A section leaves no more guests that are counted, unless it adds one. -/
lemma held_run {s : Target} {o : Oracle} {c : Section} {x : c.Ret} {shelf : Shelf}
    (h : c.run S o s.world.shelf = .ok (x, shelf)) :
    heldOf s.alive tenant shelf.guests ≤ held s tenant ∨
      (Adds s tenant c ∧ heldOf s.alive tenant shelf.guests ≤ held s tenant + 1) := by
  cases c with
  | take owner agent warm =>
    obtain ⟨-, rfl⟩ := Prod.mk.inj (Except.ok.inj h)
    refine .inl (heldOf_modifyFirst fun g _ _ hc => ?_)
    obtain ⟨-, hclaimed, -⟩ := counts_iff.mp hc
    cases hclaimed
  | mark vmid state agent =>
    obtain ⟨-, rfl⟩ := Prod.mk.inj (Except.ok.inj h)
    have hmarked : ∀ g, counts s.alive tenant (marked state agent g) = true →
        state = .ready ∧ g.tenant = tenant ∧ g.claimedBy = none := by
      intro g hc
      obtain ⟨htenant, hclaimed, hstate⟩ := counts_iff.mp hc
      obtain ⟨-, hclaimed⟩ := Option.or_eq_none_iff.mp hclaimed
      rcases hstate with hstate | ⟨-, howner⟩
      · exact ⟨hstate, htenant, hclaimed⟩
      · cases howner
    by_cases hready : state = .ready
    · subst hready
      by_cases hadd : Adds s tenant (.mark vmid .ready agent)
      · exact .inr ⟨hadd, heldOf_modifyFirst_succ _ _ _⟩
      · exact .inl (heldOf_change (fun g hc => (hmarked g hc).2) hadd)
    · exact .inl (heldOf_modifyFirst fun g _ _ hc => absurd (hmarked g hc).1 hready)
  | setWarm vmid key =>
    obtain ⟨-, rfl⟩ := Prod.mk.inj (Except.ok.inj h)
    by_cases hadd : Adds s tenant (.setWarm vmid key)
    · exact .inr ⟨hadd, heldOf_modifyFirst_succ _ _ _⟩
    · refine .inl (heldOf_change (fun g hc => ?_) hadd)
      obtain ⟨htenant, hclaimed, -⟩ := counts_iff.mp hc
      exact ⟨htenant, hclaimed⟩
  | forget vmid =>
    obtain ⟨-, rfl⟩ := Prod.mk.inj (Except.ok.inj h)
    exact .inl (List.Sublist.countP_le List.filter_sublist)
  | unwarm vmid =>
    obtain ⟨-, rfl⟩ := Prod.mk.inj (Except.ok.inj h)
    exact .inl (heldOf_modifyFirst fun g _ _ hc => hc)
  | takeUnwarmed owner version pid =>
    obtain ⟨-, rfl⟩ := Prod.mk.inj (Except.ok.inj h)
    refine .inl (heldOf_modifyFirst fun g _ hp hc => ?_)
    obtain ⟨htenant, hclaimed, -⟩ := counts_iff.mp hc
    have hready : g.state = .ready := by
      simp only [canWarm, isReady, Bool.and_eq_true, decide_eq_true_eq] at hp
      exact hp.1.1.2
    exact counts_iff.mpr ⟨htenant, hclaimed, .inl hready⟩
  | reserve owner agent version pid seen =>
    obtain ⟨⟨vmid, addresses⟩, -, h⟩ := bind_eq_ok.mp h
    obtain ⟨-, rfl⟩ := Prod.mk.inj (Except.ok.inj h)
    by_cases hadd : Adds s tenant (.reserve owner agent version pid seen)
    · refine .inr ⟨hadd, ?_⟩
      show heldOf s.alive tenant (s.world.shelf.guests ++ [_]) ≤ _
      rw [heldOf_append]
      split_ifs <;> simp [held]
    · refine .inl ?_
      show heldOf s.alive tenant (s.world.shelf.guests ++ [_]) ≤ _
      rw [heldOf_append, if_neg]
      · exact le_rfl
      · intro hc
        obtain ⟨htenant, hclaimed, -⟩ := counts_iff.mp hc
        obtain rfl : agent = none := hclaimed
        exact hadd htenant
  | reserveProxy owner vlan version pid seen =>
    obtain ⟨⟨vmid, addresses⟩, -, h⟩ := bind_eq_ok.mp h
    obtain ⟨-, rfl⟩ := Prod.mk.inj (Except.ok.inj h)
    exact .inl le_rfl
  | review | held | ready | outdated | warmed | victims =>
    obtain ⟨-, rfl⟩ := Prod.mk.inj (Except.ok.inj h)
    exact .inl le_rfl

/-- What a step adds is what its section adds, and one guest at most. -/
lemma held_step {s t : Target} {c : Call} {r : c.Ret} (h : step S s c r t) :
    held t tenant ≤ held s tenant ∨
      ∃ sec, c = .pool sec ∧ Adds s tenant sec ∧ held t tenant ≤ held s tenant + 1 := by
  obtain ⟨hstep, halive, -⟩ := h
  rcases pool_of_step hstep with ⟨hguests, -⟩ | ⟨sec, o, x, rfl, hrun⟩
  · left
    rw [held, held, halive, hguests]
  · rw [held, halive]
    rcases @held_run _ tenant _ _ _ _ _ hrun with hle | ⟨hadd, hle⟩
    · exact .inl hle
    · exact .inr ⟨sec, rfl, hadd, hle⟩

/-- What happens by itself adds nothing. -/
lemma held_moves {s t : Target} (h : Moves s t) : held t tenant ≤ held s tenant := by
  cases h with
  | world h => cases h <;> exact le_rfl
  | dies pid =>
    refine List.countP_mono_left fun g _ hc => ?_
    obtain ⟨htenant, hclaimed, hstate⟩ := counts_iff.mp hc
    refine counts_iff.mpr ⟨htenant, hclaimed, hstate.imp_right fun ⟨hcloning, howner⟩ => ?_⟩
    refine ⟨hcloning, ?_⟩
    obtain ⟨p, hp, halive⟩ := Option.any_eq_true _ _ |>.mp howner
    refine (Option.any_eq_true _ _).mpr ⟨p, hp, ?_⟩
    by_cases hpid : p = pid
    · subst hpid
      simp at halive
    · simpa [Function.update_of_ne hpid] using halive

/-! ### The programs -/

/-- What a call may be answered does not matter here. -/
def anyAnswer (_ : Option String) (c : Call) (_ : c.Ret) : Prop := True

/-- A process that has counted lists the cluster's guests and reserves for the tenant it has
counted, and no other one reserves for a fill. -/
def pre : Option String → Call → Prop
  | none, c => ∀ tenant version pid seen, c ≠ .pool (.reserve tenant none version pid seen)
  | some tenant, c =>
    c = .listing ∨ ∃ version pid seen, c = .pool (.reserve tenant none version pid seen)

/-- The calls that the note is about. -/
def counting : Call → Bool
  | .pool (.held _) | .pool (.reserve _ none _ _ _) => true
  | _ => false

/-- The program reserves for a fill only what it has counted itself. -/
def Fine {ε α : Type} (size : ℕ) (p : Prog Call Call.Ret ε α) : Prop :=
  Safe (.of anyAnswer (note size)) pre p none fun _ g => g = none

section Fine

variable {ε ε' α β : Type} {size : ℕ}

lemma fine_ret (a : α) : Fine size (.ret a : Prog Call Call.Ret ε α) := rfl

lemma fine_fail (e : ε) : Fine size (.fail e : Prog Call Call.Ret ε α) := rfl

lemma fine_ofExcept (x : Except ε α) : Fine size (.ofExcept x : Prog Call Call.Ret ε α) := by
  cases x with
  | ok a => exact fine_ret a
  | error e => exact fine_fail e

lemma fine_bind {p : Prog Call Call.Ret ε α} {f : α → Prog Call Call.Ret ε β}
    (hp : Fine size p) (hf : ∀ a, Fine size (f a)) : Fine size (p >>= f) :=
  Safe.bind hp (by rintro a _ rfl; exact hf a) fun _ _ ht => ht

lemma fine_attempt {p : Prog Call Call.Ret ε α} (hp : Fine size p) :
    Fine size (p.attempt : Prog Call Call.Ret ε' (Except ε α)) :=
  (safe_attempt p none _).mpr hp

lemma fine_each {f : α → Prog Call Call.Ret ε Unit} (hf : ∀ a, Fine size (f a)) (l : List α) :
    Fine size (Prog.each f l) := by
  induction l with
  | nil => exact fine_ret ()
  | cons a l ih => exact fine_bind (hf a) fun _ => ih

lemma note_none {c : Call} (hc : counting c = false) (r : c.Ret) : note size none c r = none := by
  unfold note
  split
  · cases hc
  · rfl
  · rfl
  · rfl

lemma fine_ask {c : Call} (hc : counting c = false) :
    Fine size (ask c : Prog Call Call.Ret ε _) := by
  refine ⟨?_, ?_⟩
  · rintro tenant version pid seen rfl
    cases hc
  · rintro r _ ⟨-, rfl⟩
    exact note_none hc r

lemma fine_tryAsk {c : Call} {f : c.Ret → Except ε α} (hc : counting c = false) :
    Fine size (tryAsk c f : Prog Call Call.Ret ε α) :=
  fine_bind (fine_ask hc) fun _ => fine_ofExcept _

/-- A program that neither counts nor reserves for a fill. -/
lemma fine_plain {p : Prog Call Call.Ret ε α} (hp : Plain p) : Fine size p := by
  have hcounting : ∀ c, plain c = true → counting c = false := by
    intro c hc
    unfold counting
    split
    · cases hc
    · cases hc
    · rfl
  refine safe_of_does (P := fun c => plain c = true) (R := fun _ => True) ?_ ?_ hp
    fun _ _ => rfl
  · rintro c hc tenant version pid seen rfl
    cases hc
  · rintro c r _ hc ⟨-, rfl⟩
    exact note_none (hcounting c hc) r

end Fine

section

variable {size : ℕ}

lemma fine_mark (vmid : ℕ) (state : GuestState) (agent : Option String) :
    Fine size (mark vmid state agent) := fine_tryAsk rfl

lemma fine_claimLoop (S : Settings) (q : Request) (pid fuel : ℕ) :
    Fine size (claimLoop S q pid fuel) := by
  induction fuel with
  | zero => exact fine_fail _
  | succ fuel ih =>
    refine fine_bind (fine_tryAsk rfl) fun picked => ?_
    cases picked with
    | none => exact fine_plain (plain_coldClaim S q pid)
    | some g =>
      refine fine_bind (fine_attempt (fine_plain (plain_bindTaken q g))) fun bound => ?_
      cases bound with
      | ok b => exact fine_bind (fine_tryAsk rfl) fun _ => fine_ret _
      | error e => exact fine_bind (fine_mark _ _ _) fun _ => ih

lemma fine_recheck (key egress : String) (g : PoolGuest) : Fine size (recheck key egress g) := by
  refine fine_bind (fine_attempt (fine_plain (plain_checkWarm g key _))) fun checked => ?_
  cases checked with
  | ok _ => exact fine_ret _
  | error e => exact fine_bind (fine_tryAsk rfl) fun _ => fine_ask rfl

lemma fine_warmLoop (S : Settings) (owner version : String) (recipe : WarmRecipe)
    (egress : String) (pid fuel : ℕ) (retried : List ℕ) :
    Fine size (warmLoop S owner version recipe egress pid fuel retried) := by
  induction fuel generalizing retried with
  | zero => exact fine_fail _
  | succ fuel ih =>
    refine fine_bind (fine_tryAsk rfl) fun picked => ?_
    cases picked with
    | none => exact fine_ret _
    | some g =>
      refine fine_bind (fine_attempt (fine_plain (plain_warmGuest S g recipe egress)))
        fun warmed => ?_
      cases warmed with
      | ok _ => exact fine_bind (fine_tryAsk rfl) fun _ => ih retried
      | error e =>
        refine fine_bind (fine_plain (plain_restarted g retried)) fun again => ?_
        split_ifs
        · exact fine_bind (fine_ask rfl) fun _ => fine_bind (fine_mark _ _ _) fun _ => ih _
        · exact fine_bind (fine_plain (plain_discard S _)) fun _ => ih retried

lemma fine_warmPool (S : Settings) (owner version : String) (recipe : WarmRecipe)
    (egress : String) (pid fuel : ℕ) :
    Fine size (warmPool S owner version recipe egress pid fuel) :=
  fine_bind (fine_tryAsk rfl) fun _ => fine_bind (fine_each (fine_recheck _ _) _) fun _ =>
    fine_warmLoop S owner version recipe egress pid fuel []

end

/-! ### Fills -/

/-- A fill counts, lists and reserves; in between its note is the tenant it has counted. -/
lemma fine_fillLoop (S : Settings) (owner version : String) (pid fuel : ℕ) :
    Fine S.warmPoolSize (fillLoop S owner version pid fuel) := by
  induction fuel with
  | zero => exact fine_fail _
  | succ fuel ih =>
    refine ⟨nofun, ?_⟩
    rintro r _ ⟨-, rfl⟩
    cases r with
    | error e => rfl
    | ok n =>
      show Safe _ _ (if n ≥ S.warmPoolSize then _ else _) (if n < S.warmPoolSize then _ else _) _
      by_cases hn : n < S.warmPoolSize
      · rw [if_pos hn, if_neg (Nat.not_le.mpr hn)]
        have hreserve : Safe (.of anyAnswer (note S.warmPoolSize)) pre
            (reserve owner none version pid) (some owner) fun _ g => g = none := by
          refine ⟨.inl rfl, ?_⟩
          rintro seen _ ⟨-, rfl⟩
          cases seen with
          | error e => rfl
          | ok seen =>
            refine ⟨.inr ⟨version, pid, seen, rfl⟩, ?_⟩
            rintro x _ ⟨-, rfl⟩
            exact fine_ofExcept x
        refine Safe.bind (R := fun _ g => g = none) ((safe_attempt _ _ _).mpr hreserve) ?_
          fun _ _ h => h
        rintro reserved _ rfl
        cases reserved with
        | error e => rfl
        | ok x =>
          refine fine_bind (fine_attempt (fine_plain (plain_cloneGuest S _ _ _ _))) fun cloned => ?_
          cases cloned with
          | ok _ => exact fine_bind (fine_mark _ _ _) fun _ => ih
          | error e => exact fine_plain (plain_discard S _)
      · rw [if_neg hn, if_pos (Nat.not_lt.mp hn)]
        rfl

lemma fine_destroyAll (S : Settings) {size : ℕ} (l : List ℕ) :
    Fine size (Prog.each (destroyAndForget S) l) :=
  fine_each (fun vmid => fine_plain (plain_destroyAndForget S vmid)) l

lemma fine_fill (S : Settings) (owner : String) (pid fuel : ℕ) :
    Fine S.warmPoolSize (fill S owner pid fuel) := by
  have hstopped : ∀ retired vmid, Fine S.warmPoolSize (retireStopped S retired vmid) := by
    intro retired vmid
    unfold retireStopped
    split_ifs
    · exact fine_ret _
    · refine fine_bind (fine_plain (plain_guestRunning S vmid)) fun running => ?_
      split_ifs
      · exact fine_ret _
      · exact fine_plain (plain_destroyAndForget S vmid)
  exact fine_bind (fine_ofExcept _) fun _ => fine_bind (fine_tryAsk rfl) fun version =>
    fine_bind (fine_tryAsk rfl) fun r => fine_bind (fine_destroyAll S _)
      fun _ => fine_bind (fine_destroyAll S _) fun _ =>
        fine_bind (fine_each (hstopped _) _) fun _ =>
          fine_bind (fine_fillLoop S owner version pid fuel) fun _ =>
            fine_bind (fine_tryAsk rfl) fun _ => fine_ret _

lemma fine_program (S : Settings) (pid fuel : ℕ) (c : Command) :
    Fine S.warmPoolSize (c.program S pid fuel) := by
  cases c with
  | claim q =>
    exact fine_bind (fine_bind (fine_ofExcept _) fun _ => fine_claimLoop S q pid fuel)
      fun _ => fine_ret _
  | fill owner => exact fine_bind (fine_fill S owner pid fuel) fun _ => fine_ret _
  | fillWarm owner recipe =>
    exact fine_bind (fine_bind (fine_plain (plain_ensureProxy S owner pid fuel)) fun proxy =>
      fine_bind (fine_fill S owner pid fuel) fun _ => fine_bind (fine_tryAsk rfl) fun version =>
        fine_bind (fine_tryAsk rfl) fun _ => fine_bind (fine_tryAsk rfl) fun _ =>
          fine_bind (fine_destroyAll S _) fun _ =>
            fine_bind (fine_warmPool S owner version recipe _ pid fuel) fun _ =>
              fine_bind (fine_tryAsk rfl) fun _ => fine_ret _) fun _ => fine_ret _
  | warm owner version recipe egress =>
    exact fine_bind (fine_warmPool S owner version recipe egress pid fuel) fun _ => fine_ret _
  | drain owner =>
    exact fine_bind (fine_bind (fine_tryAsk rfl) fun _ => fine_destroyAll S _)
      fun _ => fine_ret _
  | ensureProxy owner =>
    exact fine_bind (fine_plain (plain_ensureProxy S owner pid fuel)) fun _ => fine_ret _
  | proxyDown owner force serves =>
    exact fine_bind (fine_plain (plain_proxyDown S owner force serves)) fun _ => fine_ret _
  | destroy agent vmid =>
    exact fine_bind (fine_bind (fine_ofExcept _) fun _ => fine_plain (plain_destroyAndForget S vmid))
      fun _ => fine_ret _

/-! ### Reservations -/

/-- Where a process has counted too few guests of a tenant and not yet reserved, there are still
too few. -/
def Short (S : Settings) (s : Target) (ns : ℕ → Option (Option String)) : Prop :=
  ∀ j tenant, ns j = some (some tenant) → held s tenant < S.warmPoolSize

/-- The note a call leaves is of a tenant that the call has counted, or the one that was there. -/
lemma note_eq {size : ℕ} {g : Option String} {c : Call} {r : c.Ret} {tenant : String}
    (h : note size g c r = some tenant) :
    (∃ n, c = .pool (.held tenant) ∧ n < size ∧
      ∀ s : Target, Counted s c r → n = held s tenant) ∨
      (g = some tenant ∧
        ∀ owner version pid seen, c ≠ .pool (.reserve owner none version pid seen)) := by
  unfold note at h
  split at h
  · rename_i owner n
    split_ifs at h with hn
    obtain rfl := Option.some.inj h
    exact .inl ⟨n, rfl, hn, fun s hs => hs⟩
  · cases h
  · cases h
  · rename_i hreserve _
    refine .inr ⟨h, ?_⟩
    rintro owner version pid seen rfl
    exact hreserve owner version pid seen r rfl HEq.rfl

lemma keeps_short (S : Settings) : Threads.Keeps (system S) (Spaced S.warmPoolSize) pre
    (fun _ => True) (Short S) where
  start := by
    rintro s ns i g p - ⟨rfl, -⟩ h j tenant hj
    obtain ⟨-, hnone⟩ | ⟨-, hj⟩ := Threads.update_some hj
    · cases hnone
    · exact h j tenant hj
  call := by
    intro s ns i g c r t hi hpre hstep hM h j tenant hj
    obtain ⟨rfl, hnote⟩ | ⟨hne, hj'⟩ := Threads.update_some hj
    · -- the process that calls: it has just counted, or its note stands and it has not reserved
      have hadds := @held_step _ tenant _ _ _ _ hstep
      obtain ⟨n, rfl, hn, hcount⟩ | ⟨rfl, hno⟩ := note_eq hnote.symm
      · have hheld : held t tenant ≤ held s tenant := by
          rcases hadds with hle | ⟨sec, hsec, hadd, -⟩
          · exact hle
          · cases hsec
            exact hadd.elim
        rw [← hcount s hstep.2.2] at hheld
        omega
      · have hlisting : c = .listing := hpre.resolve_right
          fun ⟨version, pid, seen, hc⟩ => hno tenant version pid seen hc
        subst hlisting
        have hlt := h j tenant hi
        rcases @held_step _ tenant _ _ _ _ hstep with hle | ⟨sec, hsec, -⟩
        · omega
        · cases hsec
    · have hlt := h j tenant hj'
      rcases @held_step _ tenant _ _ _ _ hstep with hle | ⟨sec, rfl, hadd, hle⟩
      · omega
      · by_contra hfull
        exact hM sec tenant rfl hadd (by omega) j hne hj'
  leave := by
    intro s ns i g _ _ h j tenant hj
    exact h j tenant (Threads.update_none hj).2
  idle := by
    intro s ns t hmoves h j tenant hj
    exact lt_of_le_of_lt (held_moves hmoves) (h j tenant hj)

/-- **A fill's reservation keeps to the size of the pool.** In a run in which no pool is filled up
while another process has counted it and not yet reserved, the reservation of a fill leaves no more
unclaimed guests of its tenant, ready or cloned by a process that is alive, than the pool is to
have. -/
theorem reservation_within (S : Settings) (s : Target) {c : Threads.Config Call Call.Ret FabricError
      (Option Claim) Target (Option String)}
    (h : Threads.Run (system S) (Spaced S.warmPoolSize) (.empty s) c) {i : ℕ} {g : Option String}
    {tenant version : String} {pid : ℕ} {seen : Listing}
    {k : Except FabricError PoolGuest → Io (Option Claim)}
    (hi : c.threads i = some (g, .call (.pool (.reserve tenant none version pid seen)) k))
    {r : Except FabricError PoolGuest} {t : Target}
    (hr : step S c.shared (.pool (.reserve tenant none version pid seen)) r t) :
    held t tenant ≤ S.warmPoolSize := by
  have hgood := Threads.good anyAnswer (fun _ _ _ _ _ _ _ _ _ _ _ => trivial)
    (fun g p hb => by
      obtain ⟨rfl, command, pid, fuel, rfl⟩ := hb
      exact fine_program S pid fuel command)
    (fun _ _ _ _ => trivial) (keeps_short S) nofun h
  have hpre := (hgood.2 i g _ hi).1
  have hcounted : g = some tenant := by
    cases g with
    | none => exact absurd rfl (hpre tenant version pid seen)
    | some owner =>
      rcases hpre with hlist | ⟨_, _, _, hreserve⟩
      · cases hlist
      · cases hreserve
        rfl
  have hlt : held c.shared tenant < S.warmPoolSize :=
    hgood.1 i tenant (by rw [Threads.Config.notes, hi, hcounted]; rfl)
  rcases @held_step _ tenant _ _ _ _ hr with hle | ⟨_, _, _, hle⟩
  · omega
  · omega

/-! ### Fills at the same time -/

abbrev Filling := Threads.Config Call Call.Ret FabricError (Option Claim) Target (Option String)

def onePool : Settings where
  target := "g"
  node := "n"
  pool := "p"
  vmidLow := 100
  vmidHigh := 109
  addresses := ⟨10, 19⟩
  warmPoolSize := 1

/-- What a target answers on which all is well. -/
def answer (S : Settings) (s : Target) : (c : Call) → c.Ret
  | .pool (.held tenant) => .ok (held s tenant)
  | c => goodAnswer S s.world c

def next (S : Settings) (s : Target) (c : Call) (r : c.Ret) : Target :=
  { s with world := demoNext S s.world c r }

lemma step_answer (S : Settings) (s : Target) (c : Call) :
    step S s c (answer S s c) (next S s c (answer S s c)) := by
  unfold answer
  split
  · rename_i tenant
    refine ⟨.inl ⟨⟨s.alive, fun _ => true⟩, held s tenant, s.world.shelf, ?_, ?_, rfl⟩, rfl, rfl⟩
    · have hcount : held s tenant = (s.world.shelf.guests.filter (counts s.alive tenant)).length :=
        List.countP_eq_length_filter
      rw [hcount]
      rfl
    · exact fun y hy => (Except.ok.inj hy).symm
  · rename_i hheld
    refine ⟨step_good S s.world c, rfl, ?_⟩
    unfold Counted
    split
    · exact absurd rfl (hheld _)
    · trivial

/-- Fills of a tenant, each a turn at a time, as far as the turns are allowed. -/
def fills (S : Settings) (ok : Filling → ℕ → Call → Bool) (n : ℕ) (l : List ℕ) : Option Filling :=
  Threads.play (next S) (note S.warmPoolSize) (fun _ => answer S) (fun (_ : Empty) _ => none)
    (fun c i o => decide (i < n) && ok c i o) (l.map .inl)
    (Threads.begun {} ((List.range n).map fun i => (none, Command.program S i 9 (.fill "t"))))

/-- The process is about to reserve a guest for its fill. -/
def reserving (c : Filling) (i : ℕ) : Bool :=
  match c.threads i with
  | some (_, .call (.pool (.reserve owner none _ _ _)) _) => owner == "t"
  | _ => false

lemma exists_reserving {c : Filling} {i : ℕ} (h : reserving c i = true) :
    ∃ g version pid seen k,
      c.threads i = some (g, .call (.pool (.reserve "t" none version pid seen)) k) := by
  unfold reserving at h
  split at h
  · rename_i g owner version pid seen k hi
    obtain rfl := eq_of_beq h
    exact ⟨g, version, pid, seen, k, hi⟩
  · cases h

lemma run_fills {S : Settings} {ok : Filling → ℕ → Call → Bool} {n : ℕ} {l : List ℕ} {c : Filling}
    {M : Threads.Condition Call Call.Ret Target (Option String)}
    (hM : ∀ (c : Filling) i o r, (∀ j, n ≤ j → c.threads j = none) → ok c i o = true →
      M c.shared c.notes i o r) (h : fills S ok n l = some c) :
    Threads.Run (system S) M (.empty {}) c := by
  refine Threads.run_begun_play (T := system S) ?_
    (fun c _ o _ => step_answer S c.shared o) (fun x => x.elim) ?_ h
  · intro x hx
    obtain ⟨i, -, rfl⟩ := List.mem_map.mp hx
    exact ⟨rfl, .fill "t", i, 9, rfl⟩
  · exact fun c i o _ hn hi => hM c i o _ (by simpa using hn) ((Bool.and_eq_true _ _).mp hi).2

/-- No other process has counted a pool and not yet reserved. -/
def uncounted (n : ℕ) (c : Filling) (i : ℕ) (_ : Call) : Bool :=
  (List.range n).all fun j => j == i || (c.notes j).all (·.isNone)

lemma spaced_of_uncounted {n i size : ℕ} {c : Filling} {o : Call} {r : o.Ret}
    (hn : ∀ j, n ≤ j → c.threads j = none) (h : uncounted n c i o = true) :
    Spaced size c.shared c.notes i o r := by
  intro sec tenant _ _ _ j hj hnote
  have hlt : j < n := by
    by_contra hle
    rw [Threads.Config.notes, hn j (Nat.not_lt.mp hle)] at hnote
    cases hnote
  have hfree := List.all_eq_true.mp h j (List.mem_range.mpr hlt)
  rw [hnote] at hfree
  simp [hj] at hfree

def twoPool : Settings := { onePool with warmPoolSize := 2 }

/-- Two fills of a pool of two guests: the second one counts when the first has reserved. -/
theorem reservation_within_two : ∃ (c : Filling) (version : String) (pid : ℕ) (seen : Listing),
    Threads.Run (system twoPool) (Spaced 2) (.empty {}) c ∧ held c.shared "t" = 1 ∧
      held (next twoPool c.shared (.pool (.reserve "t" none version pid seen))
        (answer twoPool c.shared (.pool (.reserve "t" none version pid seen)))) "t" ≤ 2 := by
  have hplay : ((fills twoPool (uncounted 2) 2 [0, 0, 0, 0, 0, 1, 1, 1, 1]).any fun c =>
      reserving c 1 && decide (held c.shared "t" = 1)) = true := by decide +kernel
  obtain ⟨c, hc, hx⟩ := (Option.any_eq_true _ _).mp hplay
  obtain ⟨hreserving, hheld⟩ := (Bool.and_eq_true _ _).mp hx
  obtain ⟨g, version, pid, seen, k, hi⟩ := exists_reserving hreserving
  have hrun : Threads.Run (system twoPool) (Spaced 2) (.empty {}) c :=
    run_fills (fun c i o r hn hok => spaced_of_uncounted hn hok) hc
  exact ⟨c, version, pid, seen, hrun, of_decide_eq_true hheld,
    reservation_within twoPool {} hrun hi (step_answer _ _ _)⟩

/-- Two fills of a pool of one guest count none and reserve one each. -/
theorem two_fills_exceed : ∃ (c : Filling) (g : Option String) (version : String) (pid : ℕ)
    (seen : Listing) (k : Except FabricError PoolGuest → Io (Option Claim))
    (r : Except FabricError PoolGuest) (t : Target),
    Threads.Run (system onePool) Threads.always (.empty {}) c ∧
      c.threads 1 = some (g, .call (.pool (.reserve "t" none version pid seen)) k) ∧
      step onePool c.shared (.pool (.reserve "t" none version pid seen)) r t ∧
      onePool.warmPoolSize < held t "t" := by
  have hplay : ((fills onePool (fun _ _ _ => true) 2 [0, 0, 0, 1, 1, 1, 0, 0, 1]).any fun c =>
      reserving c 1 && (Threads.turn (next onePool) (note 1) (fun _ => answer onePool)
        (fun _ _ _ => true) 1 c).any fun c' => decide (1 < held c'.shared "t")) = true := by
    decide +kernel
  obtain ⟨c, hc, hx⟩ := (Option.any_eq_true _ _).mp hplay
  obtain ⟨hreserving, hturn⟩ := (Bool.and_eq_true _ _).mp hx
  obtain ⟨g, version, pid, seen, k, hi⟩ := exists_reserving hreserving
  obtain ⟨c', hc', hheld⟩ := (Option.any_eq_true _ _).mp hturn
  simp only [Threads.turn, hi, if_true, Option.some.injEq] at hc'
  subst hc'
  exact ⟨c, g, version, pid, seen, k, _, _, run_fills (fun _ _ _ _ _ _ => trivial) hc, hi,
    step_answer onePool c.shared _, of_decide_eq_true hheld⟩

end Bimo.PoolSize
