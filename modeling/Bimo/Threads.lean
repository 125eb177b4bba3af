import Bimo.Prog
import Mathlib.Logic.Relation
import Mathlib.Logic.Function.Basic
import Mathlib.Data.List.Induction
import Mathlib.Order.Nat

/-!
Programs that run at the same time over one state.

A thread is a program with a note: what it is doing, kept up to date from its own calls and
their answers alone. One call of one thread is one step, so a section under a lock is one
call; between two calls of a thread any other thread may go, and the state may move by
itself. A run condition looks at the state and at every thread's note.

An invariant of such a system speaks of the shared state and of the notes. The rule
`Threads.inv` asks for it one call at a time, and what a program does next comes from a
`Safe` judgement over the notes, so no proof follows a program through an interleaving.
-/

namespace Bimo

/-- What runs, on what, and how it is noted. -/
structure Threads (Op : Type) (Ret : Op → Type) (ε α σ γ : Type) where
  env : Env Op Ret σ
  /-- What happens to the state by itself. -/
  idle : σ → σ → Prop
  /-- The programs that may be started, with their first note. -/
  begins : γ → Prog Op Ret ε α → Prop
  note : γ → (o : Op) → Ret o → γ
  /-- Where a thread may go away. -/
  leaves : Prog Op Ret ε α → Prop

namespace Threads

variable {Op : Type} {Ret : Op → Type} {ε α σ γ : Type}

structure Config (Op : Type) (Ret : Op → Type) (ε α σ γ : Type) where
  shared : σ
  threads : ℕ → Option (γ × Prog Op Ret ε α)

namespace Config

def notes (c : Config Op Ret ε α σ γ) : ℕ → Option γ := fun i => (c.threads i).map Prod.fst

def set (c : Config Op Ret ε α σ γ) (i : ℕ) (x : Option (γ × Prog Op Ret ε α)) :
    Config Op Ret ε α σ γ :=
  { c with threads := Function.update c.threads i x }

@[simp] lemma set_shared (c : Config Op Ret ε α σ γ) (i : ℕ) (x : Option (γ × Prog Op Ret ε α)) :
    (c.set i x).shared = c.shared := rfl

@[simp] lemma set_notes (c : Config Op Ret ε α σ γ) (i : ℕ) (x : Option (γ × Prog Op Ret ε α)) :
    (c.set i x).notes = Function.update c.notes i (x.map Prod.fst) := by
  funext j
  unfold notes set
  by_cases h : j = i
  · subst h
    simp
  · simp [h]

/-- Nothing has been started. -/
def empty (s : σ) : Config Op Ret ε α σ γ := { shared := s, threads := fun _ => none }

end Config

/-- A condition on a call: the state, every thread's note, who calls what, and the answer. -/
abbrev Condition (Op : Type) (Ret : Op → Type) (σ γ : Type) :=
  σ → (ℕ → Option γ) → ℕ → (o : Op) → Ret o → Prop

inductive Step (T : Threads Op Ret ε α σ γ) (M : Condition Op Ret σ γ) :
    Config Op Ret ε α σ γ → Config Op Ret ε α σ γ → Prop
  | start {c : Config Op Ret ε α σ γ} {i : ℕ} {g : γ} {p : Prog Op Ret ε α}
      (hi : c.threads i = none) (hb : T.begins g p) : Step T M c (c.set i (some (g, p)))
  | call {c : Config Op Ret ε α σ γ} {i : ℕ} {g : γ} {o : Op} {k : Ret o → Prog Op Ret ε α}
      {r : Ret o} {t : σ} (hi : c.threads i = some (g, .call o k))
      (hr : T.env.step c.shared o r t) (hM : M c.shared c.notes i o r) :
      Step T M c ({ c with shared := t }.set i (some (T.note g o r, k r)))
  | leave {c : Config Op Ret ε α σ γ} {i : ℕ} {g : γ} {p : Prog Op Ret ε α}
      (hi : c.threads i = some (g, p)) (hp : T.leaves p) : Step T M c (c.set i none)
  | idle {c : Config Op Ret ε α σ γ} {t : σ} (ht : T.idle c.shared t) :
      Step T M c { c with shared := t }

/-- Some steps, each of which meets the condition. -/
abbrev Run (T : Threads Op Ret ε α σ γ) (M : Condition Op Ret σ γ) :=
  Relation.ReflTransGen (Step T M)

/-- The condition on runs that holds of every run. -/
def always : Condition Op Ret σ γ := fun _ _ _ _ _ => True

/-- What a thread may count on of its own answers, where an invariant holds. -/
def Lets (T : Threads Op Ret ε α σ γ) (M : Condition Op Ret σ γ)
    (I : σ → (ℕ → Option γ) → Prop) (can : γ → (o : Op) → Ret o → Prop) : Prop :=
  ∀ ⦃s ns i g o r t⦄, ns i = some g → I s ns → T.env.step s o r t → M s ns i o r → can g o r

/-- What has to be shown of an invariant of the shared state and the notes, when every call
is made as `pre` allows and a program that is through leaves a note that meets `Q`. -/
structure Keeps (T : Threads Op Ret ε α σ γ) (M : Condition Op Ret σ γ) (pre : γ → Op → Prop)
    (leaving : γ → Prop) (I : σ → (ℕ → Option γ) → Prop) : Prop where
  start : ∀ ⦃s ns i g p⦄, ns i = none → T.begins g p → I s ns →
    I s (Function.update ns i (some g))
  call : ∀ ⦃s ns i g o r t⦄, ns i = some g → pre g o → T.env.step s o r t → M s ns i o r →
    I s ns → I t (Function.update ns i (some (T.note g o r)))
  leave : ∀ ⦃s ns i g⦄, ns i = some g → leaving g → I s ns → I s (Function.update ns i none)
  idle : ∀ ⦃s ns t⦄, T.idle s t → I s ns → I t ns

section Rule

variable {T : Threads Op Ret ε α σ γ} {M : Condition Op Ret σ γ} {pre : γ → Op → Prop}
  {can : γ → (o : Op) → Ret o → Prop} {leaving : γ → Prop} {Q : Except ε α → γ → Prop}
  {I : σ → (ℕ → Option γ) → Prop}

/-- The invariant, and every thread has calls ahead of it that `pre` allows. -/
def Good (T : Threads Op Ret ε α σ γ) (can : γ → (o : Op) → Ret o → Prop) (pre : γ → Op → Prop)
    (Q : Except ε α → γ → Prop) (I : σ → (ℕ → Option γ) → Prop)
    (c : Config Op Ret ε α σ γ) : Prop :=
  I c.shared c.notes ∧
    ∀ i g p, c.threads i = some (g, p) → Safe (.of can T.note) pre p g Q

lemma good_set {c : Config Op Ret ε α σ γ} {i : ℕ} {x : Option (γ × Prog Op Ret ε α)} {s : σ}
    (hI : I s (Function.update c.notes i (x.map Prod.fst)))
    (hx : ∀ g p, x = some (g, p) → Safe (.of can T.note) pre p g Q)
    (hc : ∀ i g p, c.threads i = some (g, p) → Safe (.of can T.note) pre p g Q) :
    Good T can pre Q I ({ c with shared := s }.set i x) := by
  refine ⟨?_, fun j g p hj => ?_⟩
  · rw [Config.set_notes]
    exact hI
  · by_cases h : j = i
    · subst h
      exact hx g p (by simpa [Config.set] using hj)
    · exact hc j g p (by simpa [Config.set, h] using hj)

lemma good_step (hcan : Lets T M I can)
    (hbegin : ∀ g p, T.begins g p → Safe (.of can T.note) pre p g Q)
    (hleave : ∀ g p, T.leaves p → Safe (.of can T.note) pre p g Q → leaving g)
    (hI : Keeps T M pre leaving I) {c c' : Config Op Ret ε α σ γ} (h : Step T M c c')
    (hc : Good T can pre Q I c) : Good T can pre Q I c' := by
  cases h with
  | @start i g p hi hb =>
      refine good_set (hI.start (by simp [Config.notes, hi]) hb hc.1) ?_ hc.2
      intro g' p' hgp
      obtain ⟨rfl, rfl⟩ := Prod.mk.inj (Option.some.inj hgp)
      exact hbegin _ _ hb
  | @call i g o k r t hi hr hM =>
      have hn : c.notes i = some g := by simp [Config.notes, hi]
      have hsafe := (safe_call_of o k g Q).mp (hc.2 i g _ hi)
      refine good_set (hI.call hn hsafe.1 hr hM hc.1) ?_ hc.2
      intro g' p' hgp
      obtain ⟨rfl, rfl⟩ := Prod.mk.inj (Option.some.inj hgp)
      exact hsafe.2 r (hcan hn hc.1 hr hM)
  | @leave i g p hi hp =>
      have hq := hleave g p hp (hc.2 i g p hi)
      exact good_set (hI.leave (by simp [Config.notes, hi]) hq hc.1) (by simp) hc.2
  | idle ht => exact ⟨hI.idle ht hc.1, hc.2⟩

lemma good_run (hcan : Lets T M I can)
    (hbegin : ∀ g p, T.begins g p → Safe (.of can T.note) pre p g Q)
    (hleave : ∀ g p, T.leaves p → Safe (.of can T.note) pre p g Q → leaving g)
    (hI : Keeps T M pre leaving I) {c c' : Config Op Ret ε α σ γ} (h : Run T M c c')
    (hc : Good T can pre Q I c) : Good T can pre Q I c' := by
  induction h with
  | refl => exact hc
  | tail _ hstep ih => exact good_step hcan hbegin hleave hI hstep ih

/-- What `inv` says, and that every thread goes on as `pre` allows. -/
theorem good (can : γ → (o : Op) → Ret o → Prop) (hcan : Lets T M I can)
    (hbegin : ∀ g p, T.begins g p → Safe (.of can T.note) pre p g Q)
    (hleave : ∀ g p, T.leaves p → Safe (.of can T.note) pre p g Q → leaving g)
    (hI : Keeps T M pre leaving I) {s : σ} (h0 : I s fun _ => none)
    {c : Config Op Ret ε α σ γ} (h : Run T M (.empty s) c) : Good T can pre Q I c :=
  good_run hcan hbegin hleave hI h ⟨h0, fun _ _ _ hi => nomatch hi⟩

/-- **The rule for interleavings.** What every call preserves, made as `pre` allows, holds in
every state that any interleaving reaches. -/
theorem inv (can : γ → (o : Op) → Ret o → Prop) (hcan : Lets T M I can)
    (hbegin : ∀ g p, T.begins g p → Safe (.of can T.note) pre p g Q)
    (hleave : ∀ g p, T.leaves p → Safe (.of can T.note) pre p g Q → leaving g)
    (hI : Keeps T M pre leaving I) {s : σ} (h0 : I s fun _ => none)
    {c : Config Op Ret ε α σ γ} (h : Run T M (.empty s) c) : I c.shared c.notes :=
  (good can hcan hbegin hleave hI h0 h).1

end Rule

/-! ### Invariants a thread at a time -/

section Each

/-- An invariant of the state, of each thread's note and of any two threads' notes. -/
structure Each (A : σ → Prop) (B : σ → γ → Prop) (C : γ → γ → Prop) (s : σ)
    (ns : ℕ → Option γ) : Prop where
  all : A s
  one : ∀ i g, ns i = some g → B s g
  two : ∀ i j g g', i ≠ j → ns i = some g → ns j = some g' → C g g'

variable {A : σ → Prop} {B : σ → γ → Prop} {C : γ → γ → Prop} {s t : σ} {ns : ℕ → Option γ}
  {i : ℕ} {g : γ}

lemma update_some {x : γ} {j : ℕ} (h : Function.update ns i (some g) j = some x) :
    (j = i ∧ x = g) ∨ (j ≠ i ∧ ns j = some x) := by
  by_cases hj : j = i
  · subst hj
    rw [Function.update_self] at h
    exact .inl ⟨rfl, (Option.some.inj h).symm⟩
  · rw [Function.update_of_ne hj] at h
    exact .inr ⟨hj, h⟩

lemma update_none {x : γ} {j : ℕ} (h : Function.update ns i none j = some x) :
    j ≠ i ∧ ns j = some x := by
  by_cases hj : j = i
  · subst hj
    rw [Function.update_self] at h
    cases h
  · rw [Function.update_of_ne hj] at h
    exact ⟨hj, h⟩

/-- Before anything has started. -/
lemma Each.empty (hA : A s) : Each A B C s fun _ => none :=
  ⟨hA, fun _ _ h => (nomatch h), fun _ _ _ _ _ h => nomatch h⟩

/-- One thread moves: the others keep their part, and go with its new note. -/
lemma Each.set (h : Each A B C s ns) (hA : A t)
    (hothers : ∀ j x, j ≠ i → ns j = some x → B s x → B t x ∧ C x g ∧ C g x) (hB : B t g) :
    Each A B C t (Function.update ns i (some g)) := by
  refine ⟨hA, fun j x hj => ?_, fun j k x y hjk hj hk => ?_⟩
  · obtain ⟨rfl, rfl⟩ | ⟨hne, hj⟩ := update_some hj
    · exact hB
    · exact (hothers j x hne hj (h.one j x hj)).1
  · obtain ⟨rfl, rfl⟩ | ⟨hne, hx⟩ := update_some hj
    · obtain ⟨rfl, rfl⟩ | ⟨hne, hy⟩ := update_some hk
      · exact absurd rfl hjk
      · exact (hothers k y hne hy (h.one k y hy)).2.2
    · obtain ⟨rfl, rfl⟩ | ⟨-, hy⟩ := update_some hk
      · exact (hothers j x hne hx (h.one j x hx)).2.1
      · exact h.two j k x y hjk hx hy

/-- The state moves by itself. -/
lemma Each.move (h : Each A B C s ns) (hA : A t) (hB : ∀ j x, ns j = some x → B s x → B t x) :
    Each A B C t ns :=
  ⟨hA, fun j x hj => hB j x hj (h.one j x hj), h.two⟩

lemma Each.drop (h : Each A B C s ns) (i : ℕ) : Each A B C s (Function.update ns i none) :=
  ⟨h.all, fun j x hj => h.one j x (update_none hj).2, fun j k x y hjk hj hk =>
    h.two j k x y hjk (update_none hj).2 (update_none hk).2⟩

end Each

/-! ### Playing a schedule -/

section Play

variable {τ : Type} (next : σ → (o : Op) → Ret o → σ) (note : γ → (o : Op) → Ret o → γ)
  (answer : ℕ → σ → (o : Op) → Ret o) (tick : τ → σ → Option σ)
  (ok : Config Op Ret ε α σ γ → ℕ → Op → Bool)

/-- One turn of a thread, answered as given. -/
def turn (i : ℕ) (c : Config Op Ret ε α σ γ) : Option (Config Op Ret ε α σ γ) :=
  match c.threads i with
  | some (g, .call o k) =>
    let r := answer i c.shared o
    if ok c i o = true then
      some ({ c with shared := next c.shared o r }.set i (some (note g o r, k r)))
    else none
  | _ => none

/-- A schedule: turns of threads and moves of the state by itself. -/
def play : List (ℕ ⊕ τ) → Config Op Ret ε α σ γ → Option (Config Op Ret ε α σ γ)
  | [], c => some c
  | .inl i :: l, c => (turn next note answer ok i c).bind (play l)
  | .inr x :: l, c => (tick x c.shared).bind fun t => play l { c with shared := t }

/-- The programs of a list, started. -/
def begun (s : σ) (ps : List (γ × Prog Op Ret ε α)) : Config Op Ret ε α σ γ where
  shared := s
  threads i := ps[i]?

variable {next answer tick ok}

lemma run_begun {T : Threads Op Ret ε α σ γ} {M : Condition Op Ret σ γ} {s : σ}
    {ps : List (γ × Prog Op Ret ε α)} (h : ∀ x ∈ ps, T.begins x.1 x.2) :
    Run T M (.empty s) (begun s ps) := by
  induction ps using List.reverseRecOn with
  | nil => exact .refl
  | append_singleton ps x ih =>
      have hlast : (begun s ps).set ps.length (some x) = begun s (ps ++ [x]) := by
        unfold Config.set begun
        congr 1
        funext j
        rcases Nat.lt_trichotomy j ps.length with hj | rfl | hj
        · simp [List.getElem?_append_left hj, hj.ne]
        · simp
        · have hnone : (ps ++ [x])[j]? = none := 
            List.getElem?_eq_none (by rw [List.length_append]; exact hj)
          simp [hj.ne', List.getElem?_eq_none hj.le, hnone]
      refine (ih fun y hy => h y (by simp [hy])).tail ?_
      rw [← hlast]
      exact .start (by simp [begun]) (h x (by simp))

/-- A turn is one of a thread that was there before. -/
lemma threads_turn {n i : ℕ} {c c' : Config Op Ret ε α σ γ}
    (hn : ∀ j, n ≤ j → c.threads j = none) (h : turn next note answer ok i c = some c') :
    ∀ j, n ≤ j → c'.threads j = none := by
  intro j hj
  unfold turn at h
  split at h
  · rename_i g o k hi
    dsimp only at h
    split_ifs at h with hr
    obtain rfl := Option.some.inj h
    have hij : j ≠ i := by
      rintro rfl
      rw [hn _ hj] at hi
      cases hi
    simpa [Config.set, hij] using hn j hj
  · cases h

lemma threads_play {n : ℕ} {l : List (ℕ ⊕ τ)} {c c' : Config Op Ret ε α σ γ}
    (hn : ∀ j, n ≤ j → c.threads j = none) (h : play next note answer tick ok l c = some c') :
    ∀ j, n ≤ j → c'.threads j = none := by
  induction l generalizing c with
  | nil =>
      obtain rfl := Option.some.inj h
      exact hn
  | cons e l ih =>
      cases e with
      | inr x =>
          obtain ⟨t, ht, hl⟩ := Option.bind_eq_some_iff.mp h
          exact ih (c := { c with shared := t }) hn hl
      | inl i =>
          obtain ⟨c₁, hc₁, hl⟩ := Option.bind_eq_some_iff.mp h
          exact ih (threads_turn note hn hc₁) hl

/-- A played schedule is a run. What `ok` has checked has to give the step and the condition, in
the states that can be reached at all and with no thread beyond the first `n`. -/
lemma run_play {T : Threads Op Ret ε α σ γ} {M : Condition Op Ret σ γ} {n : ℕ}
    {d : Config Op Ret ε α σ γ}
    (hE : ∀ (c : Config Op Ret ε α σ γ) i o, ok c i o = true →
      T.env.step c.shared o (answer i c.shared o) (next c.shared o (answer i c.shared o)))
    (htick : ∀ x s t, tick x s = some t → T.idle s t)
    (hok : ∀ (c : Config Op Ret ε α σ γ) i o, Run T always d c →
      (∀ j, n ≤ j → c.threads j = none) → ok c i o = true →
      M c.shared c.notes i o (answer i c.shared o))
    {l : List (ℕ ⊕ τ)} {c c' : Config Op Ret ε α σ γ} (hc : Run T always d c)
    (hn : ∀ j, n ≤ j → c.threads j = none)
    (h : play next T.note answer tick ok l c = some c') : Run T M c c' := by
  induction l generalizing c with
  | nil =>
      obtain rfl := Option.some.inj h
      exact .refl
  | cons e l ih =>
      cases e with
      | inr x =>
          obtain ⟨t, ht, hl⟩ := Option.bind_eq_some_iff.mp h
          exact .head (.idle (htick _ _ _ ht)) (ih (hc.tail (.idle (htick _ _ _ ht))) hn hl)
      | inl i =>
          obtain ⟨c₁, hc₁, hl⟩ := Option.bind_eq_some_iff.mp h
          have hn₁ := threads_turn T.note hn hc₁
          unfold turn at hc₁
          split at hc₁
          · rename_i g o k hi
            dsimp only at hc₁
            split_ifs at hc₁ with hr
            obtain rfl := Option.some.inj hc₁
            exact .head (.call hi (hE _ _ _ hr) (hok _ _ _ hc hn hr))
              (ih (hc.tail (.call hi (hE _ _ _ hr) trivial)) hn₁ hl)
          · cases hc₁

/-- A schedule of programs started together. -/
lemma run_begun_play {T : Threads Op Ret ε α σ γ} {M : Condition Op Ret σ γ} {s : σ}
    {ps : List (γ × Prog Op Ret ε α)} (hps : ∀ x ∈ ps, T.begins x.1 x.2)
    (hE : ∀ (c : Config Op Ret ε α σ γ) i o, ok c i o = true →
      T.env.step c.shared o (answer i c.shared o) (next c.shared o (answer i c.shared o)))
    (htick : ∀ x s t, tick x s = some t → T.idle s t)
    (hok : ∀ (c : Config Op Ret ε α σ γ) i o, Run T always (.empty s) c →
      (∀ j, ps.length ≤ j → c.threads j = none) → ok c i o = true →
      M c.shared c.notes i o (answer i c.shared o))
    {l : List (ℕ ⊕ τ)} {c : Config Op Ret ε α σ γ}
    (h : play next T.note answer tick ok l (begun s ps) = some c) : Run T M (.empty s) c :=
  (run_begun hps).trans
    (run_play hE htick hok (run_begun hps) (fun _ hj => List.getElem?_eq_none hj) h)

end Play

end Threads

end Bimo
