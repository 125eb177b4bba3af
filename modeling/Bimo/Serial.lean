import Bimo.Prog
import Mathlib.Data.List.Induction

/-!
Operations that are put one behind the other on a promise.

A caller does not wait for what it asks for: `pending.then(operation)` starts the operation when
what is pending is settled, and `result.catch(() => {})` is pending from then on. Requests are made
at any time, also between two calls of an operation. Whatever the order of these moves, the
operations are carried out as if each caller had waited for the one before.
-/

namespace Bimo.Serial

variable {Op : Type} {Ret : Op → Type} {ε ρ β σ μ : Type}

/-- An operation that is through, with the world and the memory it found and left. -/
structure Done (ρ ε β σ μ : Type) where
  request : ρ
  result : Except ε β
  before : σ × μ
  after : σ × μ

/-- An operation on its way: the world and the memory it found, and what is left of it. -/
structure Active (Op : Type) (Ret : Op → Type) (ρ ε β σ μ : Type) where
  request : ρ
  before : σ × μ
  rest : Prog Op Ret ε (Except ε β × μ)

structure Chain (Op : Type) (Ret : Op → Type) (ρ ε β σ μ : Type) where
  world : σ
  memory : μ
  /-- What the promise is settled with, where no operation is on its way. -/
  pending : Except ε Unit := .ok ()
  active : Option (Active Op Ret ρ ε β σ μ) := none
  waiting : List ρ := []
  settled : List (Done ρ ε β σ μ) := []
  /-- All requests, in the order they were made. -/
  calls : List ρ := []

/-- `result.catch(() => {})` -/
def caught : Except ε β → Except ε Unit
  | .ok _ => .ok ()
  | .error _ => .ok ()

@[simp] lemma caught_eq (x : Except ε β) : caught x = .ok () := by cases x <;> rfl

/-- What an operation comes to that is through. -/
def outcome (m : μ) : Except ε (Except ε β × μ) → Except ε β × μ
  | .ok y => y
  | .error e => (.error e, m)

def through : Prog Op Ret ε (Except ε β × μ) → Option (Except ε (Except ε β × μ))
  | .ret y => some (.ok y)
  | .fail e => some (.error e)
  | .call _ _ => none

variable (E : Env Op Ret σ) (run : μ → ρ → Prog Op Ret ε (Except ε β × μ))

inductive Move : Chain Op Ret ρ ε β σ μ → Chain Op Ret ρ ε β σ μ → Prop
  | request (c : Chain Op Ret ρ ε β σ μ) (r : ρ) :
      Move c { c with waiting := c.waiting ++ [r], calls := c.calls ++ [r] }
  | start {c : Chain Op Ret ρ ε β σ μ} {r : ρ} {l : List ρ} (hidle : c.active = none)
      (hwaiting : c.waiting = r :: l) (hpending : c.pending = .ok ()) :
      Move c { c with
        waiting := l, active := some ⟨r, (c.world, c.memory), run c.memory r⟩ }
  -- the operation behind a promise that is rejected is not carried out
  | skip {c : Chain Op Ret ρ ε β σ μ} {r : ρ} {l : List ρ} {e : ε} (hidle : c.active = none)
      (hwaiting : c.waiting = r :: l) (hpending : c.pending = .error e) :
      Move c { c with
        waiting := l, pending := caught (.error e : Except ε β)
        settled := c.settled ++ [⟨r, .error e, (c.world, c.memory), (c.world, c.memory)⟩] }
  | call {c : Chain Op Ret ρ ε β σ μ} {r : ρ} {s : σ × μ} {o : Op}
      {k : Ret o → Prog Op Ret ε (Except ε β × μ)} {a : Ret o} {w : σ}
      (hactive : c.active = some ⟨r, s, .call o k⟩) (hstep : E.step c.world o a w) :
      Move c { c with world := w, active := some ⟨r, s, k a⟩ }
  | settle {c : Chain Op Ret ρ ε β σ μ} {r : ρ} {s : σ × μ}
      {p : Prog Op Ret ε (Except ε β × μ)} {y : Except ε (Except ε β × μ)}
      (hactive : c.active = some ⟨r, s, p⟩) (hthrough : through p = some y) :
      Move c { c with
        memory := (outcome c.memory y).2, pending := caught (outcome c.memory y).1, active := none
        settled := c.settled ++ [⟨r, (outcome c.memory y).1, s,
          (c.world, (outcome c.memory y).2)⟩] }

/-- The chains that a new one gets to. -/
inductive Reach (s₀ : σ × μ) : Chain Op Ret ρ ε β σ μ → Prop
  | new : Reach s₀ { world := s₀.1, memory := s₀.2 }
  | move {c c' : Chain Op Ret ρ ε β σ μ} (h : Reach s₀ c) (hm : Move E run c c') : Reach s₀ c'

/-- Operations carried out one after the other, from a state to a state. -/
inductive Sequence (s₀ : σ × μ) : List (Done ρ ε β σ μ) → σ × μ → Prop
  | nil : Sequence s₀ [] s₀
  | snoc {l : List (Done ρ ε β σ μ)} {s : σ × μ} {r : ρ} {p : Prog Op Ret ε (Except ε β × μ)}
      {y : Except ε (Except ε β × μ)} {w : σ} (h : Sequence s₀ l s)
      (hx : Exec E (run s.2 r) s.1 p w) (hthrough : through p = some y) :
      Sequence s₀ (l ++ [⟨r, (outcome s.2 y).1, s, (w, (outcome s.2 y).2)⟩])
        (w, (outcome s.2 y).2)

/-- Nothing shows that callers did not wait. -/
structure Sequential (s₀ : σ × μ) (c : Chain Op Ret ρ ε β σ μ) : Prop where
  pending : c.pending = .ok ()
  order : c.calls =
    c.settled.map (·.request) ++ (c.active.toList.map (·.request) ++ c.waiting)
  idle : c.active = none → Sequence E run s₀ c.settled (c.world, c.memory)
  active : ∀ a, c.active = some a → a.before.2 = c.memory ∧ Sequence E run s₀ c.settled a.before ∧
    Exec E (run a.before.2 a.request) a.before.1 a.rest c.world

variable {E : Env Op Ret σ} {run : μ → ρ → Prog Op Ret ε (Except ε β × μ)} {s₀ : σ × μ}

/-- A run goes on with a call. -/
lemma exec_snoc {p : Prog Op Ret ε β} {o : Op} {k : Ret o → Prog Op Ret ε β} {a : Ret o}
    {s t u : σ} (h : Exec E p s (.call o k) t) (hstep : E.step t o a u) : Exec E p s (k a) u := by
  generalize hq : Prog.call o k = q at h
  induction h with
  | refl p s =>
      subst hq
      exact .step hstep (.refl _ _)
  | step hr _ ih => exact .step hr (ih hstep hq)

lemma sequential_move {c c' : Chain Op Ret ρ ε β σ μ} (h : Sequential E run s₀ c)
    (hm : Move E run c c') : Sequential E run s₀ c' := by
  cases hm with
  | request r =>
      exact ⟨h.pending, by simp [h.order], h.idle, h.active⟩
  | @start r l hidle hwaiting hpending =>
      refine ⟨hpending, ?_, nofun, ?_⟩
      · simp [h.order, hidle, hwaiting]
      · intro a ha
        obtain rfl := Option.some.inj ha
        exact ⟨rfl, h.idle hidle, .refl _ _⟩
  | skip hidle hwaiting hpending => rw [h.pending] at hpending; cases hpending
  | @call r s o k a w hactive hstep =>
      obtain ⟨hmemory, hseq, hx⟩ := h.active _ hactive
      refine ⟨h.pending, ?_, nofun, ?_⟩
      · simp [h.order, hactive]
      · intro b hb
        obtain rfl := Option.some.inj hb
        exact ⟨hmemory, hseq, exec_snoc hx hstep⟩
  | @settle r s p y hactive hthrough =>
      obtain ⟨hmemory, hseq, hx⟩ := h.active _ hactive
      have hmemory : s.2 = c.memory := hmemory
      refine ⟨caught_eq _, ?_, fun _ => ?_, nofun⟩
      · simp [h.order, hactive]
      · rw [← hmemory]
        exact hseq.snoc hx hthrough

/-- **Any interleaving is a sequence.** Requests are carried out in the order they were made, each
from what the one before left, and a request that is rejected holds up none behind it. -/
theorem reach_sequential {c : Chain Op Ret ρ ε β σ μ} (h : Reach E run s₀ c) :
    Sequential E run s₀ c := by
  induction h with
  | new => exact ⟨rfl, rfl, fun _ => .nil, nofun⟩
  | move _ hm ih => exact sequential_move ih hm

/-- The settled operations of a chain, whatever is on its way. -/
lemma Reach.sequence {c : Chain Op Ret ρ ε β σ μ} (h : Reach E run s₀ c) :
    ∃ s, Sequence E run s₀ c.settled s := by
  have hseq := reach_sequential h
  cases hactive : c.active with
  | none => exact ⟨_, hseq.idle hactive⟩
  | some a => exact ⟨_, (hseq.active a hactive).2.1⟩

lemma Reach.settled_prefix {c : Chain Op Ret ρ ε β σ μ} (h : Reach E run s₀ c) :
    c.settled.map (·.request) <+: c.calls := by
  rw [(reach_sequential h).order]
  exact List.prefix_append _ _

lemma Safe.through {p q : Prog Op Ret ε (Except ε β × μ)} {s t : σ}
    {y : Except ε (Except ε β × μ)} {Q : Except ε (Except ε β × μ) → σ → Prop}
    (h : Safe E (fun _ _ => True) p s Q) (hx : Exec E p s q t) (hy : through q = some y) :
    Q y t := by
  have hq := h.exec hx
  cases q with
  | ret z => obtain rfl := Option.some.inj hy; exact hq
  | fail e => obtain rfl := Option.some.inj hy; exact hq
  | call o k => cases hy

/-- **The rule for sequences.** What every operation keeps, of all that was done with what it
leaves, holds however many there were. -/
theorem Sequence.rule {P : ρ → Prop} {I : List (Done ρ ε β σ μ) → σ × μ → Prop} (hnew : I [] s₀)
    (hstep : ∀ l s r, P r → I l s → Safe E (fun _ _ => True) (run s.2 r) s.1 fun y w =>
      I (l ++ [⟨r, (outcome s.2 y).1, s, (w, (outcome s.2 y).2)⟩]) (w, (outcome s.2 y).2))
    {l : List (Done ρ ε β σ μ)} {s : σ × μ} (h : Sequence E run s₀ l s)
    (hP : ∀ x ∈ l, P x.request) : I l s := by
  induction h with
  | nil => exact hnew
  | snoc h hx hthrough ih =>
      obtain ⟨hl, hr⟩ := List.forall_mem_append.mp hP
      have hsafe := hstep _ _ _ (hr _ (List.mem_singleton.mpr rfl)) (ih hl)
      exact Safe.through hsafe hx hthrough

/-! ### Chains that there are -/

lemma Reach.advance {c : Chain Op Ret ρ ε β σ μ} {r : ρ} {s : σ × μ}
    {p q : Prog Op Ret ε (Except ε β × μ)} {w : σ} (h : Reach E run s₀ c)
    (hactive : c.active = some ⟨r, s, p⟩) (hx : Exec E p c.world q w) :
    Reach E run s₀ { c with world := w, active := some ⟨r, s, q⟩ } := by
  generalize hworld : c.world = u at hx
  induction hx generalizing c with
  | refl p t =>
      subst hworld
      rw [← hactive]
      exact h
  | step hr _ ih =>
      subst hworld
      have hrest := ih (h.move (.call hactive hr)) rfl rfl
      exact hrest

/-- Callers may be ahead: all that is carried out, and more, is asked for at the start. -/
theorem reach_of_sequence {l : List (Done ρ ε β σ μ)} {s : σ × μ} (h : Sequence E run s₀ l s)
    (ahead : List ρ) :
    Reach E run s₀
      { world := s.1, memory := s.2, waiting := ahead, settled := l,
        calls := l.map (·.request) ++ ahead } := by
  induction h generalizing ahead with
  | nil =>
      induction ahead using List.reverseRecOn with
      | nil => exact .new
      | append_singleton rs r ih => exact ih.move (.request _ r)
  | @snoc l s r p y w h hx hthrough ih =>
      have hstart := (ih (r :: ahead)).move (.start rfl rfl rfl)
      have hend := (hstart.advance rfl hx).move (.settle rfl hthrough)
      simpa using hend

section Carry

variable (run) (answer : σ → (o : Op) → Ret o) (next : σ → (o : Op) → Ret o → σ)

/-- What is asked for, carried out in its order with these answers. -/
def carry : List ρ → List (Done ρ ε β σ μ) → σ × μ → List (Done ρ ε β σ μ) × (σ × μ)
  | [], l, s => (l, s)
  | r :: rs, l, s =>
    let (y, w) := (run s.2 r).run answer next s.1
    let x := outcome s.2 y
    carry rs (l ++ [⟨r, x.1, s, (w, x.2)⟩]) (w, x.2)

end Carry

/-- Where every call has an answer, all that is asked for can be carried out. -/
theorem sequence_carry {answer : σ → (o : Op) → Ret o} {next : σ → (o : Op) → Ret o → σ}
    (hE : ∀ s o, E.step s o (answer s o) (next s o (answer s o))) (rs : List ρ)
    {l : List (Done ρ ε β σ μ)} {s : σ × μ} (h : Sequence E run s₀ l s) :
    Sequence E run s₀ (carry run answer next rs l s).1 (carry run answer next rs l s).2 ∧
      (carry run answer next rs l s).1.map (·.request) = l.map (·.request) ++ rs := by
  induction rs generalizing l s with
  | nil => exact ⟨h, (List.append_nil _).symm⟩
  | cons r rs ih =>
      cases hrun : (run s.2 r).run answer next s.1 with
      | mk y w =>
          have hnext : Sequence E run s₀ (l ++ [⟨r, (outcome s.2 y).1, s, (w, (outcome s.2 y).2)⟩])
              (w, (outcome s.2 y).2) := by
            cases y with
            | ok y => exact h.snoc (exec_of_run hE hrun) rfl
            | error e => exact h.snoc (exec_of_run_error hE hrun) rfl
          obtain ⟨hseq, hmap⟩ := ih hnext
          simp only [carry, hrun]
          exact ⟨hseq, by simpa using hmap⟩

end Bimo.Serial
