import Bimo.Prog

/-!
The environment that answers anything and remembers it.

The state is the trace of the calls made so far with their answers, so what is shown of a
program here holds whatever its environment does.
-/

namespace Bimo

abbrev Trace (Op : Type) (Ret : Op → Type) := List ((o : Op) × Ret o)

variable {Op : Type} {Ret : Op → Type} {ε α β : Type}

def traced : Env Op Ret (Trace Op Ret) := .of (fun _ _ _ => True) fun t o r => t ++ [⟨o, r⟩]

lemma traced_step (t : Trace Op Ret) (o : Op) (r : Ret o) : traced.step t o r (t ++ [⟨o, r⟩]) :=
  ⟨trivial, rfl⟩

/-- `safe_call`, where every answer is possible. -/
lemma safe_traced {pre : Trace Op Ret → Op → Prop} {o : Op} {k : Ret o → Prog Op Ret ε α}
    {t : Trace Op Ret} {Q : Except ε α → Trace Op Ret → Prop} (hpre : pre t o)
    (h : ∀ r, Safe traced pre (k r) (t ++ [⟨o, r⟩]) Q) : Safe traced pre (.call o k) t Q :=
  (safe_call_of o k t Q).mpr ⟨hpre, fun r _ => h r⟩

/-- `Reads p t x`: the program makes the calls of the trace, is answered so, and ends with `x`. -/
inductive Reads : Prog Op Ret ε α → Trace Op Ret → Except ε α → Prop
  | ret (a : α) : Reads (.ret a) [] (.ok a)
  | fail (e : ε) : Reads (.fail e) [] (.error e)
  | call {o : Op} {k : Ret o → Prog Op Ret ε α} {r : Ret o} {t : Trace Op Ret} {x : Except ε α}
      (h : Reads (k r) t x) : Reads (.call o k) (⟨o, r⟩ :: t) x

/-- A call is made where the watcher allows it. -/
lemma Safe.allowed {σ : Type} {E : Env Op Ret σ} {pre : σ → Op → Prop} {p : Prog Op Ret ε α}
    {s t : σ} {Q : Except ε α → σ → Prop} {o : Op} {k : Ret o → Prog Op Ret ε α}
    (h : Safe E pre p s Q) (hx : Exec E p s (.call o k) t) : pre t o :=
  (h.exec hx).1

/-- A run whose steps meet a condition is a run. -/
lemma Exec.of_given {σ : Type} {E : Env Op Ret σ} {M : σ → (o : Op) → Ret o → Prop}
    {p q : Prog Op Ret ε α} {s t : σ} (h : Exec (E.given M) p s q t) : Exec E p s q t := by
  induction h with
  | refl => exact .refl _ _
  | step hr _ ih => exact .step hr.1 ih

end Bimo
