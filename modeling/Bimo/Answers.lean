import Bimo.Prog
import Mathlib.Data.List.Forall2

/-!
Programs whose calls change nothing.

What such a program returns depends on the answers alone, and `Yields` is the relation between the
answers that may be given and the values it may return. A program in `do` notation is taken apart
by `yields_bind` and a loop over a list by `yields_foldlM`.
-/

namespace Bimo

variable {Op : Type} {Ret : Op → Type} {ε ε' α β : Type}

/-- Answers that may be given bring the program through with the value. -/
def Yields (can : (o : Op) → Ret o → Prop) : Prog Op Ret ε α → α → Prop
  | .ret a, b => a = b
  | .fail _, _ => False
  | .call o k, b => ∃ r, can o r ∧ Yields can (k r) b

variable {can : (o : Op) → Ret o → Prop}

@[simp] lemma yields_ret (a b : α) : Yields can (.ret a : Prog Op Ret ε α) b ↔ a = b := Iff.rfl

@[simp] lemma yields_pure (a b : α) : Yields can (pure a : Prog Op Ret ε α) b ↔ a = b := Iff.rfl

@[simp] lemma yields_fail (e : ε) (b : α) : Yields can (.fail e : Prog Op Ret ε α) b ↔ False :=
  Iff.rfl

@[simp] lemma yields_ask (o : Op) (r : Ret o) :
    Yields can (.ask o : Prog Op Ret ε _) r ↔ can o r := by
  simp [Prog.ask, Yields]

@[simp] lemma yields_ofExcept (x : Except ε α) (a : α) :
    Yields can (.ofExcept x : Prog Op Ret ε α) a ↔ x = .ok a := by
  cases x <;> simp [Prog.ofExcept]

lemma yields_bind (p : Prog Op Ret ε α) (f : α → Prog Op Ret ε β) (b : β) :
    Yields can (p >>= f) b ↔ ∃ a, Yields can p a ∧ Yields can (f a) b := by
  induction p with
  | ret a =>
      refine ⟨fun h => ⟨a, rfl, h⟩, ?_⟩
      rintro ⟨a', rfl, h⟩
      exact h
  | fail e =>
      refine ⟨fun h => h.elim, ?_⟩
      rintro ⟨a, h, -⟩
      exact h
  | call o k ih =>
      constructor
      · rintro ⟨r, hr, h⟩
        obtain ⟨a, ha, hf⟩ := (ih r).mp h
        exact ⟨a, ⟨r, hr, ha⟩, hf⟩
      · rintro ⟨a, ⟨r, hr, ha⟩, hf⟩
        exact ⟨r, hr, (ih r).mpr ⟨a, ha, hf⟩⟩

/-- A check in front of what follows. -/
lemma yields_ite {c : Prop} [Decidable c] {e : ε} {p : Prog Op Ret ε α} {a : α} :
    Yields can (if c then .fail e else p) a ↔ ¬c ∧ Yields can p a := by
  split_ifs with h <;> simp [h]

/-- **The rule for loops.** What a round keeps, with what is behind it, holds in the end of all
the list. -/
lemma yields_foldlM {f : β → α → Prog Op Ret ε β} {I : List α → β → Prop}
    (hstep : ∀ l a s t, I l s → Yields can (f s a) t → I (l ++ [a]) t) :
    ∀ (rest l : List α) (s t : β), I l s → Yields can (rest.foldlM f s) t → I (l ++ rest) t
  | [], l, s, t, hs, h => by
      obtain rfl : s = t := h
      simpa using hs
  | a :: rest, l, s, t, hs, h => by
      rw [List.foldlM_cons, yields_bind] at h
      obtain ⟨u, hu, h⟩ := h
      have := yields_foldlM hstep rest (l ++ [a]) u t (hstep l a s u hs hu) h
      simpa using this

/-- What is read of a list, one element after the other. -/
lemma forall₂_of_mapM {f : α → Except ε β} {l : List α} {out : List β}
    (h : l.mapM f = .ok out) : List.Forall₂ (fun a b => f a = .ok b) l out := by
  induction l generalizing out with
  | nil =>
      obtain rfl := Except.ok.inj h
      exact .nil
  | cons a l ih =>
      rw [List.mapM_cons] at h
      obtain ⟨b, hb, h⟩ := bind_eq_ok.mp h
      obtain ⟨rest, hrest, h⟩ := bind_eq_ok.mp h
      obtain rfl := Except.ok.inj h
      exact .cons hb (ih hrest)

/-! ### Failures -/

/-- Answers that may be given make the program fail so. -/
def Fails (can : (o : Op) → Ret o → Prop) : Prog Op Ret ε α → ε → Prop
  | .ret _, _ => False
  | .fail e, e' => e = e'
  | .call o k, e => ∃ r, can o r ∧ Fails can (k r) e

@[simp] lemma fails_ret (a : α) (e : ε) : Fails can (.ret a : Prog Op Ret ε α) e ↔ False := Iff.rfl

@[simp] lemma fails_pure (a : α) (e : ε) : Fails can (pure a : Prog Op Ret ε α) e ↔ False :=
  Iff.rfl

@[simp] lemma fails_ofExcept (x : Except ε α) (e : ε) :
    Fails can (.ofExcept x : Prog Op Ret ε α) e ↔ x = .error e := by
  cases x <;> simp [Prog.ofExcept, Fails]

lemma fails_bind (p : Prog Op Ret ε α) (f : α → Prog Op Ret ε β) (e : ε) :
    Fails can (p >>= f) e ↔ Fails can p e ∨ ∃ a, Yields can p a ∧ Fails can (f a) e := by
  induction p with
  | ret a =>
      refine ⟨fun h => .inr ⟨a, rfl, h⟩, ?_⟩
      rintro (h | ⟨a', rfl, h⟩)
      · exact h.elim
      · exact h
  | fail e' =>
      refine ⟨.inl, ?_⟩
      rintro (h | ⟨a, h, -⟩)
      · exact h
      · exact h.elim
  | call o k ih =>
      constructor
      · rintro ⟨r, hr, h⟩
        rcases (ih r).mp h with h | ⟨a, ha, h⟩
        · exact .inl ⟨r, hr, h⟩
        · exact .inr ⟨a, ⟨r, hr, ha⟩, h⟩
      · rintro (⟨r, hr, h⟩ | ⟨a, ⟨r, hr, ha⟩, h⟩)
        · exact ⟨r, hr, (ih r).mpr (.inl h)⟩
        · exact ⟨r, hr, (ih r).mpr (.inr ⟨a, ha, h⟩)⟩

lemma yields_mapErr (f : ε → ε') (p : Prog Op Ret ε α) (a : α) :
    Yields can (p.mapErr f) a ↔ Yields can p a := by
  induction p with
  | ret b => exact Iff.rfl
  | fail e => exact Iff.rfl
  | call o k ih => exact exists_congr fun r => and_congr_right fun _ => ih r

lemma fails_mapErr (f : ε → ε') (p : Prog Op Ret ε α) (e : ε') :
    Fails can (p.mapErr f) e ↔ ∃ e', Fails can p e' ∧ f e' = e := by
  induction p with
  | ret a => simp [Prog.mapErr, Fails]
  | fail e' => simp [Prog.mapErr, Fails]
  | call o k ih =>
      constructor
      · rintro ⟨r, hr, h⟩
        obtain ⟨e', he', hf⟩ := (ih r).mp h
        exact ⟨e', ⟨r, hr, he'⟩, hf⟩
      · rintro ⟨e', ⟨r, hr, he'⟩, hf⟩
        exact ⟨r, hr, (ih r).mpr ⟨e', he', hf⟩⟩

/-! ### Runs -/

/-- A run with the answers of a function is one of the runs. -/
lemma yields_of_run {answer : (o : Op) → Ret o} (hcan : ∀ o, can o (answer o))
    {p : Prog Op Ret ε α} {a : α}
    (h : (p.run (fun _ => answer) (fun s _ _ => s) ()).1 = .ok a) : Yields can p a := by
  induction p with
  | ret b => exact Except.ok.inj h
  | fail e => cases h
  | call o k ih => exact ⟨_, hcan o, ih _ h⟩

lemma fails_of_run {answer : (o : Op) → Ret o} (hcan : ∀ o, can o (answer o))
    {p : Prog Op Ret ε α} {e : ε}
    (h : (p.run (fun _ => answer) (fun s _ _ => s) ()).1 = .error e) : Fails can p e := by
  induction p with
  | ret b => cases h
  | fail e' => exact Except.error.inj h
  | call o k ih => exact ⟨_, hcan o, ih _ h⟩

/-- The values yielded are those of the executions. -/
theorem yields_iff_exec (p : Prog Op Ret ε α) (a : α) :
    Yields can p a ↔ Exec (Env.of (fun _ => can) fun s _ _ => s) p () (.ret a) () := by
  induction p with
  | ret b =>
      refine ⟨?_, fun h => by cases h; rfl⟩
      rintro rfl
      exact .refl _ _
  | fail e => exact ⟨False.elim, nofun⟩
  | call o k ih =>
      constructor
      · rintro ⟨r, hr, h⟩
        exact .step ⟨hr, rfl⟩ ((ih r).mp h)
      · intro h
        cases h with
        | step hr h => exact ⟨_, hr.1, (ih _).mpr h⟩

end Bimo
