import Mathlib

/-!
Programs as trees of calls to an environment.

A program returns, fails, or makes a call and goes on with the answer. What a call may
answer and what it does to the state is the environment's business, so one program text
serves every failure pattern: an append that may fail is a call whose answer may be an
error. A program can be stopped between any two calls, which is a crash.

`Safe` is the weakest precondition of such a program: every call is made in a state where
the watcher allows it, and the postcondition holds when the program is through. It is
computed by recursion on the tree, so a program written in `do` notation is taken apart by
rewriting with `safe_bind`, `safe_call` and `safe_attempt`.
-/

namespace Bimo

inductive Prog (Op : Type) (Ret : Op → Type) (ε α : Type) : Type
  | ret (a : α)
  | fail (e : ε)
  | call (o : Op) (k : Ret o → Prog Op Ret ε α)

namespace Prog

variable {Op : Type} {Ret : Op → Type} {ε ε' α β : Type}

def bind : Prog Op Ret ε α → (α → Prog Op Ret ε β) → Prog Op Ret ε β
  | ret a, f => f a
  | fail e, _ => fail e
  | call o k, f => call o fun r => (k r).bind f

instance : Monad (Prog Op Ret ε) where
  pure := ret
  bind := bind

/-- A call, as a program that returns its answer. -/
def ask (o : Op) : Prog Op Ret ε (Ret o) := call o ret

/-- A program whose failure is handed to the caller as a value. -/
def attempt : Prog Op Ret ε α → Prog Op Ret ε' (Except ε α)
  | ret a => ret (.ok a)
  | fail e => ret (.error e)
  | call o k => call o fun r => (k r).attempt

/-- A program whose failures are renamed. -/
def mapErr (f : ε → ε') : Prog Op Ret ε α → Prog Op Ret ε' α
  | ret a => ret a
  | fail e => fail (f e)
  | call o k => call o fun r => (k r).mapErr f

/-- A failure value, raised. -/
def ofExcept : Except ε α → Prog Op Ret ε α
  | .ok a => ret a
  | .error e => fail e

/-- A program over one kind of calls, where there are two. -/
def inr {Op' : Type} {Ret' : Op' → Type} :
    Prog Op Ret ε α → Prog (Op' ⊕ Op) (Sum.elim Ret' Ret) ε α
  | ret a => ret a
  | fail e => fail e
  | call o k => call (Sum.inr o) fun r => (k r).inr

def inl {Op' : Type} {Ret' : Op' → Type} :
    Prog Op Ret ε α → Prog (Op ⊕ Op') (Sum.elim Ret Ret') ε α
  | ret a => ret a
  | fail e => fail e
  | call o k => call (Sum.inl o) fun r => (k r).inl

/-- Every call the program makes is as described, and so is what it returns. -/
def Does (P : Op → Prop) (R : α → Prop) : Prog Op Ret ε α → Prop
  | ret a => R a
  | fail _ => True
  | call o k => P o ∧ ∀ r, (k r).Does P R

def isRet : Prog Op Ret ε α → Bool
  | ret _ => true
  | _ => false

/-- The program is through, with a value as described. -/
def returns (P : α → Bool) : Prog Op Ret ε α → Bool
  | ret a => P a
  | _ => false

/-- The loop of a program over a list, one element after the other. -/
def each (f : α → Prog Op Ret ε Unit) : List α → Prog Op Ret ε Unit
  | [] => ret ()
  | a :: l => (f a).bind fun _ => each f l

end Prog

lemma ok_of_isOk {ε α : Type} {x : Except ε α} (h : x.isOk) : ∃ a, x = .ok a := by
  cases x with
  | ok a => exact ⟨a, rfl⟩
  | error e => cases h

/-- A check passes when its parts do. -/
lemma bind_eq_ok {ε α β : Type} {x : Except ε α} {f : α → Except ε β} {b : β} :
    (x >>= f) = .ok b ↔ ∃ a, x = .ok a ∧ f a = .ok b := by
  cases x with
  | ok a =>
      refine ⟨fun h => ⟨a, rfl, h⟩, ?_⟩
      rintro ⟨a', ha, h⟩
      obtain rfl := Except.ok.inj ha
      exact h
  | error e =>
      refine ⟨fun h => ?_, ?_⟩
      · cases h
      · rintro ⟨a, ha, -⟩
        cases ha

section Does

variable {Op : Type} {Ret : Op → Type} {ε ε' α β : Type} {P : Op → Prop} {R : α → Prop}

namespace Prog

lemma Does.bind {S : β → Prop} {p : Prog Op Ret ε α} {f : α → Prog Op Ret ε β} (hp : p.Does P R)
    (hf : ∀ a, R a → (f a).Does P S) : (p >>= f).Does P S := by
  induction p with
  | ret a => exact hf a hp
  | fail e => exact trivial
  | call o k ih => exact ⟨hp.1, fun r => ih r (hp.2 r)⟩

lemma Does.mono {S : α → Prop} {p : Prog Op Ret ε α} (hp : p.Does P R) (h : ∀ a, R a → S a) :
    p.Does P S := by
  induction p with
  | ret a => exact h a hp
  | fail e => exact trivial
  | call o k ih => exact ⟨hp.1, fun r => ih r (hp.2 r)⟩

lemma does_ask {o : Op} (h : P o) : (ask o : Prog Op Ret ε _).Does P fun _ => True :=
  ⟨h, fun _ => trivial⟩

lemma does_ofExcept (x : Except ε α) : (ofExcept x : Prog Op Ret ε α).Does P fun _ => True := by
  cases x <;> exact trivial

lemma Does.attempt {p : Prog Op Ret ε α} (hp : p.Does P R) :
    (p.attempt : Prog Op Ret ε' _).Does P fun x => ∀ a, x = .ok a → R a := by
  induction p with
  | ret a =>
      intro b hb
      obtain rfl := Except.ok.inj hb
      exact hp
  | fail e => exact nofun
  | call o k ih => exact ⟨hp.1, fun r => ih r (hp.2 r)⟩

lemma does_each {f : α → Prog Op Ret ε Unit} (hf : ∀ a, (f a).Does P fun _ => True)
    (l : List α) : (each f l).Does P fun _ => True := by
  induction l with
  | nil => exact trivial
  | cons a l ih => exact (hf a).bind fun _ _ => ih

end Prog

end Does

/-- `step s o r t`: in state `s` the call `o` may be answered by `r` and leave state `t`. -/
structure Env (Op : Type) (Ret : Op → Type) (σ : Type) where
  step : σ → (o : Op) → Ret o → σ → Prop

variable {Op : Type} {Ret : Op → Type} {ε ε' α β σ : Type}

namespace Env

/-- The environment, where only the steps that meet a condition are taken. -/
def given (E : Env Op Ret σ) (M : σ → (o : Op) → Ret o → Prop) : Env Op Ret σ where
  step s o r t := E.step s o r t ∧ M s o r

/-- An environment whose state after a call is determined by the answer. -/
def of (can : σ → (o : Op) → Ret o → Prop) (next : σ → (o : Op) → Ret o → σ) : Env Op Ret σ where
  step s o r t := can s o r ∧ t = next s o r

end Env

/-- `Exec E p s q t`: some calls of `p`, made from state `s`, leave `q` to do in state `t`. -/
inductive Exec (E : Env Op Ret σ) : Prog Op Ret ε α → σ → Prog Op Ret ε α → σ → Prop
  | refl (p : Prog Op Ret ε α) (s : σ) : Exec E p s p s
  | step {o : Op} {k : Ret o → Prog Op Ret ε α} {r : Ret o} {s s' t : σ} {q : Prog Op Ret ε α}
      (hr : E.step s o r s') (h : Exec E (k r) s' q t) : Exec E (.call o k) s q t

/-- Every call is made where `pre` allows it, and `Q` holds when the program is through. -/
def Safe (E : Env Op Ret σ) (pre : σ → Op → Prop) :
    Prog Op Ret ε α → σ → (Except ε α → σ → Prop) → Prop
  | .ret a, s, Q => Q (.ok a) s
  | .fail e, s, Q => Q (.error e) s
  | .call o k, s, Q => pre s o ∧ ∀ r t, E.step s o r t → Safe E pre (k r) t Q

section Rules

variable {E : Env Op Ret σ} {pre : σ → Op → Prop}

@[simp] lemma safe_ret (a : α) (s : σ) (Q : Except ε α → σ → Prop) :
    Safe E pre (.ret a) s Q ↔ Q (.ok a) s := Iff.rfl

@[simp] lemma safe_pure (a : α) (s : σ) (Q : Except ε α → σ → Prop) :
    Safe E pre (pure a) s Q ↔ Q (.ok a) s := Iff.rfl

@[simp] lemma safe_fail (e : ε) (s : σ) (Q : Except ε α → σ → Prop) :
    Safe E pre (.fail e) s Q ↔ Q (.error e) s := Iff.rfl

lemma safe_call (o : Op) (k : Ret o → Prog Op Ret ε α) (s : σ) (Q : Except ε α → σ → Prop) :
    Safe E pre (.call o k) s Q ↔
      pre s o ∧ ∀ r t, E.step s o r t → Safe E pre (k r) t Q := Iff.rfl

lemma safe_ask (o : Op) (s : σ) (Q : Except ε (Ret o) → σ → Prop) :
    Safe E pre (.ask o) s Q ↔ pre s o ∧ ∀ r t, E.step s o r t → Q (.ok r) t := Iff.rfl

lemma safe_call_of {can : σ → (o : Op) → Ret o → Prop} {next : σ → (o : Op) → Ret o → σ} (o : Op)
    (k : Ret o → Prog Op Ret ε α) (s : σ) (Q : Except ε α → σ → Prop) :
    Safe (.of can next) pre (.call o k) s Q ↔
      pre s o ∧ ∀ r, can s o r → Safe (.of can next) pre (k r) (next s o r) Q := by
  refine and_congr_right fun _ => forall_congr' fun r => ⟨fun h hr => h _ ⟨hr, rfl⟩, ?_⟩
  rintro h _ ⟨hr, rfl⟩
  exact h hr

/-- `safe_call_of`, for a call written in `do` notation. -/
lemma safe_ask_of {can : σ → (o : Op) → Ret o → Prop} {next : σ → (o : Op) → Ret o → σ} (o : Op)
    (f : Ret o → Prog Op Ret ε α) (s : σ) (Q : Except ε α → σ → Prop) :
    Safe (.of can next) pre (Prog.ask o >>= f) s Q ↔
      pre s o ∧ ∀ r, can s o r → Safe (.of can next) pre (f r) (next s o r) Q :=
  safe_call_of o f s Q

@[simp] lemma safe_ofExcept (x : Except ε α) (s : σ) (Q : Except ε α → σ → Prop) :
    Safe E pre (.ofExcept x) s Q ↔ Q x s := by
  cases x <;> rfl

lemma Safe.mono {p : Prog Op Ret ε α} {s : σ} {Q Q' : Except ε α → σ → Prop}
    (h : Safe E pre p s Q) (hQ : ∀ r t, Q r t → Q' r t) : Safe E pre p s Q' := by
  induction p generalizing s with
  | ret a => exact hQ _ _ h
  | fail e => exact hQ _ _ h
  | call o k ih => exact ⟨h.1, fun r t hr => ih r (h.2 r t hr)⟩

/-- A watcher that allows more. -/
lemma Safe.weaken {pre' : σ → Op → Prop} {p : Prog Op Ret ε α} {s : σ}
    {Q : Except ε α → σ → Prop} (h : Safe E pre p s Q) (hpre : ∀ s o, pre s o → pre' s o) :
    Safe E pre' p s Q := by
  induction p generalizing s with
  | ret a => exact h
  | fail e => exact h
  | call o k ih => exact ⟨hpre _ _ h.1, fun r t hr => ih r (h.2 r t hr)⟩

/-- Fewer answers, fewer runs. -/
lemma Safe.given {p : Prog Op Ret ε α} {s : σ} {Q : Except ε α → σ → Prop}
    {M : σ → (o : Op) → Ret o → Prop} (h : Safe E pre p s Q) : Safe (E.given M) pre p s Q := by
  induction p generalizing s with
  | ret a => exact h
  | fail e => exact h
  | call o k ih => exact ⟨h.1, fun r t hr => ih r (h.2 r t hr.1)⟩

/-- Calls that change nothing need no more than to be allowed. -/
lemma safe_inr {Op' : Type} {Ret' : Op' → Type} {E : Env (Op' ⊕ Op) (Sum.elim Ret' Ret) σ}
    {pre : σ → Op' ⊕ Op → Prop} {s : σ} (hpre : ∀ o, pre s (Sum.inr o))
    (hnext : ∀ o r t, E.step s (Sum.inr o) r t → t = s) (p : Prog Op Ret ε α)
    {Q : Except ε α → σ → Prop} (hQ : ∀ r, Q r s) : Safe E pre p.inr s Q := by
  induction p with
  | ret a => exact hQ _
  | fail e => exact hQ _
  | call o k ih =>
      refine ⟨hpre o, fun r t ht => ?_⟩
      rw [hnext o r t ht]
      exact ih r

/-- Of calls that change nothing only the value returned is left. -/
lemma safe_of_does {P : Op → Prop} {R : α → Prop} {s : σ} (hpre : ∀ o, P o → pre s o)
    (hnext : ∀ o r t, P o → E.step s o r t → t = s) {p : Prog Op Ret ε α} (hp : p.Does P R)
    {Q : Except ε α → σ → Prop} (hQ : ∀ r, (∀ a, r = .ok a → R a) → Q r s) :
    Safe E pre p s Q := by
  induction p with
  | ret a =>
      refine hQ _ fun b hb => ?_
      obtain rfl := Except.ok.inj hb
      exact hp
  | fail e => exact hQ _ nofun
  | call o k ih =>
      refine ⟨hpre o hp.1, fun r t ht => ?_⟩
      rw [hnext o r t hp.1 ht]
      exact ih r (hp.2 r)

/-- What follows a program starts where it left off, unless it failed. -/
lemma safe_bind (p : Prog Op Ret ε α) (f : α → Prog Op Ret ε β) (s : σ)
    (Q : Except ε β → σ → Prop) :
    Safe E pre (p >>= f) s Q ↔ Safe E pre p s fun r t =>
      match r with
      | .ok a => Safe E pre (f a) t Q
      | .error e => Q (.error e) t := by
  induction p generalizing s with
  | ret a => exact Iff.rfl
  | fail e => exact Iff.rfl
  | call o k ih =>
      refine and_congr_right fun _ => forall_congr' fun r => forall_congr' fun t =>
        imp_congr_right fun _ => ?_
      exact ih r t

lemma Safe.bind {p : Prog Op Ret ε α} {f : α → Prog Op Ret ε β} {s : σ}
    {Q : Except ε β → σ → Prop} {R : Except ε α → σ → Prop} (h : Safe E pre p s R)
    (hok : ∀ a t, R (.ok a) t → Safe E pre (f a) t Q)
    (herr : ∀ e t, R (.error e) t → Q (.error e) t) : Safe E pre (p >>= f) s Q := by
  rw [safe_bind]
  refine h.mono fun r t hr => ?_
  cases r with
  | ok a => exact hok a t hr
  | error e => exact herr e t hr

lemma safe_attempt (p : Prog Op Ret ε α) (s : σ) (Q : Except ε' (Except ε α) → σ → Prop) :
    Safe E pre (p.attempt : Prog Op Ret ε' _) s Q ↔ Safe E pre p s fun r t => Q (.ok r) t := by
  induction p generalizing s with
  | ret a => exact Iff.rfl
  | fail e => exact Iff.rfl
  | call o k ih =>
      refine and_congr_right fun _ => forall_congr' fun r => forall_congr' fun t =>
        imp_congr_right fun _ => ?_
      exact ih r t

/-- A program over one of two kinds of calls is judged by that kind alone. -/
lemma safe_inl_of {Op' : Type} {Ret' : Op' → Type}
    {can : σ → (o : Op ⊕ Op') → Sum.elim Ret Ret' o → Prop}
    {next : σ → (o : Op ⊕ Op') → Sum.elim Ret Ret' o → σ} {pre : σ → Op ⊕ Op' → Prop}
    (p : Prog Op Ret ε α) (s : σ) (Q : Except ε α → σ → Prop) :
    Safe (.of can next) pre p.inl s Q ↔
      Safe (.of (fun s o r => can s (Sum.inl o) r) fun s o r => next s (Sum.inl o) r)
        (fun s o => pre s (Sum.inl o)) p s Q := by
  induction p generalizing s with
  | ret a => exact Iff.rfl
  | fail e => exact Iff.rfl
  | call o k ih =>
      refine and_congr_right fun _ => forall_congr' fun r => forall_congr' fun t =>
        imp_congr_right fun _ => ?_
      exact ih r t

lemma safe_inr_of {Op' : Type} {Ret' : Op' → Type}
    {can : σ → (o : Op' ⊕ Op) → Sum.elim Ret' Ret o → Prop}
    {next : σ → (o : Op' ⊕ Op) → Sum.elim Ret' Ret o → σ} {pre : σ → Op' ⊕ Op → Prop}
    (p : Prog Op Ret ε α) (s : σ) (Q : Except ε α → σ → Prop) :
    Safe (.of can next) pre p.inr s Q ↔
      Safe (.of (fun s o r => can s (Sum.inr o) r) fun s o r => next s (Sum.inr o) r)
        (fun s o => pre s (Sum.inr o)) p s Q := by
  induction p generalizing s with
  | ret a => exact Iff.rfl
  | fail e => exact Iff.rfl
  | call o k ih =>
      refine and_congr_right fun _ => forall_congr' fun r => forall_congr' fun t =>
        imp_congr_right fun _ => ?_
      exact ih r t

lemma safe_mapErr (f : ε → ε') (p : Prog Op Ret ε α) (s : σ) (Q : Except ε' α → σ → Prop) :
    Safe E pre (p.mapErr f) s Q ↔ Safe E pre p s fun r t => Q (r.mapError f) t := by
  induction p generalizing s with
  | ret a => exact Iff.rfl
  | fail e => exact Iff.rfl
  | call o k ih =>
      refine and_congr_right fun _ => forall_congr' fun r => forall_congr' fun t =>
        imp_congr_right fun _ => ?_
      exact ih r t

/-- **The rule for loops.** An invariant indexed by what is left of the list. -/
lemma safe_each {f : α → Prog Op Ret ε Unit} {I : List α → σ → Prop}
    {Q : Except ε Unit → σ → Prop}
    (hbody : ∀ a l s, I (a :: l) s → Safe E pre (f a) s fun r t =>
      match r with
      | .ok _ => I l t
      | .error e => Q (.error e) t)
    (hend : ∀ s, I [] s → Q (.ok ()) s) :
    ∀ (l : List α) (s : σ), I l s → Safe E pre (Prog.each f l) s Q
  | [], s, h => hend s h
  | a :: l, s, h => by
      refine Safe.bind (hbody a l s h) (fun _ t ht => ?_) fun _ _ ht => ht
      exact safe_each hbody hend l t ht

/-- Safety is kept along an execution. -/
lemma Safe.exec {p q : Prog Op Ret ε α} {s t : σ} {Q : Except ε α → σ → Prop}
    (h : Safe E pre p s Q) (hx : Exec E p s q t) : Safe E pre q t Q := by
  induction hx with
  | refl => exact h
  | step hr _ ih => exact ih (h.2 _ _ hr)

/-- **The rule for invariants.** Where every call is made as `pre` allows it, what each such
call preserves holds as far as the program gets. -/
theorem Safe.inv {J : σ → Prop} (hstep : ∀ s o r t, pre s o → E.step s o r t → J s → J t)
    {p q : Prog Op Ret ε α} {s t : σ} {Q : Except ε α → σ → Prop} (h : Safe E pre p s Q)
    (hJ : J s) (hx : Exec E p s q t) : J t := by
  induction hx with
  | refl => exact hJ
  | step hr _ ih => exact ih (h.2 _ _ hr) (hstep _ _ _ _ h.1 hr hJ)

end Rules

/-- A run of a program and what follows it, up to some call: the call is the program's own, or
the program is through. -/
lemma exec_bind_call {E : Env Op Ret σ} {p : Prog Op Ret ε α} {f : α → Prog Op Ret ε β} {o : Op}
    {K : Ret o → Prog Op Ret ε β} {s t : σ} (h : Exec E (p >>= f) s (.call o K) t) :
    (∃ K', Exec E p s (.call o K') t ∧ K = fun r => K' r >>= f) ∨
      ∃ a u, Exec E p s (.ret a) u ∧ Exec E (f a) u (.call o K) t := by
  induction p generalizing s with
  | ret a => exact .inr ⟨a, s, .refl _ _, h⟩
  | fail e => cases h
  | call o' k ih =>
      cases h with
      | refl => exact .inl ⟨k, .refl _ _, rfl⟩
      | step hr h =>
          rcases ih _ h with ⟨K', hp, rfl⟩ | ⟨a, u, hp, hf⟩
          · exact .inl ⟨K', .step hr hp, rfl⟩
          · exact .inr ⟨a, u, .step hr hp, hf⟩

/-- A run of a program whose failure is handed on, up to some call. -/
lemma exec_attempt_call {E : Env Op Ret σ} {p : Prog Op Ret ε α} {o : Op}
    {K : Ret o → Prog Op Ret ε' (Except ε α)} {s t : σ}
    (h : Exec E p.attempt s (.call o K) t) :
    ∃ K', Exec E p s (.call o K') t ∧ K = fun r => (K' r).attempt := by
  induction p generalizing s with
  | ret a => cases h
  | fail e => cases h
  | call o' k ih =>
      cases h with
      | refl => exact ⟨k, .refl _ _, rfl⟩
      | step hr h =>
          obtain ⟨K', hp, rfl⟩ := ih _ h
          exact ⟨K', .step hr hp, rfl⟩

lemma exec_of_attempt {E : Env Op Ret σ} {p : Prog Op Ret ε α} {e : ε} {s t : σ}
    (h : Exec E (p.attempt : Prog Op Ret ε' _) s (.ret (.error e)) t) : Exec E p s (.fail e) t := by
  induction p generalizing s with
  | ret a => cases h
  | fail e' =>
      cases h
      exact .refl _ _
  | call o k ih =>
      cases h with
      | step hr h => exact .step hr (ih _ h)

section Runs

variable {E : Env Op Ret σ} {p q : Prog Op Ret ε α} {s t u : σ}

lemma Exec.trans {r : Prog Op Ret ε α} (h : Exec E p s q t) (h' : Exec E q t r u) :
    Exec E p s r u := by
  induction h with
  | refl => exact h'
  | step hr _ ih => exact .step hr (ih h')

lemma Exec.bind_left (h : Exec E p s q t) (f : α → Prog Op Ret ε β) :
    Exec E (p >>= f) s (q >>= f) t := by
  induction h with
  | refl => exact .refl _ _
  | step hr _ ih => exact .step hr ih

/-- A program that is through, and what follows it. -/
lemma Exec.bind {f : α → Prog Op Ret ε β} {r : Prog Op Ret ε β} {a : α}
    (h : Exec E p s (.ret a) t) (h' : Exec E (f a) t r u) : Exec E (p >>= f) s r u :=
  (h.bind_left f).trans h'

lemma Exec.attempt (h : Exec E p s q t) :
    Exec E (p.attempt : Prog Op Ret ε' _) s q.attempt t := by
  induction h with
  | refl => exact .refl _ _
  | step hr _ ih => exact .step hr ih

end Runs

/-! ### Runs that are possible -/

/-- Some run of the program gets to a call as described, or is through as described. -/
def Might (E : Env Op Ret σ) (P : σ → Op → Prop) :
    Prog Op Ret ε α → σ → (Except ε α → σ → Prop) → Prop
  | .ret a, s, Q => Q (.ok a) s
  | .fail e, s, Q => Q (.error e) s
  | .call o k, s, Q => P s o ∨ ∃ r t, E.step s o r t ∧ Might E P (k r) t Q

section Might

variable {E : Env Op Ret σ} {P : σ → Op → Prop}

lemma might_bind (p : Prog Op Ret ε α) (f : α → Prog Op Ret ε β) (s : σ)
    (Q : Except ε β → σ → Prop) :
    Might E P (p >>= f) s Q ↔ Might E P p s fun r t =>
      match r with
      | .ok a => Might E P (f a) t Q
      | .error e => Q (.error e) t := by
  induction p generalizing s with
  | ret a => exact Iff.rfl
  | fail e => exact Iff.rfl
  | call o k ih =>
      refine or_congr_right <| exists_congr fun r => exists_congr fun t => and_congr_right fun _ => ?_
      exact ih r t

lemma might_attempt (p : Prog Op Ret ε α) (s : σ) (Q : Except ε' (Except ε α) → σ → Prop) :
    Might E P (p.attempt : Prog Op Ret ε' _) s Q ↔ Might E P p s fun r t => Q (.ok r) t := by
  induction p generalizing s with
  | ret a => exact Iff.rfl
  | fail e => exact Iff.rfl
  | call o k ih =>
      refine or_congr_right <| exists_congr fun r => exists_congr fun t => and_congr_right fun _ => ?_
      exact ih r t

lemma might_mapErr (f : ε → ε') (p : Prog Op Ret ε α) (s : σ) (Q : Except ε' α → σ → Prop) :
    Might E P (p.mapErr f) s Q ↔ Might E P p s fun r t => Q (r.mapError f) t := by
  induction p generalizing s with
  | ret a => exact Iff.rfl
  | fail e => exact Iff.rfl
  | call o k ih =>
      refine or_congr_right <| exists_congr fun r => exists_congr fun t => and_congr_right fun _ => ?_
      exact ih r t

lemma Might.mono {p : Prog Op Ret ε α} {s : σ} {Q Q' : Except ε α → σ → Prop}
    (h : Might E P p s Q) (hQ : ∀ r t, Q r t → Q' r t) : Might E P p s Q' := by
  induction p generalizing s with
  | ret a => exact hQ _ _ h
  | fail e => exact hQ _ _ h
  | call o k ih => exact h.imp_right fun ⟨r, t, hr, hk⟩ => ⟨r, t, hr, ih r hk⟩

/-- A run that gets to such a call, where none is through. -/
theorem Might.exec {p : Prog Op Ret ε α} {s : σ} (h : Might E P p s fun _ _ => False) :
    ∃ o k t, Exec E p s (.call o k) t ∧ P t o := by
  induction p generalizing s with
  | ret a => exact h.elim
  | fail e => exact h.elim
  | call o k ih =>
      rcases h with h | ⟨r, t, hr, h⟩
      · exact ⟨o, k, s, .refl _ _, h⟩
      · obtain ⟨o', k', t', hx, hP⟩ := ih r h
        exact ⟨o', k', t', .step hr hx, hP⟩

end Might

/-! ### Running a program where every answer is determined -/

section Run

variable (answer : σ → (o : Op) → Ret o) (next : σ → (o : Op) → Ret o → σ)

/-- The outcome of a program and the state it leaves. -/
def Prog.run : Prog Op Ret ε α → σ → Except ε α × σ
  | .ret a, s => (.ok a, s)
  | .fail e, s => (.error e, s)
  | .call o k, s => (k (answer s o)).run (next s o (answer s o))

@[simp] lemma run_pure (a : α) (s : σ) :
    (pure a : Prog Op Ret ε α).run answer next s = (.ok a, s) := rfl

@[simp] lemma run_fail (e : ε) (s : σ) :
    (.fail e : Prog Op Ret ε α).run answer next s = (.error e, s) := rfl

@[simp] lemma run_ask (o : Op) (s : σ) :
    (Prog.ask o : Prog Op Ret ε _).run answer next s = (.ok (answer s o), next s o (answer s o)) :=
  rfl

@[simp] lemma run_ofExcept (x : Except ε α) (s : σ) :
    (Prog.ofExcept x : Prog Op Ret ε α).run answer next s = (x, s) := by
  cases x <;> rfl

lemma run_bind (p : Prog Op Ret ε α) (f : α → Prog Op Ret ε β) (s : σ) :
    (p >>= f).run answer next s =
      match p.run answer next s with
      | (.ok a, t) => (f a).run answer next t
      | (.error e, t) => (.error e, t) := by
  induction p generalizing s with
  | ret a => rfl
  | fail e => rfl
  | call o k ih => exact ih _ _

lemma run_bind_eq_ok {p : Prog Op Ret ε α} {f : α → Prog Op Ret ε β} {s t : σ} {b : β} :
    (p >>= f).run answer next s = (.ok b, t) ↔
      ∃ a u, p.run answer next s = (.ok a, u) ∧ (f a).run answer next u = (.ok b, t) := by
  rw [run_bind]
  rcases p.run answer next s with ⟨e | a, u⟩
  · simp
  · refine ⟨fun h => ⟨a, u, rfl, h⟩, ?_⟩
    rintro ⟨a', u', hp, hf⟩
    obtain ⟨ha, rfl⟩ := Prod.mk.inj hp
    obtain rfl := Except.ok.inj ha
    exact hf

lemma run_attempt (p : Prog Op Ret ε α) (s : σ) :
    (p.attempt : Prog Op Ret ε' _).run answer next s =
      (.ok (p.run answer next s).1, (p.run answer next s).2) := by
  induction p generalizing s with
  | ret a => rfl
  | fail e => rfl
  | call o k ih => exact ih _ _

variable {answer next}

/-- What is computed is what an environment that gives these answers does. -/
lemma exec_of_run {E : Env Op Ret σ}
    (hE : ∀ s o, E.step s o (answer s o) (next s o (answer s o))) {p : Prog Op Ret ε α} {s t : σ}
    {a : α} (h : p.run answer next s = (.ok a, t)) : Exec E p s (.ret a) t := by
  induction p generalizing s with
  | ret b =>
      obtain ⟨hb, rfl⟩ := Prod.mk.inj h
      obtain rfl := Except.ok.inj hb
      exact .refl _ _
  | fail e => cases (Prod.mk.inj h).1
  | call o k ih => exact .step (hE _ _) (ih _ h)

lemma exec_of_run_error {E : Env Op Ret σ}
    (hE : ∀ s o, E.step s o (answer s o) (next s o (answer s o))) {p : Prog Op Ret ε α} {s t : σ}
    {e : ε} (h : p.run answer next s = (.error e, t)) : Exec E p s (.fail e) t := by
  induction p generalizing s with
  | ret b => cases (Prod.mk.inj h).1
  | fail e' =>
      obtain ⟨he, rfl⟩ := Prod.mk.inj h
      obtain rfl := Except.error.inj he
      exact .refl _ _
  | call o k ih => exact .step (hE _ _) (ih _ h)

end Run

/-! ### Following a run -/

section Follow

variable (can : σ → (o : Op) → Ret o → Prop) (next : σ → (o : Op) → Ret o → σ)
  [∀ s o r, Decidable (can s o r)] (answer : σ → (o : Op) → Ret o)

/-- The first calls of a program, each answered as given, as far as that can be answered. -/
def follow : ℕ → Prog Op Ret ε α → σ → Option (Prog Op Ret ε α × σ)
  | 0, p, s => some (p, s)
  | n + 1, .call o k, s =>
    if can s o (answer s o) then follow n (k (answer s o)) (next s o (answer s o)) else none
  | _ + 1, p, s => some (p, s)

variable {can next answer}

lemma exec_of_follow {E : Env Op Ret σ}
    (hE : ∀ s o, can s o (answer s o) → E.step s o (answer s o) (next s o (answer s o)))
    {n : ℕ} {p q : Prog Op Ret ε α} {s t : σ}
    (h : follow can next answer n p s = some (q, t)) : Exec E p s q t := by
  induction n generalizing p s with
  | zero =>
      obtain ⟨rfl, rfl⟩ := Prod.mk.inj (Option.some.inj h)
      exact .refl _ _
  | succ n ih =>
      cases p with
      | call o k =>
          simp only [follow] at h
          split_ifs at h with hc
          exact .step (hE _ _ hc) (ih h)
      | ret a | fail e =>
          obtain ⟨rfl, rfl⟩ := Prod.mk.inj (Option.some.inj h)
          exact .refl _ _

variable (can next answer)

/-- The state after the first calls. -/
def reach (n : ℕ) (p : Prog Op Ret ε α) (s : σ) : σ :=
  ((follow can next answer n p s).map Prod.snd).getD s

variable {can next answer}

lemma exec_reach {E : Env Op Ret σ}
    (hE : ∀ s o, can s o (answer s o) → E.step s o (answer s o) (next s o (answer s o))) {n : ℕ}
    {p : Prog Op Ret ε α} {s : σ} (h : (follow can next answer n p s).isSome = true) :
    ∃ q, Exec E p s q (reach can next answer n p s) := by
  obtain ⟨⟨q, t⟩, hq⟩ := Option.isSome_iff_exists.mp h
  exact ⟨q, by simpa [reach, hq] using exec_of_follow hE hq⟩

/-- A followed run that gets to the end of the program. -/
lemma exec_reach_ret {E : Env Op Ret σ}
    (hE : ∀ s o, can s o (answer s o) → E.step s o (answer s o) (next s o (answer s o))) {n : ℕ}
    {p : Prog Op Ret ε α} {s : σ} (h : (follow can next answer n p s).any (·.1.isRet) = true) :
    ∃ a, Exec E p s (.ret a) (reach can next answer n p s) := by
  obtain ⟨⟨q, t⟩, hq, hret⟩ := (Option.any_eq_true _ _).mp h
  cases q with
  | ret a => exact ⟨a, by simpa [reach, hq] using exec_of_follow hE hq⟩
  | fail e => cases hret
  | call o k => cases hret

/-- A followed run that gets to the end of the program with a value as described. -/
lemma exec_reach_returns {E : Env Op Ret σ}
    (hE : ∀ s o, can s o (answer s o) → E.step s o (answer s o) (next s o (answer s o))) {n : ℕ}
    {p : Prog Op Ret ε α} {s : σ} {P : α → Bool}
    (h : (follow can next answer n p s).any (·.1.returns P) = true) :
    ∃ a, P a = true ∧ Exec E p s (.ret a) (reach can next answer n p s) := by
  obtain ⟨⟨q, t⟩, hq, hret⟩ := (Option.any_eq_true _ _).mp h
  cases q with
  | ret a => exact ⟨a, hret, by simpa [reach, hq] using exec_of_follow hE hq⟩
  | fail e => cases hret
  | call o k => cases hret

end Follow

/-- The states a sequence of programs leaves behind, each program run alone and stopped
anywhere: `begins s p s'` says that `p` may be started in `s`, from `s'` on, and `stops q t`
that a program may be left in state `t` with `q` still to do. -/
inductive Leaves (E : Env Op Ret σ) (begins : σ → Prog Op Ret ε α → σ → Prop)
    (stops : Prog Op Ret ε α → σ → Prop) (s₀ : σ) : σ → Prop
  | init : Leaves E begins stops s₀ s₀
  | run {s s' t : σ} {p q : Prog Op Ret ε α} (h : Leaves E begins stops s₀ s)
      (hb : begins s p s') (hx : Exec E p s' q t) (hs : stops q t) : Leaves E begins stops s₀ t

/-- **The rule for sequences of programs.** `I` holds between programs, `J` while one runs. -/
theorem Leaves.inv {E : Env Op Ret σ} {begins : σ → Prog Op Ret ε α → σ → Prop}
    {stops : Prog Op Ret ε α → σ → Prop} {P : σ → Op → Prop} {s₀ : σ} {I J : σ → Prop}
    (h0 : I s₀) (hstep : ∀ s o r t, P s o → E.step s o r t → J s → J t)
    (hrun : ∀ s p s', begins s p s' → I s → Safe E P p s' (fun _ _ => True) ∧ J s')
    (hstop : ∀ q t, J t → stops q t → I t) {s : σ} (h : Leaves E begins stops s₀ s) : I s := by
  induction h with
  | init => exact h0
  | @run s s' t p q _ hb hx hs ih =>
      obtain ⟨hsafe, hJ⟩ := hrun s p s' hb ih
      exact hstop q t (hsafe.inv hstep hJ hx) hs

end Bimo
