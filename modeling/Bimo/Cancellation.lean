import Bimo.Retry

/-!
What is started after an interruption.

Once an execution was interrupted, or everything was cancelled, no other execution is to be
started. The controller keeps to that where it learns of the interruption first. It does not
where another error came before, where the checkers of an attempt follow each other, and where
a writer is interrupted while the controller is busy with another one.
-/

namespace Bimo.Controller

open Wire (Json)
open PodStore (Fields)
open Contract

/-! ### Orderly interruptions -/

/-- An error was noted that is no interruption. -/
def plainError : Answered → Bool
  | ⟨.keepError e, _⟩ => !terminalInterruption e
  | _ => false

def isRace : Answered → Bool
  | ⟨.race _, _⟩ => true
  | _ => false

def isInbox : Answered → Bool
  | ⟨.readInbox _ _, _⟩ => true
  | _ => false

/-- All writers are taken and no request is taken up yet: the commits are checked one by one. -/
def checking (record : List Answered) : Bool :=
  decide (3 ≤ record.countP isRace) && !record.any isInbox

def lastChecker (n : ℕ) : String :=
  "attempt-" ++ toString n ++ "-" ++ ("checker-" ++ Slot.qaTests.name)

/-- The execution that ends is the one that the controller is just being told of. -/
def told (x : Option Slot × Except String Json) : (o : Call) → o.Ret → Prop
  | .race _, (slot, out) => x = (some slot, x.2) ∧ x.2.mapError Err.agent = out
  | _, _ => False

/-- The controller is told of an interruption before any other error; where the commits are
checked one by one, only the last of the checkers is interrupted. -/
def untroubled (record : List Answered) : (o : Call) → o.Ret → Prop
  | .race _, (_, .error e) => terminalInterruption e = true → record.any plainError = false
  | .execute input, .error message =>
    input.role = .checker → terminalInterruption (.agent message) = true →
      checking record = true →
      record.any plainError = false ∧ input.executionId = lastChecker input.attempt
  | _, _ => True

/-- A step that is in order: until something was interrupted or cancelled, a writer is
interrupted only while the controller waits for it, and the controller is told first. -/
def orderly (s : World) (o : Call) (r : o.Ret) (l : List (Option Slot × Except String Json)) :
    Prop :=
  s.interrupted = true ∨
    (∀ x ∈ l, stopped (x.2.mapError Err.agent) = true → told x o r) ∧ untroubled s.record o r

/-! ### Steps -/

/-- A call that starts an execution. -/
def starts : Call → Bool
  | .start _ _ => true
  | .execute _ => true
  | _ => false

def timely (s : World) (o : Call) : Prop := starts o = true → s.interrupted = false

abbrev orderlyEnv : Env Call Call.Ret World := envWhere orderly

lemma Settles.interrupted_eq {s t : World} {l : List (Option Slot × Except String Json)}
    (h : Settles s l t) :
    t.interrupted = (s.interrupted || l.any fun x => stopped (x.2.mapError Err.agent)) ∧
      t.late = s.late := by
  induction h with
  | nil s => simp
  | @cons s t slot out l hrunning hrest ih =>
      have hset : (s.settle slot out).interrupted =
          (s.interrupted || stopped (out.mapError Err.agent)) := by cases slot <;> rfl
      have hlate : (s.settle slot out).late = s.late := by cases slot <;> rfl
      rw [ih.1, ih.2, hset, hlate, List.any_cons, Bool.or_assoc]
      exact ⟨rfl, rfl⟩

/-- What an orderly step does to a world where nothing was interrupted. -/
lemma step_orderly {s t : World} {o : Call} {r : o.Ret} (hs : s.interrupted = false)
    (h : orderlyEnv.step s o r t) : ∃ s' : World, s'.late = s.late ∧ s'.record = s.record ∧
      t = s'.next o r ∧ untroubled s.record o r ∧
      (s'.interrupted = true → ∃ x, stopped (x.2.mapError Err.agent) = true ∧ told x o r) := by
  obtain ⟨l, s', hsettles, horder, -, rfl⟩ := h
  obtain ⟨hint, hlate⟩ := hsettles.interrupted_eq
  rcases horder with horder | ⟨htold, hclear⟩
  · rw [hs] at horder
    cases horder
  · refine ⟨s', hlate, hsettles.keeps.1, rfl, hclear, fun hs' => ?_⟩
    rw [hint, hs, Bool.false_or, List.any_eq_true] at hs'
    obtain ⟨x, hx, hstopped⟩ := hs'
    exact ⟨x, hstopped, htold x hx hstopped⟩

/-- A call that interrupts nothing by itself. -/
def quiet : Call → Bool
  | .race _ => false
  | .execute _ => false
  | .cancelActive => false
  | _ => true

lemma effect_quiet {s : World} {o : Call} (h : quiet o = true) (r : o.Ret) :
    (effect s o r).interrupted = s.interrupted := by
  unfold effect
  split
  all_goals first | rfl | cases h

lemma effect_late {s : World} {o : Call} (h : starts o = false) (r : o.Ret) :
    (effect s o r).late = s.late := by
  unfold effect
  split
  all_goals first | rfl | cases h

/-- Where nothing was interrupted, the call that is made next finds it so. -/
lemma calm_at_call {s t : World} {o : Call} {r : o.Ret} (ho : ∀ pending, o ≠ .race pending)
    (hs : s.interrupted = false) (h : orderlyEnv.step s o r t) :
    ∃ s' : World, s'.interrupted = false ∧ s'.late = s.late ∧ s'.record = s.record ∧
      t = s'.next o r ∧ untroubled s.record o r := by
  obtain ⟨s', hlate, hrecord, rfl, hclear, htold⟩ := step_orderly hs h
  refine ⟨s', ?_, hlate, hrecord, rfl, hclear⟩
  cases hint : s'.interrupted with
  | false => rfl
  | true =>
      obtain ⟨x, -, hx⟩ := htold hint
      cases o <;> first | exact (ho _ rfl).elim | exact hx.elim

lemma step_quiet {s t : World} {o : Call} {r : o.Ret} (ho : quiet o = true)
    (hs : s.interrupted = false) (h : orderlyEnv.step s o r t) : t.interrupted = false := by
  have hrace : ∀ pending, o ≠ .race pending := by
    rintro pending rfl
    cases ho
  obtain ⟨s', hs', -, -, rfl, -⟩ := calm_at_call hrace hs h
  exact (effect_quiet (s := s') ho r).trans hs'

lemma step_late {s t : World} {o : Call} {r : o.Ret} (hpre : timely s o)
    (h : orderlyEnv.step s o r t) (hs : s.late = false) : t.late = false := by
  cases hstarts : starts o with
  | false =>
      obtain ⟨l, s', hsettles, -, -, rfl⟩ := h
      exact (effect_late (s := s') hstarts r).trans (hsettles.interrupted_eq.2.trans hs)
  | true =>
      have hrace : ∀ pending, o ≠ .race pending := by
        rintro pending rfl
        cases hstarts
      obtain ⟨s', hs', hlate, -, rfl, -⟩ := calm_at_call hrace (hpre hstarts) h
      have hnext : (s'.next o r).late = (s'.late || s'.interrupted) := by
        cases o <;> first | rfl | cases hstarts
      rw [hnext, hlate, hs, hs']
      rfl

/-! ### Programs that are not interrupted -/

/-- The record has grown by calls of this kind. -/
def Frame (P : Call → Bool) (s t : World) : Prop :=
  ∃ new, t.record = new ++ s.record ∧ ∀ x ∈ new, P x.1 = true

lemma Frame.refl (P : Call → Bool) (s : World) : Frame P s s :=
  ⟨[], rfl, fun _ hx => by cases hx⟩

lemma Frame.trans {P : Call → Bool} {s t u : World} (h : Frame P s t) (h' : Frame P t u) :
    Frame P s u := by
  obtain ⟨new, hnew, hP⟩ := h
  obtain ⟨new', hnew', hP'⟩ := h'
  refine ⟨new' ++ new, by rw [hnew', hnew, List.append_assoc], fun x hx => ?_⟩
  rcases List.mem_append.mp hx with hx | hx
  · exact hP' x hx
  · exact hP x hx

lemma Frame.mono {P P' : Call → Bool} (hP : ∀ o, P o = true → P' o = true) {s t : World}
    (h : Frame P s t) : Frame P' s t := by
  obtain ⟨new, hnew, hnewP⟩ := h
  exact ⟨new, hnew, fun x hx => hP _ (hnewP x hx)⟩

lemma frame_step {P : Call → Bool} {s t : World} {o : Call} {r : o.Ret} (hP : P o = true)
    (hbegin : isBegin o = false) (h : orderlyEnv.step s o r t) : Frame P s t := by
  obtain ⟨l, s', hsettles, -, -, rfl⟩ := h
  refine ⟨[⟨o, r⟩], ?_, ?_⟩
  · rw [World.next, hbegin, hsettles.keeps.1]
    rfl
  · rintro x hx
    obtain rfl := List.mem_singleton.mp hx
    exact hP

/-- What follows from an error. `Z` is what is known when that error is an interruption. -/
def Excused (Z : Prop) (e : Err) (t : World) : Prop :=
  t.interrupted = true → terminalInterruption e = true ∧ Z

/-- Calls of this kind were made; nothing was interrupted, or else the error says so. -/
def Post (P : Call → Bool) (Z : Prop) {α : Type} (s : World) (R : α → World → Prop)
    (r : Except Err α) (t : World) : Prop :=
  Frame P s t ∧
    match r with
    | .ok a => t.interrupted = false ∧ R a t
    | .error e => Excused Z e t

/-- From where nothing was interrupted the program makes calls of this kind; it returns where
still nothing was interrupted, or else it fails with an interruption. -/
structure Calm (P : Call → Bool) (Z : Prop) {α : Type} (p : Io α) (s : World)
    (R : α → World → Prop) : Prop where
  safe : s.interrupted = false → Safe orderlyEnv timely p s (Post P Z s R)

section Calm

variable {P : Call → Bool} {Z : Prop} {α β : Type} {s : World} {R : α → World → Prop}

lemma Calm.bind {p : Io α} {f : α → Io β} {S : β → World → Prop} (hp : Calm P Z p s R)
    (hf : ∀ a t, Frame P s t → R a t → Calm P Z (f a) t S) : Calm P Z (p >>= f) s S := by
  refine ⟨fun hs => Safe.bind (hp.safe hs) ?_ ?_⟩
  · rintro a t ⟨hframe, ht, hR⟩
    refine ((hf a t hframe hR).safe ht).mono ?_
    rintro r u ⟨hframe', hpost⟩
    exact ⟨hframe.trans hframe', hpost⟩
  · rintro e t ⟨hframe, hpost⟩
    exact ⟨hframe, hpost⟩

lemma Calm.mono {p : Io α} {S : α → World → Prop} (hp : Calm P Z p s R)
    (h : ∀ a t, Frame P s t → R a t → S a t) : Calm P Z p s S := by
  refine ⟨fun hs => (hp.safe hs).mono ?_⟩
  rintro (e | a) t ⟨hframe, hpost⟩
  · exact ⟨hframe, hpost⟩
  · exact ⟨hframe, hpost.1, h a t hframe hpost.2⟩

/-- More kinds of calls, and less that is known of an interruption. -/
lemma Calm.weaken {P' : Call → Bool} {Z' : Prop} {p : Io α} (hp : Calm P Z p s R)
    (hP : ∀ o, P o = true → P' o = true) (hZ : Z → Z') : Calm P' Z' p s R := by
  refine ⟨fun hs => (hp.safe hs).mono ?_⟩
  rintro (e | a) t ⟨hframe, hpost⟩
  · exact ⟨hframe.mono hP, fun ht => ⟨(hpost ht).1, hZ (hpost ht).2⟩⟩
  · exact ⟨hframe.mono hP, hpost⟩

lemma calm_pure {a : α} (h : R a s) : Calm P Z (pure a) s R :=
  ⟨fun hs => ⟨Frame.refl P s, hs, h⟩⟩

lemma calm_fail (e : Err) : Calm P Z (Prog.fail e : Io α) s R := by
  refine ⟨fun hs => ⟨Frame.refl P s, fun h => ?_⟩⟩
  rw [hs] at h
  cases h

lemma calm_ofExcept {x : Except String α} {f : String → Err} :
    Calm P Z (Prog.ofExcept (x.mapError f)) s fun a _ => x = .ok a := by
  cases x with
  | ok a => exact calm_pure rfl
  | error e => exact calm_fail _

lemma Calm.valid {x : Except String α} {f : α → Io β} {S : β → World → Prop}
    (hf : ∀ a t, Frame P s t → x = .ok a → Calm P Z (f a) t S) :
    Calm P Z (Controller.valid x >>= f) s S :=
  calm_ofExcept.bind hf

lemma Calm.port {x : Except String α} {f : α → Io β} {S : β → World → Prop}
    (hf : ∀ a t, Frame P s t → x = .ok a → Calm P Z (f a) t S) :
    Calm P Z (Controller.port x >>= f) s S :=
  calm_ofExcept.bind hf

/-- A call that interrupts nothing. -/
lemma calm_ask {o : Call} (hq : quiet o = true) (hP : P o = true) (hbegin : isBegin o = false) :
    Calm P Z (ask o) s fun r t => t.record = ⟨o, r⟩ :: s.record := by
  refine ⟨fun hs => ⟨fun _ => hs, fun r t hstep => ⟨frame_step hP hbegin hstep, ?_, ?_⟩⟩⟩
  · exact step_quiet hq hs hstep
  · obtain ⟨l, s', hsettles, -, -, rfl⟩ := hstep
    rw [World.next, hbegin, hsettles.keeps.1]
    rfl

lemma Calm.ask {o : Call} {f : o.Ret → Io β} {S : β → World → Prop} (hq : quiet o = true)
    (hP : P o = true) (hbegin : isBegin o = false)
    (hf : ∀ r t, Frame P s t → t.record = ⟨o, r⟩ :: s.record → Calm P Z (f r) t S) :
    Calm P Z (Controller.ask o >>= f) s S :=
  (calm_ask hq hP hbegin).bind hf

end Calm

/-! ### The parts of an attempt -/

/-- A call of a check or of a commit. -/
def steady (o : Call) : Bool :=
  match o with
  | .begin _ => false
  | .race _ => false
  | .readInbox _ _ => false
  | .keepError _ => false
  | _ => true

section Parts

variable {cfg : Config} {at' : Attempt} {prior : List Evidence} {s : World} {Z : Prop}

lemma calm_now : Calm steady Z now s fun _ _ => True := by
  refine Calm.ask rfl rfl rfl fun r t _ _ => ?_
  cases r with
  | none => exact calm_fail _
  | some n => exact calm_pure trivial

lemma calm_remainingMs (deadlineAt : ℕ) :
    Calm steady Z (remainingMs cfg deadlineAt) s fun _ _ => True := by
  refine calm_now.bind fun n t _ _ => ?_
  split_ifs
  · exact calm_fail _
  · exact calm_pure trivial

lemma calm_executionSeconds (deadlineAt : ℕ) :
    Calm steady Z (executionSeconds cfg deadlineAt) s fun _ _ => True := by
  refine (calm_remainingMs deadlineAt).bind fun ms t _ _ => ?_
  split_ifs
  · exact calm_fail _
  · exact calm_pure trivial

/-- An agent that is started and waited for: if it is interrupted, so is the program. -/
lemma calm_runAgent (deadlineAt : ℕ) (input : AgentInput)
    (hZ : ∀ u seconds message, Frame steady s u →
      untroubled u.record (.execute { input with timeoutSeconds := seconds }) (.error message) →
      terminalInterruption (.agent message) = true → Z) :
    Calm steady Z (runAgent cfg deadlineAt input) s fun _ _ => True := by
  refine (calm_remainingMs deadlineAt).bind fun _ t hframe _ => ?_
  refine (calm_executionSeconds deadlineAt).bind fun seconds t hframe' _ => ?_
  refine ⟨fun ht => ⟨fun _ => ht, fun r u hstep => ?_⟩⟩
  obtain ⟨s', hs', -, -, rfl, hclear⟩ := calm_at_call (by simp) ht hstep
  have hint : (s'.next (.execute { input with timeoutSeconds := seconds }) r).interrupted =
      stopped (r.mapError Err.agent) := by
    show (s'.interrupted || _) = _
    rw [hs', Bool.false_or]
  have hgrown := frame_step (P := steady) rfl rfl hstep
  cases r with
  | ok raw => exact ⟨hgrown, hint, trivial⟩
  | error message =>
      refine ⟨hgrown, fun h => ?_⟩
      have hterminal : terminalInterruption (.agent message) = true := hint.symm.trans h
      exact ⟨hterminal, hZ t seconds message (hframe.trans hframe') hclear hterminal⟩

lemma calm_recordWorkResult (w : Work) :
    Calm steady Z (recordWorkResult at' w) s fun _ _ => True := by
  refine Calm.ask rfl rfl rfl fun _ t _ _ => ?_
  refine Calm.ask rfl rfl rfl fun r t _ _ => ?_
  exact calm_ofExcept.mono fun _ _ _ _ => trivial

lemma calm_recordGate (receipt : Fields) :
    Calm steady Z (recordGate at' receipt) s fun _ _ => True := by
  refine Calm.ask rfl rfl rfl fun _ t _ _ => ?_
  refine Calm.ask rfl rfl rfl fun r t _ _ => ?_
  exact calm_ofExcept.mono fun _ _ _ _ => trivial

lemma calm_commitWriterResult (slot : Slot) (workspace : Json) (receipt : WriterReceipt) :
    Calm steady Z (commitWriterResult cfg at' slot workspace receipt) s fun _ _ => True := by
  refine (calm_remainingMs _).bind fun _ t _ _ => ?_
  refine Calm.ask rfl rfl rfl fun r t _ _ => ?_
  refine Calm.port fun v t _ _ => ?_
  refine Calm.valid fun c t _ _ => ?_
  exact (calm_recordWorkResult _).bind fun _ _ _ _ => calm_pure trivial

/-- Calls of this kind do not change the stage that the attempt is in. -/
lemma Frame.stage {s t : World} (h : Frame steady s t) :
    checking t.record = checking s.record ∧ t.record.any plainError = s.record.any plainError := by
  obtain ⟨new, hnew, hsteady⟩ := h
  have hrace : new.countP isRace = 0 := by
    refine List.countP_eq_zero.mpr fun x hx => ?_
    have hs := hsteady x hx
    obtain ⟨o, r⟩ := x
    cases o <;> first | exact Bool.false_ne_true | cases hs
  have hinbox : new.any isInbox = false := by
    refine List.any_eq_false.mpr fun x hx => ?_
    have hs := hsteady x hx
    obtain ⟨o, r⟩ := x
    cases o <;> first | exact Bool.false_ne_true | cases hs
  have herror : new.any plainError = false := by
    refine List.any_eq_false.mpr fun x hx => ?_
    have hs := hsteady x hx
    obtain ⟨o, r⟩ := x
    cases o <;> first | exact Bool.false_ne_true | cases hs
  rw [checking, checking, hnew, List.countP_append, List.any_append, List.any_append, hrace,
    hinbox, herror, Nat.zero_add, Bool.false_or, Bool.false_or]
  exact ⟨rfl, rfl⟩

lemma checker_id_inj {n : ℕ} {slot : Slot}
    (h : "attempt-" ++ toString n ++ "-" ++ ("checker-" ++ slot.name) = lastChecker n) :
    slot = .qaTests := by
  have hname : slot.name = Slot.qaTests.name := by
    have hlist := congrArg String.toList h
    simp only [lastChecker, String.toList_append, List.append_assoc, List.append_cancel_left_eq] at hlist
    exact String.toList_inj.mp hlist
  cases slot with
  | qaTests => rfl
  | _ => exact absurd hname (by decide)

/-- What is known when the check of a commit was interrupted, in the stage where the commits are
checked one by one. -/
def LastCheck (record : List Answered) (slot : Slot) : Prop :=
  checking record = true → record.any plainError = false ∧ slot = .qaTests

lemma calm_checkWriterResult (slot : Slot) (w : Work) (inbox : List Json) (cursor : ℕ) :
    Calm steady (LastCheck s.record slot) (checkWriterResult cfg at' slot w inbox cursor) s
      fun _ _ => True := by
  refine Calm.ask rfl rfl rfl fun _ t h₁ _ => ?_
  refine Calm.port fun _ t h₂ _ => ?_
  refine Calm.valid fun _ t h₃ _ => ?_
  refine Calm.valid fun _ t h₄ _ => ?_
  refine Calm.valid fun _ t h₅ _ => ?_
  have hframe := h₁.trans <| h₂.trans <| h₃.trans <| h₄.trans h₅
  refine (calm_runAgent _ _ fun u seconds message hu hclear hterminal hchecking => ?_).bind
    fun raw t _ hraw => ?_
  · obtain ⟨hstage, herror⟩ := (hframe.trans hu).stage
    obtain ⟨hno, hid⟩ := hclear rfl hterminal (hstage.trans hchecking)
    exact ⟨herror.symm.trans hno, checker_id_inj hid⟩
  refine Calm.valid fun l t _ _ => ?_
  refine Calm.valid fun receipt t _ _ => ?_
  refine (calm_recordGate _).bind fun _ t _ _ => ?_
  split_ifs
  · exact calm_pure trivial
  · exact calm_fail _

lemma calm_executeWriter (slot : Slot) (workspace : Json) (inbox : List Json)
    (executionId base : String) :
    Calm steady True (executeWriter cfg at' prior slot workspace inbox executionId base) s
      fun _ _ => True :=
  Calm.valid fun _ _ _ _ => calm_runAgent _ _ fun _ _ _ _ _ _ => trivial

lemma calm_each {α : Type} {f : α → Io Unit}
    (hf : ∀ a s, Calm steady Z (f a) s fun _ _ => True) (l : List α) :
    Calm steady Z (Prog.each f l) s fun _ _ => True := by
  induction l generalizing s with
  | nil => exact calm_pure trivial
  | cons a l ih => exact (hf a s).bind fun _ t _ _ => ih

/-- A program that cannot be interrupted, tried. -/
lemma Calm.attempt {α : Type} {P : Call → Bool} {p : Io α} {R : α → World → Prop}
    (hp : Calm P False p s R) :
    Calm P Z (p.attempt : Io (Except Err α)) s fun x t => ∀ a, x = .ok a → R a t := by
  refine ⟨fun hs => ?_⟩
  rw [safe_attempt]
  refine (hp.safe hs).mono ?_
  rintro (e | a) t ⟨hframe, hpost⟩
  · refine ⟨hframe, ?_, nofun⟩
    cases ht : t.interrupted with
    | false => rfl
    | true => exact (hpost ht).2.elim
  · refine ⟨hframe, hpost.1, fun b hb => ?_⟩
    obtain rfl := Except.ok.inj hb
    exact hpost.2

lemma calm_launch (slot : Slot) (input : AgentInput) :
    Calm steady Z (launch cfg at' slot input) s fun _ _ => True := by
  refine (calm_executionSeconds _).attempt.bind fun r t _ _ => ?_
  cases r with
  | ok seconds => exact (calm_ask rfl rfl rfl).mono fun _ _ _ _ => trivial
  | error e => exact (calm_ask rfl rfl rfl).mono fun _ _ _ _ => trivial

lemma calm_launchAll (l : List (Slot × AgentInput)) :
    Calm steady Z (launchAll cfg at' l) s fun _ _ => True :=
  calm_each (fun p _ => calm_launch p.1 p.2) l

lemma calm_startWriters (workspace : Slot → Json) (slots : List Slot)
    (ready : List (Slot × AgentInput)) :
    Calm steady Z (startWriters cfg at' prior workspace slots ready) s fun _ _ => True := by
  induction slots generalizing s ready with
  | nil => exact calm_launchAll ready
  | cons slot slots ih =>
      have hinput : Calm steady False (do
          let input ← valid (writerInput cfg at' prior slot (workspace slot) []
            (attemptId at' slot.name) at'.baseSha)
          let _ ← remainingMs cfg at'.deadlineAt
          pure input : Io AgentInput) s fun _ _ => True := by
        refine Calm.valid fun input t _ _ => ?_
        exact (calm_remainingMs _).bind fun _ _ _ _ => calm_pure trivial
      refine hinput.attempt.bind fun r t _ _ => ?_
      cases r with
      | ok input => exact ih _
      | error e => exact (calm_launchAll ready).bind fun _ _ _ _ => calm_fail e

lemma calm_createWorktrees (slots : List Slot) (workspace : Slot → Json) :
    Calm steady Z (createWorktrees at' slots workspace) s fun _ _ => True := by
  induction slots generalizing s workspace with
  | nil => exact calm_pure trivial
  | cons slot slots ih =>
      refine Calm.ask rfl rfl rfl fun _ t _ _ => ?_
      refine Calm.port fun _ t _ _ => ?_
      refine Calm.valid fun _ t _ _ => ?_
      refine Calm.valid fun _ t _ _ => ?_
      refine Calm.valid fun _ t _ _ => ?_
      refine Calm.valid fun _ t _ _ => ?_
      exact ih _

/-! #### The writers -/

/-- A call of the stage in which the writers are taken. -/
def taking (o : Call) : Bool :=
  match o with
  | .begin _ => false
  | .readInbox _ _ => false
  | _ => true

lemma taking_of_steady (o : Call) (h : steady o = true) : taking o = true := by
  cases o <;> first | rfl | cases h

/-- The first error, if there is one, is an interruption or has been noted as none. -/
def Noted (p : Progress) (s : World) : Prop :=
  ∀ e, p.firstError = some e → terminalInterruption e = true ∨ s.record.any plainError = true

/-- The first error is an interruption. -/
def Marked (p : Progress) : Prop := ∃ e, p.firstError = some e ∧ terminalInterruption e = true

lemma noted_cons {p : Progress} {e : Err} {s t : World} (hp : Noted p s)
    (ht : t.record = ⟨.keepError e, ()⟩ :: s.record) :
    Noted { p with firstError := p.firstError <|> some e } t := by
  intro e' he'
  rw [ht, List.any_cons]
  cases hfirst : p.firstError with
  | some e₀ =>
      rw [hfirst] at he'
      obtain rfl := Option.some.inj he'
      rcases hp e₀ hfirst with h | h
      · exact .inl h
      · exact .inr (by rw [h, Bool.or_true])
  | none =>
      rw [hfirst] at he'
      obtain rfl := Option.some.inj he'
      cases hterminal : terminalInterruption e with
      | true => exact .inl rfl
      | false => exact .inr (by simp [plainError, hterminal])

lemma calm_noteFirst (p : Progress) (e : Err) (hp : Noted p s) :
    Calm taking Z (noteFirst p e) s Noted :=
  Calm.ask rfl rfl rfl fun _ _ _ ht => calm_pure (noted_cons hp ht)

lemma Noted.of_none {p : Progress} (h : p.firstError = none) (s : World) : Noted p s := by
  intro e he
  rw [h] at he
  cases he

lemma calm_takeRequest (workspace : Slot → Json) (p : Progress) (slot : Slot)
    (receipt : WriterReceipt) (request : Request) (hp : p.firstError = none) :
    Calm taking True (takeRequest cfg at' workspace p slot receipt request) s Noted := by
  refine Calm.ask rfl rfl rfl fun active t _ _ => ?_
  split
  · exact calm_noteFirst _ _ (Noted.of_none hp _)
  · refine ((calm_commitWriterResult _ _ _).weaken taking_of_steady id).bind
      fun checkpoint t _ _ => ?_
    refine ((calm_checkWriterResult _ _ _ _).weaken taking_of_steady fun _ => trivial).bind
      fun _ t _ _ => ?_
    refine Calm.ask rfl rfl rfl fun still t _ _ => ?_
    split_ifs
    · exact calm_noteFirst _ _ (Noted.of_none hp _)
    · refine Calm.ask rfl rfl rfl fun _ t _ _ => ?_
      refine Calm.port fun _ t _ _ => ?_
      refine Calm.valid fun _ t _ _ => ?_
      refine Calm.ask rfl rfl rfl fun _ t _ _ => ?_
      refine Calm.port fun _ t _ _ => ?_
      exact calm_pure (Noted.of_none hp _)

lemma calm_takeReceipt (workspace : Slot → Json) (p : Progress) (slot : Slot) (raw : Json)
    (hp : p.firstError = none) :
    Calm taking True (takeReceipt cfg at' workspace p slot raw) s Noted := by
  refine Calm.valid fun receipt t _ _ => ?_
  dsimp only
  split
  · exact calm_noteFirst _ _ (Noted.of_none hp _)
  · exact calm_takeRequest _ _ _ _ _ hp
  · exact calm_noteFirst _ _ (Noted.of_none hp _)
  · exact calm_pure (Noted.of_none hp _)

lemma safe_ask_bind {α : Type} {o : Call} {f : o.Ret → Io α} {s : World}
    {Q : Except Err α → World → Prop} (hpre : timely s o)
    (hf : ∀ r t, orderlyEnv.step s o r t → Safe orderlyEnv timely (f r) t Q) :
    Safe orderlyEnv timely (ask o >>= f) s Q :=
  ⟨hpre, hf⟩

/-- Noting an error starts nothing. -/
lemma safe_noteError (p : Progress) (e : Err) (s : World) :
    Safe orderlyEnv timely (noteError p e) s fun r _ =>
      r = .ok { p with firstError := p.firstError <|> some e } := by
  refine ⟨nofun, fun _ t _ => ?_⟩
  show Safe _ _ (if terminalInterruption e = true then _ else _) _ _
  split_ifs
  · exact ⟨nofun, fun _ _ _ => rfl⟩
  · rfl

lemma Marked.or_else {p : Progress} (h : Marked p) (e : Err) :
    Marked { p with firstError := p.firstError <|> some e } := by
  obtain ⟨e₀, he₀, hterminal⟩ := h
  exact ⟨e₀, by rw [he₀]; rfl, hterminal⟩

/-- Once the first error is an interruption, the writers are only waited for. -/
lemma safe_settle_marked (workspace : Slot → Json) (k : ℕ) (pending : List Slot) (p : Progress)
    (s : World) (hp : Marked p) :
    Safe orderlyEnv timely (settleWriters cfg at' workspace k pending p) s fun r _ =>
      ∃ p', r = .ok p' ∧ Marked p' := by
  induction k generalizing pending p s with
  | zero => exact ⟨p, rfl, hp⟩
  | succ k ih =>
      unfold settleWriters
      refine safe_ask_bind (fun h => by cases h) ?_
      rintro ⟨slot, e | raw⟩ t _ <;> dsimp only
      · refine Safe.bind (safe_noteError p e t) ?_ fun _ _ h => by cases h
        rintro p' u hp'
        obtain rfl := Except.ok.inj hp'
        exact ih _ _ _ (hp.or_else e)
      · obtain ⟨e₀, he₀, -⟩ := id hp
        rw [if_pos (by rw [he₀]; rfl)]
        exact ih _ _ _ hp

/-- The number of writers that were taken. -/
def racesOf (s : World) : ℕ := s.record.countP isRace

lemma Frame.races {P : Call → Bool} {s t : World} (h : Frame P s t) : racesOf s ≤ racesOf t := by
  obtain ⟨new, hnew, -⟩ := h
  rw [racesOf, racesOf, hnew, List.countP_append]
  omega

lemma Frame.noted {P : Call → Bool} {p : Progress} {s t : World} (h : Frame P s t)
    (hp : Noted p s) : Noted p t := by
  obtain ⟨new, hnew, -⟩ := h
  intro e he
  rw [hnew, List.any_append]
  rcases hp e he with h | h
  · exact .inl h
  · exact .inr (by rw [h, Bool.or_true])

/-- What the writers have come to: an interruption first, or nothing was interrupted. -/
def Settled (s t : World) (k : ℕ) (p : Progress) : Prop :=
  Marked p ∨ t.interrupted = false ∧ Noted p t ∧ Frame taking s t ∧ racesOf s + k ≤ racesOf t

lemma Settled.of_later {s t u : World} {k : ℕ} {p : Progress} (hframe : Frame taking s t)
    (hraces : racesOf s + 1 ≤ racesOf t) (h : Settled t u k p) : Settled s u (k + 1) p := by
  rcases h with h | ⟨hu, hnoted, hframe', hraces'⟩
  · exact .inl h
  · exact .inr ⟨hu, hnoted, hframe.trans hframe', by omega⟩

/-- An error that is no interruption interrupts nothing. -/
lemma safe_noteError_plain (p : Progress) (e : Err) (he : terminalInterruption e = false)
    (hs : s.interrupted = false) (hp : Noted p s) :
    Safe orderlyEnv timely (noteError p e) s fun r t =>
      ∃ p', r = .ok p' ∧ t.interrupted = false ∧ Noted p' t ∧ Frame taking s t := by
  refine ⟨nofun, fun _ t hstep => ?_⟩
  show Safe _ _ (if terminalInterruption e = true then _ else _) _ _
  rw [if_neg (by rw [he]; exact Bool.false_ne_true)]
  have hrecord : t.record = ⟨.keepError e, ()⟩ :: s.record := by
    obtain ⟨s', -, hrecord, rfl, -, -⟩ := step_orderly hs hstep
    rw [← hrecord]
    rfl
  exact ⟨_, rfl, step_quiet rfl hs hstep, noted_cons hp hrecord, frame_step rfl rfl hstep⟩

section Loop

variable {workspace : Slot → Json} {k : ℕ} {pending : List Slot} {p : Progress} {t : World}

/-- The loop goes on where the first error is an interruption. -/
lemma safe_note_marked (e : Err) (s : World) {n : ℕ}
    (hp : Marked { p with firstError := p.firstError <|> some e }) :
    Safe orderlyEnv timely (noteError p e >>= settleWriters cfg at' workspace k pending) t
      fun r u => ∃ p', r = .ok p' ∧ Settled s u n p' := by
  refine Safe.bind (safe_noteError p e t) ?_ fun _ _ h => by cases h
  rintro p' u hp'
  obtain rfl := Except.ok.inj hp'
  refine (safe_settle_marked workspace k pending _ u hp).mono ?_
  rintro r v ⟨p', rfl, hmarked⟩
  exact ⟨p', rfl, .inl hmarked⟩

/-- The loop goes on where an error was noted that is no interruption. -/
lemma safe_note_plain {e : Err} {s : World} (he : terminalInterruption e = false)
    (ht : t.interrupted = false) (hp : Noted p t) (hframe : Frame taking s t)
    (hraces : racesOf s + 1 ≤ racesOf t)
    (ih : ∀ {s : World} (pending : List Slot) (p : Progress), s.interrupted = false → Noted p s →
      Safe orderlyEnv timely (settleWriters cfg at' workspace k pending p) s fun r t =>
        ∃ p', r = .ok p' ∧ Settled s t k p') :
    Safe orderlyEnv timely (noteError p e >>= settleWriters cfg at' workspace k pending) t
      fun r u => ∃ p', r = .ok p' ∧ Settled s u (k + 1) p' := by
  refine Safe.bind (safe_noteError_plain p e he ht hp) ?_ fun _ _ ⟨_, h, _⟩ => by cases h
  rintro p' u ⟨p'', hp'', hu, hnoted, hframe'⟩
  obtain rfl := Except.ok.inj hp''
  refine (ih pending p' hu hnoted).mono ?_
  rintro r v ⟨q, rfl, hq⟩
  have hraces' := hframe'.races
  exact ⟨q, rfl, hq.of_later (hframe.trans hframe') (by omega)⟩

end Loop

lemma safe_settleWriters (workspace : Slot → Json) (k : ℕ) (pending : List Slot) (p : Progress)
    (hs : s.interrupted = false) (hp : Noted p s) :
    Safe orderlyEnv timely (settleWriters cfg at' workspace k pending p) s fun r t =>
      ∃ p', r = .ok p' ∧ Settled s t k p' := by
  induction k generalizing s pending p with
  | zero => exact ⟨p, rfl, .inr ⟨hs, hp, Frame.refl _ _, le_rfl⟩⟩
  | succ k ih =>
      unfold settleWriters
      refine safe_ask_bind (fun h => by cases h) ?_
      rintro ⟨slot, out⟩ t hstep
      have hframe := frame_step (P := taking) rfl rfl hstep
      obtain ⟨s', -, hrecord, rfl, hclear, htold⟩ := step_orderly hs hstep
      have hraces : racesOf s + 1 ≤ racesOf (s'.next (.race pending) (slot, out)) := by
        have hcount : (⟨.race pending, (slot, out)⟩ :: s'.record).countP isRace =
            s'.record.countP isRace + 1 := List.countP_cons_of_pos rfl
        show racesOf s + 1 ≤ (⟨.race pending, (slot, out)⟩ :: s'.record).countP isRace
        rw [hcount, hrecord, racesOf]
      -- an interruption is told of by the race itself
      have hcalm : stopped out = false → (s'.next (.race pending) (slot, out)).interrupted = false := by
        intro hout
        show s'.interrupted = false
        cases hint : s'.interrupted with
        | false => rfl
        | true =>
            obtain ⟨x, hstopped, -, hx⟩ := htold hint
            rw [hx, hout] at hstopped
            cases hstopped
      cases out with
      | error e =>
          cases he : terminalInterruption e with
          | true =>
              refine safe_note_marked e s ?_
              have hno := hclear he
              cases hfirst : p.firstError with
              | none => exact ⟨e, rfl, he⟩
              | some e₀ =>
                  rcases hp e₀ hfirst with h | h
                  · exact ⟨e₀, rfl, h⟩
                  · rw [hno] at h
                    cases h
          | false => exact safe_note_plain he (hcalm he) (hframe.noted hp) hframe hraces ih
      | ok raw =>
          have ht := hcalm rfl
          dsimp only
          split_ifs with hsome
          · refine (ih _ p ht (hframe.noted hp)).mono ?_
            rintro r v ⟨q, rfl, hq⟩
            exact ⟨q, rfl, hq.of_later hframe hraces⟩
          · have hnone : p.firstError = none := by simpa using hsome
            rw [safe_bind, safe_attempt]
            refine ((calm_takeReceipt workspace p slot raw hnone).safe ht).mono ?_
            rintro (e | p') u ⟨hframe', hpost⟩ <;> dsimp only
            · cases he : terminalInterruption e with
              | true => exact safe_note_marked e s ⟨e, by rw [hnone]; rfl, he⟩
              | false =>
                  have hu : u.interrupted = false := by
                    cases hu : u.interrupted with
                    | false => rfl
                    | true =>
                        rw [(hpost hu).1] at he
                        cases he
                  have hraces' := hframe'.races
                  exact safe_note_plain he hu (Noted.of_none hnone u) (hframe.trans hframe')
                    (by omega) ih
            · refine (ih _ p' hpost.1 hpost.2).mono ?_
              rintro r v ⟨q, rfl, hq⟩
              have hraces' := hframe'.races
              exact ⟨q, rfl, hq.of_later (hframe.trans hframe') (by omega)⟩

/-! #### The checkers -/

lemma calm_commitAll (workspace : Slot → Json) (initial : Slot → Option WriterReceipt)
    (slots : List Slot) (done : Slot → Option Work) :
    Calm steady Z (commitAll cfg at' workspace initial slots done) s fun _ _ => True := by
  induction slots generalizing s done with
  | nil => exact calm_pure trivial
  | cons slot slots ih =>
      unfold commitAll
      split
      · exact ih done
      · split_ifs
        · exact ih done
        · exact (calm_commitWriterResult slot _ _).bind fun w t _ _ => ih _

/-- A call of the stage in which the commits are checked. -/
def judging (o : Call) : Bool :=
  match o with
  | .begin _ => false
  | .race _ => false
  | .readInbox _ _ => false
  | _ => true

lemma judging_of_steady (o : Call) (h : steady o = true) : judging o = true := by
  cases o <;> first | rfl | cases h

lemma Frame.checking {s t : World} (h : Frame judging s t) :
    checking t.record = Controller.checking s.record := by
  obtain ⟨new, hnew, hjudging⟩ := h
  have hrace : new.countP isRace = 0 := by
    refine List.countP_eq_zero.mpr fun x hx => ?_
    have hs := hjudging x hx
    obtain ⟨o, r⟩ := x
    cases o <;> first | exact Bool.false_ne_true | cases hs
  have hinbox : new.any isInbox = false := by
    refine List.any_eq_false.mpr fun x hx => ?_
    have hs := hjudging x hx
    obtain ⟨o, r⟩ := x
    cases o <;> first | exact Bool.false_ne_true | cases hs
  rw [Controller.checking, Controller.checking, hnew, List.countP_append, List.any_append, hrace,
    hinbox, Nat.zero_add, Bool.false_or]

/-- The failure of an earlier check is an interruption or has been noted as none. -/
def NotedFailure (failure : Option Err) (record : List Answered) : Prop :=
  ∀ e, failure = some e → terminalInterruption e = true ∨ record.any plainError = true

lemma notedFailure_cons {failure : Option Err} {record : List Answered} {e : Err}
    (h : ∀ e, failure = some e → terminalInterruption e = true ∨ record.any plainError = true) :
    NotedFailure (failure <|> some e) (⟨.keepError e, ()⟩ :: record) := by
  intro e' he'
  rw [List.any_cons]
  cases failure with
  | some e₀ =>
      obtain rfl := Option.some.inj he'
      rcases h e₀ rfl with h | h
      · exact .inl h
      · exact .inr (by rw [h, Bool.or_true])
  | none =>
      obtain rfl := Option.some.inj he'
      cases hterminal : terminalInterruption e with
      | true => exact .inl rfl
      | false => exact .inr (by simp [plainError, hterminal])

lemma slots_after_qaTests {slots : List Slot} (h : .qaTests :: slots <:+ writerIds) : slots = [] := by
  simpa [writerIds, List.suffix_cons_iff] using h

lemma safe_checkAll_nil {completed accepted : Slot → Option Work} {failure : Option Err} {e : Err}
    {u : World} (hframe : Frame judging s u) (hno : s.record.any plainError = false)
    (he : terminalInterruption e = true) (hfailure : NotedFailure failure s.record) :
    Safe orderlyEnv timely (checkAll cfg at' completed [] accepted (failure <|> some e)) u
      (Post judging True s fun _ _ => True) := by
  cases failure with
  | none => exact ⟨hframe, fun _ => ⟨he, trivial⟩⟩
  | some e₀ =>
      refine ⟨hframe, fun _ => ⟨?_, trivial⟩⟩
      rcases hfailure e₀ rfl with h | h
      · exact h
      · rw [hno] at h
        cases h

lemma calm_checkAll (completed : Slot → Option Work) (slots : List Slot)
    (accepted : Slot → Option Work) (failure : Option Err) (hslots : slots <:+ writerIds)
    (hchecking : checking s.record = true) (hfailure : NotedFailure failure s.record) :
    Calm judging True (checkAll cfg at' completed slots accepted failure) s fun _ _ => True := by
  induction slots generalizing s accepted failure with
  | nil =>
      cases failure with
      | none => exact calm_pure trivial
      | some e => exact calm_fail e
  | cons slot slots ih =>
      have hrest : slots <:+ writerIds := (List.suffix_cons slot slots).trans hslots
      unfold checkAll
      split
      · exact ih accepted failure hrest hchecking hfailure
      · rename_i w hw
        refine ⟨fun hs => ?_⟩
        rw [safe_bind, safe_attempt]
        refine ((calm_checkWriterResult slot w [] 0).safe hs).mono ?_
        rintro (e | ⟨⟩) t ⟨hframe, hpost⟩ <;> dsimp only
        · refine safe_ask_bind nofun fun _ u hstep => ?_
          have hframe' : Frame judging s u :=
            (hframe.mono judging_of_steady).trans (frame_step rfl rfl hstep)
          cases ht : t.interrupted with
          | true =>
              -- the last check was interrupted, so that no other one follows
              obtain ⟨hterminal, hlast⟩ := hpost ht
              obtain ⟨hno, rfl⟩ := hlast hchecking
              obtain rfl := slots_after_qaTests hslots
              exact safe_checkAll_nil hframe' hno hterminal hfailure
          | false =>
              have hu := step_quiet rfl ht hstep
              have hrecord : u.record = ⟨.keepError e, ()⟩ :: t.record := by
                obtain ⟨s', -, hrecord, rfl, -, -⟩ := step_orderly ht hstep
                rw [← hrecord]
                rfl
              refine ((ih accepted (failure <|> some e) hrest (hframe'.checking.trans hchecking)
                ?_).safe hu).mono ?_
              · rw [hrecord]
                exact notedFailure_cons (hframe.stage.2 ▸ hfailure)
              · rintro r v ⟨hframe'', hpost'⟩
                exact ⟨hframe'.trans hframe'', hpost'⟩
        · have hframe' := hframe.mono judging_of_steady
          refine ((ih _ failure hrest (hframe'.checking.trans hchecking) ?_).safe hpost.1).mono ?_
          · exact fun e he => hframe.stage.2 ▸ hfailure e he
          · rintro r v ⟨hframe'', hpost'⟩
            exact ⟨hframe'.trans hframe'', hpost'⟩

/-! #### The candidate -/

/-- A call of an attempt. -/
def ongoing (o : Call) : Bool := !isBegin o

lemma ongoing_of_steady (o : Call) (h : steady o = true) : ongoing o = true := by
  cases o <;> first | rfl | cases h

/-- What makes the calls of a check or of a commit only. -/
lemma Calm.ongoing {α : Type} {p : Io α} {R : α → World → Prop} (h : Calm steady Z p s R) :
    Calm ongoing True p s R :=
  h.weaken ongoing_of_steady fun _ => trivial

lemma calm_resume (workspace : Slot → Json) (initial : Slot → Option WriterReceipt)
    (request : InboxRequest) (accepted : Slot → Option Work) :
    Calm ongoing True (resume cfg at' prior workspace initial request accepted) s
      fun _ _ => True := by
  refine Calm.ask rfl rfl rfl fun _ t _ _ => ?_
  refine Calm.port fun _ t _ _ => ?_
  refine Calm.valid fun _ t _ _ => ?_
  refine Calm.valid fun _ t _ _ => ?_
  refine (calm_executeWriter _ _ _ _ _).ongoing.bind fun _ t _ _ => ?_
  refine Calm.valid fun _ t _ _ => ?_
  refine Calm.valid fun _ t _ _ => ?_
  refine (calm_commitWriterResult _ _ _ (Z := True)).ongoing.bind fun owner t _ _ => ?_
  refine (calm_checkWriterResult _ _ _ _).ongoing.bind fun _ t _ _ => ?_
  refine Calm.valid fun _ t _ _ => ?_
  refine Calm.ask rfl rfl rfl fun _ t _ _ => ?_
  refine Calm.port fun _ t _ _ => ?_
  refine Calm.valid fun _ t _ _ => ?_
  refine (calm_executeWriter _ _ _ _ _).ongoing.bind fun _ t _ _ => ?_
  refine Calm.valid fun _ t _ _ => ?_
  refine Calm.valid fun _ t _ _ => ?_
  refine (calm_commitWriterResult _ _ _ (Z := True)).ongoing.bind fun requester t _ _ => ?_
  exact (calm_checkWriterResult _ _ _ _).ongoing.bind fun _ t _ _ => calm_pure trivial

lemma calm_conformance (gate : Gate) (candidateSha viewId : String) :
    Calm steady True (conformance cfg at' gate candidateSha viewId) s fun _ _ => True := by
  refine Calm.valid fun _ t _ _ => ?_
  refine (calm_runAgent _ _ fun _ _ _ _ _ _ => trivial).bind fun raw t _ _ => ?_
  refine Calm.valid fun l t _ _ => ?_
  refine Calm.valid fun receipt t _ _ => ?_
  refine (calm_recordGate _).bind fun _ t _ _ => ?_
  split_ifs
  · exact calm_pure trivial
  · exact calm_fail _

lemma calm_candidateView (integrated : Fields) (candidateSha : String) :
    Calm steady True (candidateView at' integrated candidateSha) s fun _ _ => True := by
  unfold candidateView
  split_ifs
  · refine Calm.valid fun _ t _ _ => ?_
    refine Calm.valid fun _ t _ _ => ?_
    exact Calm.valid fun _ t _ _ => calm_pure trivial
  · refine Calm.ask rfl rfl rfl fun _ t _ _ => ?_
    refine Calm.port fun _ t _ _ => ?_
    refine Calm.valid fun _ t _ _ => ?_
    refine Calm.valid fun _ t _ _ => ?_
    exact Calm.valid fun _ t _ _ => calm_pure trivial

lemma calm_gates (commits : List Work) :
    Calm steady True (gates cfg at' commits) s fun _ _ => True := by
  refine (calm_remainingMs _).bind fun _ t _ _ => ?_
  refine Calm.ask rfl rfl rfl fun _ t _ _ => ?_
  refine Calm.port fun _ t _ _ => ?_
  refine Calm.valid fun _ t _ _ => ?_
  refine Calm.valid fun _ t _ _ => ?_
  refine (calm_candidateView _ _).bind fun _ t _ _ => ?_
  refine Calm.ask rfl rfl rfl fun _ t _ _ => ?_
  refine Calm.port fun _ t _ _ => ?_
  refine Calm.valid fun _ t _ _ => ?_
  refine (calm_conformance _ _ _).bind fun _ t _ _ => ?_
  refine (calm_conformance _ _ _).bind fun _ t _ _ => ?_
  refine (calm_remainingMs _).bind fun _ t _ _ => ?_
  refine Calm.ask rfl rfl rfl fun _ t _ _ => ?_
  refine Calm.port fun _ t _ _ => ?_
  refine Calm.valid fun _ t _ _ => ?_
  refine (calm_recordGate _).bind fun _ t _ _ => ?_
  refine Calm.ask rfl rfl rfl fun _ t _ _ => ?_
  refine Calm.port fun _ t _ _ => ?_
  refine Calm.valid fun _ t _ _ => ?_
  refine (calm_recordGate _).bind fun _ t _ _ => ?_
  exact (calm_recordGate _).bind fun _ t _ _ => calm_pure trivial

lemma calm_commitsOf (accepted : Slot → Option Work) :
    Calm ongoing True (match commitsOf accepted with
      | none => Prog.fail (.invalid "attempt did not produce three accepted writer results")
      | some commits => gates cfg at' commits) s fun _ _ => True := by
  split
  · exact calm_fail _
  · exact (calm_gates _).ongoing

lemma checking_of_settled {t : World} (hno : s.record.any isInbox = false)
    (hframe : Frame taking s t) (hraces : racesOf s + 3 ≤ racesOf t) :
    checking t.record = true := by
  obtain ⟨new, hnew, htaking⟩ := hframe
  have hinbox : new.any isInbox = false := by
    refine List.any_eq_false.mpr fun x hx => ?_
    have hs := htaking x hx
    obtain ⟨o, r⟩ := x
    cases o <;> first | exact Bool.false_ne_true | cases hs
  have hthree : 3 ≤ t.record.countP isRace := by
    have : racesOf t = t.record.countP isRace := rfl
    omega
  rw [checking, decide_eq_true hthree, hnew, List.any_append, hinbox, hno]
  rfl

/-! #### Attempts -/

/-- Nothing was interrupted, or else the error says so. -/
def Outcome {α : Type} (r : Except Err α) (t : World) : Prop :=
  match r with
  | .ok _ => t.interrupted = false
  | .error e => Excused True e t

/-- If anything was interrupted, the program fails with an interruption. -/
structure Ends {α : Type} (p : Io α) (s : World) : Prop where
  safe : s.interrupted = false → Safe orderlyEnv timely p s Outcome

lemma Calm.ends {α : Type} {P : Call → Bool} {p : Io α} {R : α → World → Prop}
    (h : Calm P Z p s R) : Ends p s := by
  refine ⟨fun hs => (h.safe hs).mono ?_⟩
  rintro (e | a) t ⟨-, hpost⟩
  · exact fun ht => ⟨(hpost ht).1, trivial⟩
  · exact hpost.1

lemma ends_fail {α : Type} (e : Err) : Ends (Prog.fail e : Io α) s := by
  refine ⟨fun hs h => ?_⟩
  rw [hs] at h
  cases h

lemma Calm.ends_bind {α β : Type} {P : Call → Bool} {p : Io α} {f : α → Io β}
    {R : α → World → Prop} (hp : Calm P Z p s R)
    (hf : ∀ a t, Frame P s t → R a t → Ends (f a) t) : Ends (p >>= f) s := by
  refine ⟨fun hs => Safe.bind (hp.safe hs) ?_ ?_⟩
  · rintro a t ⟨hframe, ht, hR⟩
    exact (hf a t hframe hR).safe ht
  · rintro e t ⟨-, hpost⟩ ht
    exact ⟨(hpost ht).1, trivial⟩

lemma no_inbox {P : Call → Bool} {t : World} (hP : ∀ n k, P (.readInbox n k) = false)
    (hframe : Frame P s t) (h : s.record.any isInbox = false) : t.record.any isInbox = false := by
  obtain ⟨new, hnew, hnewP⟩ := hframe
  rw [hnew, List.any_append, h, Bool.or_false]
  refine List.any_eq_false.mpr fun x hx => ?_
  have hs := hnewP x hx
  obtain ⟨o, r⟩ := x
  cases o <;> first | exact Bool.false_ne_true | rw [hP] at hs; cases hs

lemma ends_runAttempt (hno : s.record.any isInbox = false) : Ends (runAttempt cfg at' prior) s := by
  refine (calm_createWorktrees (Z := True) _ _).ends_bind fun workspace t h₁ _ => ?_
  refine (calm_ask (Z := True) (P := steady) rfl rfl rfl).ends_bind fun r t h₂ _ => ?_
  refine (calm_ofExcept (Z := True) (P := steady)).ends_bind fun _ t h₃ _ => ?_
  refine (calm_startWriters (Z := True) _ _ _).ends_bind fun _ t h₄ _ => ?_
  have hno' := no_inbox (fun _ _ => rfl) (h₁.trans <| h₂.trans <| h₃.trans h₄) hno
  refine ⟨fun ht => ?_⟩
  rw [safe_bind]
  refine (safe_settleWriters workspace 3 writerIds {} ht (Noted.of_none rfl _)).mono ?_
  rintro r u ⟨p, rfl, hmarked | ⟨hu, hnoted, hframe, hraces⟩⟩ <;> dsimp only
  · obtain ⟨e, he, hterminal⟩ := hmarked
    rw [he]
    exact fun _ => ⟨hterminal, trivial⟩
  · have hchecking := checking_of_settled hno' hframe hraces
    refine Ends.safe ?_ hu
    split
    · exact ends_fail _
    · split
      · exact ends_fail _
      · refine (calm_commitAll (Z := True) _ _ _ _).ends_bind fun completed t h₅ _ => ?_
        have hstage := h₅.stage.1.trans hchecking
        refine (calm_checkAll completed writerIds _ none List.suffix_rfl hstage nofun).ends_bind
          fun accepted t _ _ => ?_
        split
        · exact ((calm_resume workspace p.initial _ accepted).bind
            fun accepted t _ _ => calm_commitsOf accepted).ends
        · exact (calm_commitsOf accepted).ends

end Parts

section Attempts

variable {cfg : Config} {baseSha : String} {existingDirectories : Json} {s : World}

lemma calm_makePlan (n deadlineAt : ℕ) (prior : List Evidence) :
    Calm steady True (makePlan cfg baseSha existingDirectories n deadlineAt prior) s
      fun _ _ => True := by
  refine (calm_remainingMs _).bind fun _ t _ _ => ?_
  refine Calm.ask rfl rfl rfl fun _ t _ _ => ?_
  refine Calm.port fun _ t _ _ => ?_
  refine Calm.ask rfl rfl rfl fun _ t _ _ => ?_
  refine Calm.port fun _ t _ _ => ?_
  refine Calm.valid fun _ t _ _ => ?_
  refine (calm_runAgent _ _ fun _ _ _ _ _ _ => trivial).bind fun raw t _ _ => ?_
  refine Calm.valid fun _ t _ _ => ?_
  refine Calm.valid fun plan t _ _ => ?_
  refine Calm.ask rfl rfl rfl fun _ t _ _ => ?_
  refine Calm.valid fun _ t _ _ => ?_
  refine Calm.ask rfl rfl rfl fun _ t _ _ => ?_
  refine Calm.port fun _ t _ _ => ?_
  refine Calm.ask rfl rfl rfl fun _ t _ _ => ?_
  exact Calm.port fun _ t _ _ => calm_pure trivial

lemma ends_attemptOnce (n deadlineAt : ℕ) (prior : List Evidence) (hno : s.record = []) :
    Ends (attemptOnce cfg baseSha existingDirectories n deadlineAt prior) s := by
  refine (calm_makePlan n deadlineAt prior).ends_bind fun plan t h₁ _ => ?_
  have hno' := no_inbox (fun _ _ => rfl) h₁ (by rw [hno]; rfl)
  refine ⟨fun ht => Safe.bind ((ends_runAttempt hno').safe ht) ?_ fun e u h => h⟩
  intro c u hu
  refine safe_ask_bind nofun fun r v hstep => ?_
  have hv := step_quiet rfl hu hstep
  cases r with
  | ok _ => exact hv
  | error e => exact (ends_fail _).safe hv

lemma step_begin_calm {n : ℕ} {t : World} {r : Unit} (hs : s.interrupted = false)
    (h : orderlyEnv.step s (.begin n) r t) : t.interrupted = false ∧ t.record = [] := by
  refine ⟨step_quiet rfl hs h, ?_⟩
  obtain ⟨l, s', -, -, -, rfl⟩ := h
  rfl

lemma safe_attemptsFrom (k n : ℕ) (prior : List Evidence) (hs : s.interrupted = false) :
    Safe orderlyEnv timely (attemptsFrom cfg baseSha existingDirectories k n prior) s
      fun _ _ => True := by
  induction k generalizing s n prior with
  | zero => trivial
  | succ k ih =>
      unfold attemptsFrom
      refine Safe.bind ((calm_now (Z := True)).safe hs) ?_ fun _ _ _ => trivial
      rintro now t ⟨-, ht, -⟩
      refine safe_ask_bind (fun h => by cases h) fun _ t hstep => ?_
      obtain ⟨ht, hrecord⟩ := step_begin_calm ht hstep
      rw [safe_bind, safe_attempt]
      refine ((ends_attemptOnce n _ prior hrecord).safe ht).mono ?_
      rintro (e | c) u hpost <;> dsimp only
      · refine safe_ask_bind (fun h => by cases h) fun kept u₁ hstep₁ => ?_
        refine safe_ask_bind (fun h => by cases h) fun r u₂ hstep₂ => ?_
        cases r with
        | error message => trivial
        | ok _ =>
            show Safe _ _ (if (terminalInterruption e || n == cfg.template.maxAttempts) = true
              then _ else _) _ _
            split_ifs with hstop
            · trivial
            · -- what was interrupted would have ended the run
              have hu : u.interrupted = false := by
                cases hu : u.interrupted with
                | false => rfl
                | true =>
                    rw [(hpost hu).1, Bool.true_or] at hstop
                    exact absurd rfl hstop
              exact ih _ _ (step_quiet rfl (step_quiet rfl hu hstep₁) hstep₂)
      · trivial

lemma calm_prepare : Calm steady True (prepare cfg) s fun _ _ => True := by
  refine Calm.ask rfl rfl rfl fun _ t _ _ => ?_
  refine Calm.port fun _ t _ _ => ?_
  refine Calm.ask rfl rfl rfl fun _ t _ _ => ?_
  refine Calm.port fun _ t _ _ => ?_
  refine Calm.valid fun _ t _ _ => ?_
  refine Calm.valid fun base t _ _ => ?_
  refine Calm.valid fun _ t _ _ => ?_
  refine Calm.ask rfl rfl rfl fun _ t _ _ => ?_
  refine Calm.port fun _ t _ _ => ?_
  refine Calm.valid fun _ t _ _ => ?_
  split_ifs
  · refine Calm.ask rfl rfl rfl fun _ t _ _ => ?_
    refine Calm.port fun _ t _ _ => ?_
    refine (calm_remainingMs _).bind fun _ t _ _ => ?_
    refine Calm.ask rfl rfl rfl fun _ t _ _ => ?_
    refine Calm.port fun _ t _ _ => ?_
    refine Calm.valid fun _ t _ _ => ?_
    refine Calm.ask rfl rfl rfl fun _ t _ _ => ?_
    exact Calm.port fun _ t _ _ => calm_pure trivial
  · exact calm_pure trivial

lemma safe_conclude (r : Except Err String) (s : World) :
    Safe orderlyEnv timely (conclude r) s fun _ _ => True := by
  cases r with
  | ok c => exact ⟨nofun, fun _ _ _ => trivial⟩
  | error e =>
      refine ⟨nofun, fun _ _ _ => ⟨nofun, fun _ _ _ => ⟨nofun, fun r _ _ => ?_⟩⟩⟩
      cases r <;> refine ⟨nofun, fun r _ _ => ?_⟩ <;> cases r <;> trivial

lemma safe_run (input : PodInput) (hs : s.interrupted = false) :
    Safe orderlyEnv timely (runEngineeringPod input) s fun _ _ => True := by
  have hconfigure : Calm steady True (configure input) s fun _ _ => True := by
    refine Calm.valid fun _ t _ _ => ?_
    refine calm_now.bind fun _ t _ _ => ?_
    exact Calm.valid fun _ t _ _ => calm_pure trivial
  refine Safe.bind (hconfigure.safe hs) ?_ fun _ _ _ => trivial
  rintro cfg t ⟨-, ht, -⟩
  rw [runPod_eq, safe_bind, safe_attempt]
  refine Safe.mono (Q := fun _ _ => True) ?_ fun r u _ => safe_conclude r u
  refine Safe.bind (calm_prepare.safe ht) ?_ fun _ _ _ => trivial
  rintro ⟨base, directories⟩ t ⟨-, ht, -⟩
  exact safe_attemptsFrom _ _ _ ht

/-- **Nothing starts after an interruption that comes in order.** In every run in which, until
the first interruption or cancellation, a writer is interrupted only while the controller waits
for the writers and is told of it at once, no error that is no interruption was noted before in
that attempt, and of the checks that follow each other only the last one is interrupted, no
execution is started once one was interrupted or the agents were cancelled. -/
theorem nothing_starts_after_interruption {input : PodInput} {p : Io String} {s : World}
    (h : Exec (envWhere orderly) (runEngineeringPod input) {} p s) : s.late = false :=
  (safe_run input rfl).inv (fun _ _ _ _ hpre hstep hlate => step_late hpre hstep hlate) rfl h

end Attempts

/-- The planner is interrupted. -/
def cancelPorts : Ports where
  writer _ := .ok (writerReceipt "completed" "As planned.")
  order := writerIds
  answer
    | .execute _ => .error "agent execution cancelled"
    | o => portAnswer o

/-- Of the agents only the planner is asked. -/
def plannerOnly : Call → Bool
  | .execute input => input.role == .planner
  | _ => true

lemma cancelPorts_orderly {s : World} {o : Call} (h : plannerOnly o = true) :
    orderly s o (cancelPorts.reply s o) (cancelPorts.ends o) := by
  refine .inr ⟨?_, ?_⟩
  · intro x hx hstopped
    cases o with
    | race pending =>
        obtain rfl := List.mem_singleton.mp hx
        cases hstopped
    | _ => cases hx
  · cases o with
    | execute input =>
        intro hrole
        have hplanner : input.role = .planner := by simpa [plannerOnly] using h
        rw [hplanner] at hrole
        cases hrole
    | race pending => exact trivial
    | _ => exact trivial

lemma cancelPorts_run : ∃ p s, Exec (envWhere orderly) (runEngineeringPod podInput) {} p s ∧
    s.interrupted = true := by
  have hrun : (follow (fun s o _ => (cancelPorts.may s o && plannerOnly o) = true)
      cancelPorts.after cancelPorts.reply 30 (runEngineeringPod podInput) {}).any
        (·.2.interrupted) = true := by
    delta runEngineeringPod runPod workflow attemptsFrom
    delta attemptsFrom._f attemptOnce makePlan
    rw [buildPrompt_eq_quickPrompt]
    decide +kernel
  obtain ⟨⟨p, s⟩, hfollow, hint⟩ := (Option.any_eq_true _ _).mp hrun
  refine ⟨p, s, exec_of_follow (fun s o h => ?_) hfollow, hint⟩
  obtain ⟨hmay, hplanner⟩ := Bool.and_eq_true_iff.mp h
  exact Ports.step_reply hmay (cancelPorts_orderly hplanner)

/-- A run whose planner is interrupted. -/
theorem nothing_starts_after_planner_interrupted :
    ∃ p s, Exec (envWhere orderly) (runEngineeringPod podInput) {} p s ∧
      s.interrupted = true ∧ s.late = false := by
  obtain ⟨p, s, hexec, hint⟩ := cancelPorts_run
  exact ⟨p, s, hexec, hint, nothing_starts_after_interruption hexec⟩

/-- One engineer reports a failure, and then the other one is interrupted. -/
def mixedPorts : Ports where
  writer
    | .engineeringA => .ok (writerReceipt "failed" "No way.")
    | .engineeringB => .error "agent execution cancelled"
    | .qaTests => .ok (writerReceipt "completed" "As planned.")
  order := writerIds
  answer := portAnswer

/-- After the one engineer's failure the interruption of the other is only the second error: the
agents are cancelled, and then the planner of the next attempt is started. -/
theorem planner_starts_after_cancellation :
    ∃ p s, Exec env (runEngineeringPod podInput) {} p s ∧ s.late = true := by
  have hrun : (follow (fun s o _ => mixedPorts.may s o = true) mixedPorts.after mixedPorts.reply 50
      (runEngineeringPod podInput) {}).any (·.2.late) = true := by
    delta runEngineeringPod runPod workflow attemptsFrom
    delta attemptsFrom._f attemptOnce makePlan runAttempt startWriters
    delta startWriters._f writerInput
    rw [buildPrompt_eq_quickPrompt]
    decide +kernel
  obtain ⟨⟨p, s⟩, hfollow, hlate⟩ := (Option.any_eq_true _ _).mp hrun
  exact ⟨p, s, exec_of_follow (fun s o h => Ports.step_reply h trivial) hfollow, hlate⟩

end Bimo.Controller
