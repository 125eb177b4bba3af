import Bimo.Organizer

/-!
The reasons on record: which of them are free of control characters.

A reason is the message of an error, cleared of control characters and cut. Where a workflow
records one, only the first such character is taken out, and a message that has another one
before the cut comes through with it. The organizer takes all of them out, or has refused the
text before.
-/

namespace Bimo.Flow

open Wire (Json)
open PodStore (Fields spread require plainObject)
open Contract (assertText isUnsafe isBlank)

/-- A text without a control character. -/
def Clean (s : String) : Prop := s.toList.any isUnsafe = false

instance (s : String) : Decidable (Clean s) := inferInstanceAs (Decidable (_ = _))

/-- A message with one control character at most, as far as it is looked at. -/
def Mild (message : String) : Prop :=
  (Wire.slice half 2001 message.toList).countP isUnsafe ≤ 1

instance (message : String) : Decidable (Mild message) := inferInstanceAs (Decidable (_ ≤ _))

/-! ### What is taken out -/

lemma isUnsafe_half : isUnsafe half = false := by decide

/-- A character that is cut in two is no unsafe one. -/
lemma mem_of_mem_slice {n : ℕ} {cs : List Char} {c : Char} (h : c ∈ Wire.slice half n cs)
    (hc : isUnsafe c = true) : c ∈ cs := by
  refine (Wire.mem_of_mem_slice h).resolve_right ?_
  rintro rfl
  rw [isUnsafe_half] at hc
  cases hc

/-- An unsafe character is one unit long. -/
lemma toNat_of_isUnsafe {c : Char} (h : isUnsafe c = true) : c.toNat < 65536 := by
  simp only [isUnsafe, Bool.or_eq_true, Bool.and_eq_true, decide_eq_true_eq, beq_iff_eq] at h
  omega

/-- Without the first unsafe character there is one less of them, a unit further on. -/
lemma countP_slice (n : ℕ) (cs : List Char) :
    (Wire.slice half n (cs.eraseP isUnsafe)).countP isUnsafe =
      (Wire.slice half (n + 1) cs).countP isUnsafe - 1 := by
  induction cs generalizing n with
  | nil => cases n <;> rfl
  | cons c cs ih =>
      cases hc : isUnsafe c with
      | true =>
          rw [List.eraseP_cons_of_pos hc, Wire.slice_short half n (toNat_of_isUnsafe hc),
            List.countP_cons_of_pos hc, Nat.add_sub_cancel]
      | false =>
          rw [List.eraseP_cons_of_neg (by simp [hc])]
          have hskip : ∀ l : List Char, (c :: l).countP isUnsafe = l.countP isUnsafe :=
            fun l => List.countP_cons_of_neg (by simp [hc])
          have hhalf : [half].countP isUnsafe = 0 := by decide
          by_cases hshort : c.toNat < 65536
          · rw [Wire.slice_short half n hshort, hskip]
            cases n with
            | zero => cases cs <;> rfl
            | succ n => rw [Wire.slice_short half n hshort, hskip, ih n]
          · -- the cut may go through this character
            rcases n with _ | _ | n
            · have hcut : Wire.slice half 1 (c :: cs) = [half] := if_neg hshort
              rw [hcut, hhalf]
              rfl
            · have hcut : Wire.slice half 1 (c :: cs.eraseP isUnsafe) = [half] := if_neg hshort
              rw [hcut, hhalf, Wire.slice_long half 0 hshort, hskip]
              cases cs <;> rfl
            · rw [Wire.slice_long half n hshort, Wire.slice_long half (n + 1) hshort, hskip, hskip,
                ih n]

lemma clean_iff_countP {s : String} : Clean s ↔ s.toList.countP isUnsafe = 0 := by
  rw [Clean, List.countP_eq_zero, List.any_eq_false]

/-- The reason of an error is clean when the message was mild, and only then. -/
lemma clean_safeReason (e : Err) : Clean (safeReason e) ↔ Mild e.message := by
  have hcount : _ = (Wire.slice half 2001 e.message.toList).countP isUnsafe - 1 :=
    countP_slice 2000 e.message.toList
  unfold Mild safeReason
  dsimp only
  split_ifs with hnil
  · rw [hnil, List.countP_nil] at hcount
    exact iff_of_true (by decide) (Nat.sub_eq_zero_iff_le.mp hcount.symm)
  · rw [clean_iff_countP, String.toList_ofList, hcount, Nat.sub_eq_zero_iff_le]

lemma countP_slice_le (n : ℕ) (cs : List Char) :
    (Wire.slice half n cs).countP isUnsafe ≤ cs.countP isUnsafe := by
  fun_induction Wire.slice half n cs with
  | case1 => exact Nat.zero_le _
  | case2 => exact Nat.zero_le _
  | case3 n c cs hc ih =>
      rw [List.countP_cons, List.countP_cons]
      exact Nat.add_le_add_right ih _
  | case4 =>
      rw [List.countP_cons_of_neg (by simp [isUnsafe_half]), List.countP_nil]
      exact Nat.zero_le _
  | case5 c cs hc n ih =>
      rw [List.countP_cons, List.countP_cons]
      exact Nat.add_le_add_right ih _

/-- A message with one control character at most is mild, however it is cut. -/
lemma mild_of_countP {message : String} (h : message.toList.countP isUnsafe ≤ 1) : Mild message :=
  (countP_slice_le 2001 message.toList).trans h

lemma mild_of_clean {message : String} (h : Clean message) : Mild message :=
  mild_of_countP (by rw [clean_iff_countP.mp h]; exact Nat.zero_le 1)

lemma clean_append {a b : String} (ha : Clean a) (hb : Clean b) : Clean (a ++ b) := by
  rw [Clean, String.toList_append, List.any_append, ha, hb]
  rfl

lemma clean_toString (n : ℕ) : Clean (toString n) := by
  rw [Clean, List.any_eq_false]
  intro c hc
  rw [Nat.toString_eq_repr, Nat.toList_repr] at hc
  have hdigit : 48 ≤ c.toNat ∧ c.toNat ≤ 57 := by
    simpa [Char.isDigit, UInt32.le_iff_toNat_le] using
      Nat.isDigit_of_mem_toDigits (by decide) (by decide) hc
  simp only [isUnsafe, Bool.or_eq_true, Bool.and_eq_true, decide_eq_true_eq, beq_iff_eq]
  omega

/-! ### What a receipt is refused for -/

section Refused

variable {α β : Type} {P : String → Prop}

/-- Whatever the check fails with is as described. -/
def Errs (P : String → Prop) (x : Except String α) : Prop := ∀ e, x = .error e → P e

lemma errs_ok (a : α) : Errs P (.ok a : Except String α) := nofun

lemma errs_error {e : String} (h : P e) : Errs P (.error e : Except String α) := by
  rintro e' he
  obtain rfl := Except.error.inj he
  exact h

lemma errs_bind {x : Except String α} {f : α → Except String β} (hx : Errs P x)
    (hf : ∀ a, x = .ok a → Errs P (f a)) : Errs P (x >>= f) := by
  cases x with
  | error e => exact fun e' he => hx e' (by rw [← Except.error.inj he])
  | ok a => exact hf a rfl

lemma errs_require {p : Prop} [Decidable p] {message : String} (h : P message) :
    Errs P (require p message) := by
  unfold require
  split_ifs
  · exact errs_ok ()
  · exact errs_error h

lemma Errs.mono {Q : String → Prop} {x : Except String α} (h : Errs P x) (hPQ : ∀ e, P e → Q e) :
    Errs Q x :=
  fun e he => hPQ e (h e he)

variable {label : String}

lemma errs_plainObject (v : Json) (h : Clean label) : Errs Clean (plainObject v label) := by
  cases v with
  | obj l => exact errs_ok l
  | _ => exact errs_error (clean_append h (by decide))

lemma errs_assertText (v : Json) (maximum : ℕ) (h : Clean label) :
    Errs Clean (assertText v label maximum) := by
  have hmessage : Clean s!"{label} must be a non-empty string no larger than {maximum} bytes" :=
    clean_append (clean_append (clean_append h (by decide)) (clean_toString maximum)) (by decide)
  unfold assertText
  cases v with
  | str s =>
      refine errs_bind (errs_require hmessage) fun _ _ => ?_
      exact errs_bind (errs_require (clean_append h (by decide))) fun _ _ => errs_ok s
  | _ => exact errs_error hmessage

lemma errs_assertRelativeFile (v : Json) (h : Clean label) :
    Errs Clean (assertRelativeFile v label) := by
  refine errs_bind (errs_assertText v 512 h) fun s _ => ?_
  exact errs_bind (errs_require (clean_append h (by decide))) fun _ _ => errs_ok s

lemma errs_normalizeReceiptFile (v : Json) (h : Clean label) :
    Errs Clean (normalizeReceiptFile v label) :=
  errs_bind (errs_assertText v 512 h) fun _ _ => errs_assertRelativeFile _ h

lemma errs_checkTexts {check : Json → String → Except String String}
    (hcheck : ∀ v label, Clean label → Errs Clean (check v label)) (h : Clean label)
    (l : List Json) : ∀ i, Errs Clean (checkTexts check label i l) := by
  induction l with
  | nil => exact fun _ => errs_ok []
  | cons v l ih =>
      intro i
      have hnumbered : Clean s!"{label}[{i}]" :=
        clean_append (clean_append (clean_append h (by decide)) (clean_toString i)) (by decide)
      refine errs_bind (hcheck v _ hnumbered) fun s _ => ?_
      exact errs_bind (ih (i + 1)) fun rest _ => errs_ok (s :: rest)

lemma errs_arrayOf (v : Json) (minimum maximum : ℕ) {message : String} (h : Clean message) :
    Errs Clean (arrayOf v minimum maximum message) := by
  cases v with
  | arr l => exact errs_bind (errs_require h) fun _ _ => errs_ok l
  | _ => exact errs_error h

lemma errs_validateStringArray (v : Json) (minimum maximum itemBytes : ℕ) (h : Clean label) :
    Errs Clean (validateStringArray v label minimum maximum itemBytes) := by
  have hmessage : Clean s!"{label} must contain {minimum} to {maximum} strings" :=
    clean_append (clean_append (clean_append (clean_append (clean_append h (by decide))
      (clean_toString minimum)) (by decide)) (clean_toString maximum)) (by decide)
  refine errs_bind (errs_arrayOf v minimum maximum hmessage) fun l _ => ?_
  exact errs_checkTexts (fun v _ h => errs_assertText v itemBytes h) h l 0

/-- A receipt is refused with a clean message, or for the outcome it has. -/
lemma errs_validateReceipt {v : Json} {role : Role}
    (h : ∀ l outcome, v = .obj l → field l "outcome" = .str outcome →
      Mild s!"role returned unsupported outcome: {outcome}") :
    Errs Mild (validateReceipt v role) := by
  have hmild : ∀ e, Clean e → Mild e := fun _ => mild_of_clean
  unfold validateReceipt
  refine errs_bind ((errs_plainObject v (by decide)).mono hmild) fun l hl => ?_
  refine errs_bind ((errs_require (P := Clean) (by decide)).mono hmild) fun _ _ => ?_
  have houtcomeOf : Errs Mild (outcomeOf (field l "outcome")) := by
    cases field l "outcome" with
    | str s => exact errs_ok s
    | _ => exact errs_error (mild_of_countP (by decide))
  refine errs_bind houtcomeOf fun outcome houtcome => ?_
  have hfield : field l "outcome" = .str outcome := by
    cases hv : field l "outcome" with
    | str s =>
        rw [hv] at houtcome
        rw [Except.ok.inj houtcome]
    | _ =>
        rw [hv] at houtcome
        cases houtcome
  refine errs_bind (errs_require (h l outcome (PodStore.plainObject_eq hl) hfield)) fun _ _ => ?_
  refine errs_bind ((errs_assertText _ _ (by decide)).mono hmild) fun _ _ => ?_
  refine errs_bind ((errs_assertText _ _ (by decide)).mono hmild) fun _ _ => ?_
  refine errs_bind ((errs_validateStringArray _ _ _ _ (by decide)).mono hmild) fun _ _ => ?_
  refine errs_bind ((errs_arrayOf _ _ _ (by decide)).mono hmild) fun raw _ => ?_
  refine errs_bind ((errs_checkTexts (fun v _ => errs_normalizeReceiptFile v) (by decide)
    raw 0).mono hmild) fun files _ => ?_
  refine errs_bind ((errs_require (P := Clean) (by decide)).mono hmild) fun _ _ => ?_
  exact errs_bind ((errs_require (P := Clean) (by decide)).mono hmild) fun _ _ => errs_ok _

lemma errs_validateVerification (v : Json) : Errs Clean (validateVerification v) := by
  refine errs_bind (errs_plainObject v (by decide)) fun l _ => ?_
  refine errs_bind (errs_require (by decide)) fun _ _ => ?_
  exact errs_bind (errs_validateStringArray _ _ _ _ (by decide)) fun _ _ => errs_ok l

lemma errs_validatePublication (v : Json) : Errs Clean (validatePublication v) := by
  refine errs_bind (errs_plainObject v (by decide)) fun l _ => ?_
  exact errs_bind (errs_assertText _ _ (by decide)) fun _ _ => errs_ok l

lemma errs_buildPrompt (roleName instructions task : String) (previous : Past)
    (events : List Fields) (allowed : List String) :
    Errs Clean (buildPrompt roleName instructions task previous events allowed) := by
  unfold buildPrompt
  dsimp only
  split_ifs
  · exact errs_error (by decide)
  · exact errs_ok _

end Refused

/-! ### Runs in which no message has two control characters -/

/-- The error of an answer, where it is one, is mild. -/
def MildError {α : Type} (r : Except Err α) : Prop := ∀ e, r = .error e → Mild e.message

/-- Errors are mild, and so is what a role is told about the outcome it comes back with. -/
def MildAnswer : (c : Call) → c.Ret → Prop
  | .clock, r => MildError r
  | .now, r => MildError r
  | .previousHistory, _ => True
  | .runRole _, r => MildError r ∧ ∀ l receipt outcome, r = .ok (.obj l) →
      field l "receipt" = .obj receipt → field receipt "outcome" = .str outcome →
      Mild s!"role returned unsupported outcome: {outcome}"
  | .verify _, r => MildError r
  | .publish _, r => MildError r
  | .mkdirState, r => MildError r
  | .mkdirWorkspace, r => MildError r
  | .mkdirRun, r => MildError r
  | .createEvents, r => MildError r
  | .append _ _, r => MildError r
  | .changelog _, r => MildError r
  | .writeLatest, r => MildError r

def mildly : Env Call Call.Ret Trace := traced.given fun _ => MildAnswer

/-- The reason of a failure that is put on record is clean. -/
def CleanRecord : Call → Prop
  | .append type event => type = "role.failed" ∨ type = "run.failed" →
      ∃ reason, event.lookup "reason" = some (.str reason) ∧ Clean reason
  | _ => True

/-- A part of a run that puts clean reasons on record, and that fails mildly. -/
def Gentle {α : Type} (p : Io α) : Prop :=
  ∀ t, Safe mildly (fun _ => CleanRecord) p t fun r _ => ∀ e m, r = .error (e, m) → Mild e.message

section Gentle

variable {α β : Type} {m : Memory}

lemma gentle_pure (a : α) : Gentle (pure a : Io α) := fun _ _ _ h => nomatch h

lemma gentle_fail {e : Err} (h : Mild e.message) : Gentle (Prog.fail (e, m) : Io α) := by
  rintro t e' m' he
  obtain ⟨rfl, rfl⟩ := Prod.mk.inj (Except.error.inj he)
  exact h

lemma gentle_bind {p : Io α} {f : α → Io β} (hp : Gentle p) (hf : ∀ a, Gentle (f a)) :
    Gentle (p >>= f) := by
  intro t
  refine (hp t).bind (fun a u _ => hf a u) fun e u h => ?_
  rintro e' m' he
  exact h e' m' (by rw [Except.error.inj he])

/-- A program whose failure is handed on. -/
lemma gentle_attempt_bind {p : Io α} {f : Except (Err × Memory) α → Io β} (hp : Gentle p)
    (hok : ∀ a, Gentle (f (.ok a))) (herr : ∀ e m, Mild e.message → Gentle (f (.error (e, m)))) :
    Gentle (p.attempt >>= f) := by
  intro t
  rw [safe_bind, safe_attempt]
  refine (hp t).mono fun r u h => ?_
  match r with
  | .ok a => exact hok a u
  | .error (e, m) => exact herr e m (h e m rfl) u

lemma gentle_ask_bind {c : Call} {f : c.Ret → Io α} (hc : CleanRecord c)
    (hf : ∀ r, MildAnswer c r → Gentle (f r)) : Gentle (ask c >>= f) := by
  refine fun t => ⟨hc, fun r u h => ?_⟩
  exact hf r h.2 u

lemma gentle_orFail {x : Except Err α} (h : MildError x) : Gentle (orFail m x) := by
  cases x with
  | error e => exact gentle_fail (h e rfl)
  | ok a => exact gentle_pure a

lemma gentle_check {x : Except String α} (h : Errs Mild x) : Gentle (check m x) := by
  cases x with
  | error e => exact gentle_fail (h e rfl)
  | ok a => exact gentle_pure a

lemma Errs.mild {x : Except String α} (h : Errs Clean x) : Errs Mild x :=
  h.mono fun _ => mild_of_clean

lemma gentle_readClock : Gentle (readClock m) := by
  refine gentle_ask_bind trivial fun r hr => gentle_bind (gentle_orFail hr) fun now => ?_
  cases now with
  | none => exact gentle_fail (mild_of_countP (by decide))
  | some t => exact gentle_pure t

lemma gentle_remaining (d : ℚ) (minimum : ℕ) : Gentle (remainingTimeoutSeconds d m minimum) := by
  refine gentle_bind gentle_readClock fun current => ?_
  exact gentle_bind (gentle_check (errs_require (mild_of_countP (by decide)))) fun _ =>
    gentle_pure _

/-- An event whose reason is clean, where it has to be. -/
lemma gentle_record (runId type : String) (details : Fields)
    (h : type = "role.failed" ∨ type = "run.failed" →
      ∃ reason, (details.map Prod.fst).Nodup ∧ details.lookup "reason" = some (.str reason) ∧
        Clean reason) : Gentle (record runId type details m) := by
  unfold record
  refine gentle_ask_bind trivial fun now hnow => ?_
  refine gentle_bind (gentle_orFail hnow) fun timestamp => ?_
  refine gentle_ask_bind (fun htype => ?_) fun r hr => ?_
  · obtain ⟨reason, hnodup, hlookup, hclean⟩ := h htype
    refine ⟨reason, ?_, hclean⟩
    rw [eventOf, lookup_spread hnodup, hlookup]
    rfl
  refine gentle_bind (gentle_orFail hr) fun _ => ?_
  refine gentle_ask_bind trivial fun r hr => ?_
  exact gentle_bind (gentle_orFail hr) fun _ => gentle_pure _

/-- An event that is not the record of a failure. -/
lemma gentle_event (runId : String) {type : String} (details : Fields)
    (h : ¬ (type = "role.failed" ∨ type = "run.failed")) : Gentle (record runId type details m) :=
  gentle_record runId type details fun htype => absurd htype h

/-! ### The steps -/

variable {cfg : Config} {role : Role}

lemma gentle_runRole (input : RoleInput) : Gentle (runRole cfg role input m) := by
  unfold runRole
  refine gentle_bind (gentle_remaining _ _) fun seconds => ?_
  refine gentle_ask_bind trivial fun r hr => ?_
  cases r with
  | error e => exact gentle_fail (hr.1 e rfl)
  | ok result =>
      change Gentle ((runRole.receiptOf cfg role result m).attempt >>= _)
      have hreceipt : Gentle (runRole.receiptOf cfg role result m) := by
        unfold runRole.receiptOf
        refine gentle_bind (gentle_remaining _ _) fun _ => ?_
        cases result with
        | obj l =>
            change Gentle (check m (validateReceipt (field l "receipt") role))
            exact gentle_check <| errs_validateReceipt fun receipt outcome hv ho =>
              hr.2 l receipt outcome rfl hv ho
        | _ => exact gentle_fail (mild_of_countP (by decide))
      exact gentle_attempt_bind hreceipt (fun _ => gentle_pure _) fun e m h => gentle_fail h

lemma gentle_roleStep (step : ℕ) (active : Name) (attempt : ℕ) (instructions : String) :
    Gentle (roleStep cfg step active attempt role instructions m) := by
  unfold roleStep
  refine gentle_bind (gentle_check (Errs.mild (errs_buildPrompt _ _ _ _ _ _))) fun prompt => ?_
  refine gentle_bind (gentle_event _ _ (by decide)) fun m => ?_
  refine gentle_attempt_bind (gentle_runRole _) (fun a => ?_) fun e m h => ?_
  · obtain ⟨receipt, runtime⟩ := a
    refine gentle_bind (gentle_event _ _ (by decide)) fun m => ?_
    cases follow role receipt with
    | none => exact gentle_fail (mild_of_countP (by decide))
    | some target => exact gentle_pure _
  · refine gentle_bind (gentle_record _ _ _ fun _ => ?_) fun m => gentle_fail h
    exact ⟨safeReason e, by simp [about], rfl, (clean_safeReason e).mpr h⟩

lemma gentle_takeStep (step : ℕ) (active : Name) (attempt : ℕ) :
    Gentle (takeStep cfg step active attempt m) := by
  unfold takeStep
  refine gentle_bind (gentle_remaining _ _) fun _ => ?_
  cases cfg.workflow.roles.lookup active.key with
  | none => exact gentle_fail (mild_of_countP (by decide))
  | some role =>
      cases cfg.input.prompts.lookup active.key with
      | none => exact gentle_fail (mild_of_countP (by decide))
      | some instructions => exact gentle_roleStep step active attempt instructions

lemma gentle_complete (step : ℕ) : Gentle (complete cfg step m) := by
  unfold complete
  refine gentle_bind (gentle_remaining _ _) fun seconds => ?_
  refine gentle_ask_bind trivial fun r hr => ?_
  refine gentle_bind (gentle_orFail hr) fun v => ?_
  refine gentle_bind (gentle_check (errs_validateVerification v).mild) fun verification => ?_
  refine gentle_bind (gentle_remaining _ _) fun _ => ?_
  refine gentle_bind (gentle_event _ _ (by decide)) fun m => ?_
  refine gentle_bind (gentle_check (errs_require (mild_of_countP (by decide)))) fun _ => ?_
  refine gentle_bind (gentle_remaining _ _) fun seconds => ?_
  refine gentle_ask_bind trivial fun r hr => ?_
  refine gentle_bind (gentle_orFail hr) fun v => ?_
  refine gentle_bind (gentle_check (errs_validatePublication v).mild) fun publication => ?_
  refine gentle_bind (gentle_event _ _ (by decide)) fun m => ?_
  exact gentle_bind (gentle_event _ _ (by decide)) fun _ => gentle_pure _

lemma gentle_steps (left : ℕ) : ∀ (step : ℕ) (name : Name) (attempts : Name → ℕ) (m : Memory),
    Gentle (steps cfg left step name attempts m) := by
  induction left with
  | zero =>
      intro step name attempts m
      have hmessage : Clean s!"maxSteps {cfg.workflow.maxSteps} reached" :=
        clean_append (clean_append (by decide) (clean_toString _)) (by decide)
      exact gentle_fail (mild_of_clean hmessage)
  | succ left ih =>
      intro step name attempts m
      unfold steps
      refine gentle_bind (gentle_takeStep _ _ _) fun a => ?_
      obtain ⟨target, m⟩ := a
      cases target with
      | done => exact gentle_complete step
      | role next => exact ih (step + 1) next _ m

/-- All that comes after the input was accepted and the clock was read. -/
lemma gentle_body (i : Input) : Gentle (do
    let r ← (body cfg m).attempt
    match r with
    | .ok result => pure result
    | .error (e, m) =>
      let m ← record i.runId "run.failed"
        [("status", .str "failed"), ("reason", .str (safeReason e))] m
      Prog.fail (e, m)) := by
  refine gentle_attempt_bind ?_ (fun result => gentle_pure result) fun e m h => ?_
  · unfold body
    refine gentle_ask_bind trivial fun r hr => ?_
    exact gentle_bind (gentle_orFail hr) fun _ => gentle_steps _ _ _ _ _
  · refine gentle_bind (gentle_record _ _ _ fun _ => ?_) fun m => gentle_fail h
    exact ⟨safeReason e, by simp, rfl, (clean_safeReason e).mpr h⟩

lemma errs_deadlineOf (w : Workflow) (supplied : Option ℚ) (invokedAt : ℚ) :
    Errs Mild (deadlineOf w supplied invokedAt) := by
  cases supplied with
  | none => exact errs_ok _
  | some t =>
      refine errs_bind (errs_require (mild_of_countP (by decide))) fun _ _ => ?_
      exact errs_bind (errs_require (mild_of_countP (by decide))) fun _ _ => errs_ok t

end Gentle

/-- A run puts clean reasons on record, when no message has two control characters. -/
lemma gentle_runWorkflow (i : Input) (t : Trace) :
    Safe mildly (fun _ => CleanRecord) (runWorkflow i) t fun _ _ => True := by
  unfold runWorkflow
  cases checkInput i with
  | error e => trivial
  | ok w =>
      change Safe mildly _ (readClock {} >>= _) t _
      refine ((?_ : Gentle _) t).mono fun _ _ _ => trivial
      refine gentle_bind gentle_readClock fun invokedAt => ?_
      refine gentle_bind (gentle_check (errs_deadlineOf w i.deadlineAt invokedAt)) fun d => ?_
      refine gentle_ask_bind trivial fun r hr => gentle_bind (gentle_orFail hr) fun _ => ?_
      refine gentle_ask_bind trivial fun r hr => gentle_bind (gentle_orFail hr) fun _ => ?_
      refine gentle_ask_bind trivial fun previous _ => ?_
      refine gentle_ask_bind trivial fun r hr => gentle_bind (gentle_orFail hr) fun _ => ?_
      refine gentle_ask_bind trivial fun r hr => gentle_bind (gentle_orFail hr) fun _ => ?_
      exact gentle_bind (gentle_event _ _ (by decide)) fun m => gentle_body i

end Bimo.Flow

/-! ### The organizer -/

namespace Bimo.Organizer

open Wire (Json)
open PodStore (require_eq)
open Contract (isUnsafe)
open Bimo.Flow (Clean mem_of_mem_slice)

lemma clean_of_assertText {v : Json} {label s : String} (h : assertText v label = .ok s) :
    Clean s := by
  unfold assertText at h
  cases v with
  | str s' =>
      obtain ⟨_, -, h⟩ := bind_eq_ok.mp h
      obtain ⟨_, hclean, h⟩ := bind_eq_ok.mp h
      obtain rfl := Except.ok.inj h
      exact require_eq.mp hclean
  | _ => cases h

/-- A clean text is only cut. -/
lemma clean_safeReason {reason : String} (h : Clean reason) : Clean (safeReason reason) := by
  rw [Clean, List.any_eq_false] at h ⊢
  intro c hc hbad
  rw [safeReason, String.toList_ofList] at hc
  exact h c (List.mem_of_mem_eraseP (mem_of_mem_slice hc hbad)) hbad

lemma clean_receiptForAgent {receipt : Json} {catalog : List Entry} {vote : Vote}
    (h : receiptForAgent receipt catalog = .ok vote) : Clean vote.reason := by
  obtain ⟨l, -, h⟩ := bind_eq_ok.mp h
  obtain ⟨_, -, h⟩ := bind_eq_ok.mp h
  obtain ⟨_, -, h⟩ := bind_eq_ok.mp h
  obtain ⟨template, -, h⟩ := bind_eq_ok.mp h
  obtain ⟨templateDigest, -, h⟩ := bind_eq_ok.mp h
  obtain ⟨reason, hreason, h⟩ := bind_eq_ok.mp h
  obtain ⟨entry, -, h⟩ := bind_eq_ok.mp h
  obtain ⟨_, -, h⟩ := bind_eq_ok.mp h
  obtain rfl := Except.ok.inj h
  exact clean_safeReason (clean_of_assertText hreason)

/-- The reasons of these votes are clean. -/
def CleanVotes (votes : List Vote) : Prop := ∀ vote ∈ votes, Clean vote.reason

lemma clean_votesOf {catalog : List Entry} (raws : List Json) :
    ∀ {index : ℕ} {votes : List Vote}, votesOf catalog index raws = .ok votes →
      CleanVotes votes := by
  induction raws with
  | nil =>
      intro index votes h
      obtain rfl := Except.ok.inj h
      exact nofun
  | cons raw raws ih =>
      intro index votes h
      obtain ⟨vote, hvote, h⟩ := bind_eq_ok.mp h
      obtain ⟨rest, hrest, h⟩ := bind_eq_ok.mp h
      obtain rfl := Except.ok.inj h
      have hreceipt : receiptForAgent (unwrapped raw) catalog = .ok vote := by
        cases hr : receiptForAgent (unwrapped raw) catalog with
        | ok v =>
            rw [hr] at hvote
            rw [Except.ok.inj hvote]
        | error e =>
            rw [hr] at hvote
            cases hvote
      rintro v (_ | ⟨_, hv⟩)
      · exact clean_receiptForAgent hreceipt
      · exact ih hrest v hv

lemma clean_settle {sha256 : String → String} {request : Request} {raws : List Json} {plan : Plan}
    (h : settle sha256 request raws = .ok plan) : CleanVotes plan.votes := by
  obtain ⟨votes, hvotes, h⟩ := bind_eq_ok.mp h
  obtain ⟨template, -, h⟩ := bind_eq_ok.mp h
  obtain ⟨selected, -, h⟩ := bind_eq_ok.mp h
  obtain rfl := Except.ok.inj h
  exact clean_votesOf raws hvotes

namespace Controller

lemma clean_safeReason (message : String) : Clean (safeReason message) := by
  unfold safeReason
  dsimp only
  split_ifs
  · decide
  · rw [Clean, String.toList_ofList, List.any_eq_false]
    intro c hc hbad
    have hsafe := (List.mem_filter.mp (mem_of_mem_slice hc hbad)).2
    simp [hbad] at hsafe

/-- The reasons in an event are clean. -/
def CleanDetails : Details → Prop
  | .started .. => True
  | .completed _ _ votes => CleanVotes votes
  | .failed reason => Clean reason

def CleanStatus : Status → Prop
  | .running => True
  | .completed plan => CleanVotes plan.votes
  | .failed reason => Clean reason

/-- What is put on record has clean reasons. -/
def CleanCall : Call → Prop
  | .append event => CleanDetails event.details
  | .writeRun run => CleanStatus run.status
  | _ => True

section Calls

variable {α β : Type} {R : α → Prop} {m : Memory}

lemma does_ask_bind {c : Call} {f : c.Ret → Io α} (hc : CleanCall c)
    (hf : ∀ r, (f r).Does CleanCall R) : (ask c >>= f).Does CleanCall R := ⟨hc, hf⟩

lemma does_orFail_bind {x : Except String β} {f : β → Io α}
    (hf : ∀ a, x = .ok a → (f a).Does CleanCall R) : (orFail m x >>= f).Does CleanCall R := by
  cases x with
  | error e => trivial
  | ok a => exact hf a rfl

lemma does_record {runId : String} {details : Details} (h : CleanDetails details) :
    (record runId details m).Does CleanCall fun _ => True := by
  unfold record
  refine does_ask_bind trivial fun r => does_orFail_bind fun timestamp _ => ?_
  refine does_ask_bind h fun r => does_orFail_bind fun _ _ => ?_
  exact does_ask_bind trivial fun r => does_orFail_bind fun _ _ => trivial

lemma does_assertRunning : (assertRunning m).Does CleanCall fun _ => True :=
  does_ask_bind trivial fun _ => Prog.does_ofExcept _

lemma does_vote (i : Input) (request : Request) (startedAt : String) :
    (vote i request startedAt m).Does CleanCall fun plan => CleanVotes plan.votes := by
  unfold vote
  refine does_ask_bind trivial fun r => does_orFail_bind fun imageDigest _ => ?_
  refine Prog.Does.bind (does_record trivial) fun m _ => ?_
  refine does_ask_bind trivial fun r => does_orFail_bind fun _ _ => ?_
  refine does_assertRunning.bind fun _ _ => does_orFail_bind fun prompt _ => ?_
  refine does_ask_bind trivial fun r => does_orFail_bind fun raws _ => ?_
  refine does_orFail_bind fun plan hplan => ?_
  have hvotes := clean_settle hplan
  refine does_assertRunning.bind fun _ _ => ?_
  refine does_ask_bind trivial fun r => does_orFail_bind fun finishedAt _ => ?_
  refine Prog.Does.bind (does_record hvotes) fun m _ => ?_
  exact does_ask_bind hvotes fun r => does_orFail_bind fun _ _ => hvotes

lemma does_giveUp (i : Input) (request : Request) (startedAt message : String) :
    (giveUp i request startedAt message m).Does CleanCall fun _ => True := by
  have hreason := clean_safeReason message
  unfold giveUp
  refine does_ask_bind trivial fun _ => ?_
  refine does_ask_bind trivial fun r => does_orFail_bind fun finishedAt _ => ?_
  have hrecord : (record i.runId (.failed (safeReason message)) m).Does CleanCall fun _ => True :=
    does_record hreason
  refine hrecord.attempt.bind fun _ _ => ?_
  exact does_ask_bind hreason fun _ => trivial

/-- Only clean reasons are put on record, and only clean ones are returned. -/
lemma does_runOrganizerController (i : Input) :
    (runOrganizerController i).Does CleanCall fun plan => CleanVotes plan.votes := by
  have htried : ∀ request startedAt, (runOrganizerController.tried i request startedAt).Does
      CleanCall fun plan => CleanVotes plan.votes := by
    intro request startedAt
    refine (does_vote i request startedAt).attempt.bind fun outcome h => ?_
    match outcome with
    | .ok plan => exact h plan rfl
    | .error (message, m) => exact (does_giveUp i request startedAt message).bind fun _ _ => trivial
  unfold runOrganizerController
  refine does_orFail_bind fun request _ => ?_
  have hclock : readClock.Does CleanCall fun _ => True := by
    refine does_ask_bind trivial fun r => does_orFail_bind fun now _ => ?_
    cases now with
    | none => trivial
    | some t => exact does_orFail_bind fun _ _ => trivial
  refine hclock.bind fun _ _ => ?_
  refine does_ask_bind trivial fun r => does_orFail_bind fun _ _ => ?_
  refine does_ask_bind trivial fun r => does_orFail_bind fun startedAt _ => ?_
  refine does_ask_bind trivial fun r => does_orFail_bind fun _ _ => ?_
  refine (htried request startedAt).attempt.bind fun outcome h => ?_
  refine does_ask_bind trivial fun r => does_orFail_bind fun _ _ => ?_
  refine does_ask_bind trivial fun _ => ?_
  cases outcome with
  | error e => trivial
  | ok plan => exact h plan rfl

end Calls

end Controller

end Bimo.Organizer

/-! ### Every reason -/

namespace Bimo.Flow

open Wire (Json)
open Organizer (CleanVotes settle)
open Organizer.Controller (runOrganizerController CleanCall does_runOrganizerController)

/-- What a program does, it does in every environment. -/
lemma safe_of_calls {Op σ ε α : Type} {Ret : Op → Type} {E : Env Op Ret σ} {P : Op → Prop}
    {R : α → Prop} {p : Prog Op Ret ε α} (hp : p.Does P R) (s : σ) :
    Safe E (fun _ => P) p s fun r _ => ∀ a, r = .ok a → R a := by
  induction p generalizing s with
  | ret a =>
      intro b hb
      obtain rfl := Except.ok.inj hb
      exact hp
  | fail e => exact nofun
  | call o k ih => exact ⟨hp.1, fun r t _ => ih r (hp.2 r) t⟩

/-- **Which reasons are clean.** In every run of a workflow in which each error, and what a role
is told about its outcome, has one control character at most before the cut, the reasons put on
record are clean. A reason is clean when its message was so, and only then. The reasons that the
organizer puts on record or returns are always clean. -/
theorem reasons_clean (i : Input) (e : Err) :
    (∀ (c : Call) (k : c.Ret → Io Result) (t : Trace),
      Exec mildly (runWorkflow i) [] (.call c k) t → CleanRecord c) ∧
    (Clean (safeReason e) ↔ Mild e.message) ∧
    (∀ sha256 request raws plan, settle sha256 request raws = .ok plan → CleanVotes plan.votes) ∧
    (∀ i c k t, Exec Bimo.traced (runOrganizerController i) [] (.call c k) t → CleanCall c) ∧
    ∀ i plan t, Exec Bimo.traced (runOrganizerController i) [] (.ret plan) t →
      CleanVotes plan.votes := by
  have hsafe : ∀ i, Safe Bimo.traced (fun _ => CleanCall) (runOrganizerController i) [] fun r _ =>
      ∀ plan, r = .ok plan → CleanVotes plan.votes :=
    fun i => safe_of_calls (does_runOrganizerController i) _
  refine ⟨fun c k t hx => ?_, clean_safeReason e, fun _ _ _ _ => Organizer.clean_settle,
    fun i c k t hx => (hsafe i).allowed hx, fun i plan t hx => ?_⟩
  · exact (gentle_runWorkflow i []).allowed hx
  · exact (hsafe i).exec hx plan rfl

/-- The role comes back with this outcome. -/
def returning (outcome : String) (t : Trace) : (c : Call) → c.Ret
  | .runRole _ => .ok (.obj [("receipt", .obj [("outcome", .str outcome), ("what", .str "w"),
      ("why", .str "y"), ("evidence", .arr [.str "e"]), ("files", .arr [])])])
  | c => answers samplePassed samplePublication t c

/-- The next call puts the failure of a role on record, with this reason. -/
def recordsReason (reason : String) : Io Result → Bool
  | .call (.append "role.failed" event) _ => isStatus (field event "reason") reason
  | _ => false

lemma of_recordsReason {reason : String} {q : Io Result} (h : recordsReason reason q = true) :
    ∃ event k, q = .call (.append "role.failed" event) k ∧
      event.lookup "reason" = some (.str reason) := by
  unfold recordsReason at h
  split at h
  · rename_i event k
    refine ⟨event, k, rfl, ?_⟩
    unfold isStatus field at h
    cases hv : event.lookup "reason" with
    | none =>
        rw [hv] at h
        cases h
    | some v =>
        rw [hv] at h
        cases v with
        | str s =>
            obtain rfl : s = reason := of_decide_eq_true h
            rfl
        | _ => cases h
  · cases h

/-- A run in which the role comes back with an outcome that it does not have. -/
lemma exec_returning {E : Env Call Call.Ret Trace} (outcome reason : String)
    (hE : ∀ t c, E.step t c (returning outcome t c) (t ++ [⟨c, returning outcome t c⟩]))
    (h : (Bimo.follow (fun _ _ _ => True) (fun t c r => t ++ [⟨c, r⟩]) (returning outcome) 18
      (runWorkflow sampleInput) []).any (fun x => recordsReason reason x.1) = true) :
    ∃ event k t, Exec E (runWorkflow sampleInput) [] (.call (.append "role.failed" event) k) t ∧
      event.lookup "reason" = some (.str reason) := by
  obtain ⟨⟨q, t⟩, hq, hr⟩ := (Option.any_eq_true _ _).mp h
  have hx := exec_of_follow (E := E) (fun t c _ => hE t c) hq
  obtain ⟨event, k, rfl, hreason⟩ := of_recordsReason hr
  exact ⟨event, k, t, hx, hreason⟩

/-- One control character in an outcome does not get into the reason. -/
theorem reasons_clean_one : ∃ event k t,
    Exec mildly (runWorkflow sampleInput) [] (.call (.append "role.failed" event) k) t ∧
      event.lookup "reason" = some (.str "role returned unsupported outcome: ") ∧
      CleanRecord (.append "role.failed" event) := by
  have hmild : ∀ t c, MildAnswer c (returning "\x01" t c) := by
    intro t c
    cases c with
    | runRole input =>
        refine ⟨nofun, ?_⟩
        rintro l receipt outcome hl hreceipt houtcome
        obtain rfl := Json.obj.inj (Except.ok.inj hl)
        obtain rfl := Json.obj.inj hreceipt
        obtain rfl := Json.str.inj houtcome
        exact mild_of_countP (by decide)
    | verify seconds => exact nofun
    | _ => first | exact trivial | exact nofun
  obtain ⟨event, k, t, hx, hreason⟩ := exec_returning (E := mildly) "\x01"
    "role returned unsupported outcome: " (fun t c => ⟨traced_step t c _, hmild t c⟩) (by
      delta runWorkflow body steps
      delta steps._f takeStep
      delta roleStep
      rw [buildPrompt_eq_quickPrompt]
      decide +kernel)
  exact ⟨event, k, t, hx, hreason, (reasons_clean sampleInput { message := "" }).1 _ k t hx⟩

/-- Of two control characters in an outcome the second one gets into the reason. -/
theorem reason_unsafe : ∃ event k t,
    Exec traced (runWorkflow sampleInput) [] (.call (.append "role.failed" event) k) t ∧
      event.lookup "reason" = some (.str "role returned unsupported outcome: \x02") ∧
      ¬ CleanRecord (.append "role.failed" event) := by
  obtain ⟨event, k, t, hx, hreason⟩ := exec_returning (E := traced) "\x01\x02"
    "role returned unsupported outcome: \x02" (fun t c => traced_step t c _) (by
      delta runWorkflow body steps
      delta steps._f takeStep
      delta roleStep
      rw [buildPrompt_eq_quickPrompt]
      decide +kernel)
  refine ⟨event, k, t, hx, hreason, fun hclean => ?_⟩
  obtain ⟨reason, hlookup, h⟩ := hclean (.inl rfl)
  rw [hreason] at hlookup
  obtain rfl := Json.str.inj (Option.some.inj hlookup)
  exact absurd h (by decide)

end Bimo.Flow
