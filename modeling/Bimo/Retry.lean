import Bimo.Publication

/-!
When an attempt that was rejected is made again.

After an attempt has failed the controller makes another one, unless the message of the error
looks like an interruption. That is decided by the words in it, and the message of a rejection
has the agent's own words in it: a writer that reports a timeout of its tests ends the run.
-/

namespace Bimo.Controller

open Wire (Json)
open PodStore (Fields)
open Contract

/-! ### Where an attempt has failed -/

lemma Gains.plain_call {α : Type} {p : Io α} {s t : World} {R : α → World → Prop} {o : Call}
    {K : o.Ret → Io α} (hp : Gains p s R) (h : Exec env p s (.call o K) t) : plain o = true :=
  (hp.safe.exec h).1

lemma exec_ask_bind {β : Type} {o o' : Call} {f : o.Ret → Io β} {K : o'.Ret → Io β} {s t : World}
    (hne : o ≠ o') (h : Exec env (ask o >>= f) s (.call o' K) t) :
    ∃ r u, env.step s o r u ∧ Exec env (f r) u (.call o' K) t := by
  have h' : Exec env (.call o f) s (.call o' K) t := h
  cases h' with
  | refl => exact absurd rfl hne
  | step hr hrest => exact ⟨_, _, hr, hrest⟩

/-- What is done with the result of a run. -/
def conclude : Except Err String → Io String
  | .ok candidateSha => do
    let _ ← ask (.close true)
    pure candidateSha
  | .error e => giveUp e

lemma runPod_eq (cfg : Config) : runPod cfg = (workflow cfg).attempt >>= conclude := by
  unfold runPod
  congr 1

/-- What an attempt that has failed leaves behind. -/
def evidenceOf (n : ℕ) (record : List Answered) (e : Err) : Evidence where
  attempt := n
  plan := (keptOf record).1
  workResults := (keptOf record).2.1
  gates := (keptOf record).2.2
  reason := e.reason

/-- What an attempt has left is what is read back when it has failed. -/
lemma evidenceOf_of_kept {s t : World} {kept : Call.kept.Ret} (h : env.step s .kept kept t) (n : ℕ)
    (e : Err) : evidenceOf n t.record e =
      { attempt := n, plan := kept.1, workResults := kept.2.1, gates := kept.2.2
        reason := e.reason } := by
  obtain ⟨l, s', -, -, hkept, rfl⟩ := h
  have hnext : keptOf (s'.next .kept kept).record = keptOf s'.record := keptOf_cons rfl rfl rfl
  have hkept : kept = keptOf s'.record := hkept
  rw [evidenceOf, hnext, ← hkept]

section Failing

variable {cfg : Config} {baseSha : String} {existingDirectories : Json} {n : ℕ}
  {prior : List Evidence} {input : PodInput} {e : Err} {s t u : World}

/-- The clock is read, and the record of the attempt begun. -/
def beginAttempt (n : ℕ) : Io ℕ := do
  let t ← now
  ask (.begin n)
  pure t

/-- What follows once it is on record that the attempt has failed, where `k` others are left. -/
def goOn (cfg : Config) (baseSha : String) (existingDirectories : Json) (k n : ℕ)
    (prior : List Evidence) (e : Err) (evidence : Evidence) : Io String :=
  if terminalInterruption e || n == cfg.template.maxAttempts then Prog.fail e
  else attemptsFrom cfg baseSha existingDirectories k (n + 1) (prior ++ [evidence])

/-- What follows an attempt. -/
def afterAttempt (cfg : Config) (baseSha : String) (existingDirectories : Json) (k n : ℕ)
    (prior : List Evidence) : Except Err String → Io String
  | .ok candidateSha => pure candidateSha
  | .error e => do
    let (plan, workResults, gates) ← ask .kept
    let r ← ask (.appendEvent (.attemptFailed n e.reason))
    port r
    goOn cfg baseSha existingDirectories k n prior e {
      attempt := n, plan := plan, workResults := workResults, gates := gates
      reason := e.reason }

lemma goOn_of_lt {k : ℕ} {evidence : Evidence} (h : n < cfg.template.maxAttempts) :
    goOn cfg baseSha existingDirectories k n prior e evidence =
      if terminalInterruption e then Prog.fail e
      else attemptsFrom cfg baseSha existingDirectories k (n + 1) (prior ++ [evidence]) := by
  have hne : (n == cfg.template.maxAttempts) = false := by simpa using Nat.ne_of_lt h
  rw [goOn, hne, Bool.or_false]

lemma goOn_last {k : ℕ} {evidence : Evidence} (h : n = cfg.template.maxAttempts) :
    goOn cfg baseSha existingDirectories k n prior e evidence = Prog.fail e := by
  rw [goOn, h, beq_self_eq_true, Bool.or_true, if_pos rfl]

lemma attemptsFrom_succ (k : ℕ) : attemptsFrom cfg baseSha existingDirectories (k + 1) n prior =
    beginAttempt n >>= fun t =>
      (attemptOnce cfg baseSha existingDirectories n
        (min cfg.deadlineAt (t + cfg.template.attemptSeconds * 1000)) prior).attempt >>=
          afterAttempt cfg baseSha existingDirectories k n prior := by
  unfold beginAttempt now
  rw [attemptsFrom]
  refine congrArg (Prog.call Call.now) (funext fun r => ?_)
  cases r with
  | none => rfl
  | some t =>
    refine congrArg (Prog.call (Call.begin n)) (funext fun _ =>
      congrArg (Prog.bind (attemptOnce cfg baseSha existingDirectories n _ prior).attempt)
        (funext fun r => ?_))
    cases r <;> rfl

/-- What is left of a run that is before the attempt `n`. -/
def attemptsLeft (cfg : Config) (baseSha : String) (existingDirectories : Json) (n : ℕ)
    (prior : List Evidence) : Io String :=
  (attemptsFrom cfg baseSha existingDirectories (cfg.template.maxAttempts + 1 - n) n
    prior).attempt >>= conclude

/-- A run is before the attempt `n`, and this is what it has come to. -/
structure Before (input : PodInput) (cfg : Config) (baseSha : String)
    (existingDirectories : Json) (n : ℕ) (prior : List Evidence) (s : World) : Prop where
  template : validatePodTemplate input.lib input.template = .ok cfg.template
  run : Exec env (runEngineeringPod input) {}
    (attemptsLeft cfg baseSha existingDirectories n prior) s

/-- The attempt `n` was made from here and has ended with this error. -/
def Ended (cfg : Config) (baseSha : String) (existingDirectories : Json) (n : ℕ)
    (prior : List Evidence) (s : World) (e : Err) (u : World) : Prop :=
  ∃ t s', Exec env (beginAttempt n) s (.ret t) s' ∧
    Exec env (attemptOnce cfg baseSha existingDirectories n
      (min cfg.deadlineAt (t + cfg.template.attemptSeconds * 1000)) prior) s' (.fail e) u

lemma before_first (hcfg : Exec env (configure input) {} (.ret cfg) s)
    (hprepare : Exec env (prepare cfg) s (.ret (baseSha, existingDirectories)) t) :
    Before input cfg baseSha existingDirectories 1 [] t := by
  refine ⟨((gains_configure input).safe.exec hcfg).2 cfg rfl, ?_⟩
  refine Exec.bind hcfg ?_
  rw [runPod_eq]
  have hwork : Exec env (workflow cfg) s
      (attemptsFrom cfg baseSha existingDirectories cfg.template.maxAttempts 1 []) t :=
    hprepare.bind (.refl _ _)
  exact hwork.attempt.bind_left conclude

/-- An attempt that has ended with an error, and was not the last one: what it has left is read
back, the record says that it has failed, and what is done then goes by the error. -/
lemma exec_ended (hbefore : Before input cfg baseSha existingDirectories n prior s)
    (hended : Ended cfg baseSha existingDirectories n prior s e u)
    (hlast : n < cfg.template.maxAttempts) :
    ∃ (record : Call.kept.Ret → Io String)
      (next : Call.kept.Ret → Except String Unit → Io String),
      Exec env (runEngineeringPod input) {} (.call .kept record) u ∧
      ∀ kept v, env.step u .kept kept v →
        record kept = .call (.appendEvent (.attemptFailed n e.reason)) (next kept) ∧
        next kept (.ok ()) =
          if terminalInterruption e then (Prog.fail e : Io String).attempt >>= conclude
          else attemptsLeft cfg baseSha existingDirectories (n + 1)
            (prior ++ [evidenceOf n v.record e]) := by
  obtain ⟨k, hk⟩ : ∃ k, cfg.template.maxAttempts + 1 - n = k + 2 :=
    ⟨cfg.template.maxAttempts - n - 1, by omega⟩
  obtain ⟨t, s', hbegin, hattempt⟩ := hended
  have hloop : Exec env (attemptsFrom cfg baseSha existingDirectories (k + 2) n prior) s
      (afterAttempt cfg baseSha existingDirectories (k + 1) n prior (.error e)) u := by
    rw [attemptsFrom_succ]
    exact hbegin.bind (hattempt.attempt.bind_left _)
  have hrun := hbefore.run.trans (by
    unfold attemptsLeft
    rw [hk]
    exact hloop.attempt.bind_left conclude)
  refine ⟨_, fun kept r => (port r >>= fun _ => goOn cfg baseSha existingDirectories (k + 1) n prior
    e { attempt := n, plan := kept.1, workResults := kept.2.1, gates := kept.2.2
        reason := e.reason }).attempt >>= conclude, hrun, fun kept v hv => ⟨rfl, ?_⟩⟩
  have hleft : cfg.template.maxAttempts + 1 - (n + 1) = k + 1 := by omega
  change (goOn cfg baseSha existingDirectories (k + 1) n prior e _).attempt >>= conclude = _
  rw [← evidenceOf_of_kept hv n e, goOn_of_lt hlast, attemptsLeft, hleft]
  cases terminalInterruption e <;> rfl

lemma not_begin_attemptOnce {m deadlineAt : ℕ} {K : Unit → Io String}
    (h : Exec env (attemptOnce cfg baseSha existingDirectories n deadlineAt prior) s
      (.call (.begin m) K) t) : False := by
  rcases exec_bind_call h with ⟨K', h, -⟩ | ⟨plan, u, -, h⟩
  · cases (gains_makePlan n deadlineAt prior).plain_call h
  rcases exec_bind_call h with ⟨K', h, -⟩ | ⟨c, u, -, h⟩
  · cases gains_runAttempt.plain_call h
  obtain ⟨r, u, -, h⟩ := exec_ask_bind (by simp) h
  rcases exec_bind_call h with ⟨K', h, -⟩ | ⟨_, u, -, h⟩
  · cases gains_port.plain_call h
  · cases h

lemma before_of_begin_from {m k : ℕ} {K : Unit → Io String}
    (hk : cfg.template.maxAttempts + 1 - n = k)
    (hbefore : Before input cfg baseSha existingDirectories n prior s)
    (h : Exec env (attemptsFrom cfg baseSha existingDirectories k n prior) s
      (.call (.begin m) K) t) :
    ∃ prior' s₀ r, Before input cfg baseSha existingDirectories m prior' s₀ ∧
      env.step s₀ .now (some r) t := by
  induction k generalizing n prior s with
  | zero => cases h
  | succ k ih =>
    rw [attemptsFrom_succ] at h
    rcases exec_bind_call h with ⟨K', h, -⟩ | ⟨t', u', hbegin, h⟩
    · cases h with
      | @step _ _ r _ _ _ _ hr h =>
        cases r with
        | none => cases h
        | some r =>
          cases h with
          | refl => exact ⟨prior, s, r, hbefore, hr⟩
          | step _ h => cases h
    · rcases exec_bind_call h with ⟨K', h, -⟩ | ⟨r, u, hattempt, h⟩
      · obtain ⟨K'', h, -⟩ := exec_attempt_call h
        exact (not_begin_attemptOnce h).elim
      cases r with
      | ok c => cases h
      | error e =>
        have hended : Ended cfg baseSha existingDirectories n prior s e u :=
          ⟨t', u', hbegin, exec_of_attempt hattempt⟩
        obtain ⟨kept, v, hkept, h⟩ := exec_ask_bind (by simp) h
        obtain ⟨r, w, hrecord, h⟩ := exec_ask_bind (by simp) h
        cases r with
        | error message => cases h
        | ok _ =>
          by_cases hlast : n < cfg.template.maxAttempts
          · obtain ⟨record, next, hrun, hnext⟩ := exec_ended hbefore hended hlast
            obtain ⟨hcall, hgoOn⟩ := hnext kept v hkept
            have hlater := hrun.trans (.step hkept (by
              rw [hcall]
              exact .step hrecord (.refl _ _)))
            rw [hgoOn, evidenceOf_of_kept hkept] at hlater
            change Exec env (goOn cfg baseSha existingDirectories k n prior e _) w _ t at h
            rw [goOn_of_lt hlast] at h
            cases hstop : terminalInterruption e with
            | true =>
              rw [hstop, if_pos rfl] at h
              cases h
            | false =>
              rw [hstop, if_neg Bool.false_ne_true] at h hlater
              exact ih (by omega) ⟨hbefore.template, hlater⟩ h
          · change Exec env (goOn cfg baseSha existingDirectories k n prior e _) w _ t at h
            rw [goOn_last (by omega)] at h
            cases h

lemma not_begin_conclude (r : Except Err String) (s : World) :
    Safe env (fun _ o => isBegin o = false) (conclude r) s fun _ _ => True := by
  cases r with
  | ok c => exact ⟨rfl, fun _ _ _ => trivial⟩
  | error e =>
    refine ⟨rfl, fun _ _ _ => ⟨rfl, fun _ _ _ => ⟨rfl, fun r _ _ => ?_⟩⟩⟩
    cases r <;> refine ⟨rfl, fun r _ _ => ?_⟩ <;> cases r <;> trivial

/-- Every attempt that a run begins is one that it was before, right behind a look at the clock. -/
lemma before_of_begin {m : ℕ} {K : Unit → Io String}
    (h : Exec env (runEngineeringPod input) {} (.call (.begin m) K) t) :
    ∃ cfg baseSha existingDirectories prior s r,
      Before input cfg baseSha existingDirectories m prior s ∧ env.step s .now (some r) t := by
  rcases exec_bind_call h with ⟨K', h, -⟩ | ⟨cfg, u, hcfg, h⟩
  · cases (gains_configure input).plain_call h
  rw [runPod_eq] at h
  rcases exec_bind_call h with ⟨K', hrun, -⟩ | ⟨r, u, -, hend⟩
  · obtain ⟨K'', hwork, -⟩ := exec_attempt_call hrun
    rcases exec_bind_call hwork with ⟨K', hprep, -⟩ | ⟨⟨baseSha, directories⟩, v, hprep, hfrom⟩
    · cases gains_prepare.plain_call hprep
    obtain ⟨prior, s, r, hbefore, hnow⟩ :=
      before_of_begin_from (Nat.add_sub_cancel ..) (before_first hcfg hprep) hfrom
    exact ⟨cfg, baseSha, directories, prior, s, r, hbefore, hnow⟩
  · cases ((not_begin_conclude r u).exec hend).1

end Failing

/-! ### The words of a rejection -/

/-- The attempt was rejected: an answer was not valid, a writer has failed, or a checker or a
judge has not passed the work. -/
def Err.rejects : Err → Bool
  | .invalid _ => true
  | .writerFailed _ _ => true
  | .checkerRejected _ _ => true
  | .conformanceFailed _ _ => true
  | _ => false

/-- What the controller says by itself. -/
def Err.heading : Err → String
  | .writerFailed slot _ => "writer " ++ slot.name ++ " failed: "
  | .checkerRejected slot _ => "checker rejected " ++ slot.name ++ ": "
  | .conformanceFailed .qa _ => "QA conformance failed: "
  | .conformanceFailed .testing _ => "Testing review failed: "
  | _ => ""

/-- What the rejection is about: the agent's own words, or what is wrong with its answer. -/
def Err.words : Err → String
  | .writerFailed _ why => why
  | .checkerRejected _ why => why
  | .conformanceFailed _ why => why
  | e => e.message

/-- The words, as far as they are kept, have the name of an interruption among them. -/
def Err.namesInterruption (e : Err) : Bool :=
  interruptedFrom e.heading.toList.getLast?
    (Wire.slice half (2000 - e.heading.toList.length) e.words.toList)

lemma message_eq (e : Err) : e.message = e.heading ++ e.words := by
  cases e with
  | conformanceFailed gate why => cases gate <;> rfl
  | _ => rfl

/-- The text is not that word, whatever follows the text. -/
def clashes : List Char → List Char → Bool
  | a :: w, c :: cs => a != c || clashes w cs
  | _, _ => false

lemma not_prefix_of_clashes {w cs : List Char} (h : clashes w cs = true) (l : List Char) :
    w.isPrefixOf (cs ++ l) = false := by
  induction w generalizing cs with
  | nil => simp [clashes] at h
  | cons a w ih =>
      cases cs with
      | nil => simp [clashes] at h
      | cons c cs =>
          rw [clashes, Bool.or_eq_true] at h
          rw [List.cons_append, List.isPrefixOf_cons_cons, Bool.and_eq_false_iff]
          rcases h with h | h
          · exact .inl (by simpa using h)
          · exact .inr (ih h)

/-- The text names no interruption, nor does it start to. -/
def quietFrom : Option Char → List Char → Bool
  | _, [] => true
  | before, c :: cs =>
    (before.any isWord ||
      interruptions.all fun w => clashes w.toList ((c :: cs).map Char.toLower)) &&
    quietFrom (some c) cs

lemma interruptedFrom_append {before : Option Char} {cs : List Char}
    (h : quietFrom before cs = true) (l : List Char) :
    interruptedFrom before (cs ++ l) = interruptedFrom (cs.getLast?.or before) l := by
  induction cs generalizing before with
  | nil => rfl
  | cons c cs ih =>
      rw [quietFrom, Bool.and_eq_true, Bool.or_eq_true] at h
      have hno : interruptedAt before (c :: (cs ++ l)) = false := by
        rw [interruptedAt, Bool.and_eq_false_iff]
        rcases h.1 with hword | hall
        · exact .inl (by rw [hword]; rfl)
        · refine .inr (List.any_eq_false.mpr fun w hw => ?_)
          have hclash := not_prefix_of_clashes (List.all_eq_true.mp hall w hw) (l.map Char.toLower)
          rw [← List.map_append, List.cons_append] at hclash
          rw [hclash]
          exact Bool.false_ne_true
      rw [List.cons_append, interruptedFrom, hno, Bool.false_or, ih h.2, List.getLast?_cons]
      cases cs.getLast? <;> rfl

def headings : List String :=
  ["", "QA conformance failed: ", "Testing review failed: "] ++
    writerIds.map (fun slot => "writer " ++ slot.name ++ " failed: ") ++
    writerIds.map fun slot => "checker rejected " ++ slot.name ++ ": "

lemma heading_mem (e : Err) : e.heading ∈ headings := by
  have hslot (slot : Slot) : slot ∈ writerIds := by cases slot <;> decide
  cases e with
  | writerFailed slot why =>
      exact List.mem_append_left _ (List.mem_append_right _
        (List.mem_map.mpr ⟨slot, hslot slot, rfl⟩))
  | checkerRejected slot why =>
      exact List.mem_append_right _ (List.mem_map.mpr ⟨slot, hslot slot, rfl⟩)
  | conformanceFailed gate why =>
      refine List.mem_append_left _ (List.mem_append_left _ ?_)
      cases gate with
      | qa => exact .tail _ (.head _)
      | testing => exact .tail _ (.tail _ (.head _))
  | _ => exact List.mem_append_left _ (List.mem_append_left _ (.head _))

/-- None of the headings names an interruption, nor starts to. -/
lemma quiet_headings : headings.all (fun h => quietFrom none h.toList &&
    decide (h.toList.length ≤ 2000) && h.toList.all fun c => decide (c.toNat < 65536)) = true := by
  decide +kernel

lemma terminalInterruption_eq (e : Err) : terminalInterruption e = e.namesInterruption := by
  have hheading := List.all_eq_true.mp quiet_headings _ (heading_mem e)
  rw [Bool.and_eq_true, Bool.and_eq_true, decide_eq_true_eq] at hheading
  obtain ⟨⟨hquiet, hlen⟩, hsmall⟩ := hheading
  have htake := Wire.slice_append half (2000 - e.heading.toList.length) e.words.toList hsmall
  rw [Nat.add_sub_cancel' hlen] at htake
  rw [terminalInterruption, Err.reason, String.toList_ofList, message_eq, String.toList_append,
    htake, interruptedFrom_append hquiet, Option.or_none, Err.namesInterruption]

/-! ### The next attempt -/

lemma attemptsLeft_ne_giveUp {cfg : Config} {baseSha : String} {existingDirectories : Json}
    {n : ℕ} {prior : List Evidence} {e : Err} (hn : n ≤ cfg.template.maxAttempts) :
    (Prog.fail e : Io String).attempt >>= conclude ≠
      attemptsLeft cfg baseSha existingDirectories n prior := by
  obtain ⟨k, hk⟩ : ∃ k, cfg.template.maxAttempts + 1 - n = k + 1 :=
    ⟨cfg.template.maxAttempts - n, by omega⟩
  unfold attemptsLeft
  rw [hk]
  intro h
  have hcall : (.cancelActive : Call) = .now := by
    injection h
  cases hcall

/-- **A rejection is tried again unless its words name an interruption.** Wherever an attempt of
a run has ended with an error, a rejection for one, and was not the last one, the run goes on:
what the attempt has left is read back and it is put on record that it has failed. When that is
written the next attempt is made, with all that this one has left among what it is told of
earlier ones, exactly if the words of the error do not name an interruption. -/
theorem rejection_retried_iff {input : PodInput} {cfg : Config} {baseSha : String}
    {existingDirectories : Json} {n : ℕ} {prior : List Evidence} {s : World} {e : Err} {u : World}
    (hbefore : Before input cfg baseSha existingDirectories n prior s)
    (hended : Ended cfg baseSha existingDirectories n prior s e u)
    (hlast : n < cfg.template.maxAttempts) :
    ∃ (record : Call.kept.Ret → Io String)
      (next : Call.kept.Ret → Except String Unit → Io String),
      Exec env (runEngineeringPod input) {} (.call .kept record) u ∧
      ∀ kept v, env.step u .kept kept v →
        record kept = .call (.appendEvent (.attemptFailed n e.reason)) (next kept) ∧
        (next kept (.ok ()) = attemptsLeft cfg baseSha existingDirectories (n + 1)
            (prior ++ [evidenceOf n v.record e]) ↔ e.namesInterruption = false) := by
  obtain ⟨record, next, hrun, hnext⟩ := exec_ended hbefore hended hlast
  refine ⟨record, next, hrun, fun kept v hv => ?_⟩
  obtain ⟨hrecord, hgoOn⟩ := hnext kept v hv
  refine ⟨hrecord, ?_⟩
  rw [hgoOn, ← terminalInterruption_eq]
  cases terminalInterruption e with
  | true =>
    rw [if_pos rfl]
    exact ⟨fun heq => (attemptsLeft_ne_giveUp hlast heq).elim, nofun⟩
  | false =>
    rw [if_neg Bool.false_ne_true]
    exact ⟨fun _ => rfl, fun _ => rfl⟩

/-! ### Runs with a rejection -/

/-- One of the engineers reports a failure, in these words. -/
def failPorts (why : String) : Ports where
  writer
    | .engineeringA => .ok (writerReceipt "failed" why)
    | _ => .ok (writerReceipt "completed" "As planned.")
  order := writerIds
  answer := portAnswer

def returned {α : Type} (x : Option (Io α × World)) (P : α → World → Bool) : Bool :=
  match x with
  | some (.ret a, s) => P a s
  | _ => false

def failed {α : Type} (x : Option (Io α × World)) (P : Err → World → Bool) : Bool :=
  match x with
  | some (.fail e, s) => P e s
  | _ => false

lemma exec_of_returned {α : Type} {x : Option (Io α × World)} {P : α → World → Bool}
    (h : returned x P = true) : ∃ a s, x = some (.ret a, s) ∧ P a s = true := by
  unfold returned at h
  split at h
  · exact ⟨_, _, rfl, h⟩
  · cases h

lemma exec_of_failed {α : Type} {x : Option (Io α × World)} {P : Err → World → Bool}
    (h : failed x P = true) : ∃ e s, x = some (.fail e, s) ∧ P e s = true := by
  unfold failed at h
  split at h
  · exact ⟨_, _, rfl, h⟩
  · cases h

section FirstAttempt

variable (P : Ports)

/-- The first calls of a program, answered by these ports. -/
def followed {α : Type} (n : ℕ) (p : Io α) (s : World) : Option (Io α × World) :=
  follow (fun s o _ => P.may s o = true) P.after P.reply n p s

/-- The first attempt of a run is rejected for this reason, another one is allowed and nobody was
interrupted. -/
def firstRejected (reason : String) : Bool :=
  returned (followed P 9 (configure podInput) {}) fun cfg s =>
  returned (followed P 9 (prepare cfg) s) fun prepared s =>
  returned (followed P 9 (beginAttempt 1) s) fun t s =>
  failed (followed P 50 (attemptOnce cfg prepared.1 prepared.2 1
    (min cfg.deadlineAt (t + cfg.template.attemptSeconds * 1000)) []) s) fun e u =>
  e.rejects && e.reason == reason && decide (1 < cfg.template.maxAttempts) && !u.interrupted

variable {P}

lemma exec_followed {α : Type} {n : ℕ} {p q : Io α} {s t : World}
    (h : followed P n p s = some (q, t)) : Exec env p s q t :=
  exec_of_follow (fun _ _ h => Ports.step_reply h trivial) h

lemma ended_of_firstRejected {reason : String} (h : firstRejected P reason = true) :
    ∃ cfg baseSha existingDirectories s e u,
      Before podInput cfg baseSha existingDirectories 1 [] s ∧
      Ended cfg baseSha existingDirectories 1 [] s e u ∧ 1 < cfg.template.maxAttempts ∧
      e.rejects = true ∧ e.reason = reason ∧ u.interrupted = false := by
  obtain ⟨cfg, s₀, hconfigure, h⟩ := exec_of_returned h
  obtain ⟨prepared, s, hprepare, h⟩ := exec_of_returned h
  obtain ⟨t, s', hbegin, h⟩ := exec_of_returned h
  obtain ⟨e, u, hattempt, h⟩ := exec_of_failed h
  rw [Bool.and_eq_true, Bool.and_eq_true, Bool.and_eq_true, Bool.not_eq_true',
    decide_eq_true_eq, beq_iff_eq] at h
  obtain ⟨⟨⟨hrejects, hreason⟩, hlast⟩, hcalm⟩ := h
  exact ⟨cfg, prepared.1, prepared.2, s, e, u,
    before_first (exec_followed hconfigure) (exec_followed hprepare),
    ⟨t, s', exec_followed hbegin, exec_followed hattempt⟩, hlast, hrejects, hreason, hcalm⟩

end FirstAttempt

/-- An engineer that could not do it, without naming an interruption: there is a second attempt,
which is told of the first. -/
theorem rejection_retried_sample :
    ∃ cfg baseSha existingDirectories s e u,
      Before podInput cfg baseSha existingDirectories 1 [] s ∧
      Ended cfg baseSha existingDirectories 1 [] s e u ∧ e.rejects = true ∧
      e.reason = "writer engineering-a failed: No way." ∧
      ∃ (record : Call.kept.Ret → Io String)
        (next : Call.kept.Ret → Except String Unit → Io String),
        Exec env (runEngineeringPod podInput) {} (.call .kept record) u ∧
        ∀ kept v, env.step u .kept kept v →
          record kept = .call (.appendEvent (.attemptFailed 1 e.reason)) (next kept) ∧
          next kept (.ok ()) =
            attemptsLeft cfg baseSha existingDirectories 2 [evidenceOf 1 v.record e] := by
  have hrun : firstRejected (failPorts "No way.")
      "writer engineering-a failed: No way." = true := by
    delta firstRejected attemptOnce makePlan runAttempt startWriters settleWriters
    delta startWriters._f writerInput settleWriters._f takeReceipt
    delta validateWriter validateWriterReceipt
    rw [buildPrompt_eq_quickPrompt, receiptFits_eq_quickFits]
    decide +kernel
  obtain ⟨cfg, baseSha, directories, s, e, u, hbefore, hended, hlast, hrejects, hreason, -⟩ :=
    ended_of_firstRejected hrun
  have hwords : e.namesInterruption = false := by
    rw [← terminalInterruption_eq, terminalInterruption, hreason]
    decide +kernel
  obtain ⟨record, next, hrun, hnext⟩ := rejection_retried_iff hbefore hended hlast
  exact ⟨cfg, baseSha, directories, s, e, u, hbefore, hended, hrejects, hreason, record, next,
    hrun, fun kept v hv => ⟨(hnext kept v hv).1, (hnext kept v hv).2.mpr hwords⟩⟩

/-- An engineer reports that its tests hit a timeout, nobody was interrupted, and there is no
second attempt though the template allows two. -/
theorem rejection_not_retried :
    ∃ cfg baseSha existingDirectories s e u,
      Before podInput cfg baseSha existingDirectories 1 [] s ∧
      Ended cfg baseSha existingDirectories 1 [] s e u ∧ e.rejects = true ∧
      e.reason = "writer engineering-a failed: The tests hit a timeout." ∧
      u.interrupted = false ∧ 1 < cfg.template.maxAttempts ∧
      ∃ (record : Call.kept.Ret → Io String)
        (next : Call.kept.Ret → Except String Unit → Io String),
        Exec env (runEngineeringPod podInput) {} (.call .kept record) u ∧
        ∀ kept v, env.step u .kept kept v →
          record kept = .call (.appendEvent (.attemptFailed 1 e.reason)) (next kept) ∧
          next kept (.ok ()) = giveUp e ∧
          ∀ prior, next kept (.ok ()) ≠ attemptsLeft cfg baseSha existingDirectories 2 prior := by
  have hrun : firstRejected (failPorts "The tests hit a timeout.")
      "writer engineering-a failed: The tests hit a timeout." = true := by
    delta firstRejected attemptOnce makePlan runAttempt startWriters settleWriters
    delta startWriters._f writerInput settleWriters._f takeReceipt
    delta validateWriter validateWriterReceipt
    rw [buildPrompt_eq_quickPrompt, receiptFits_eq_quickFits]
    decide +kernel
  obtain ⟨cfg, baseSha, directories, s, e, u, hbefore, hended, hlast, hrejects, hreason, hcalm⟩ :=
    ended_of_firstRejected hrun
  have hstop : terminalInterruption e = true := by
    rw [terminalInterruption, hreason]
    decide +kernel
  obtain ⟨record, next, hrun, hnext⟩ := exec_ended hbefore hended hlast
  refine ⟨cfg, baseSha, directories, s, e, u, hbefore, hended, hrejects, hreason, hcalm, hlast,
    record, next, hrun, fun kept v hv => ?_⟩
  obtain ⟨hrecord, hgoOn⟩ := hnext kept v hv
  rw [hstop, if_pos rfl] at hgoOn
  exact ⟨hrecord, hgoOn, fun prior heq => attemptsLeft_ne_giveUp hlast (hgoOn.symm.trans heq)⟩

end Bimo.Controller
