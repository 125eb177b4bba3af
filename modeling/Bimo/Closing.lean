import Bimo.Budgets
import Bimo.Finishing
import Bimo.Task

/-!
Closing a run that failed.

The store keeps room for the last event: all others together are one fewer than the log may hold.
It keeps no such room in the run record, which has a limit of its own. So a run whose record leaves
too little is not closed: the finish is refused, and the record says that the run is running.
-/

namespace Bimo.PodStore

open Wire (Json escapedLen bytes text)
open Timestamp (toISOString maxTime)

variable {m : Memory} {d : Disk}

/-! ### What the controller asks for -/

/-- What stands for half of a pair of UTF-16 units: its escape is six bytes as well. -/
def half : Char := '\x00'

/-- The message of an error, as the controller records it. -/
def reasonOf (message : String) : String := String.ofList (Wire.slice half 2000 message.toList)

/-- `{ runId, ...(baseSha ? { baseSha } : {}), reason }` -/
def failureDetails (runId : String) (baseSha : Option String) (reason : String) : Fields :=
  ("runId", .str runId) :: ((baseSha.map fun s => ("baseSha", Json.str s)).toList ++
    [("reason", Json.str reason)])

/-- The call was not rejected. -/
def isAccepted : Except String Outcome × Disk → Bool
  | (.ok (.ok _, _), _) => true
  | _ => false

/-- The status that the record has. -/
def Disk.status (d : Disk) : Option String :=
  d.run.bind fun f => strOf (f.content.get "status")

/-- What closing adds to the record: the time, the commit where there is one and the reason. -/
def closingBytes (finishedAt : String) (baseSha : Option String) (reason : String) : ℕ :=
  escapedLen finishedAt + ((baseSha.map fun s => 17 + escapedLen s).getD 0) + escapedLen reason + 14

/-! ### A run that is going on -/

/-- The record of a run that is going on. -/
def goingRun (runId : String) (assignment : Json) (startedAt phase : String) (attempt : ℕ) :
    Fields :=
  [("version", Wire.ofNat 1), ("runId", .str runId), ("assignment", assignment),
    ("status", .str "running"), ("phase", .str phase), ("currentAttempt", Wire.ofNat attempt),
    ("startedAt", .str startedAt), ("finishedAt", .null)]

/-- No operation has finished the run, and the log has room for one more event. -/
structure Going (runId : String) (m : Memory) : Prop where
  active : m.finished = false
  runId_eq : m.runId = runId
  room : m.eventSequence < maxEvents
  run : ∃ assignment startedAt phase attempt, escapedLen phase = 7 ∧
    attempt ≤ maxAttempts ∧ m.run = goingRun runId assignment startedAt phase attempt
  fits : shallow 0 (.obj m.run) = true

lemma currentAttempt_goingRun {runId startedAt phase : String} {assignment : Json} {n : ℕ}
    (h : n ≤ maxAttempts) : currentAttempt (goingRun runId assignment startedAt phase n) = n := by
  have hall : ∀ n ≤ maxAttempts, ((List.range (maxAttempts + 1)).find? fun k =>
      isNum (some (Wire.ofNat n)) k).getD 0 = n := by decide +kernel
  exact hall n h

lemma plannedRun_goingRun {runId startedAt phase : String} {assignment : Json} {n a : ℕ}
    (h : n ≤ maxAttempts) :
    plannedRun (goingRun runId assignment startedAt phase n) a =
      goingRun runId assignment startedAt "planned" (max n a) := by
  rw [plannedRun, currentAttempt_goingRun h]
  rfl

lemma going_result {runId : String} {op : Op} {v : Json} {m' : Memory} {d' : Disk}
    (h : Going runId m) (hop : op.finishes = false) (hr : Result True m d op (.ok v, m') d') :
    Going runId m' := by
  obtain ⟨assignment, startedAt, phase, n, hphase, hn, hrun⟩ := h.run
  cases hr with
  | kept _ _ _ hm =>
      obtain ⟨hid, hrun', hseq, hfin⟩ := hm
      exact ⟨hfin.trans h.active, hid.trans h.runId_eq, hseq ▸ h.room,
        ⟨_, _, _, _, hphase, hn, hrun'.trans hrun⟩, hrun' ▸ h.fits⟩
  | appended ha hroom =>
      refine ⟨h.active, h.runId_eq, ?_, h.run, h.fits⟩
      simp only [Memory.counted, maxEvents] at hroom ⊢
      omega
  | @planned a plan v d' hactive ha hfits _ =>
      refine ⟨h.active, h.runId_eq, h.room, ⟨assignment, startedAt, "planned", max n a,
        by decide, Nat.max_le.mpr ⟨hn, ha⟩, ?_⟩, (fits_iff.mp hfits).1⟩
      show plannedRun m.run a = _
      rw [hrun, plannedRun_goingRun hn]
  | finished _ => cases hop

lemma going_created {runId : String} {assignment : Json} {d₀ : Disk}
    (hx : Exec env (createPodRunStore runId assignment) d₀ (.ret m) d) : Going runId m := by
  have hsafe : Safe env (fun _ _ => True) (createPodRunStore runId assignment) d₀
      fun r _ => ∀ m, r = .ok m → Going runId m := by
    refine Safe.raise (fun e => nofun) fun _ _ => ?_
    refine Safe.raise (fun e => nofun) fun l _ => ?_
    refine ⟨trivial, fun now d' hnow => ?_⟩
    refine Safe.raise (fun e => nofun) fun t _ => ?_
    refine Safe.raise (fun e => nofun) fun _ _ => ?_
    refine Safe.raise (fun e => nofun) fun record hrec => ?_
    refine Safe.making (fun e => nofun) fun _ => ?_
    refine ⟨trivial, fun r _ hr => ?_⟩
    refine Safe.raise (fun e => nofun) fun s _ => ?_
    refine Safe.raise (fun e => nofun) fun _ _ => ?_
    refine ⟨trivial, fun r' _ hr' => ?_⟩
    refine Safe.raise (fun e => nofun) fun _ _ => ?_
    refine Safe.makingIn (fun e d => nofun) ?_
    refine Safe.makingIn (fun e d => nofun) ?_
    intro m hm
    obtain rfl := Except.ok.inj hm
    obtain rfl := serializeRecord_eq hrec
    exact ⟨rfl, rfl, Nat.zero_lt_succ _,
      ⟨assignment, t, "created", 0, by decide, Nat.zero_le _, rfl⟩, (fits_iff.mp hrec).1⟩
  exact hsafe.exec hx m rfl

lemma going_done {runId : String} {assignment : Json} {d₀ d₁ : Disk} {m₀ : Memory}
    {l : List (Op × Json)} (hmade : Exec env (createPodRunStore runId assignment) d₀ (.ret m₀) d₁)
    (h : Done m₀ d₁ l m d) (hl : ∀ x ∈ l, x.1.finishes = false) : Going runId m := by
  induction h with
  | nil => exact going_created hmade
  | snoc _ hx ih =>
      obtain ⟨hl, hop⟩ := List.forall_mem_append.mp hl
      exact going_result (ih hl) (hop _ (List.mem_singleton.mpr rfl)) (result_of_exec hx)

/-! ### What closing needs -/

section Sizes

variable {runId startedAt phase t reason : String} {assignment : Json} {n : ℕ}
  {baseSha : Option String}

lemma terminalRun_goingRun : terminalRun (goingRun runId assignment startedAt phase n)
      (failureDetails runId baseSha reason) runId "failed" t =
    [("version", Wire.ofNat 1), ("runId", .str runId), ("assignment", assignment),
      ("status", .str "failed"), ("phase", .str "finished"), ("currentAttempt", Wire.ofNat n),
      ("startedAt", .str startedAt), ("finishedAt", .str t)] ++
      ((baseSha.map fun s => ("baseSha", Json.str s)).toList ++ [("reason", Json.str reason)]) := by
  cases baseSha <;>
    simp [terminalRun, goingRun, failureDetails, field, put, strOf, lookup_cons_eq]

lemma finishEvent_failed {k : ℕ} : finishEvent (failureDetails runId baseSha reason) "failed" k t
      runId = ("runId", .str runId) :: ((baseSha.map fun s => ("baseSha", Json.str s)).toList ++
    [("reason", .str reason), ("status", .str "failed"), ("version", Wire.ofNat 1),
      ("sequence", Wire.ofNat k), ("timestamp", .str t), ("type", .str "run.finished")]) := by
  cases baseSha <;> simp [finishEvent, eventOf, failureDetails, put]

/-- The record of the closed run is the one before with what closing adds. -/
lemma prettySize_terminalRun (hphase : escapedLen phase = 7) :
    prettySize (.obj (terminalRun (goingRun runId assignment startedAt phase n)
      (failureDetails runId baseSha reason) runId "failed" t)) =
    prettySize (.obj (goingRun runId assignment startedAt phase n)) +
      closingBytes t baseSha reason := by
  have hstatus : escapedLen "failed" = 6 ∧ escapedLen "running" = 7 ∧
      escapedLen "finished" = 8 := by decide
  have hkeys : escapedLen "baseSha" = 7 ∧ escapedLen "reason" = 6 := by decide
  have hnull : bytes (pretty 2 .null) = 4 := by decide
  rw [terminalRun_goingRun, prettySize, prettySize, Sizes.bytes_pretty_obj 0 (by simp),
    Sizes.bytes_pretty_obj 0 (by simp [goingRun])]
  cases baseSha <;>
  · simp [goingRun, Sizes.prettyFieldBytes, Sizes.bytes_pretty_str, closingBytes, hstatus, hkeys,
      hnull, hphase]
    omega

lemma shallow_terminalRun (baseSha : Option String) (reason t : String)
    (h : shallow 0 (.obj (goingRun runId assignment startedAt phase n)) = true) :
    shallow 0 (.obj (terminalRun (goingRun runId assignment startedAt phase n)
      (failureDetails runId baseSha reason) runId "failed" t)) = true := by
  have hassignment : shallow 1 assignment = true := by
    simp only [goingRun, shallow, shallowFields, Bool.and_eq_true] at h
    exact h.2.2.2.1
  rw [terminalRun_goingRun]
  cases baseSha <;> simp [shallow, shallowFields, hassignment, maxJsonDepth, Wire.ofNat]

end Sizes

/-! ### The event always fits -/

lemma escapedSize_le (c : Char) : Wire.escapedSize c ≤ 6 := by
  have hsize := c.utf8Size_le_four
  unfold Wire.escapedSize
  split_ifs <;> omega

lemma escapedLen_le (s : String) : escapedLen s ≤ 6 * s.length := by
  have hsum : ∀ cs : List Char, (cs.map Wire.escapedSize).sum ≤ 6 * cs.length := by
    intro cs
    induction cs with
    | nil => rfl
    | cons c cs ih =>
        have hc := escapedSize_le c
        simp only [List.map_cons, List.sum_cons, List.length_cons]
        omega
  rw [escapedLen, ← String.length_toList]
  exact hsum s.toList

lemma length_reasonOf (message : String) : (reasonOf message).length ≤ 2000 := by
  rw [reasonOf, ← String.length_toList, String.toList_ofList]
  exact Wire.length_slice half 2000 message.toList

lemma length_toISOString (now : ℤ) : (toISOString now).length ≤ 27 := by
  have hyear : (Timestamp.yearText (Timestamp.dateOf (now / 86400000)).year).length ≤ 7 := by
    unfold Timestamp.yearText
    split_ifs <;> simp
  rw [toISOString, ← String.length_toList, String.toList_ofList, List.length_append]
  simp only [Timestamp.restText, List.length_cons, List.length_append, Timestamp.length_pad,
    List.length_nil]
  omega

lemma length_of_isRunId {s : String} (h : isRunId s = true) : s.length ≤ 80 := by
  unfold isRunId at h
  rw [← String.length_toList]
  split at h
  · cases h
  · next c cs hs =>
      simp only [Bool.and_eq_true, decide_eq_true_eq] at h
      rw [hs, List.length_cons]
      omega

/-- No reason is too long for the log. -/
lemma event_fits {runId : String} {baseSha : Option String} {k : ℕ} (message : String) (now : ℤ)
    (hid : isRunId runId = true) (hsha : ∀ s ∈ baseSha, Contract.isGitSha s = true)
    (hk : k ≤ maxEvents) :
    let event := Json.obj (finishEvent (failureDetails runId baseSha (reasonOf message)) "failed" k
      (toISOString now) runId)
    serializeRecord lineSize event "event" = .ok event := by
  intro event
  have hrunId := escapedLen_le runId
  have hidlen := length_of_isRunId hid
  have hreason := escapedLen_le (reasonOf message)
  have hreasonlen := length_reasonOf message
  have htime := escapedLen_le (toISOString now)
  have htimelen := length_toISOString now
  have hdigits : bytes (text (Wire.ofNat k)) ≤ 4 := by
    rw [Wire.ofNat, text, Controller.bytes_toString]
    exact Docker.length_digits (by decide) (by simp only [maxEvents] at hk; omega)
  have hone : bytes (text (Wire.ofNat 1)) = 1 := by decide
  have hwords : escapedLen "failed" = 6 ∧ escapedLen "run.finished" = 12 := by decide
  have hkeys : escapedLen "runId" = 5 ∧ escapedLen "baseSha" = 7 ∧ escapedLen "reason" = 6 ∧
      escapedLen "status" = 6 ∧ escapedLen "version" = 7 ∧ escapedLen "sequence" = 8 ∧
      escapedLen "timestamp" = 9 ∧ escapedLen "type" = 4 := by decide
  refine fits_iff.mpr ⟨?_, ?_⟩
  · simp only [event, finishEvent_failed]
    cases baseSha <;> simp [shallow, shallowFields, maxJsonDepth, Wire.ofNat]
  · simp only [event, finishEvent_failed, lineSize, maxRecordBytes]
    rw [Sizes.bytes_text_obj (by simp)]
    cases baseSha with
    | none =>
        simp [Sizes.fieldBytes, Sizes.bytes_text_str, hone, hwords, hkeys]
        omega
    | some sha =>
        have hsha := Controller.length_of_isGitSha (hsha sha rfl)
        simp [Sizes.fieldBytes, Sizes.bytes_text_str, hone, hwords, hkeys]
        omega

/-! ### Closing -/

section Run

variable {runId message : String} {baseSha : Option String} {now : ℤ}

/-- The call that the controller makes when a run fails. -/
def failed (m : Memory) (baseSha : Option String) (message : String) : Io Outcome :=
  finish m "failed" (.obj (failureDetails m.runId baseSha (reasonOf message)))

lemma validateJson_failureDetails (reason : String) :
    validateJson (.obj (failureDetails runId baseSha reason)) "finish details" = .ok () := by
  refine require_eq.mpr ?_
  cases baseSha <;> simp [failureDetails, shallow, shallowFields, maxJsonDepth]

lemma checkFinish_failed (h : Going runId m) (reason : String) :
    checkFinish m "failed" (.obj (failureDetails runId baseSha reason)) =
      .ok (failureDetails runId baseSha reason) := by
  refine bind_eq_ok.mpr ⟨(), require_eq.mpr h.active, ?_⟩
  refine bind_eq_ok.mpr ⟨(), require_eq.mpr rfl, ?_⟩
  refine bind_eq_ok.mpr ⟨(), require_eq.mpr h.room, bind_eq_ok.mpr ⟨_, rfl, ?_⟩⟩
  exact bind_eq_ok.mpr ⟨(), validateJson_failureDetails reason, rfl⟩

/-- The record that closing writes passes its check as far as its size does. -/
lemma serializeRecord_terminalRun (h : Going runId m) (baseSha : Option String)
    (reason t : String) :
    serializeRecord prettySize
        (.obj (terminalRun m.run (failureDetails runId baseSha reason) runId "failed" t))
        "run record" =
      if prettySize (.obj m.run) + closingBytes t baseSha reason ≤ maxRecordBytes then
        .ok (.obj (terminalRun m.run (failureDetails runId baseSha reason) runId "failed" t))
      else .error s!"run record must serialize to at most {maxRecordBytes} bytes" := by
  obtain ⟨assignment, startedAt, phase, n, hphase, -, hrun⟩ := h.run
  have hfits := h.fits
  rw [hrun] at hfits ⊢
  have hshallow := shallow_terminalRun baseSha reason t hfits
  simp only [serializeRecord, validateJson, require, if_pos hshallow,
    prettySize_terminalRun hphase]
  split_ifs <;> rfl

lemma run_failed (h : Going runId m) (hid : isRunId runId = true)
    (hsha : ∀ s ∈ baseSha, Contract.isGitSha s = true) (hnow : now.natAbs ≤ maxTime) :
    (failed m baseSha message).run (Disk.answer now) Disk.next d =
      if prettySize (.obj m.run) + closingBytes (toISOString now) baseSha (reasonOf message) ≤
          maxRecordBytes then
        let terminal := terminalRun m.run (failureDetails runId baseSha (reasonOf message)) runId
          "failed" (toISOString now)
        (.ok (.ok (.obj terminal), { m.counted with run := terminal, finished := true }),
          (d.apply (.appendEvent (.obj (finishEvent
            (failureDetails runId baseSha (reasonOf message)) "failed" (m.eventSequence + 1)
              (toISOString now) runId)))).apply (.writeRun (.obj terminal)))
      else
        (.ok (.error s!"run record must serialize to at most {maxRecordBytes} bytes", m), d) := by
  have htime : timestamp (some now) = .ok (toISOString now) := if_pos hnow
  have hevent := event_fits message now hid hsha h.room
  have hrecord := serializeRecord_terminalRun h baseSha (reasonOf message) (toISOString now)
  obtain rfl := h.runId_eq
  simp only [failed, finish, checkFinish_failed h, check]
  change ((check m (timestamp (some now)) fun t => _).run _ _ d) = _
  simp only [htime, check, hrecord]
  split_ifs with hsize
  · simp only [hevent]
    rfl
  · rfl

lemma status_finished {terminal event : Json} {s : String}
    (h : strOf (terminal.get "status") = some s) :
    ((d.apply (.appendEvent event)).apply (.writeRun terminal)).status = some s := h

/-- **When a run that failed is closed.** After every sequence of operations that the store
accepted, none of which finished the run, its record says that the run failed if there is room in
it for what closing adds, and otherwise the finish is refused and the run stays recorded as
running. -/
theorem failed_run_closed {assignment : Json} {d₀ d₁ : Disk} {m₀ : Memory} {l : List (Op × Json)}
    (hmade : Exec env (createPodRunStore runId assignment) d₀ (.ret m₀) d₁)
    (hdone : Done m₀ d₁ l m d) (hl : ∀ x ∈ l, x.1.finishes = false)
    (hsha : ∀ s ∈ baseSha, Contract.isGitSha s = true) (message : String)
    (hnow : now.natAbs ≤ maxTime) :
    let out := (failed m baseSha message).run (Disk.answer now) Disk.next d
    (isAccepted out = true ↔
      prettySize (.obj m.run) + closingBytes (toISOString now) baseSha (reasonOf message) ≤
        maxRecordBytes) ∧
    out.2.status = some (if isAccepted out then "failed" else "running") := by
  have hgoing := going_done hmade hdone hl
  have hc := created_of_exec hmade
  have h₀ : Tracks runId d₁.root { run := m₀.run } false false m₀ d₁ :=
    ⟨hc.recorded, rfl, hc.runId_eq, rfl, hc.active, fun _ => rfl⟩
  have htracks := tracks_done h₀ hdone
  rw [run_failed hgoing hc.named hsha hnow]
  split_ifs with hsize
  · refine ⟨iff_of_true rfl hsize, ?_⟩
    obtain ⟨_, _, _, _, -, -, hrun⟩ := hgoing.run
    refine status_finished ?_
    rw [hrun, terminalRun_goingRun]
    rfl
  · refine ⟨iff_of_false nofun hsize, ?_⟩
    obtain ⟨_, _, _, _, -, -, hrun⟩ := hgoing.run
    rw [Disk.status, htracks.recorded.run, hrun]
    rfl

/-- A run with a task, one line in its log and a plan is closed, with the commit it began at. -/
theorem failed_run_closed_planned :
    ∃ m₀ d₁ l m d, Exec env (createPodRunStore "run-1" (.obj [("task", .str "Add a page.")])) {}
      (.ret m₀) d₁ ∧ Done m₀ d₁ l m d ∧ l.length = 2 ∧
      ((failed m (some "0123456789012345678901234567890123456789") "no planner").run
        (Disk.answer 0) Disk.next d).2.status = some "failed" := by
  obtain ⟨m₀, d₁, l, m, d, hnew, hops, hP⟩ := firstRun_done (.obj [("task", .str "Add a page.")])
    [.appendEvent "run.started" (.obj [("branch", .str "bimo/run-1")]),
      .writeAttemptPlan 1 (.obj [("tasks", .arr [.str "a"])])]
    (fun l m _ => decide (l.length = 2) && l.all (fun x => x.1.finishes = false) &&
      decide (prettySize (.obj m.run) + closingBytes (toISOString 0)
        (some "0123456789012345678901234567890123456789") (reasonOf "no planner") ≤
          maxRecordBytes)) (by decide +kernel)
  simp only [Bool.and_eq_true, List.all_eq_true, decide_eq_true_eq] at hP
  obtain ⟨⟨hlength, hopen⟩, hsize⟩ := hP
  have hsha : ∀ s ∈ some "0123456789012345678901234567890123456789",
      Contract.isGitSha s = true := by decide
  have hnow : (0 : ℤ).natAbs ≤ maxTime := by decide
  obtain ⟨hiff, hstatus⟩ := failed_run_closed hnew hops hopen hsha "no planner" hnow
  rw [if_pos (hiff.mpr hsize)] at hstatus
  exact ⟨m₀, d₁, l, m, d, hnew, hops, hlength, hstatus⟩

end Run

/-! ### A task that leaves no room -/

/-- A store is made where nothing fails and the record fits. -/
lemma run_createPodRunStore {runId : String} {l : Fields} {now : ℤ} (hid : isRunId runId = true)
    (hnow : now.natAbs ≤ maxTime) (hl : shallow 0 (.obj l) = true)
    (hfits : shallow 0 (.obj (initialRun runId (.obj l) (toISOString now))) = true ∧
      prettySize (.obj (initialRun runId (.obj l) (toISOString now))) ≤ maxRecordBytes) :
    ∃ d, (createPodRunStore runId (.obj l)).run (Disk.answer now) Disk.next {} =
      (.ok { runId := runId, run := initialRun runId (.obj l) (toISOString now) }, d) := by
  have htime : timestamp (some now) = .ok (toISOString now) := if_pos hnow
  have hrecord : serializeRecord prettySize _ "run record" = .ok _ := fits_iff.mpr hfits
  have hjson : validateJson (.obj l) "assignment" = .ok () := require_eq.mpr hl
  have hplain : plainObject (.obj l) "assignment" = .ok l := rfl
  have hname : require (isRunId runId) "invalid run ID" = .ok () := require_eq.mpr hid
  simp only [createPodRunStore, hname, hplain, Prog.ofExcept]
  change ∃ d, ((Prog.ofExcept (timestamp (some now)) >>= fun t => _).run _ _ _) = _
  simp only [htime, hjson, Prog.ofExcept]
  change ∃ d, ((Prog.ofExcept (serializeRecord _ _ _) >>= fun record => _).run _ _ _) = _
  rw [hrecord]
  exact ⟨_, rfl⟩

/-- The assignment of a run with a task of so many letters. -/
def letterAssignment (n : ℕ) : Fields := [("task", .str (Task.letters n))]

lemma bytes_letterAssignment (n : ℕ) : bytes (pretty 2 (.obj (letterAssignment n))) =
    n + bytes (pretty 2 (.obj (letterAssignment 0))) := by
  have hn := Task.escapedLen_letters n
  have h0 := Task.escapedLen_letters 0
  rw [letterAssignment, Sizes.bytes_pretty_obj _ (by simp), letterAssignment,
    Sizes.bytes_pretty_obj _ (by simp)]
  simp only [List.map_cons, List.map_nil, List.sum_cons, List.sum_nil, Sizes.prettyFieldBytes,
    Sizes.bytes_pretty_str]
  omega

lemma prettySize_letters (n : ℕ) :
    prettySize (.obj (initialRun "run-1" (.obj (letterAssignment n)) (toISOString 0))) =
      n + prettySize (.obj (initialRun "run-1" (.obj (letterAssignment 0)) (toISOString 0))) := by
  have hn := bytes_letterAssignment n
  rw [initialRun, prettySize, prettySize, Sizes.bytes_pretty_obj _ (by simp), initialRun,
    Sizes.bytes_pretty_obj _ (by simp)]
  simp only [List.map_cons, List.sum_cons, Sizes.prettyFieldBytes, Nat.zero_add]
  omega

/-- A store is made for a task that fills the record, and a run that fails right away is not
closed. -/
theorem failed_run_stays_running :
    ¬ ∀ (runId : String) (assignment : Json) (d₀ d₁ d : Disk) (m₀ m : Memory)
      (l : List (Op × Json)) (baseSha : Option String) (message : String) (now : ℤ),
      Exec env (createPodRunStore runId assignment) d₀ (.ret m₀) d₁ → Done m₀ d₁ l m d →
        (∀ x ∈ l, x.1.finishes = false) → (∀ s ∈ baseSha, Contract.isGitSha s = true) →
        now.natAbs ≤ maxTime →
        isAccepted ((failed m baseSha message).run (Disk.answer now) Disk.next d) = true := by
  intro hall
  -- the longest task that a record has room for
  obtain ⟨n, hn⟩ := Nat.exists_eq_add_of_le' (show prettySize
    (.obj (initialRun "run-1" (.obj (letterAssignment 0)) (toISOString 0))) ≤ maxRecordBytes by
      decide +kernel)
  have hsize : prettySize (.obj (initialRun "run-1" (.obj (letterAssignment n)) (toISOString 0))) =
      maxRecordBytes := (prettySize_letters n).trans hn.symm
  have hname : isRunId "run-1" = true := by decide
  have hnow : (0 : ℤ).natAbs ≤ maxTime := by decide
  have hsha : ∀ s ∈ (none : Option String), Contract.isGitSha s = true := nofun
  obtain ⟨d, hrun⟩ := run_createPodRunStore hname hnow (l := letterAssignment n) rfl
    ⟨rfl, hsize.le⟩
  have hmade := exec_of_run (step_answer 0) hrun
  have hout := hall _ _ _ _ _ _ _ [] none "" 0 hmade .nil nofun hsha hnow
  rw [run_failed (going_created hmade) hname hsha hnow, if_neg] at hout
  · cases hout
  · have hpos : 0 < closingBytes (toISOString 0) none (reasonOf "") := by decide +kernel
    show ¬ prettySize (.obj (initialRun "run-1" _ _)) + _ ≤ _
    omega

end Bimo.PodStore
