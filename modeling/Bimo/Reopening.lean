import Bimo.PodStore

/-!
What an operation of a pod store leaves on the disk, and what opening the run finds there.

The store in memory and the files go together: the run record is the one in the file, and the
log has as many lines as were counted, each of them one that the reader takes. An operation
that is rejected leaves both as they were, with one exception: a finish whose event is in the
log and whose record is not in its place.
-/

namespace Bimo.PodStore

open Wire (Json)

variable {m : Memory} {d d' : Disk}

/-! ### The rules for operations -/

section Rules

variable {E : Env Call Call.Ret Disk} {pre : Disk → Call → Prop} {α : Type}
  {Q : Except String Outcome → Disk → Prop}

lemma Safe.check {x : Except String α} {k : α → Io Outcome}
    (herr : ∀ e, x = .error e → Q (.ok (.error e, m)) d)
    (hok : ∀ a, x = .ok a → Safe E pre (k a) d Q) : Safe E pre (check m x k) d Q := by
  cases x with
  | ok a => exact hok a rfl
  | error e => exact herr e rfl

variable (hE : ∀ s o r t, E.step s o r t → env.step s o r t)

include hE in
lemma Safe.clock {k : Option ℤ → Io Outcome} (hpre : pre d .now)
    (hk : ∀ t, Safe E pre (k t) d Q) : Safe E pre (ask .now >>= k) d Q := by
  refine ⟨hpre, fun r t hr => ?_⟩
  obtain ⟨-, rfl⟩ := hE _ _ _ _ hr
  exact hk r

include hE in
lemma Safe.perform {w : Write} {k : Io Outcome} (hpre : pre d (.write w))
    (herr : ∀ e, E.step d (.write w) (.error e) d → Q (.ok (.error e.message, m)) d)
    (hok : Safe E pre k (d.apply w) Q) : Safe E pre (perform m w k) d Q := by
  refine ⟨hpre, fun r t hr => ?_⟩
  obtain ⟨-, rfl⟩ := hE _ _ _ _ hr
  cases r with
  | ok u => exact hok
  | error e => exact herr e hr

include hE in
lemma Safe.planThere {a : ℕ} {k : Io Outcome} (hpre : pre d (.lstat (.plan a)))
    (herr : ∀ e, Q (.ok (.error e, m)) d) (hok : Safe E pre k d Q) :
    Safe E pre (planThere m a k) d Q := by
  refine ⟨hpre, fun r t hr => ?_⟩
  obtain ⟨-, rfl⟩ := hE _ _ _ _ hr
  exact Safe.check (fun e _ => herr e) fun _ _ => hok

end Rules

/-! ### What an operation can do -/

/-- The files of the run as a whole are the same; those of its attempts need not be. -/
structure Same (d d' : Disk) : Prop where
  root : d'.root = d.root
  runDir : d'.runDir = d.runDir
  run : d'.run = d.run
  events : d'.events = d.events

lemma Same.refl (d : Disk) : Same d d := ⟨rfl, rfl, rfl, rfl⟩

lemma Same.trans {d'' : Disk} (h : Same d d') (h' : Same d' d'') : Same d d'' :=
  ⟨h'.root.trans h.root, h'.runDir.trans h.runDir, h'.run.trans h.run, h'.events.trans h.events⟩

/-- The event is one that may be appended next. -/
structure Appends (m : Memory) (type : String) (l : Fields) (t : String) : Prop where
  active : m.finished = false
  room : m.eventSequence < maxEvents
  typed : isEventType type = true
  timed : Timestamp.validStoredTimestamp t = true
  fits : serializeRecord lineSize (.obj (eventOf l (m.eventSequence + 1) t m.runId type)) "event" =
    .ok (.obj (eventOf l (m.eventSequence + 1) t m.runId type))

/-- The finish is one that goes as far as its file operations. -/
structure Finishes (m : Memory) (status : String) (l : Fields) (t : String) : Prop where
  ended : terminalStatus (some (.str status)) = true
  event : Appends m "run.finished" (put "status" (.str status) l) t
  fits : serializeRecord prettySize (.obj (terminalRun m.run l m.runId status t)) "run record" =
    .ok (.obj (terminalRun m.run l m.runId status t))

def Memory.counted (m : Memory) : Memory := { m with eventSequence := m.eventSequence + 1 }

/-- What there is after an operation. `refused` stands for the one failure that leaves the two
files apart. -/
inductive Result (refused : Prop) (m : Memory) (d : Disk) : Op → Outcome → Disk → Prop
  | rejected {op : Op} {e : String} {d' : Disk} (h : Same d d') :
      Result refused m d op (.error e, m) d'
  | kept {op : Op} {v : Json} {m' : Memory} {d' : Disk} (h : Same d d') (hop : op.shared = false)
      (hplan : ∀ a plan, op ≠ .writeAttemptPlan a plan)
      (hm : m'.runId = m.runId ∧ m'.run = m.run ∧ m'.eventSequence = m.eventSequence ∧
        m'.finished = m.finished) : Result refused m d op (.ok v, m') d'
  | appended {type : String} {l : Fields} {t : String} (h : Appends m type l t)
      (hroom : m.eventSequence < maxEvents - 1) :
      Result refused m d (.appendEvent type (.obj l))
        (.ok (.obj (eventOf l (m.eventSequence + 1) t m.runId type)), m.counted)
        (d.apply (.appendEvent (.obj (eventOf l (m.eventSequence + 1) t m.runId type))))
  | planned {a : ℕ} {plan v : Json} {d' : Disk} (hactive : m.finished = false)
      (ha : a ≤ maxAttempts)
      (hfits : serializeRecord prettySize (.obj (plannedRun m.run a)) "run record" =
        .ok (.obj (plannedRun m.run a)))
      (h : Same (d.apply (.writeRun (.obj (plannedRun m.run a)))) d') :
      Result refused m d (.writeAttemptPlan a plan)
        (.ok v, { m with run := plannedRun m.run a }) d'
  | half {status : String} {l : Fields} {t e : String} (hr : refused)
      (h : Finishes m status l t) :
      Result refused m d (.finish status (.obj l)) (.error e, m.counted)
        (d.apply (.appendEvent
          (.obj (finishEvent l status (m.eventSequence + 1) t m.runId))))
  | finished {status : String} {l : Fields} {t : String} (h : Finishes m status l t) :
      Result refused m d (.finish status (.obj l))
        (.ok (.obj (terminalRun m.run l m.runId status t)),
          { m.counted with run := terminalRun m.run l m.runId status t, finished := true })
        ((d.apply (.appendEvent
          (.obj (finishEvent l status (m.eventSequence + 1) t m.runId)))).apply
            (.writeRun (.obj (terminalRun m.run l m.runId status t))))

/-- The run record is about to be replaced by that of a run that is over. -/
def Call.ends : Call → Bool
  | .write (.writeRun (.obj run)) => !isStr (run.lookup "status") "running"
  | _ => false

lemma serializeRecord_eq {size : Json → ℕ} {v v' : Json} {label : String}
    (h : serializeRecord size v label = .ok v') : v' = v := by
  obtain ⟨-, -, h⟩ := bind_eq_ok.mp h
  obtain ⟨-, -, h⟩ := bind_eq_ok.mp h
  exact (Except.ok.inj h).symm

lemma valid_of_timestamp {now : Option ℤ} {t : String} (h : timestamp now = .ok t) :
    Timestamp.validStoredTimestamp t = true := by
  cases now with
  | none => cases h
  | some n =>
      simp only [timestamp] at h
      split_ifs at h with hn
      obtain rfl := Except.ok.inj h
      exact Timestamp.validStoredTimestamp_toISOString hn

lemma checkEvent_eq {type : String} {details : Json} {l : Fields}
    (h : checkEvent m type details = .ok l) :
    m.finished = false ∧ m.eventSequence < maxEvents - 1 ∧ isEventType type = true ∧
      details = .obj l := by
  obtain ⟨_, hactive, h⟩ := bind_eq_ok.mp h
  obtain ⟨_, hroom, h⟩ := bind_eq_ok.mp h
  obtain ⟨_, htype, h⟩ := bind_eq_ok.mp h
  obtain ⟨l', hl, h⟩ := bind_eq_ok.mp h
  obtain ⟨-, -, h⟩ := bind_eq_ok.mp h
  obtain rfl := Except.ok.inj h
  exact ⟨require_eq.mp hactive, require_eq.mp hroom, require_eq.mp htype, plainObject_eq hl⟩

lemma checkFinish_eq {status : String} {details : Json} {l : Fields}
    (h : checkFinish m status details = .ok l) :
    m.finished = false ∧ terminalStatus (some (.str status)) = true ∧
      m.eventSequence < maxEvents ∧ details = .obj l := by
  obtain ⟨_, hactive, h⟩ := bind_eq_ok.mp h
  obtain ⟨_, hstatus, h⟩ := bind_eq_ok.mp h
  obtain ⟨_, hroom, h⟩ := bind_eq_ok.mp h
  obtain ⟨l', hl, h⟩ := bind_eq_ok.mp h
  obtain ⟨-, -, h⟩ := bind_eq_ok.mp h
  obtain rfl := Except.ok.inj h
  exact ⟨require_eq.mp hactive, require_eq.mp hstatus, require_eq.mp hroom, plainObject_eq hl⟩

lemma ends_terminalRun {run l : Fields} {runId status t : String}
    (h : terminalStatus (some (.str status)) = true) :
    Call.ends (.write (.writeRun (.obj (terminalRun run l runId status t)))) = true := by
  have hne : status ≠ "running" := by
    rintro rfl
    revert h
    decide
  simp [Call.ends, terminalRun, isStr, hne]

section Specs

variable {E : Env Call Call.Ret Disk} {refused : Prop}
  (hE : ∀ s o r t, E.step s o r t → env.step s o r t)
  (hrefused : ∀ s w e t, E.step s (.write w) (.error e) t → Call.ends (.write w) = true → refused)

/-- What an operation does, and that the files of the run are as they were at every point of it
but where the record of a finished run is about to be written. -/
def Meets (E : Env Call Call.Ret Disk) (refused : Prop) (m : Memory) (d : Disk) (op : Op) : Prop :=
  Safe E (fun d' c => c.ends = false → Same d d') (op.run m) d fun r d' =>
    ∃ o, r = .ok o ∧ Result refused m d op o d'

lemma rejected_ok {op : Op} (e : String) (h : Same d d') :
    ∃ o : Outcome, Except.ok (.error e, m) = (.ok o : Except String Outcome) ∧
      Result refused m d op o d' :=
  ⟨_, rfl, .rejected h⟩

include hE in
lemma meets_appendEvent (type : String) (details : Json) :
    Meets E refused m d (.appendEvent type details) := by
  refine Safe.check (fun e _ => rejected_ok e (.refl d)) fun l hl => ?_
  obtain ⟨hactive, hroom, htype, rfl⟩ := checkEvent_eq hl
  refine Safe.clock hE (fun _ => .refl d) fun now => ?_
  refine Safe.check (fun e _ => rejected_ok e (.refl d)) fun t ht => ?_
  refine Safe.check (fun e _ => rejected_ok e (.refl d)) fun record hrec => ?_
  obtain rfl := serializeRecord_eq hrec
  refine Safe.perform hE (fun _ => .refl d) (fun e _ => rejected_ok _ (.refl d)) ?_
  exact ⟨_, rfl, .appended ⟨hactive, by simp only [maxEvents] at *; omega, htype,
    valid_of_timestamp ht, hrec⟩ hroom⟩

include hE hrefused in
lemma meets_finish (status : String) (details : Json) :
    Meets E refused m d (.finish status details) := by
  refine Safe.check (fun e _ => rejected_ok e (.refl d)) fun l hl => ?_
  obtain ⟨hactive, hstatus, hroom, rfl⟩ := checkFinish_eq hl
  refine Safe.clock hE (fun _ => .refl d) fun now => ?_
  refine Safe.check (fun e _ => rejected_ok e (.refl d)) fun t ht => ?_
  refine Safe.check (fun e _ => rejected_ok e (.refl d)) fun record hrec => ?_
  refine Safe.check (fun e _ => rejected_ok e (.refl d)) fun event hev => ?_
  obtain rfl := serializeRecord_eq hrec
  obtain rfl := serializeRecord_eq hev
  have hfin : Finishes m status l t :=
    ⟨hstatus, ⟨hactive, hroom, by decide +kernel, valid_of_timestamp ht, hev⟩, hrec⟩
  refine Safe.perform hE (fun _ => .refl d) (fun e _ => rejected_ok _ (.refl d)) ?_
  refine Safe.perform hE (fun h => ?_) (fun e he => ?_) ?_
  · rw [ends_terminalRun hstatus] at h
    cases h
  · exact ⟨_, rfl, .half (hrefused _ _ _ _ he (ends_terminalRun hstatus)) hfin⟩
  · exact ⟨_, rfl, .finished hfin⟩

/-- An operation that leaves the files of the run as they are. -/
lemma kept_ok {op : Op} {v : Json} {m' : Memory} (h : Same d d') (hop : op.shared = false)
    (hplan : ∀ a plan, op ≠ .writeAttemptPlan a plan) (hid : m'.runId = m.runId)
    (hrun : m'.run = m.run) (hseq : m'.eventSequence = m.eventSequence)
    (hfin : m'.finished = m.finished) :
    ∃ o : Outcome, Except.ok (.ok v, m') = (.ok o : Except String Outcome) ∧
      Result refused m d op o d' :=
  ⟨_, rfl, .kept h hop hplan ⟨hid, hrun, hseq, hfin⟩⟩

include hE in
lemma meets_writeAttemptPlan (a : ℕ) (plan : Json) :
    Meets E refused m d (.writeAttemptPlan a plan) := by
  refine Safe.check (fun e _ => rejected_ok e (.refl d)) fun l hl => ?_
  obtain ⟨_, hactive, hl⟩ := bind_eq_ok.mp hl
  obtain ⟨_, ha, hl⟩ := bind_eq_ok.mp hl
  refine Safe.check (fun e _ => rejected_ok e (.refl d)) fun record hrec => ?_
  refine Safe.check (fun e _ => rejected_ok e (.refl d)) fun next hnext => ?_
  obtain rfl := serializeRecord_eq hnext
  refine Safe.perform hE (fun _ => .refl d) (fun e _ => rejected_ok _ (.refl d)) ?_
  refine ⟨fun _ => .refl d, fun r t hr => ?_⟩
  obtain ⟨-, rfl⟩ := hE _ _ _ _ hr
  cases r with
  | error e => exact rejected_ok _ (.refl d)
  | ok u =>
      have hsame : Same d ((d.apply (.mkdirAttempt a)).apply (.createPlan a record)) :=
        ⟨rfl, rfl, rfl, rfl⟩
      refine Safe.perform hE (fun _ => hsame) (fun e _ => rejected_ok _ hsame) ?_
      exact ⟨_, rfl, .planned (require_eq.mp hactive) (require_eq.mp ha).2 hnext
        ⟨rfl, rfl, rfl, rfl⟩⟩

include hE in
lemma meets_writeWorkResult (a : ℕ) (result : Json) :
    Meets E refused m d (.writeWorkResult a result) := by
  refine Safe.check (fun e _ => rejected_ok e (.refl d)) fun _ _ => ?_
  refine Safe.planThere hE (fun _ => .refl d) (fun e => rejected_ok e (.refl d)) ?_
  refine Safe.check (fun e _ => rejected_ok e (.refl d)) fun _ _ => ?_
  refine Safe.check (fun e _ => rejected_ok e (.refl d)) fun record _ => ?_
  refine Safe.perform hE (fun _ => .refl d) (fun e _ => rejected_ok _ (.refl d)) ?_
  exact kept_ok ⟨rfl, rfl, rfl, rfl⟩ rfl nofun rfl rfl rfl rfl

include hE in
lemma meets_writeGateReceipt (a : ℕ) (receipt : Json) :
    Meets E refused m d (.writeGateReceipt a receipt) := by
  refine Safe.check (fun e _ => rejected_ok e (.refl d)) fun _ _ => ?_
  refine Safe.planThere hE (fun _ => .refl d) (fun e => rejected_ok e (.refl d)) ?_
  refine Safe.check (fun e _ => rejected_ok e (.refl d)) fun _ _ => ?_
  refine Safe.check (fun e _ => rejected_ok e (.refl d)) fun record _ => ?_
  refine Safe.perform hE (fun _ => .refl d) (fun e _ => rejected_ok _ (.refl d)) ?_
  exact kept_ok ⟨rfl, rfl, rfl, rfl⟩ rfl nofun rfl rfl rfl rfl

include hE in
lemma meets_enqueueInbox (a : ℕ) (owner : String) (entry : Json) :
    Meets E refused m d (.enqueueInbox a owner entry) := by
  refine Safe.check (fun e _ => rejected_ok e (.refl d)) fun l _ => ?_
  refine Safe.planThere hE (fun _ => .refl d) (fun e => rejected_ok e (.refl d)) ?_
  refine Safe.check (fun e _ => rejected_ok e (.refl d)) fun _ _ => ?_
  refine Safe.clock hE (fun _ => .refl d) fun now => ?_
  refine Safe.check (fun e _ => rejected_ok e (.refl d)) fun t _ => ?_
  refine Safe.check (fun e _ => rejected_ok e (.refl d)) fun record _ => ?_
  refine Safe.perform hE (fun _ => .refl d) (fun e _ => rejected_ok _ (.refl d)) ?_
  refine Safe.perform hE (fun _ => .refl d) (fun e _ => rejected_ok _ (.refl d)) ?_
  exact kept_ok ⟨rfl, rfl, rfl, rfl⟩ rfl nofun rfl rfl rfl rfl

include hE hrefused in
/-- What any operation does. -/
theorem meets (op : Op) : Meets E refused m d op := by
  cases op with
  | appendEvent type details => exact meets_appendEvent hE type details
  | writeAttemptPlan a plan => exact meets_writeAttemptPlan hE a plan
  | writeWorkResult a result => exact meets_writeWorkResult hE a result
  | writeGateReceipt a receipt => exact meets_writeGateReceipt hE a receipt
  | enqueueInbox a owner entry => exact meets_enqueueInbox hE a owner entry
  | finish status details => exact meets_finish hE hrefused status details

end Specs

/-! ### Records that the reader takes -/

structure GoodRun (runId : String) (run : Fields) : Prop where
  version : run.lookup "version" = some (Wire.ofNat 1)
  runId : run.lookup "runId" = some (.str runId)
  phase : ∃ p, run.lookup "phase" = some (.str p)
  attempt : ∃ n ≤ maxAttempts, run.lookup "currentAttempt" = some (Wire.ofNat n)
  startedAt : ∃ t, Timestamp.validStoredTimestamp t = true ∧
    run.lookup "startedAt" = some (.str t)
  assignment : ∃ l, run.lookup "assignment" = some (.obj l)
  fits : serializeRecord prettySize (.obj run) "run record" = .ok (.obj run)

structure Active (run : Fields) : Prop where
  status : run.lookup "status" = some (.str "running")
  finishedAt : run.lookup "finishedAt" = some .null

structure Over (run : Fields) (s : String) : Prop where
  status : run.lookup "status" = some (.str s)
  terminal : terminalStatus (some (.str s)) = true
  finishedAt : ∃ t, Timestamp.validStoredTimestamp t = true ∧
    run.lookup "finishedAt" = some (.str t)

lemma fits_iff {size : Json → ℕ} {v : Json} {label : String} :
    serializeRecord size v label = .ok v ↔ shallow 0 v = true ∧ size v ≤ maxRecordBytes := by
  unfold serializeRecord validateJson
  rw [bind_eq_ok]
  refine ⟨?_, fun h => ⟨(), require_eq.mpr h.1, ?_⟩⟩
  · rintro ⟨_, hd, h⟩
    obtain ⟨_, hs, -⟩ := bind_eq_ok.mp h
    exact ⟨require_eq.mp hd, require_eq.mp hs⟩
  · exact bind_eq_ok.mpr ⟨(), require_eq.mpr h.2, rfl⟩

lemma checkRun_of_good {runId : String} {run : Fields} (h : GoodRun runId run)
    (hend : Active run ∨ ∃ s, Over run s) : checkRun runId (.obj run) = .ok run := by
  obtain ⟨p, hphase⟩ := h.phase
  obtain ⟨n, hn, hattempt⟩ := h.attempt
  obtain ⟨t, ht, hstarted⟩ := h.startedAt
  obtain ⟨l, hassign⟩ := h.assignment
  have hrange : (List.range (maxAttempts + 1)).any (isNum (some (Wire.ofNat n))) = true :=
    List.any_eq_true.mpr ⟨n, List.mem_range.mpr (by omega), by simp [isNum, Wire.ofNat]⟩
  have hstatus : (terminalStatus (run.lookup "status") = true ∨
      isStr (run.lookup "status") "running" = true) ∧ (isNull (run.lookup "finishedAt") = true ∨
        (strOf (run.lookup "finishedAt")).any Timestamp.validStoredTimestamp = true) := by
    rcases hend with ha | ⟨s, ho⟩
    · rw [ha.status, ha.finishedAt]
      exact ⟨.inr rfl, .inl rfl⟩
    · obtain ⟨t', ht', hf⟩ := ho.finishedAt
      rw [ho.status, hf]
      exact ⟨.inl ho.terminal, .inr (by simpa [strOf] using ht')⟩
  refine bind_eq_ok.mpr ⟨run, rfl, bind_eq_ok.mpr ⟨(), require_eq.mpr (fits_iff.mp h.fits).1, ?_⟩⟩
  refine bind_eq_ok.mpr ⟨(), require_eq.mpr ?_, bind_eq_ok.mpr ⟨l, ?_, rfl⟩⟩
  · rw [h.version, h.runId, hphase, hattempt, hstarted]
    exact ⟨by simp [isNum, Wire.ofNat], by simp [isStr], hstatus.1, rfl, hrange,
      by simpa [strOf] using ht, hstatus.2⟩
  · simp [field, hassign, plainObject]

/-- The record and the log, as they are when the store is in this state. -/
structure Recorded (d : Disk) (m : Memory) (evs : List Fields) : Prop where
  runDir : d.runDir = some privateDir
  run : d.run = some ⟨0o600, .obj m.run⟩
  events : d.events = some ⟨0o600, evs.map .obj⟩
  good : GoodRun m.runId m.run
  lines : checkLines m.runId 0 (evs.map .obj) = .ok evs
  count : evs.length = m.eventSequence
  bound : evs.length ≤ maxEvents
  active : m.finished = false → Active m.run
  ended : m.finished = true → ∃ s e, Over m.run s ∧ evs.getLast? = some e ∧ isFinish e = true ∧
    e.lookup "status" = some (.str s)

lemma Recorded.ending {evs : List Fields} (h : Recorded d m evs) :
    Active m.run ∨ ∃ s, Over m.run s := by
  cases hf : m.finished with
  | false => exact .inl (h.active hf)
  | true =>
      obtain ⟨s, -, ho, -⟩ := h.ended hf
      exact .inr ⟨s, ho⟩

lemma Recorded.same {evs : List Fields} (h : Recorded d m evs) (hd : Same d d') :
    Recorded d' m evs :=
  { h with runDir := hd.runDir.trans h.runDir, run := hd.run.trans h.run,
           events := hd.events.trans h.events }

lemma Over.not_running {run : Fields} {s : String} (h : Over run s) :
    isStr (run.lookup "status") "running" = false := by
  rw [h.status]
  have hne : s ≠ "running" := by
    rintro rfl
    exact absurd h.terminal (by decide)
  simpa [isStr] using hne

/-- The reader finds that record and log agree when the run is over, or has no event that says
it is. -/
lemma checkEnd_iff {evs : List Fields} (h : Recorded d m evs) :
    checkEnd m.run evs = .ok () ↔ m.finished = true ∨ evs.any isFinish = false := by
  cases hf : m.finished with
  | false =>
      have ha := h.active hf
      unfold checkEnd
      rw [ha.status, ha.finishedAt, if_neg (by decide), require_eq]
      simp [isNull]
  | true =>
      obtain ⟨s, e, ho, hlast, hfin, hs⟩ := h.ended hf
      obtain ⟨t, -, hfa⟩ := ho.finishedAt
      unfold checkEnd
      rw [if_pos ho.not_running, require_eq, ho.status, hfa, hlast]
      simp [isNull, strOf, isStr, hfin, hs]

lemma two_le_prettySize (l : Fields) : 2 ≤ prettySize (.obj l) := by
  have hpos : 0 < Char.utf8Size '{' := by decide
  cases l with
  | nil =>
      simp only [prettySize, pretty, Wire.bytes_cons]
      omega
  | cons p l =>
      simp only [prettySize, pretty, Wire.bytes_cons]
      omega

lemma lineSize_le_of_checkLine {runId : String} {i : ℕ} {v : Json} {event : Fields}
    (h : checkLine runId i v = .ok event) : lineSize v ≤ maxRecordBytes := by
  obtain ⟨_, hsize, -⟩ := bind_eq_ok.mp h
  exact require_eq.mp hsize

lemma sum_lineSize_le {runId : String} {i : ℕ} {l : List Json} {evs : List Fields}
    (h : checkLines runId i l = .ok evs) : (l.map lineSize).sum ≤ evs.length * maxRecordBytes := by
  induction l generalizing i evs with
  | nil => simp
  | cons v l ih =>
      obtain ⟨event, hv, h⟩ := bind_eq_ok.mp h
      obtain ⟨evs', hl, h⟩ := bind_eq_ok.mp h
      obtain rfl := Except.ok.inj h
      have hline := lineSize_le_of_checkLine hv
      have hrest := ih hl
      simp only [List.map_cons, List.sum_cons, List.length_cons, Nat.succ_mul]
      omega

/-- The state root is a directory that only the owner may enter. -/
def Disk.private (d : Disk) : Bool := d.root.any fun s => s.directory && s.mode == 0o700

/-- What opening the run finds, where nothing fails. -/
def Disk.opened (d : Disk) (now : ℤ) (runId : String) : Except String Opened :=
  ((openPodRunStore runId).run (Disk.answer now) Disk.next d).1

def Memory.reopened (m : Memory) : Memory :=
  { runId := m.runId, run := m.run, eventSequence := m.eventSequence, finished := m.finished }

section Opening

variable {α β : Type} (now : ℤ)

lemma run_check (x : Except String α) (f : α → Io β) (d : Disk) :
    ((Prog.ofExcept x >>= f).run (Disk.answer now) Disk.next d).1 =
      x >>= fun a => ((f a).run (Disk.answer now) Disk.next d).1 := by
  cases x <;> rfl

lemma run_call (c : Call) (f : c.Ret → Io β) (d : Disk) :
    ((ask c >>= f).run (Disk.answer now) Disk.next d).1 =
      ((f (Disk.answer now d c)).run (Disk.answer now) Disk.next
        (Disk.next d c (Disk.answer now d c))).1 := rfl

end Opening

lemma privateDirectory_iff (x : Option Stat) (label : String) :
    (∃ s, privateDirectory (x.elim (.error { message := "ENOENT" }) .ok) label = .ok s) ↔
      x.any (fun s => s.directory && s.mode == 0o700) = true := by
  unfold privateDirectory
  cases x with
  | none => simp [Except.toOption]
  | some s =>
      by_cases hs : (s.directory && s.mode == 0o700) = true
      · simp [Except.toOption, Option.filter, hs]
      · simp [Except.toOption, Option.filter, hs]

lemma Recorded.finished_eq {evs : List Fields} (h : Recorded d m evs) :
    (!isStr (m.run.lookup "status") "running") = m.finished := by
  cases hf : m.finished with
  | false =>
      rw [(h.active hf).status]
      rfl
  | true =>
      obtain ⟨s, -, ho, -⟩ := h.ended hf
      rw [ho.not_running]
      rfl

lemma ok_bind {ε α β : Type} (a : α) (f : α → Except ε β) : (Except.ok a >>= f) = f a := rfl

lemma privateFile_ok (n : ℕ) (label : String) :
    privateFile (.ok ⟨false, true, 0o600, n⟩) label = .ok ⟨false, true, 0o600, n⟩ := rfl

lemma privateDirectory_ok (label : String) :
    privateDirectory (.ok privateDir) label = .ok privateDir := rfl

lemma require_true (message : String) : require True message = .ok () := rfl

lemma reading_ok {α : Type} (a : α) : reading (.ok a) = .ok a := rfl

/-- Of the checks of the reader only two are left when a store has written the files. -/
lemma opened_recorded {evs : List Fields} (h : Recorded d m evs) (hid : isRunId m.runId = true)
    (now : ℤ) :
    d.opened now m.runId = (do
      let _ ← privateDirectory (d.root.elim (.error { message := "ENOENT" }) .ok) "stateRoot"
      checkEnd m.run evs
      .ok ⟨evs, m.reopened⟩) := by
  have hsum := sum_lineSize_le h.lines
  have hid' : require (isRunId m.runId = true) "invalid run ID" = .ok () := require_eq.mpr hid
  have hrun : require (2 ≤ prettySize (.obj m.run) ∧ prettySize (.obj m.run) ≤ maxRecordBytes)
      "run record has an invalid size" = .ok () :=
    require_eq.mpr ⟨two_le_prettySize _, (fits_iff.mp h.good.fits).2⟩
  have hevents : require (((evs.map Json.obj).map lineSize).sum ≤ maxEvents * maxRecordBytes)
      "event record has an invalid size" = .ok () :=
    require_eq.mpr (hsum.trans (Nat.mul_le_mul_right _ h.bound))
  have hlen : require (m.eventSequence ≤ maxEvents) "event record exceeds the entry limit" =
      .ok () :=
    require_eq.mpr (h.count ▸ h.bound)
  unfold Disk.opened openPodRunStore
  simp only [run_check, run_call, Disk.answer, Disk.next, Disk.stat, h.runDir, h.run, h.events,
    Option.map_some, Option.elim, privateFile_ok, privateDirectory_ok, reading_ok, ok_bind, hid',
    hrun, hevents, require_true, checkRun_of_good h.good h.ending, h.lines, hlen, run_pure,
    h.finished_eq, h.count]
  rfl

/-- **Opening a run.** A store's run opens if the state root is private and the record and the
log agree on whether it is over, and what is read then is what the store has written. -/
lemma opened_eq_ok_iff {evs : List Fields} (h : Recorded d m evs) (hid : isRunId m.runId = true)
    (now : ℤ) (o : Opened) :
    d.opened now m.runId = .ok o ↔
      (d.private = true ∧ (m.finished = true ∨ evs.any isFinish = false)) ∧
        o = ⟨evs, m.reopened⟩ := by
  rw [opened_recorded h hid, bind_eq_ok]
  constructor
  · rintro ⟨s, hs, ho⟩
    obtain ⟨_, hend, ho⟩ := bind_eq_ok.mp ho
    exact ⟨⟨(privateDirectory_iff _ _).mp ⟨s, hs⟩, (checkEnd_iff h).mp hend⟩,
      (Except.ok.inj ho).symm⟩
  · rintro ⟨⟨hroot, hend⟩, rfl⟩
    obtain ⟨s, hs⟩ := (privateDirectory_iff d.root "stateRoot").mpr hroot
    exact ⟨s, hs, bind_eq_ok.mpr ⟨(), (checkEnd_iff h).mpr hend, rfl⟩⟩

/-! ### Whole runs -/

lemma good_plannedRun {runId : String} {run : Fields} {a : ℕ} (h : GoodRun runId run)
    (ha : a ≤ maxAttempts)
    (hfits : serializeRecord prettySize (.obj (plannedRun run a)) "run record" =
      .ok (.obj (plannedRun run a))) : GoodRun runId (plannedRun run a) where
  version := by simpa [plannedRun] using h.version
  runId := by simpa [plannedRun] using h.runId
  phase := ⟨"planned", by simp [plannedRun]⟩
  attempt := by
    refine ⟨max (currentAttempt run) a, ?_, by simp [plannedRun]⟩
    have hcur : currentAttempt run ≤ maxAttempts := by
      unfold currentAttempt
      cases hfind : (List.range (maxAttempts + 1)).find? _ with
      | none => exact Nat.zero_le _
      | some n => exact Nat.lt_succ_iff.mp (List.mem_range.mp (List.mem_of_find?_eq_some hfind))
    exact max_le hcur ha
  startedAt := by simpa [plannedRun] using h.startedAt
  assignment := by simpa [plannedRun] using h.assignment
  fits := hfits

lemma active_plannedRun {run : Fields} {a : ℕ} (h : Active run) : Active (plannedRun run a) where
  status := by simpa [plannedRun] using h.status
  finishedAt := by simpa [plannedRun] using h.finishedAt

lemma good_terminalRun {l : Fields} {status t : String} (h : GoodRun m.runId m.run)
    (hf : Finishes m status l t) : GoodRun m.runId (terminalRun m.run l m.runId status t) where
  version := by simp [terminalRun, field, h.version]
  runId := by simp [terminalRun]
  phase := ⟨_, by simp [terminalRun]; rfl⟩
  attempt := by
    obtain ⟨n, hn, hlook⟩ := h.attempt
    exact ⟨n, hn, by simp [terminalRun, field, hlook]⟩
  startedAt := by
    obtain ⟨t', ht, hlook⟩ := h.startedAt
    exact ⟨t', ht, by simp [terminalRun, field, hlook]⟩
  assignment := by
    obtain ⟨l', hlook⟩ := h.assignment
    exact ⟨l', by simp [terminalRun, field, hlook]⟩
  fits := hf.fits

lemma over_terminalRun {l : Fields} {status t : String} (hf : Finishes m status l t) :
    Over (terminalRun m.run l m.runId status t) status where
  status := by simp [terminalRun]
  terminal := hf.ended
  finishedAt := ⟨t, hf.event.timed, by simp [terminalRun]⟩

lemma checkLine_eventOf {type : String} {l : Fields} {t : String} (h : Appends m type l t) :
    checkLine m.runId m.eventSequence (.obj (eventOf l (m.eventSequence + 1) t m.runId type)) =
      .ok (eventOf l (m.eventSequence + 1) t m.runId type) := by
  obtain ⟨hdepth, hsize⟩ := fits_iff.mp h.fits
  refine bind_eq_ok.mpr ⟨(), require_eq.mpr hsize, bind_eq_ok.mpr ⟨_, rfl, ?_⟩⟩
  refine bind_eq_ok.mpr ⟨(), require_eq.mpr hdepth, bind_eq_ok.mpr ⟨(), require_eq.mpr ?_, rfl⟩⟩
  simp [eventOf, isNum, isStr, strOf, Wire.ofNat, h.timed, h.typed]

lemma checkLines_snoc {runId : String} {i : ℕ} {l : List Json} {evs : List Fields} {v : Json}
    {e : Fields} (h : checkLines runId i l = .ok evs)
    (hv : checkLine runId (i + evs.length) v = .ok e) :
    checkLines runId i (l ++ [v]) = .ok (evs ++ [e]) := by
  induction l generalizing i evs with
  | nil =>
      obtain rfl := Except.ok.inj h
      simp only [List.nil_append, checkLines]
      exact bind_eq_ok.mpr ⟨e, hv, rfl⟩
  | cons x l ih =>
      obtain ⟨e', hx, h⟩ := bind_eq_ok.mp h
      obtain ⟨evs', hl, h⟩ := bind_eq_ok.mp h
      obtain rfl := Except.ok.inj h
      rw [List.length_cons, ← Nat.add_assoc, Nat.add_right_comm] at hv
      exact bind_eq_ok.mpr ⟨e', hx, bind_eq_ok.mpr ⟨_, ih hl hv, rfl⟩⟩

lemma isFinish_eventOf (l : Fields) (n : ℕ) (t runId type : String) :
    isFinish (eventOf l n t runId type) = decide (type = "run.finished") := by
  simp [isFinish, eventOf, isStr]

section Step

variable {evs : List Fields}

lemma recorded_append {type : String} {l : Fields} {t : String} (h : Recorded d m evs)
    (ha : Appends m type l t) :
    Recorded (d.apply (.appendEvent (.obj (eventOf l (m.eventSequence + 1) t m.runId type))))
      m.counted (evs ++ [eventOf l (m.eventSequence + 1) t m.runId type]) where
  runDir := h.runDir
  run := h.run
  events := by simp [Disk.apply, h.events]
  good := h.good
  lines := by
    rw [List.map_append]
    refine checkLines_snoc h.lines ?_
    rw [Nat.zero_add, h.count]
    exact checkLine_eventOf ha
  count := by simp [Memory.counted, h.count]
  bound := by
    have hroom := ha.room
    rw [List.length_append, List.length_singleton, h.count]
    omega
  active := h.active
  ended hf := by
    rw [show m.counted.finished = m.finished from rfl, ha.active] at hf
    cases hf

lemma recorded_finish {status : String} {l : Fields} {t : String} (h : Recorded d m evs)
    (hf : Finishes m status l t) :
    Recorded ((d.apply (.appendEvent
        (.obj (finishEvent l status (m.eventSequence + 1) t m.runId)))).apply
          (.writeRun (.obj (terminalRun m.run l m.runId status t))))
      { m.counted with run := terminalRun m.run l m.runId status t, finished := true }
      (evs ++ [finishEvent l status (m.eventSequence + 1) t m.runId]) :=
  let hap := recorded_append h hf.event
  { runDir := hap.runDir
    run := rfl
    events := hap.events
    good := good_terminalRun h.good hf
    lines := hap.lines
    count := hap.count
    bound := hap.bound
    active := nofun
    ended := fun _ => ⟨status, _, over_terminalRun hf, List.getLast?_concat,
      by simp [finishEvent, isFinish_eventOf], by simp [finishEvent, eventOf]⟩ }

lemma recorded_plan {a : ℕ} (h : Recorded d m evs) (hactive : m.finished = false)
    (ha : a ≤ maxAttempts)
    (hfits : serializeRecord prettySize (.obj (plannedRun m.run a)) "run record" =
      .ok (.obj (plannedRun m.run a)))
    (hd : Same (d.apply (.writeRun (.obj (plannedRun m.run a)))) d') :
    Recorded d' { m with run := plannedRun m.run a } evs where
  runDir := hd.runDir.trans h.runDir
  run := hd.run
  events := hd.events.trans h.events
  good := good_plannedRun h.good ha hfits
  lines := h.lines
  count := h.count
  bound := h.bound
  active hf := active_plannedRun (h.active hf)
  ended hf := by
    rw [show ({ m with run := plannedRun m.run a } : Memory).finished = m.finished from rfl,
      hactive] at hf
    cases hf

lemma recorded_kept {m' : Memory} (h : Recorded d m evs) (hd : Same d d')
    (hm : m'.runId = m.runId ∧ m'.run = m.run ∧ m'.eventSequence = m.eventSequence ∧
      m'.finished = m.finished) : Recorded d' m' evs := by
  obtain ⟨hid, hrun, hseq, hfin⟩ := hm
  have hsame := h.same hd
  exact
    { runDir := hsame.runDir
      run := by rw [hrun]; exact hsame.run
      events := hsame.events
      good := by rw [hid, hrun]; exact h.good
      lines := by rw [hid]; exact h.lines
      count := by rw [hseq]; exact h.count
      bound := h.bound
      active := by rw [hfin, hrun]; exact h.active
      ended := by rw [hfin, hrun]; exact h.ended }

end Step

/-! ### Making a store -/

section Creation

variable {α β : Type} {Q : Except String β → Disk → Prop}

lemma Safe.raise {x : Except String α} {f : α → Io β} (herr : ∀ e, Q (.error e) d)
    (hok : ∀ a, x = .ok a → Safe env (fun _ _ => True) (f a) d Q) :
    Safe env (fun _ _ => True) (Prog.ofExcept x >>= f) d Q := by
  cases x with
  | ok a => exact hok a rfl
  | error e => exact herr e

lemma Safe.making {w : Write} {f : Unit → Io β} (herr : ∀ e, Q (.error e) d)
    (hok : d.there w = false → Safe env (fun _ _ => True) (f ()) (d.apply w) Q) :
    Safe env (fun _ _ => True) (making w >>= f) d Q := by
  refine ⟨trivial, ?_⟩
  rintro r _ ⟨hr, rfl⟩
  cases r with
  | ok u => exact hok (hr rfl)
  | error e => exact herr _

lemma Safe.makingIn {w : Write} {f : Unit → Io β} (herr : ∀ e d, Q (.error e) d)
    (hok : Safe env (fun _ _ => True) (f ()) (d.apply w) Q) :
    Safe env (fun _ _ => True) (makingIn w >>= f) d Q := by
  refine ⟨trivial, ?_⟩
  rintro r _ ⟨hr, rfl⟩
  cases r with
  | ok u => exact hok
  | error e => exact ⟨trivial, fun _ _ _ => herr _ _⟩

end Creation

/-- A new store's files are those it says, and the state root is the one that was there or a
new one. -/
structure Created (runId : String) (d₀ d : Disk) (m : Memory) : Prop where
  recorded : Recorded d m []
  runId_eq : m.runId = runId
  active : m.finished = false
  named : isRunId runId = true
  root : d.root = some (d₀.root.getD privateDir)
  directory : d.root.any (·.directory) = true

lemma private_created {runId : String} {d₀ : Disk} (h : Created runId d₀ d m) :
    d.private = true ↔ d₀.root = none ∨ ∃ s, d₀.root = some s ∧ s.mode = 0o700 := by
  have hdir := h.directory
  rw [Disk.private, h.root]
  rw [h.root] at hdir
  cases hroot : d₀.root with
  | none => simp [privateDir]
  | some s =>
      rw [hroot] at hdir
      have hs : s.directory = true := by simpa using hdir
      simp [hs]

lemma good_initialRun {runId : String} {assignment : Json} {t : String} {l : Fields}
    (hl : assignment = .obj l) (ht : Timestamp.validStoredTimestamp t = true)
    (hfits : serializeRecord prettySize (.obj (initialRun runId assignment t)) "run record" =
      .ok (.obj (initialRun runId assignment t))) :
    GoodRun runId (initialRun runId assignment t) where
  version := rfl
  runId := rfl
  phase := ⟨"created", rfl⟩
  attempt := ⟨0, Nat.zero_le _, rfl⟩
  startedAt := ⟨t, ht, rfl⟩
  assignment := ⟨l, by rw [hl]; rfl⟩
  fits := hfits

lemma created_of_exec {runId : String} {assignment : Json} {d₀ : Disk}
    (hx : Exec env (createPodRunStore runId assignment) d₀ (.ret m) d) : Created runId d₀ d m := by
  have hsafe : Safe env (fun _ _ => True) (createPodRunStore runId assignment) d₀
      fun r d => ∀ m, r = .ok m → Created runId d₀ d m := by
    refine Safe.raise (fun e => nofun) fun _ hid => ?_
    refine Safe.raise (fun e => nofun) fun l hl => ?_
    refine ⟨trivial, fun now d' hnow => ?_⟩
    rw [show d' = d₀ from hnow.2]
    refine Safe.raise (fun e => nofun) fun t ht => ?_
    refine Safe.raise (fun e => nofun) fun _ _ => ?_
    refine Safe.raise (fun e => nofun) fun record hrec => ?_
    obtain rfl := serializeRecord_eq hrec
    refine Safe.making (fun e => nofun) fun _ => ?_
    refine ⟨trivial, fun r _ hr => ?_⟩
    obtain ⟨hr, rfl⟩ := hr
    refine Safe.raise (fun e => nofun) fun s hs => ?_
    refine Safe.raise (fun e => nofun) fun _ hdir => ?_
    refine ⟨trivial, fun r' _ hr' => ?_⟩
    obtain ⟨-, rfl⟩ := hr'
    refine Safe.raise (fun e => nofun) fun _ hmk => ?_
    cases r' with
    | error e => cases hmk
    | ok u =>
        refine Safe.makingIn (fun e d => nofun) ?_
        refine Safe.makingIn (fun e d => nofun) ?_
        intro m hm
        obtain rfl := Except.ok.inj hm
        cases r with
        | error e => cases hs
        | ok s' =>
            obtain rfl := Except.ok.inj hs
            have hroot : some (d₀.root.getD privateDir) = some s' := hr s' rfl
            exact
              { recorded :=
                  { runDir := rfl
                    run := rfl
                    events := rfl
                    good := good_initialRun (plainObject_eq hl) (valid_of_timestamp ht) hrec
                    lines := rfl
                    count := rfl
                    bound := Nat.zero_le _
                    active := fun _ => ⟨rfl, rfl⟩
                    ended := nofun }
                runId_eq := rfl
                active := rfl
                named := require_eq.mp hid
                root := rfl
                directory := by
                  show Option.any _ (some (d₀.root.getD privateDir)) = true
                  rw [hroot]
                  exact require_eq.mp hdir }
  exact hsafe.exec hx m rfl

/-! ### Reopening -/

/-- The record of a run and its events, as the operations returned them. -/
structure Log where
  run : Fields
  events : List Fields := []

/-- What an operation that succeeded adds. A finish returns the record, and its event is made
of the same details and the same time. -/
def Log.add (runId : String) (g : Log) : Op × Json → Log
  | (.appendEvent _ _, .obj e) => { g with events := g.events ++ [e] }
  | (.writeAttemptPlan a _, _) => { g with run := plannedRun g.run a }
  | (.finish status (.obj l), .obj run) =>
    { run := run
      events := g.events ++ [finishEvent l status (g.events.length + 1)
        ((strOf (run.lookup "finishedAt")).getD "") runId] }
  | _ => g

def Op.finishes : Op → Bool
  | .finish _ _ => true
  | _ => false

/-- The operation appends an event that says that the run is over. -/
def Op.saysFinished : Op → Bool
  | .appendEvent type _ => type = "run.finished"
  | _ => false

/-- `Done m₀ d₀ l m d`: the operations in `l` were called one after the other and returned these
values, and the store and the disk went from `m₀` and `d₀` to `m` and `d`. -/
inductive Done (m₀ : Memory) (d₀ : Disk) : List (Op × Json) → Memory → Disk → Prop
  | nil : Done m₀ d₀ [] m₀ d₀
  | snoc {l : List (Op × Json)} {m m' : Memory} {d d' : Disk} {op : Op} {v : Json}
      (h : Done m₀ d₀ l m d) (hx : Exec env (op.run m) d (.ret (.ok v, m')) d') :
      Done m₀ d₀ (l ++ [(op, v)]) m' d'

/-- The store and the disk are where the log is: with `ended` set when the run was finished, and
`marked` when an event was appended that says so. -/
structure Tracks (runId : String) (root : Option Stat) (g : Log) (ended marked : Bool)
    (m : Memory) (d : Disk) : Prop where
  recorded : Recorded d m g.events
  run : m.run = g.run
  runId : m.runId = runId
  root : d.root = root
  finished : m.finished = ended
  marks : ended = false → g.events.any isFinish = marked

lemma result_of_exec {op : Op} {o : Outcome} (hx : Exec env (op.run m) d (.ret o) d') :
    Result True m d op o d' := by
  have hmeets : Meets env True m d op :=
    meets (fun _ _ _ _ h => h) (fun _ _ _ _ _ _ => trivial) op
  obtain ⟨o', ho, hr⟩ := hmeets.exec hx
  obtain rfl := Except.ok.inj ho
  exact hr

section Tracks

variable {runId : String} {root : Option Stat} {g : Log} {ended marked : Bool} {op : Op} {v : Json}
  {m' : Memory}

/-- The log follows the store. -/
lemma tracks_step (h : Tracks runId root g ended marked m d)
    (hr : Result True m d op (.ok v, m') d') :
    Tracks runId root (g.add runId (op, v)) (ended || op.finishes) (marked || op.saysFinished)
      m' d' := by
  have hlen := h.recorded.count
  cases hr with
  | kept hd hop hplan hm =>
      have hadd : g.add runId (op, v) = g ∧ op.finishes = false ∧ op.saysFinished = false := by
        cases op with
        | appendEvent => cases hop
        | writeAttemptPlan a plan => exact absurd rfl (hplan a plan)
        | finish => cases hop
        | _ => exact ⟨rfl, rfl, rfl⟩
      rw [hadd.1, hadd.2.1, hadd.2.2, Bool.or_false, Bool.or_false]
      exact ⟨recorded_kept h.recorded hd hm, hm.2.1.trans h.run, hm.1.trans h.runId,
        hd.root.trans h.root, hm.2.2.2.trans h.finished, h.marks⟩
  | @appended type l t ha hroom =>
      have hended : ended = false := h.finished.symm.trans ha.active
      refine ⟨recorded_append h.recorded ha, h.run, h.runId, h.root, ?_, fun _ => ?_⟩
      · simpa [Op.finishes, Memory.counted] using h.finished
      · simp only [Log.add, List.any_append, List.any_cons, List.any_nil, Bool.or_false,
          isFinish_eventOf, h.marks hended]
        rfl
  | planned hactive ha hfits hd =>
      refine ⟨recorded_plan h.recorded hactive ha hfits hd, ?_, h.runId, hd.root.trans h.root, ?_, ?_⟩
      · simp only [Log.add, h.run]
      · simpa [Op.finishes] using h.finished
      · simpa [Op.finishes, Op.saysFinished, Log.add] using h.marks
  | @finished status l t hf =>
      have hat : ∀ id, (strOf ((terminalRun m.run l id status t).lookup "finishedAt")).getD "" =
          t := by
        simp [terminalRun, strOf]
      have hadd : g.add runId (.finish status (.obj l),
          .obj (terminalRun m.run l m.runId status t)) =
          ⟨terminalRun m.run l m.runId status t,
            g.events ++ [finishEvent l status (m.eventSequence + 1) t m.runId]⟩ := by
        simp only [Log.add, hat, hlen, h.runId]
      rw [hadd]
      refine ⟨recorded_finish h.recorded hf, rfl, h.runId, h.root, ?_, ?_⟩
      · simp [Op.finishes]
      · simp [Op.finishes]

/-- The log of a run follows the store through it. -/
lemma tracks_done {m₀ : Memory} {d₀ : Disk} {l : List (Op × Json)}
    (h₀ : Tracks runId root { run := m₀.run } false false m₀ d₀) (h : Done m₀ d₀ l m d) :
    Tracks runId root (l.foldl (Log.add runId) { run := m₀.run }) (l.any (·.1.finishes))
      (l.any (·.1.saysFinished)) m d := by
  induction h with
  | nil => exact h₀
  | snoc _ hx ih =>
      have hstep := tracks_step ih (result_of_exec hx)
      simpa only [List.foldl_append, List.foldl_cons, List.foldl_nil, List.any_append,
        List.any_cons, List.any_nil, Bool.or_false] using hstep

end Tracks

/-- **Reopening a run.** After any operations of a new store that succeeded, in any order and
number, opening the run gives back the record and the events they returned if and only if the
state root was new or private already and, where the run was not finished, no event of type
`run.finished` was appended. -/
theorem reopened_iff {runId : String} {assignment : Json} {d₀ d₁ : Disk} {m₀ : Memory}
    {l : List (Op × Json)} (hnew : Exec env (createPodRunStore runId assignment) d₀ (.ret m₀) d₁)
    (hops : Done m₀ d₁ l m d) (now : ℤ) :
    (∃ o, d.opened now runId = .ok o ∧
      o.memory.run = (l.foldl (Log.add runId) { run := m₀.run }).run ∧
      o.events = (l.foldl (Log.add runId) { run := m₀.run }).events) ↔
    (d₀.root = none ∨ ∃ s, d₀.root = some s ∧ s.mode = 0o700) ∧
      (l.any (·.1.finishes) = true ∨ l.any (·.1.saysFinished) = false) := by
  have hc := created_of_exec hnew
  have h₀ : Tracks runId d₁.root { run := m₀.run } false false m₀ d₁ :=
    ⟨hc.recorded, rfl, hc.runId_eq, rfl, hc.active, fun _ => rfl⟩
  have h := tracks_done h₀ hops
  have hprivate : d.private = d₁.private := by
    rw [Disk.private, h.root, Disk.private]
  have hend : (m.finished = true ∨
      (l.foldl (Log.add runId) { run := m₀.run }).events.any isFinish = false) ↔
        l.any (·.1.finishes) = true ∨ l.any (·.1.saysFinished) = false := by
    rw [h.finished]
    cases hl : l.any (·.1.finishes) with
    | true => simp
    | false => simp only [Bool.false_eq_true, false_or, h.marks hl]
  have hid : isRunId m.runId = true := h.runId ▸ hc.named
  have hopen := opened_eq_ok_iff h.recorded hid now
  rw [h.runId] at hopen
  rw [← private_created hc, ← hprivate, ← hend]
  constructor
  · rintro ⟨o, ho, -⟩
    exact ((hopen o).mp ho).1
  · intro hcond
    exact ⟨_, (hopen _).mpr ⟨hcond, rfl⟩, h.run, rfl⟩

/-! ### A first run -/

lemma can_answer (now : ℤ) (d : Disk) (c : Call) : d.can c (Disk.answer now d c) := by
  cases c with
  | now => exact trivial
  | lstat p =>
      intro s hs
      cases hp : d.stat p with
      | none =>
          simp only [Disk.answer, hp] at hs
          cases hs
      | some s' =>
          simp only [Disk.answer, hp] at hs
          rw [Except.ok.inj hs]
  | readRun =>
      intro v hv
      cases hr : d.run.map (·.content) with
      | none =>
          simp only [Disk.answer, hr] at hv
          cases hv
      | some v' =>
          simp only [Disk.answer, hr] at hv
          rw [Except.ok.inj hv]
  | readEvents =>
      intro l hl
      cases hr : d.events.map (·.content) with
      | none =>
          simp only [Disk.answer, hr] at hl
          cases hl
      | some l' =>
          simp only [Disk.answer, hr] at hl
          rw [Except.ok.inj hl]
  | write w =>
      intro h
      cases ht : d.there w with
      | false => rfl
      | true =>
          simp only [Disk.answer, ht] at h
          cases h
  | removeRun => exact trivial

lemma step_answer (now : ℤ) (d : Disk) (c : Call) :
    env.step d c (Disk.answer now d c) (Disk.next d c (Disk.answer now d c)) :=
  ⟨can_answer now d c, rfl⟩

/-- Operations one after the other, where nothing fails and each succeeds. -/
def runOps (now : ℤ) : Memory → Disk → List (Op × Json) → List Op →
    Option (List (Op × Json) × Memory × Disk)
  | m, d, l, [] => some (l, m, d)
  | m, d, l, op :: ops =>
    match (op.run m).run (Disk.answer now) Disk.next d with
    | (.ok (.ok v, m'), d') => runOps now m' d' (l ++ [(op, v)]) ops
    | _ => none

lemma done_runOps {now : ℤ} {m₀ m' : Memory} {d₀ : Disk} {ops : List Op} {l l' : List (Op × Json)}
    (h : Done m₀ d₀ l m d) (hr : runOps now m d l ops = some (l', m', d')) :
    Done m₀ d₀ l' m' d' := by
  induction ops generalizing m d l with
  | nil =>
      obtain ⟨rfl, rfl, rfl⟩ : l = l' ∧ m = m' ∧ d = d' := by simpa [runOps] using hr
      exact h
  | cons op ops ih =>
      simp only [runOps] at hr
      split at hr
      · rename_i v m₁ d₁ heq
        exact ih (h.snoc (exec_of_run (step_answer now) heq)) hr
      · cases hr

/-- A new run in a new state root, at the time zero. -/
def newRun (assignment : Json) : Except String Memory × Disk :=
  (createPodRunStore "run-1" assignment).run (Disk.answer 0) Disk.next {}

/-- That run after some operations. -/
def firstRun (assignment : Json) (ops : List Op) :
    Option (Memory × Disk × List (Op × Json) × Memory × Disk) :=
  match newRun assignment with
  | (.ok m, d) => (runOps 0 m d [] ops).map fun x => (m, d, x)
  | _ => none

lemma firstRun_done (assignment : Json) (ops : List Op)
    (P : List (Op × Json) → Memory → Disk → Bool)
    (h : (firstRun assignment ops).any (fun x => P x.2.2.1 x.2.2.2.1 x.2.2.2.2) = true) :
    ∃ m₀ d₁ l m d, Exec env (createPodRunStore "run-1" assignment) {} (.ret m₀) d₁ ∧
      Done m₀ d₁ l m d ∧ P l m d = true := by
  obtain ⟨⟨m₀, d₁, l, m, d⟩, hx, hP⟩ := (Option.any_eq_true _ _).mp h
  unfold firstRun at hx
  split at hx
  · rename_i m₀' d₁' heq
    obtain ⟨⟨l', m', d'⟩, hr, hx⟩ := Option.map_eq_some_iff.mp hx
    obtain ⟨rfl, rfl, rfl, rfl, rfl⟩ : m₀' = m₀ ∧ d₁' = d₁ ∧ l' = l ∧ m' = m ∧ d' = d := by
      simpa using hx
    exact ⟨_, _, _, _, _, exec_of_run (step_answer 0) heq, done_runOps .nil hr, hP⟩
  · cases hx

theorem reopened_after_finish :
    ∃ m₀ d₁ l m d, Exec env (createPodRunStore "run-1" (.obj [])) {} (.ret m₀) d₁ ∧
      Done m₀ d₁ l m d ∧ l.length = 2 ∧ ∃ o, d.opened 0 "run-1" = .ok o ∧
        o.memory.run = (l.foldl (Log.add "run-1") { run := m₀.run }).run ∧
        o.events = (l.foldl (Log.add "run-1") { run := m₀.run }).events := by
  obtain ⟨m₀, d₁, l, m, d, hnew, hops, hl⟩ := firstRun_done (.obj [])
    [.appendEvent "run.started" (.obj []), .finish "completed" (.obj [])]
    (fun l _ _ => l.length = 2 && l.any (·.1.finishes)) (by decide +kernel)
  rw [Bool.and_eq_true, decide_eq_true_eq] at hl
  exact ⟨m₀, d₁, l, m, d, hnew, hops, hl.1,
    (reopened_iff hnew hops 0).mpr ⟨.inl rfl, .inl hl.2⟩⟩

/-- An event that says the run is over is appended to one that is not, and the run does not
open any more. -/
theorem reopening_rejects_finish_event :
    ¬ ∀ (runId : String) (assignment : Json) (d₀ d₁ d : Disk) (m₀ m : Memory)
      (l : List (Op × Json)) (now : ℤ),
      Exec env (createPodRunStore runId assignment) d₀ (.ret m₀) d₁ → Done m₀ d₁ l m d →
        ∃ o, d.opened now runId = .ok o ∧
          o.memory.run = (l.foldl (Log.add runId) { run := m₀.run }).run ∧
          o.events = (l.foldl (Log.add runId) { run := m₀.run }).events := by
  intro hall
  obtain ⟨m₀, d₁, l, m, d, hnew, hops, hd⟩ := firstRun_done (.obj [])
    [.appendEvent "run.finished" (.obj [])]
    (fun _ _ d => !(d.opened 0 "run-1").toBool) (by decide +kernel)
  obtain ⟨o, ho, -⟩ := hall _ _ _ _ _ _ _ _ 0 hnew hops
  rw [ho] at hd
  cases hd

end Bimo.PodStore
