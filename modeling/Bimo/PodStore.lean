import Bimo.Prog
import Bimo.Timestamp
import Bimo.Wire

/-!
The record of a pod run: a run record that is replaced, a log of events that is appended to, and
the files of each attempt.

A store is made for a new run or by opening one that is there. Both append events and finish the
run with the same code. Every operation checks what it is given, then makes its file operations
one after the other, each of which is done in whole or not at all, and changes what it holds in
memory as it goes along. What is in a file is kept as the value its text is read back to. A new
directory or file has the mode that is asked for.
-/

namespace Bimo.PodStore

open Wire (Json quote bytes text)
open Timestamp (toISOString validStoredTimestamp maxTime)

/-! ### Objects -/

abbrev Fields := List (String × Json)

/-- A field set: in its place where it is there already, at the end where it is not. -/
def put (key : String) (v : Json) : Fields → Fields
  | [] => [(key, v)]
  | (k, x) :: l => if k = key then (k, v) :: l else (k, x) :: put key v l

/-- An object with the fields of another spread over it. -/
def spread (l l' : Fields) : Fields := l'.foldl (fun l p => put p.1 p.2 l) l

lemma lookup_cons_eq (k k' : String) (x : Json) (l : Fields) :
    List.lookup k ((k', x) :: l) = if k = k' then some x else l.lookup k := by
  by_cases h : k = k'
  · simp [h]
  · have hb : (k == k') = false := by simpa using h
    rw [List.lookup_cons, hb, if_neg h]

@[simp] lemma lookup_put (key : String) (v : Json) (l : Fields) (k : String) :
    (put key v l).lookup k = if k = key then some v else l.lookup k := by
  induction l with
  | nil => rw [put, lookup_cons_eq]
  | cons p l ih =>
      obtain ⟨k', x⟩ := p
      simp only [put]
      by_cases hk : k' = key
      · rw [if_pos hk, lookup_cons_eq, lookup_cons_eq, hk]
        split_ifs <;> rfl
      · rw [if_neg hk, lookup_cons_eq, lookup_cons_eq, ih]
        by_cases h : k = k'
        · rw [if_pos h, if_neg (h ▸ hk), if_pos h]
        · rw [if_neg h, if_neg h]

@[simp] lemma spread_nil (l : Fields) : spread l [] = l := rfl

@[simp] lemma spread_cons (l : Fields) (p : String × Json) (l' : Fields) :
    spread l (p :: l') = spread (put p.1 p.2 l) l' := rfl

def isStr (x : Option Json) (s : String) : Bool :=
  match x with
  | some (.str t) => t = s
  | _ => false

def isNum (x : Option Json) (n : ℕ) : Bool :=
  match x with
  | some (.num t) => t = toString n
  | _ => false

def isNull : Option Json → Bool
  | some .null => true
  | _ => false

def strOf : Option Json → Option String
  | some (.str s) => some s
  | _ => none

/-! ### Records -/

def maxRecordBytes : ℕ := 64 * 1024
def maxJsonDepth : ℕ := 32
def maxAttempts : ℕ := 10
def maxCollectionRecords : ℕ := 100
def maxEvents : ℕ := 1000

mutual

/-- No part of the value is too deep. An array has a length, which is a part of it. -/
def shallow (depth : ℕ) : Json → Bool
  | .arr l => decide (depth + 1 ≤ maxJsonDepth) && shallowList (depth + 1) l
  | .obj l => decide (depth ≤ maxJsonDepth) && shallowFields (depth + 1) l
  | _ => decide (depth ≤ maxJsonDepth)

def shallowList (depth : ℕ) : List Json → Bool
  | [] => true
  | v :: l => shallow depth v && shallowList depth l

def shallowFields (depth : ℕ) : List (String × Json) → Bool
  | [] => true
  | (_, v) :: l => shallow depth v && shallowFields depth l

end

def spaces (n : ℕ) : List Char := List.replicate n ' '

mutual

/-- The text of a value over several lines. -/
def pretty (indent : ℕ) : Json → List Char
  | .arr [] => ['[', ']']
  | .arr l => '[' :: '\n' :: (prettyList (indent + 2) l ++ '\n' :: (spaces indent ++ [']']))
  | .obj [] => ['{', '}']
  | .obj l => '{' :: '\n' :: (prettyFields (indent + 2) l ++ '\n' :: (spaces indent ++ ['}']))
  | v => text v

def prettyList (indent : ℕ) : List Json → List Char
  | [] => []
  | [v] => spaces indent ++ pretty indent v
  | v :: l => spaces indent ++ pretty indent v ++ ',' :: '\n' :: prettyList indent l

def prettyFields (indent : ℕ) : List (String × Json) → List Char
  | [] => []
  | [(k, v)] => spaces indent ++ quote k ++ ':' :: ' ' :: pretty indent v
  | (k, v) :: l =>
    spaces indent ++ quote k ++ ':' :: ' ' :: pretty indent v ++ ',' :: '\n' ::
      prettyFields indent l

end

/-- The bytes of a record over several lines. -/
def prettySize (v : Json) : ℕ := bytes (pretty 0 v) + 1

/-- The bytes of a record on one line. -/
def lineSize (v : Json) : ℕ := bytes (text v) + 1

/-- A check with the message it fails with. -/
def require (p : Prop) [Decidable p] (message : String) : Except String Unit :=
  if p then .ok () else .error message

def plainObject (v : Json) (label : String) : Except String Fields :=
  match v with
  | .obj l => .ok l
  | _ => .error s!"{label} must be a plain object"

lemma require_eq {p : Prop} [Decidable p] {message : String} : require p message = .ok () ↔ p := by
  unfold require
  split_ifs with h <;> simp [h]

lemma plainObject_eq {v : Json} {label : String} {l : Fields} (h : plainObject v label = .ok l) :
    v = .obj l := by
  cases v with
  | obj l' => rw [Except.ok.inj h]
  | _ => cases h

def validateJson (v : Json) (label : String) : Except String Unit :=
  require (shallow 0 v) s!"{label} exceeds maximum JSON depth"

/-- A record that is written: not too deep and not too long. -/
def serializeRecord (size : Json → ℕ) (v : Json) (label : String) : Except String Json := do
  validateJson v label
  require (size v ≤ maxRecordBytes) s!"{label} must serialize to at most {maxRecordBytes} bytes"
  pure v

def timestamp : Option ℤ → Except String String
  | some t => if t.natAbs ≤ maxTime then .ok (toISOString t) else .error "now must return a valid Date"
  | none => .error "now must return a valid Date"

/-! ### Names -/

def isRunId (s : String) : Bool :=
  match s.toList with
  | [] => false
  | c :: cs => c.isAlphanum && cs.all (fun c => c.isAlphanum || c == '.' || c == '_' || c == '-')
      && decide (cs.length ≤ 79)

def isEventType (s : String) : Bool :=
  (s.toList.splitOn '.').all fun w =>
    match w with
    | [] => false
    | c :: cs => c.isLower && cs.all fun c => c.isLower || c.isDigit

def terminalStatus (x : Option Json) : Bool :=
  isStr x "completed" || isStr x "failed" || isStr x "cancelled"

/-! ### Files -/

structure Stat where
  directory : Bool
  file : Bool
  mode : ℕ
  size : ℕ
  deriving DecidableEq, Repr

structure File (α : Type) where
  mode : ℕ
  content : α

/-- The state root and the directory of one run in it. -/
structure Disk where
  root : Option Stat := none
  runDir : Option Stat := none
  run : Option (File Json) := none
  events : Option (File (List Json)) := none
  plans : ℕ → Option Json := fun _ => none
  work : ℕ → List Json := fun _ => []
  gates : ℕ → List Json := fun _ => []
  inbox : ℕ → String → List Json := fun _ _ => []

inductive Place
  | root | runDir | run | events | plan (attempt : ℕ)

def privateDir : Stat := { directory := true, file := false, mode := 0o700, size := 0 }

namespace Disk

def stat (d : Disk) : Place → Option Stat
  | .root => d.root
  | .runDir => d.runDir
  | .run => d.run.map fun f => ⟨false, true, f.mode, prettySize f.content⟩
  | .events => d.events.map fun f => ⟨false, true, f.mode, (f.content.map lineSize).sum⟩
  | .plan a => (d.plans a).map fun v => ⟨false, true, 0o600, prettySize v⟩

end Disk

/-- The operations that change a file or a directory. -/
inductive Write
  | mkdirRoot | mkdirRun
  | writeRun (v : Json) | createEvents | appendEvent (v : Json)
  | mkdirAttempt (attempt : ℕ) | createPlan (attempt : ℕ) (v : Json)
  | appendWork (attempt : ℕ) (v : Json) | appendGate (attempt : ℕ) (v : Json)
  | mkdirInbox (attempt : ℕ) | appendInbox (attempt : ℕ) (owner : String) (v : Json)

structure Fault where
  eexist : Bool := false
  message : String
  deriving DecidableEq, Repr

inductive Call
  | now
  | lstat (p : Place)
  | readRun
  | readEvents
  | write (w : Write)
  | removeRun

def Call.Ret : Call → Type
  | .now => Option ℤ
  | .lstat _ => Except Fault Stat
  | .readRun => Except Fault Json
  | .readEvents => Except Fault (List Json)
  | .write _ => Except Fault Unit
  | .removeRun => Bool

abbrev Io (α : Type) := Prog Call Call.Ret String α

def ask (c : Call) : Io c.Ret := Prog.ask c

namespace Disk

/-- What is there already where something new is to be made. -/
def there (d : Disk) : Write → Bool
  | .mkdirRoot => d.root.any fun s => !s.directory
  | .mkdirRun => d.runDir.isSome
  | .createEvents => d.events.isSome
  | .createPlan a _ => (d.plans a).isSome
  | _ => false

def apply (d : Disk) : Write → Disk
  | .mkdirRoot => { d with root := some (d.root.getD privateDir) }
  | .mkdirRun => { d with runDir := some privateDir }
  | .writeRun v => { d with run := some ⟨0o600, v⟩ }
  | .createEvents => { d with events := some ⟨0o600, []⟩ }
  | .appendEvent v =>
    { d with
      events := some <| match d.events with
        | some f => ⟨f.mode, f.content ++ [v]⟩
        | none => ⟨0o600, [v]⟩ }
  | .createPlan a v => { d with plans := fun b => if b = a then some v else d.plans b }
  | .appendWork a v => { d with work := fun b => if b = a then d.work a ++ [v] else d.work b }
  | .appendGate a v => { d with gates := fun b => if b = a then d.gates a ++ [v] else d.gates b }
  | .appendInbox a o v =>
    { d with
      inbox := fun b o' => if b = a ∧ o' = o then d.inbox a o ++ [v] else d.inbox b o' }
  | .mkdirAttempt _ | .mkdirInbox _ => d

/-- What a call may answer: any of them may fail, and what is read is what is there. -/
def can (d : Disk) : (c : Call) → c.Ret → Prop
  | .now, _ => True
  | .lstat p, r => ∀ s, r = .ok s → d.stat p = some s
  | .readRun, r => ∀ v, r = .ok v → d.run.map (·.content) = some v
  | .readEvents, r => ∀ l, r = .ok l → d.events.map (·.content) = some l
  | .write w, r => r = .ok () → d.there w = false
  | .removeRun, _ => True

def next (d : Disk) : (c : Call) → c.Ret → Disk
  | .write w, .ok () => d.apply w
  | .removeRun, true => { root := d.root }
  | _, _ => d

/-- The answers of a disk that does not fail, at a given time. -/
def answer (now : ℤ) (d : Disk) : (c : Call) → c.Ret
  | .now => some now
  | .lstat p => (d.stat p).elim (.error { message := "ENOENT" }) .ok
  | .readRun => (d.run.map (·.content)).elim (.error { message := "ENOENT" }) .ok
  | .readEvents => (d.events.map (·.content)).elim (.error { message := "ENOENT" }) .ok
  | .write w => if d.there w then .error { eexist := true, message := "EEXIST" } else .ok ()
  | .removeRun => true

end Disk

def env : Env Call Call.Ret Disk := .of Disk.can Disk.next

/-! ### The operations -/

/-- What a store holds in memory. -/
structure Memory where
  runId : String
  run : Fields
  eventSequence : ℕ := 0
  inboxSequences : ℕ → String → ℕ := fun _ _ => 0
  workResultCounts : ℕ → ℕ := fun _ => 0
  gateReceiptCounts : ℕ → ℕ := fun _ => 0
  finished : Bool := false

/-- What the caller gets, and what the store holds then. -/
abbrev Outcome := Except String Json × Memory

section Operations

variable (m : Memory)

/-- A check that rejects the operation. -/
def check {α : Type} (x : Except String α) (k : α → Io Outcome) : Io Outcome :=
  match x with
  | .ok a => k a
  | .error e => pure (.error e, m)

/-- A file operation whose failure rejects the operation. -/
def perform (w : Write) (k : Io Outcome) : Io Outcome := do
  match ← ask (.write w) with
  | .ok () => k
  | .error e => pure (.error e.message, m)

def notFinished : Except String Unit :=
  require (m.finished = false) "run is already finished"

def attemptNumber (attempt : ℕ) : Except String Unit :=
  require (1 ≤ attempt ∧ attempt ≤ maxAttempts) s!"attempt must be between 1 and {maxAttempts}"

def inboxOwner (owner : String) : Except String Unit :=
  require (owner = "engineering-a" ∨ owner = "engineering-b")
    "inbox owner must be engineering-a or engineering-b"

/-- The fields a log entry has whatever its details are. -/
def eventOf (details : Fields) (sequence : ℕ) (at' runId type : String) : Fields :=
  spread details [("version", Wire.ofNat 1), ("sequence", Wire.ofNat sequence),
    ("timestamp", .str at'), ("runId", .str runId), ("type", .str type)]

/-- What is checked of an event before the clock is read. -/
def checkEvent (type : String) (details : Json) : Except String Fields := do
  notFinished m
  require (m.eventSequence < maxEvents - 1)
    "events exceed 999 entries before the terminal event"
  require (isEventType type) "invalid event type"
  let l ← plainObject details "event details"
  validateJson details "event details"
  pure l

def appendEvent (type : String) (details : Json) : Io Outcome :=
  check m (checkEvent m type details) fun l => do
    let now ← ask .now
    check m (timestamp now) fun t =>
      let event := Json.obj (eventOf l (m.eventSequence + 1) t m.runId type)
      check m (serializeRecord lineSize event "event") fun record =>
        perform m (.appendEvent record) <|
          pure (.ok event, { m with eventSequence := m.eventSequence + 1 })

def currentAttempt (run : Fields) : ℕ :=
  ((List.range (maxAttempts + 1)).find? fun n => isNum (run.lookup "currentAttempt") n).getD 0

def plannedRun (run : Fields) (attempt : ℕ) : Fields :=
  spread run [("currentAttempt", Wire.ofNat (max (currentAttempt run) attempt)),
    ("phase", .str "planned")]

def writeAttemptPlan (attempt : ℕ) (plan : Json) : Io Outcome :=
  check m (do notFinished m; attemptNumber attempt; plainObject plan "attempt plan") fun _ =>
    check m (serializeRecord prettySize plan "attempt plan") fun record =>
      let nextRun := plannedRun m.run attempt
      check m (serializeRecord prettySize (.obj nextRun) "run record") fun nextRunRecord =>
        perform m (.mkdirAttempt attempt) do
          match ← ask (.write (.createPlan attempt record)) with
          | .error e =>
            pure (.error (if e.eexist then s!"attempt {attempt} plan already exists"
              else e.message), m)
          | .ok () =>
            perform m (.writeRun nextRunRecord) <| pure (.ok record, { m with run := nextRun })

/-- The checks that the records of an attempt share. -/
def checkAttempt (attempt : ℕ) (v : Json) (label : String) : Except String Unit := do
  notFinished m
  attemptNumber attempt
  let _ ← plainObject v label
  pure ()

def planThere (attempt : ℕ) (k : Io Outcome) : Io Outcome := do
  let r ← ask (.lstat (.plan attempt))
  check m (require (r.toOption.any (·.file)) s!"attempt {attempt} plan does not exist") fun _ => k

def writeWorkResult (attempt : ℕ) (result : Json) : Io Outcome :=
  check m (checkAttempt m attempt result "work result") fun _ =>
    planThere m attempt <|
      check m (require (m.workResultCounts attempt < maxCollectionRecords)
          s!"work results for attempt {attempt} exceed {maxCollectionRecords} entries") fun _ =>
        check m (serializeRecord lineSize result "work result") fun record =>
          perform m (.appendWork attempt record) <|
            pure (.ok record, { m with
              workResultCounts := fun a =>
                if a = attempt then m.workResultCounts a + 1 else m.workResultCounts a })

def writeGateReceipt (attempt : ℕ) (receipt : Json) : Io Outcome :=
  check m (checkAttempt m attempt receipt "gate receipt") fun _ =>
    planThere m attempt <|
      check m (require (m.gateReceiptCounts attempt < maxCollectionRecords)
          s!"gate receipts for attempt {attempt} exceed {maxCollectionRecords} entries") fun _ =>
        check m (serializeRecord lineSize receipt "gate receipt") fun record =>
          perform m (.appendGate attempt record) <|
            pure (.ok record, { m with
              gateReceiptCounts := fun a =>
                if a = attempt then m.gateReceiptCounts a + 1 else m.gateReceiptCounts a })

def inboxEntry (entry : Fields) (sequence : ℕ) (at' runId : String) (attempt : ℕ)
    (owner : String) : Fields :=
  spread entry [("version", Wire.ofNat 1), ("sequence", Wire.ofNat sequence),
    ("timestamp", .str at'), ("runId", .str runId), ("attempt", Wire.ofNat attempt),
    ("ownerSlot", .str owner)]

def enqueueInbox (attempt : ℕ) (owner : String) (entry : Json) : Io Outcome :=
  check m (do
      notFinished m; attemptNumber attempt; inboxOwner owner
      plainObject entry "inbox entry") fun l =>
    planThere m attempt <|
      check m (do
          require (m.inboxSequences attempt owner < maxCollectionRecords)
            s!"inbox {owner} for attempt {attempt} exceeds {maxCollectionRecords} entries"
          validateJson entry "inbox details") fun _ => do
        let now ← ask .now
        check m (timestamp now) fun t =>
          let count := m.inboxSequences attempt owner
          let v := Json.obj (inboxEntry l (count + 1) t m.runId attempt owner)
          check m (serializeRecord lineSize v "inbox entry") fun record =>
            perform m (.mkdirInbox attempt) <|
              perform m (.appendInbox attempt owner record) <|
                pure (.ok v, { m with
                  inboxSequences := fun a o =>
                    if a = attempt ∧ o = owner then count + 1 else m.inboxSequences a o })

/-- What is checked of a finish before the clock is read. -/
def checkFinish (status : String) (details : Json) : Except String Fields := do
  notFinished m
  require (terminalStatus (some (.str status)))
    "run status must be completed, failed, or cancelled"
  require (m.eventSequence < maxEvents) s!"events exceed {maxEvents} entries"
  let l ← plainObject details "finish details"
  validateJson details "finish details"
  pure l

def finishEvent (details : Fields) (status : String) (sequence : ℕ) (at' runId : String) : Fields :=
  eventOf (put "status" (.str status) details) sequence at' runId "run.finished"

def field (run : Fields) (key : String) : Json := (run.lookup key).getD .null

def terminalRun (run details : Fields) (runId status at' : String) : Fields :=
  spread (spread run details) [("version", field run "version"), ("runId", .str runId),
    ("assignment", field run "assignment"), ("status", .str status),
    ("phase", .str ((strOf (details.lookup "phase")).getD "finished")),
    ("currentAttempt", field run "currentAttempt"), ("startedAt", field run "startedAt"),
    ("finishedAt", .str at')]

def finish (status : String) (details : Json) : Io Outcome :=
  check m (checkFinish m status details) fun l => do
    let now ← ask .now
    check m (timestamp now) fun t =>
      let event := Json.obj (finishEvent l status (m.eventSequence + 1) t m.runId)
      let terminal := terminalRun m.run l m.runId status t
      check m (serializeRecord prettySize (.obj terminal) "run record") fun terminalRecord =>
        check m (serializeRecord lineSize event "event") fun eventRecord =>
          perform m (.appendEvent eventRecord) <|
            -- the sequence has moved on from here, whether or not the record is replaced
            let m' := { m with eventSequence := m.eventSequence + 1 }
            perform m' (.writeRun terminalRecord) <|
              pure (.ok (.obj terminal), { m' with run := terminal, finished := true })

end Operations

/-- The operations of a store that change something. -/
inductive Op
  | appendEvent (type : String) (details : Json)
  | writeAttemptPlan (attempt : ℕ) (plan : Json)
  | writeWorkResult (attempt : ℕ) (result : Json)
  | writeGateReceipt (attempt : ℕ) (receipt : Json)
  | enqueueInbox (attempt : ℕ) (owner : String) (entry : Json)
  | finish (status : String) (details : Json)

def Op.run (m : Memory) : Op → Io Outcome
  | .appendEvent type details => PodStore.appendEvent m type details
  | .writeAttemptPlan attempt plan => PodStore.writeAttemptPlan m attempt plan
  | .writeWorkResult attempt result => PodStore.writeWorkResult m attempt result
  | .writeGateReceipt attempt receipt => PodStore.writeGateReceipt m attempt receipt
  | .enqueueInbox attempt owner entry => PodStore.enqueueInbox m attempt owner entry
  | .finish status details => PodStore.finish m status details

/-- The operations that an opened store has as well. -/
def Op.shared : Op → Bool
  | .appendEvent _ _ | .finish _ _ => true
  | _ => false

/-! ### Making and opening a store -/

def initialRun (runId : String) (assignment : Json) (startedAt : String) : Fields :=
  [("version", Wire.ofNat 1), ("runId", .str runId), ("assignment", assignment),
    ("status", .str "running"), ("phase", .str "created"), ("currentAttempt", Wire.ofNat 0),
    ("startedAt", .str startedAt), ("finishedAt", .null)]

/-- A failure of the operating system, as the caller sees it. -/
def reading {α : Type} (r : Except Fault α) : Except String α := r.mapError Fault.message

/-- A file operation of a new run. -/
def making (w : Write) : Io Unit := do
  let r ← ask (.write w)
  Prog.ofExcept (reading r)

/-- The directory is taken away again where the first files cannot be written. -/
def makingIn (w : Write) : Io Unit := do
  match ← ask (.write w) with
  | .ok () => pure ()
  | .error e =>
    let _ ← ask .removeRun
    .fail e.message

def createPodRunStore (runId : String) (assignment : Json) : Io Memory := do
  Prog.ofExcept (require (isRunId runId) "invalid run ID")
  let _ ← Prog.ofExcept (plainObject assignment "assignment")
  let now ← ask .now
  let startedAt ← Prog.ofExcept (timestamp now)
  Prog.ofExcept (validateJson assignment "assignment")
  let run := initialRun runId assignment startedAt
  let record ← Prog.ofExcept (serializeRecord prettySize (.obj run) "run record")
  making .mkdirRoot
  let r ← ask (.lstat .root)
  let s ← Prog.ofExcept (reading r)
  Prog.ofExcept (require (s.directory = true) "stateRoot must be a regular directory")
  let r ← ask (.write .mkdirRun)
  Prog.ofExcept (r.mapError fun e => if e.eexist then s!"run already exists: {runId}" else e.message)
  makingIn (.writeRun record)
  makingIn .createEvents
  pure { runId := runId, run := run }

def privateDirectory (r : Except Fault Stat) (label : String) : Except String Stat :=
  match r.toOption.filter fun s => s.directory && s.mode == 0o700 with
  | some s => .ok s
  | none => .error s!"{label} must be a private regular directory"

def privateFile (r : Except Fault Stat) (label : String) : Except String Stat :=
  match r.toOption.filter fun s => s.file && s.mode == 0o600 with
  | some s => .ok s
  | none => .error s!"{label} must be a private regular file"

/-- What is checked of the run record. -/
def checkRun (runId : String) (v : Json) : Except String Fields := do
  let run ← plainObject v "run record"
  validateJson v "run record"
  require (isNum (run.lookup "version") 1 ∧ isStr (run.lookup "runId") runId ∧
    (terminalStatus (run.lookup "status") ∨ isStr (run.lookup "status") "running") ∧
    (strOf (run.lookup "phase")).isSome ∧
    (List.range (maxAttempts + 1)).any (isNum (run.lookup "currentAttempt")) ∧
    (strOf (run.lookup "startedAt")).any validStoredTimestamp ∧
    (isNull (run.lookup "finishedAt") ∨
      (strOf (run.lookup "finishedAt")).any validStoredTimestamp)) "run record is invalid"
  let _ ← plainObject (field run "assignment") "run assignment"
  pure run

/-- What is checked of one line of the log. -/
def checkLine (runId : String) (index : ℕ) (v : Json) : Except String Fields := do
  require (lineSize v ≤ maxRecordBytes) "event exceeds the record limit"
  let event ← plainObject v "event"
  validateJson v "event"
  require (isNum (event.lookup "version") 1 ∧ isStr (event.lookup "runId") runId ∧
    isNum (event.lookup "sequence") (index + 1) ∧
    (strOf (event.lookup "timestamp")).any validStoredTimestamp ∧
    (strOf (event.lookup "type")).any isEventType) "event record is invalid"
  pure event

def checkLines (runId : String) : ℕ → List Json → Except String (List Fields)
  | _, [] => pure []
  | i, v :: l => do
    let event ← checkLine runId i v
    let events ← checkLines runId (i + 1) l
    pure (event :: events)

def isFinish (event : Fields) : Bool := isStr (event.lookup "type") "run.finished"

/-- The record and the log agree on whether the run is over. -/
def checkEnd (run : Fields) (events : List Fields) : Except String Unit :=
  if isStr (run.lookup "status") "running" = false then
    require (isNull (run.lookup "finishedAt") = false ∧ events.getLast?.any (fun event =>
      isFinish event && (strOf (run.lookup "status")).any (isStr (event.lookup "status"))))
      "terminal run record is inconsistent"
  else
    require (isNull (run.lookup "finishedAt") ∧ events.any isFinish = false)
      "active run record is inconsistent"

/-- The run record, the events and the store that goes on from them. -/
structure Opened where
  events : List Fields
  memory : Memory

def openPodRunStore (runId : String) : Io Opened := do
  Prog.ofExcept (require (isRunId runId) "invalid run ID")
  let r ← ask (.lstat .root)
  let _ ← Prog.ofExcept (privateDirectory r "stateRoot")
  let r ← ask (.lstat .runDir)
  let _ ← Prog.ofExcept (privateDirectory r "run directory")
  let r ← ask (.lstat .run)
  let runStat ← Prog.ofExcept (privateFile r "run record")
  let r ← ask (.lstat .events)
  let eventsStat ← Prog.ofExcept (privateFile r "event record")
  Prog.ofExcept (require (2 ≤ runStat.size ∧ runStat.size ≤ maxRecordBytes)
    "run record has an invalid size")
  Prog.ofExcept (require (eventsStat.size ≤ maxEvents * maxRecordBytes)
    "event record has an invalid size")
  let r ← ask .readRun
  let v ← Prog.ofExcept (reading r)
  Prog.ofExcept (require (prettySize v = runStat.size) "run record changed while opening")
  let run ← Prog.ofExcept (checkRun runId v)
  let r ← ask .readEvents
  let l ← Prog.ofExcept (reading r)
  Prog.ofExcept (require ((l.map lineSize).sum = eventsStat.size)
    "event record changed while opening")
  let events ← Prog.ofExcept (checkLines runId 0 l)
  Prog.ofExcept (require (events.length ≤ maxEvents) "event record exceeds the entry limit")
  Prog.ofExcept (checkEnd run events)
  pure
    { events := events
      memory :=
        { runId := runId, run := run, eventSequence := events.length
          finished := !isStr (run.lookup "status") "running" } }

end Bimo.PodStore
