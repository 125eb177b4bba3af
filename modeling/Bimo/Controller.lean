import Bimo.Contract

/-!
The controller of an engineering pod.

A run makes up to ten attempts. In an attempt a planner writes a plan, three writers work at the
same time, each commit is checked, the three commits are integrated, and the candidate goes
through four gates. The controller is a program over the calls to its ports: the agents, the
source, the verifier and the store. The three writers are started together and waited for in
the order in which they settle, which the world decides.

What an attempt has on record (its plan, its work results and its gates) is an object that is
changed as the attempt goes on and is read back when it fails. It is kept by the world, and so
is the promise that a cancellation is made of. The variables that hold the first error of the
writers and of the checkers are set there as well, each time an error is noted. The deadline that
every call to the source carries is left out.
-/

namespace Bimo.Controller

open Wire (Json len bytes)
open PodStore (Fields field put spread plainObject require pretty)
open Contract

/-! ### Errors -/

inductive Err
  | deadline
  | invalid (message : String)
  | writerFailed (slot : Slot) (why : String)
  | checkerRejected (slot : Slot) (why : String)
  | conformanceFailed (gate : Gate) (why : String)
  | agent (message : String)
  | port (message : String)
  deriving DecidableEq, Repr

def Err.message : Err → String
  | .deadline => "pod workflow deadline exceeded"
  | .invalid message => message
  | .writerFailed slot why => "writer " ++ slot.name ++ " failed: " ++ why
  | .checkerRejected slot why => "checker rejected " ++ slot.name ++ ": " ++ why
  | .conformanceFailed .qa why => "QA conformance failed: " ++ why
  | .conformanceFailed .testing why => "Testing review failed: " ++ why
  | .agent message => message
  | .port message => message

/-- What is left of a character that is cut in two. -/
def half : Char := '\uFFFD'

def Err.reason (e : Err) : String := String.ofList (Wire.slice half 2000 e.message.toList)

def isWord (c : Char) : Bool := c.isAlphanum || c == '_'

/-- The texts that the pattern of an interruption stands for. -/
def interruptions : List String :=
  ["cancel", "cancelled", "canceled", "interrupt", "interrupted", "deadline", "timeout",
    "time out", "timedout", "timed out"]

/-- One of the texts stands here, after this character, as a word. -/
def interruptedAt (before : Option Char) (cs : List Char) : Bool :=
  !before.any isWord && interruptions.any fun w =>
    w.toList.isPrefixOf (cs.map Char.toLower) && !(cs.drop w.length).head?.any isWord

def interruptedFrom : Option Char → List Char → Bool
  | _, [] => false
  | before, c :: cs => interruptedAt before (c :: cs) || interruptedFrom (some c) cs

@[irreducible] def terminalInterruption (e : Err) : Bool := interruptedFrom none e.reason.toList

/-! ### Calls -/

inductive Role
  | planner | writer (slot : Slot) | checker | conformance (gate : Gate)
  deriving DecidableEq, Repr

structure Prompt where
  instructions : String
  context : Json

structure AgentInput where
  executionId : String
  role : Role
  attempt : ℕ
  write : Bool
  prompt : Prompt
  workspaceId : Json
  writeDirectories : Json
  timeoutSeconds : ℕ := 0

/-- A commit of a writer that the controller has taken. -/
structure Work where
  slot : Slot
  baseSha : String
  resultSha : String
  diffSha256 : String
  diff : Option Json
  json : Fields

inductive Event
  | runStarted
  | preflightStarted (baseSha : String)
  | preflightPassed (baseSha : String)
  | planStarted (attempt : ℕ) (baseSha : String)
  | planFinished (attempt : ℕ)
  | writersStarted (attempt : ℕ)
  | inboxQueued (attempt : ℕ) (slot : Slot)
  | publicationReady (attempt : ℕ) (baseSha candidateSha headBranch : String)
  | attemptFailed (attempt : ℕ) (reason : String)

/-- What an attempt that failed leaves for the next one. -/
structure Evidence where
  attempt : ℕ
  plan : Option Json
  workResults : List Json
  gates : List Fields
  reason : String

inductive Call
  | now
  -- the agents
  | execute (input : AgentInput)
  | start (slot : Slot) (input : AgentInput)
  | reject (slot : Slot) (e : Err)
  | race (pending : List Slot)
  | active (slot : Slot)
  | cancelActive
  | settleAll
  -- the source and the verifier
  | prepareAssignment
  | createReadView (id sha : String)
  | createWorktree (attempt : ℕ) (slot : Slot) (baseSha : String)
  | createSnapshot (id sha : String)
  | validateAndCommit (slot : Slot) (workspace : Json)
  | combineBase (attempt : ℕ) (requesterCheckpointSha dependencyResultSha : String)
  | integrate (attempt : ℕ) (baseSha : String) (commits : List Work) (branch : String)
  | verifyCandidate (expectedSha : String) (timeoutSeconds : ℕ)
  | scan (baseSha candidateSha : String)
  | close (retainForPublication : Bool)
  -- the store
  | appendEvent (e : Event)
  | writeAttemptPlan (attempt : ℕ) (plan : Json)
  | writeWorkResult (attempt : ℕ) (result : Fields)
  | writeGateReceipt (attempt : ℕ) (receipt : Fields)
  | enqueueInbox (attempt : ℕ) (entry : Fields)
  | readInbox (attempt : ℕ) (afterSequence : ℕ)
  | finish (reason : String)
  -- the record of the attempt
  | begin (attempt : ℕ)
  | keepPlan (plan : Json)
  | keepWork (result : Fields)
  | keepGate (receipt : Fields)
  | keepError (e : Err)
  | kept

def Call.Ret : Call → Type
  | .now => Option ℕ
  | .execute _ => Except String Json
  | .race _ => Slot × Except Err Json
  | .active _ => Bool
  | .prepareAssignment | .createReadView _ _ | .createWorktree _ _ _ | .createSnapshot _ _
  | .validateAndCommit _ _ | .combineBase _ _ _ | .integrate _ _ _ _ | .verifyCandidate _ _
  | .scan _ _ | .enqueueInbox _ _ => Except String Json
  | .readInbox _ _ => Except String (List Json)
  | .cancelActive | .close _ | .appendEvent _ | .writeAttemptPlan _ _ | .writeWorkResult _ _
  | .writeGateReceipt _ _ | .finish _ => Except String Unit
  | .kept => Option Json × List Json × List Fields
  | .start _ _ | .reject _ _ | .settleAll | .begin _ | .keepPlan _ | .keepWork _ | .keepGate _
  | .keepError _ => Unit

abbrev Io (α : Type) := Prog Call Call.Ret Err α

def ask (c : Call) : Io c.Ret := Prog.ask c

/-- A failure of a check. -/
def valid {α : Type} (x : Except String α) : Io α := Prog.ofExcept (x.mapError Err.invalid)

/-- A failure of a port. -/
def port {α : Type} (x : Except String α) : Io α := Prog.ofExcept (x.mapError Err.port)

/-! ### A run -/

/-- What a run is given. -/
structure Config where
  lib : Lib
  templateJson : Json
  template : Template
  prompt : Role → String
  assignment : Json
  branch : String
  deadlineAt : ℕ
  combines : Bool

/-- The attempt that is under way. -/
structure Attempt where
  n : ℕ
  baseSha : String
  deadlineAt : ℕ
  plan : Plan

section Run

variable (cfg : Config)

def now : Io ℕ := do
  let r ← ask .now
  match r with
  | some t => pure t
  | none =>
    Prog.fail (.invalid "clock must return a non-negative safe integer millisecond timestamp")

def remainingMs (deadlineAt : ℕ) : Io ℕ := do
  let t ← now
  if min cfg.deadlineAt deadlineAt ≤ t then Prog.fail .deadline
  else pure (min cfg.deadlineAt deadlineAt - t)

def executionSeconds (deadlineAt : ℕ) : Io ℕ := do
  let ms ← remainingMs cfg deadlineAt
  if ms / 1000 < 10 then Prog.fail .deadline else pure (min cfg.template.executionSeconds (ms / 1000))

/-- An agent that is started and waited for. -/
def runAgent (deadlineAt : ℕ) (input : AgentInput) : Io Json := do
  let _ ← remainingMs cfg deadlineAt
  let seconds ← executionSeconds cfg deadlineAt
  let r ← ask (.execute { input with timeoutSeconds := seconds })
  Prog.ofExcept (r.mapError Err.agent)

def contextHeading : String := "\n\n# Controller context (untrusted JSON)\n"

def buildPrompt (instructions phase : String) (details : Fields) : Except String Prompt :=
  let context := Json.obj (spread [("version", Wire.ofNat 1), ("phase", .str phase),
    ("authority", .str "Return only the strict receipt for this bounded execution.")] details)
  if 252 * 1024 < len instructions + len contextHeading + bytes (pretty 0 context) then
    .error s!"pod {phase} prompt exceeds 258048 bytes"
  else .ok { instructions := instructions, context := context }

def receiptOf (v : Json) (label : String) : Except String Fields :=
  match v with
  | .obj l =>
    match l.lookup "receipt" with
    | some r => plainObject r label
    | none => .ok l
  | _ => plainObject v label

def strings (l : List String) : Json := .arr (l.map .str)

def requirementJson (r : Requirement) : Json := .obj [("id", .str r.id), ("text", .str r.text)]

def criterionJson (c : Criterion) : Json :=
  .obj [("id", .str c.id), ("requirementIds", strings c.requirementIds), ("text", .str c.text)]

def workItemJson (plan : Plan) (slot : Slot) : Json :=
  let w := plan.writers slot
  .obj [("id", .str slot.name), ("ownerSlot", .str slot.name), ("brief", .str w.brief),
    ("requirementIds", strings w.requirementIds), ("acceptanceIds", strings w.acceptanceIds),
    ("writePaths", strings w.writePaths)]

/-- A string field that is there and not empty. -/
def named (l : Fields) (key message : String) : Except String String :=
  assertForm (· != "") (field l key) message

/-! #### Writers and checkers -/

def pathIsOwned (path writePath : String) : Bool :=
  decide (path = writePath) ||
    inside (if writePath.toList.getLast? = some '/' then String.ofList writePath.toList.dropLast
      else writePath) path

/-- The paths of a commit: files of the repository, each once, and the writer's own. -/
def changedPathsFrom (lib : Lib) (writePaths : List String) :
    ℕ → List String → List Json → Except String (List String)
  | _, seen, [] => .ok seen
  | i, seen, v :: l => do
    let path ← assertRepositoryFile v s!"commit changedPaths[{i}]"
    require (toLowerCase lib path ∉ seen.map (toLowerCase lib))
      s!"commit changedPaths contains duplicate path: {path}"
    require (writePaths.any (pathIsOwned path))
      "commit changedPaths are outside the fixed writer scope"
    changedPathsFrom lib writePaths (i + 1) (seen ++ [path]) l

/-- A commit that the controller takes. -/
structure Commit where
  baseSha : String
  resultSha : String
  files : List String
  changedBytes : ℕ
  diffSha256 : String
  diff : Option Json

def assertSha (v : Json) (label : String) : Except String String :=
  assertForm isGitSha v s!"{label} must be a Git SHA"

def checkCommit (lib : Lib) (template : Template) (plan : Plan) (slot : Slot)
    (receiptBase : String) (v : Json) : Except String Commit := do
  let id := slot.name
  let l ← plainObject v s!"commit result {id}"
  let baseSha ← assertSha (field l "baseSha") "writer baseSha"
  require (baseSha = receiptBase) "writer receipt base does not match the committed delta"
  let scope := "commit changedPaths are outside the fixed writer scope"
  let paths ← assertArray (field l "changedPaths") 1 template.maxFiles scope
  let files ← changedPathsFrom lib (plan.writers slot).writePaths 0 [] paths
  let changedBytes ← (natOf (field l "changedBytes")).elim
    (.error "commit changedBytes are outside the fixed limit") .ok
  require (changedBytes ≤ template.maxBytes) "commit changedBytes are outside the fixed limit"
  let diffSha256 ← assertForm isSha256 (field l "diffSha256")
    "commit diffSha256 must be a SHA-256 digest"
  let resultSha ← assertSha (field l "resultSha") "writer resultSha"
  pure
    { baseSha := baseSha, resultSha := resultSha, files := files, changedBytes := changedBytes
      diffSha256 := diffSha256, diff := l.lookup "diff" }

def workOf (slot : Slot) (receipt : WriterReceipt) (c : Commit) : Work where
  slot := slot
  baseSha := c.baseSha
  resultSha := c.resultSha
  diffSha256 := c.diffSha256
  diff := c.diff
  json := spread receipt.json [("workItemId", .str slot.name), ("ownerSlot", .str slot.name),
    ("baseSha", .str c.baseSha), ("resultSha", .str c.resultSha), ("files", strings c.files),
    ("changedBytes", Wire.ofNat c.changedBytes), ("diffSha256", .str c.diffSha256)]

variable (at' : Attempt)

def recordWorkResult (w : Work) : Io Unit := do
  ask (.keepWork w.json)
  let r ← ask (.writeWorkResult at'.n w.json)
  port r

def recordGate (receipt : Fields) : Io Unit := do
  ask (.keepGate receipt)
  let r ← ask (.writeGateReceipt at'.n receipt)
  port r

def commitWriterResult (slot : Slot) (workspace : Json) (receipt : WriterReceipt) : Io Work := do
  let _ ← remainingMs cfg at'.deadlineAt
  let r ← ask (.validateAndCommit slot workspace)
  let v ← port r
  let c ← valid (checkCommit cfg.lib cfg.template at'.plan slot receipt.baseSha v)
  recordWorkResult at' (workOf slot receipt c)
  pure (workOf slot receipt c)

def optional (key : String) : Option Json → Fields
  | some v => [(key, v)]
  | none => []

def attemptId (suffix : String) : String := "attempt-" ++ toString at'.n ++ "-" ++ suffix

def checkerDetails (slot : Slot) (w : Work) (deliveredInbox : List Json) : Fields :=
  let writer := at'.plan.writers slot
  [("assignment", cfg.assignment), ("requirementIds", strings writer.requirementIds),
    ("requirements", .arr ((at'.plan.requirements.filter fun r =>
      writer.requirementIds.contains r.id).map requirementJson)),
    ("acceptanceCriteria", .arr ((at'.plan.acceptanceCriteria.filter fun c =>
      writer.acceptanceIds.contains c.id).map criterionJson)),
    ("workItem", workItemJson at'.plan slot), ("baseSha", .str w.baseSha),
    ("resultSha", .str w.resultSha), ("diffSha256", .str w.diffSha256)] ++
    optional "diff" w.diff ++ [("deliveredInbox", Json.arr deliveredInbox)]

def checkWriterResult (slot : Slot) (w : Work) (deliveredInbox : List Json)
    (previousInboxCursor : ℕ) : Io Unit := do
  let viewId := "c-" ++ toString at'.n ++ "-" ++ slot.name ++ "-" ++ w.resultSha
  let r ← ask (.createReadView viewId w.resultSha)
  let v ← port r
  let view ← valid (plainObject v "checker read view")
  let id ← valid (named view "id" "checker read view ID is required")
  let prompt ← valid (buildPrompt (cfg.prompt .checker) "checker"
    (checkerDetails cfg at' slot w deliveredInbox))
  let raw ← runAgent cfg at'.deadlineAt
    { executionId := attemptId at' ("checker-" ++ slot.name), role := .checker
      attempt := at'.n, write := false, prompt := prompt, workspaceId := .str id
      writeDirectories := .arr [] }
  let slotName := slot.name
  let l ← valid (receiptOf raw s!"checker receipt {slotName}")
  let receipt ← valid (validateCheckerReceipt cfg.lib at'.plan slot w.baseSha w.resultSha
    w.diffSha256 deliveredInbox previousInboxCursor (.obj (put "files" (.arr []) l)))
  recordGate at' (spread [("gate", .str "checker"), ("workItemId", .str slot.name),
    ("subjectSha", .str w.resultSha)] receipt.json)
  if receipt.passed then pure () else Prog.fail (.checkerRejected slot receipt.why)

/-- What the writer of a new attempt is told about the one before. -/
def retryContext (prior : List Evidence) (slot : Slot) : Option Json :=
  prior.getLast?.map fun e =>
    let failed := e.gates.reverse.find? fun g => !PodStore.isStr (g.lookup "outcome") "passed"
    let gate := (failed.bind fun g => PodStore.strOf (g.lookup "gate")).getD "attempt"
    let own := failed.any fun g => PodStore.isStr (g.lookup "workItemId") slot.name
    let n := toString e.attempt
    let correction := "Attempt " ++ n ++ " failed the " ++ gate ++ " gate" ++
      (if own then " on your writer item." else ".") ++ " Correct only your assigned work " ++
      "within its writePaths so this exact gate passes on the replacement attempt."
    .obj [("attempt", Wire.ofNat e.attempt), ("gate", .str gate),
      ("outcome", (failed.bind (·.lookup "outcome")).getD (.str "failed")),
      ("reason", .str e.reason), ("evidence", (failed.bind (·.lookup "evidence")).getD (.arr [])),
      ("correction", .str correction)]

variable (prior : List Evidence)

/-- The part of starting a writer that comes before anything is waited for. -/
def writerInput (slot : Slot) (workspace : Json) (inbox : List Json) (executionId : String)
    (executionBaseSha : String) : Except String AgentInput := do
  let prompt ← buildPrompt (cfg.prompt (.writer slot)) "writer"
    ([("assignment", cfg.assignment), ("plan", at'.plan.json),
      ("workItem", workItemJson at'.plan slot), ("inbox", .arr inbox),
      ("executionBaseSha", .str executionBaseSha)] ++ optional "retry" (retryContext prior slot))
  pure
    { executionId := executionId, role := .writer slot, attempt := at'.n, write := true
      prompt := prompt, workspaceId := ((workspace.get "id").getD .null)
      writeDirectories := ((workspace.get "writeDirectories").getD .null) }

def validateWriter (slot : Slot) (executionBaseSha : String) (deliveredInbox : List Json)
    (previousInboxCursor : ℕ) (raw : Json) : Except String WriterReceipt := do
  let slotName := slot.name
  let l ← receiptOf raw s!"writer receipt {slotName}"
  validateWriterReceipt cfg.lib cfg.templateJson at'.plan slot executionBaseSha deliveredInbox
    previousInboxCursor (.obj l)

/-- A writer that is started and waited for. -/
def executeWriter (slot : Slot) (workspace : Json) (inbox : List Json) (executionId : String)
    (executionBaseSha : String) : Io Json := do
  let input ← valid (writerInput cfg at' prior slot workspace inbox executionId executionBaseSha)
  runAgent cfg at'.deadlineAt input

/-- A writer whose turn to start has come, once nothing else is to be done. -/
def launch (slot : Slot) (input : AgentInput) : Io Unit := do
  let r ← (executionSeconds cfg at'.deadlineAt).attempt
  match r with
  | .ok seconds => ask (.start slot { input with timeoutSeconds := seconds })
  | .error e => ask (.reject slot e)

def launchAll : List (Slot × AgentInput) → Io Unit :=
  Prog.each fun p => launch cfg at' p.1 p.2

/-- The three writers. Where one cannot be prepared, those before it start all the same. -/
def startWriters (workspace : Slot → Json) :
    List Slot → List (Slot × AgentInput) → Io Unit
  | [], ready => launchAll cfg at' ready
  | slot :: slots, ready => do
    let r ← (do
      let input ← valid (writerInput cfg at' prior slot (workspace slot) []
        (attemptId at' slot.name) at'.baseSha)
      let _ ← remainingMs cfg at'.deadlineAt
      pure input : Io AgentInput).attempt
    match r with
    | .ok input => startWriters workspace slots (ready ++ [(slot, input)])
    | .error e => do
      launchAll cfg at' ready
      Prog.fail e

/-- A request that was queued for the other engineer. -/
structure InboxRequest where
  checkpoint : Work

/-- What the writers have come to so far. -/
structure Progress where
  initial : Slot → Option WriterReceipt := fun _ => none
  firstError : Option Err := none
  inboxRequest : Option InboxRequest := none

def set {α : Type} (f : Slot → Option α) (slot : Slot) (a : α) : Slot → Option α :=
  fun s => if s = slot then some a else f s

/-- The request is one that the owner can still take up. -/
def withinOwner (plan : Plan) (r : Request) : Bool :=
  let owner := plan.writers .engineeringB
  decide (r.requirementIds ≠ []) && r.requirementIds.all (owner.requirementIds.contains ·) &&
    owner.writePaths.any (pathIsOwned r.path)

def requestEntry (r : Request) (checkpoint : Work) : Fields :=
  [("requester", .str Slot.engineeringA.name), ("owner", .str r.owner.name), ("path", .str r.path),
    ("requirementIds", strings r.requirementIds), ("acceptanceIds", strings r.acceptanceIds),
    ("ownerBriefSha256", .str r.ownerBriefSha256), ("need", .str r.need), ("why", .str r.why),
    ("requesterCheckpointSha", .str checkpoint.resultSha)]

def replacement : Err := .invalid "dependency request requires a replacement attempt"

/-- The first error counts. -/
def noteFirst (p : Progress) (e : Err) : Io Progress := do
  ask (.keepError e)
  pure { p with firstError := p.firstError <|> some e }

/-- A writer that waits for the other engineer: its work so far is committed and checked, and
its request is queued. -/
def takeRequest (workspace : Slot → Json) (p : Progress) (slot : Slot) (receipt : WriterReceipt)
    (request : Request) : Io Progress := do
  let active : Bool ← ask (.active .engineeringB)
  if ¬(slot = .engineeringA ∧ request.owner = .engineeringB ∧ active = true ∧
      withinOwner at'.plan request = true) then
    noteFirst p replacement
  else do
    let checkpoint ← commitWriterResult cfg at' slot (workspace slot) receipt
    checkWriterResult cfg at' slot checkpoint [] 0
    let still : Bool ← ask (.active .engineeringB)
    if still = false then
      noteFirst p (.invalid "dependency owner completed before the request could be queued")
    else do
      let r ← ask (.enqueueInbox at'.n (requestEntry request checkpoint))
      let v ← port r
      let _ ← valid (plainObject v "inbox entry")
      let r ← ask (.appendEvent (.inboxQueued at'.n .engineeringB))
      port r
      pure { p with inboxRequest := some { checkpoint := checkpoint } }

/-- What is done with the answer of a writer. -/
def takeReceipt (workspace : Slot → Json) (p : Progress) (slot : Slot) (raw : Json) :
    Io Progress := do
  let receipt ← valid (validateWriter cfg at' slot at'.baseSha [] 0 raw)
  let p := { p with initial := set p.initial slot receipt }
  match receipt.outcome, receipt.dependencyRequest with
  | .failed, _ => noteFirst p (.writerFailed slot receipt.why)
  | .blocked, some request => takeRequest cfg at' workspace p slot receipt request
  | .blocked, none => noteFirst p replacement
  | .completed, _ => pure p

/-- An error that may be an interruption: everything is cancelled then. -/
def noteError (p : Progress) (e : Err) : Io Progress := do
  let p ← noteFirst p e
  if terminalInterruption e then
    let _ ← ask .cancelActive
    pure p
  else pure p

/-- The writers are taken as they settle. After the first error they are only waited for. -/
def settleWriters (workspace : Slot → Json) : ℕ → List Slot → Progress → Io Progress
  | 0, _, p => pure p
  | k + 1, pending, p => do
    let (slot, out) ← ask (.race pending)
    match out with
    | .error e => do
      let p ← noteError p e
      settleWriters workspace k (pending.erase slot) p
    | .ok raw =>
      if p.firstError.isSome then settleWriters workspace k (pending.erase slot) p
      else do
        let r ← (takeReceipt cfg at' workspace p slot raw).attempt
        match r with
        | .ok p => settleWriters workspace k (pending.erase slot) p
        | .error e => do
          let p ← noteError p e
          settleWriters workspace k (pending.erase slot) p

/-- The worktrees of the three writers. -/
def createWorktrees : List Slot → (Slot → Json) → Io (Slot → Json)
  | [], workspace => pure workspace
  | slot :: slots, workspace => do
    let name := slot.name
    let r ← ask (.createWorktree at'.n slot at'.baseSha)
    let v ← port r
    let l ← valid (plainObject v s!"workspace {name}")
    let _ ← valid (named l "id" s!"workspace {name} ID is required")
    let _ ← valid (named l "root" s!"workspace {name} root is required")
    let _ ← valid (assertArray (field l "writeDirectories") 0 maxSafeInteger
      s!"workspace {name} writeDirectories are required")
    createWorktrees slots fun s => if s = slot then v else workspace s

/-- The commits of the writers that are done. -/
def commitAll (workspace : Slot → Json) (initial : Slot → Option WriterReceipt) :
    List Slot → (Slot → Option Work) → Io (Slot → Option Work)
  | [], done => pure done
  | slot :: slots, done =>
    match initial slot with
    | none => commitAll workspace initial slots done
    | some receipt =>
      if receipt.outcome = .blocked then commitAll workspace initial slots done
      else do
        let w ← commitWriterResult cfg at' slot (workspace slot) receipt
        commitAll workspace initial slots (set done slot w)

/-- The checks of these commits. All of them are made, and the first failure counts. -/
def checkAll (completed : Slot → Option Work) :
    List Slot → (Slot → Option Work) → Option Err → Io (Slot → Option Work)
  | [], accepted, none => pure accepted
  | [], _, some e => Prog.fail e
  | slot :: slots, accepted, failure =>
    match completed slot with
    | none => checkAll completed slots accepted failure
    | some w => do
      let r ← (checkWriterResult cfg at' slot w [] 0).attempt
      match r with
      | .ok () => checkAll completed slots (set accepted slot w) failure
      | .error e => do
        ask (.keepError e)
        checkAll completed slots accepted (failure <|> some e)

def strictInboxEntry (v : Json) : Except String Json := do
  let l ← plainObject v "inbox entry"
  pure (.obj (entryFields.filterMap fun key => (l.lookup key).map fun x => (key, x)))

/-- The other engineer takes up the request, and then the one who asked goes on from both. -/
def resume (workspace : Slot → Json) (initial : Slot → Option WriterReceipt)
    (request : InboxRequest) (accepted : Slot → Option Work) : Io (Slot → Option Work) := do
  let cursor := ((initial .engineeringB).map (·.inboxCursor)).getD 0
  let prior' := ((accepted .engineeringB).map (·.resultSha)).getD ""
  let r ← ask (.readInbox at'.n cursor)
  let entries ← port r
  let inbox ← valid (entries.mapM strictInboxEntry)
  valid (require (inbox ≠ []) "dependency owner did not receive its queued request")
  let ownerRaw ← executeWriter cfg at' prior .engineeringB (workspace .engineeringB) inbox
    (attemptId at' (Slot.engineeringB.name ++ "-inbox")) prior'
  let ownerReceipt ← valid (validateWriter cfg at' .engineeringB prior' inbox cursor ownerRaw)
  valid (require (ownerReceipt.outcome = .completed)
    "dependency owner did not complete its inbox request")
  let ownerResult ← commitWriterResult cfg at' .engineeringB (workspace .engineeringB) ownerReceipt
  checkWriterResult cfg at' .engineeringB ownerResult inbox cursor
  valid (require (cfg.combines = true) "source.combineBase is required for dependency resumption")
  let r ← ask (.combineBase at'.n request.checkpoint.resultSha ownerResult.resultSha)
  let v ← port r
  let combined ← valid (plainObject v "combined requester base")
  let requesterWorkspace := match combined.lookup "workspace" with
    | some .null | none => Json.obj combined
    | some w => w
  let base := match combined.lookup "baseSha" with
    | some .null | none => (requesterWorkspace.get "baseSha").getD .null
    | some b => b
  let baseSha := (Json.asStr base).getD ""
  let requesterRaw ← executeWriter cfg at' prior .engineeringA requesterWorkspace []
    (attemptId at' (Slot.engineeringA.name ++ "-resume")) baseSha
  let requesterReceipt ← valid (validateWriter cfg at' .engineeringA baseSha [] 0 requesterRaw)
  valid (require (requesterReceipt.outcome = .completed)
    "dependency requester did not complete after resumption")
  let workspace' := match requesterWorkspace with
    | .obj l => Json.obj (put "baseSha" base l)
    | w => w
  let requesterResult ← commitWriterResult cfg at' .engineeringA workspace' requesterReceipt
  checkWriterResult cfg at' .engineeringA requesterResult [] 0
  pure (set (set accepted .engineeringB ownerResult) .engineeringA requesterResult)

/-! #### The gates -/

def gateRecord (gate subjectSha why : String) (evidence : Json) : Fields :=
  [("gate", .str gate), ("subjectSha", .str subjectSha), ("outcome", .str "passed"),
    ("why", .str why), ("evidence", evidence)]

def Gate.phase : Gate → String
  | .qa => "qa-conformance"
  | .testing => "testing"

def Gate.label : Gate → String
  | .qa => "QA conformance receipt"
  | .testing => "Testing receipt"

/-- The two agents that judge the candidate. The record of the first is named after its phase. -/
def conformance (gate : Gate) (candidateSha : String) (viewId : String) : Io Unit := do
  let prompt ← valid (buildPrompt (cfg.prompt (.conformance gate)) (Gate.phase gate)
    [("assignment", cfg.assignment), ("plan", at'.plan.json), ("candidateSha", .str candidateSha)])
  let raw ← runAgent cfg at'.deadlineAt
    { executionId := attemptId at' (Gate.phase gate), role := .conformance gate, attempt := at'.n
      write := false, prompt := prompt, workspaceId := .str viewId, writeDirectories := .arr [] }
  let l ← valid (receiptOf raw (Gate.label gate))
  let receipt ← valid (validateConformanceReceipt at'.plan gate candidateSha
    (.obj (put "files" (.arr []) l)))
  recordGate at' (spread ((if gate = .qa then [("gate", Json.str "qa-conformance")] else []) ++
    [("subjectSha", Json.str candidateSha)]) receipt.json)
  if receipt.passed then pure () else Prog.fail (.conformanceFailed gate receipt.why)

/-- A status and a candidate, as the verifier and the scanner give them. -/
def passedExactly (v : Json) (candidateSha label message : String) : Except String Fields := do
  let l ← plainObject v label
  require (PodStore.isStr (l.lookup "status") "passed" ∧
    PodStore.isStr (l.lookup "candidateSha") candidateSha) message
  pure l

def truthy : Option Json → Bool
  | none | some .null | some (.bool false) => false
  | some (.str s) => s != ""
  | some (.num t) => t != "0"
  | some _ => true

/-- The ID of a read view of the candidate. -/
def candidateView (integrated : Fields) (candidateSha : String) : Io String := do
  let view ←
    if truthy (integrated.lookup "workspaceRoot") && truthy (integrated.lookup "workspaceId") then
      pure (Json.obj [("id", field integrated "workspaceId"),
        ("root", field integrated "workspaceRoot")])
    else do
      let r ← ask (.createReadView (attemptId at' "candidate") candidateSha)
      port r
  let l ← valid (plainObject view "candidate read view")
  let id ← valid (named l "id" "candidate read view is invalid")
  let _ ← valid (named l "root" "candidate read view is invalid")
  pure id

/-- From three accepted commits to a candidate that has passed every gate. -/
def gates (commits : List Work) : Io String := do
  let _ ← remainingMs cfg at'.deadlineAt
  let r ← ask (.integrate at'.n at'.baseSha commits cfg.branch)
  let v ← port r
  let integrated ← valid (plainObject v "integration result")
  let candidateSha ← valid (assertSha (field integrated "candidateSha") "candidateSha")
  let viewId ← candidateView at' integrated candidateSha
  let r ← ask (.createSnapshot (attemptId at' "candidate") candidateSha)
  let v ← port r
  let _ ← valid (plainObject v "candidate snapshot")
  conformance cfg at' .qa candidateSha viewId
  conformance cfg at' .testing candidateSha viewId
  let ms ← remainingMs cfg at'.deadlineAt
  let r ← ask (.verifyCandidate candidateSha (min 900 (ms / 1000)))
  let v ← port r
  let verification ← valid (passedExactly v candidateSha "trusted verification receipt"
    "trusted verification did not pass the exact candidate SHA")
  recordGate at' (gateRecord "trusted-verification" candidateSha
    "Trusted verification passed the exact candidate SHA." (field verification "evidence"))
  let r ← ask (.scan at'.baseSha candidateSha)
  let v ← port r
  let scan ← valid (passedExactly v candidateSha "pre-publication scan receipt"
    "pre-publication scan did not pass the exact candidate SHA")
  recordGate at' (gateRecord "pre-publication-scan" candidateSha
    "The source and commit scan passed." (field scan "evidence"))
  recordGate at' (gateRecord "publication-ready" candidateSha
    "The exact tested candidate is ready for isolated publication."
    (strings ["candidate:" ++ candidateSha, "branch:" ++ cfg.branch]))
  pure candidateSha

/-- The three commits, once each slot has one that was accepted. -/
def commitsOf (accepted : Slot → Option Work) : Option (List Work) :=
  match accepted .engineeringA, accepted .engineeringB, accepted .qaTests with
  | some a, some b, some q => some [a, b, q]
  | _, _, _ => none

def runAttempt : Io String := do
  let workspace ← createWorktrees at' writerIds fun _ => .null
  let r ← ask (.appendEvent (.writersStarted at'.n))
  port r
  startWriters cfg at' prior workspace writerIds []
  let p ← settleWriters cfg at' workspace 3 writerIds {}
  match p.firstError with
  | some e => Prog.fail e
  | none => do
    match writerIds.find? fun slot => (p.initial slot).isNone with
    | some slot =>
      let name := slot.name
      Prog.fail (.invalid s!"writer {name} did not return a receipt")
    | none => do
      let completed ← commitAll cfg at' workspace p.initial writerIds fun _ => none
      let accepted ← checkAll cfg at' completed writerIds (fun _ => none) none
      let accepted ← match p.inboxRequest with
        | some request => resume cfg at' prior workspace p.initial request accepted
        | none => pure accepted
      match commitsOf accepted with
      | none => Prog.fail (.invalid "attempt did not produce three accepted writer results")
      | some commits => gates cfg at' commits

end Run

/-! ### Attempts -/

section Attempts

variable (cfg : Config) (baseSha : String) (existingDirectories : Json)

def Evidence.json (e : Evidence) : Json :=
  .obj [("attempt", Wire.ofNat e.attempt), ("plan", e.plan.getD .null),
    ("workResults", .arr e.workResults), ("gates", .arr (e.gates.map .obj)),
    ("reason", .str e.reason)]

/-- The plan of an attempt. -/
def makePlan (n deadlineAt : ℕ) (prior : List Evidence) : Io Plan := do
  let _ ← remainingMs cfg deadlineAt
  let r ← ask (.appendEvent (.planStarted n baseSha))
  port r
  let id := "attempt-" ++ toString n ++ "-planner"
  let r ← ask (.createReadView id baseSha)
  let view ← port r
  let prompt ← valid (buildPrompt (cfg.prompt .planner) "planner"
    [("assignment", cfg.assignment), ("attempt", Wire.ofNat n), ("baseSha", .str baseSha),
      ("priorAttempts", .arr (prior.map Evidence.json))])
  let raw ← runAgent cfg deadlineAt
    { executionId := id, role := .planner, attempt := n, write := false, prompt := prompt
      workspaceId := (view.get "id").getD .null, writeDirectories := .arr [] }
  let l ← valid (receiptOf raw "attempt plan")
  let plan ← valid (validateAttemptPlan cfg.lib (.obj l) cfg.templateJson (.str baseSha)
    existingDirectories)
  ask (.keepPlan plan.json)
  valid (require (plan.attempt = n) "attempt plan does not match the active attempt")
  let r ← ask (.writeAttemptPlan n plan.json)
  port r
  let r ← ask (.appendEvent (.planFinished n))
  port r
  pure plan

/-- One attempt, up to the event that makes its candidate public. -/
def attemptOnce (n deadlineAt : ℕ) (prior : List Evidence) : Io String := do
  let plan ← makePlan cfg baseSha existingDirectories n deadlineAt prior
  let candidateSha ← runAttempt cfg
    { n := n, baseSha := baseSha, deadlineAt := deadlineAt, plan := plan } prior
  let r ← ask (.appendEvent (.publicationReady n baseSha candidateSha cfg.branch))
  port r
  pure candidateSha

/-- The attempts from this one on. -/
def attemptsFrom : ℕ → ℕ → List Evidence → Io String
  | 0, _, _ => Prog.fail (.invalid "pod exhausted attempts")
  | k + 1, n, prior => do
    let t ← now
    ask (.begin n)
    let r ← (attemptOnce cfg baseSha existingDirectories n
      (min cfg.deadlineAt (t + cfg.template.attemptSeconds * 1000)) prior).attempt
    match r with
    | .ok candidateSha => pure candidateSha
    | .error e => do
      let (plan, workResults, gates) ← ask .kept
      let r ← ask (.appendEvent (.attemptFailed n e.reason))
      port r
      if terminalInterruption e || n == cfg.template.maxAttempts then Prog.fail e
      else attemptsFrom k (n + 1) (prior ++ [{
        attempt := n, plan := plan, workResults := workResults, gates := gates
        reason := e.reason }])

end Attempts

/-- What the run is based on, checked once before the first attempt. -/
def prepare (cfg : Config) : Io (String × Json) := do
  let r ← ask (.appendEvent .runStarted)
  port r
  let r ← ask .prepareAssignment
  let v ← port r
  let l ← valid (plainObject v "prepared assignment")
  let baseSha ← valid (assertSha (field l "baseSha") "baseSha")
  let _ ← valid (assertArray (field l "existingDirectories") 0 maxSafeInteger
    "prepared assignment existingDirectories are required")
  let r ← ask (.createSnapshot "run-base" baseSha)
  let v ← port r
  let _ ← valid (plainObject v "base snapshot")
  if cfg.template.verificationProfile = .piPalantir then do
    let r ← ask (.appendEvent (.preflightStarted baseSha))
    port r
    let ms ← remainingMs cfg cfg.deadlineAt
    let r ← ask (.verifyCandidate baseSha (min 900 (ms / 1000)))
    let v ← port r
    let _ ← valid (passedExactly v baseSha "repository preflight receipt"
      "repository verification preflight did not pass the exact base SHA")
    let r ← ask (.appendEvent (.preflightPassed baseSha))
    port r
    pure (baseSha, field l "existingDirectories")
  else pure (baseSha, field l "existingDirectories")

/-- The run itself: it is over when a candidate is ready or when it cannot go on. -/
def workflow (cfg : Config) : Io String := do
  let (baseSha, existingDirectories) ← prepare cfg
  attemptsFrom cfg baseSha existingDirectories cfg.template.maxAttempts 1 []

/-- What is done when a run fails: everything is cancelled and waited for, and the record is
finished. What fails in doing so takes the place of the error. -/
def giveUp (e : Err) : Io String := do
  let _ ← ask .cancelActive
  ask .settleAll
  let r ← (do
    let r ← ask (.finish e.reason)
    port r : Io Unit).attempt
  let closed ← ask (.close false)
  match closed, r with
  | .error message, _ => Prog.fail (.port message)
  | .ok (), .error e' => Prog.fail e'
  | .ok (), .ok () => Prog.fail e

/-- A run whose input was accepted. -/
def runPod (cfg : Config) : Io String := do
  let r ← (workflow cfg).attempt
  match r with
  | .ok candidateSha => do
    let _ ← ask (.close true)
    pure candidateSha
  | .error e => giveUp e

/-! ### The input of a run -/

structure PodInput where
  lib : Lib
  template : Json
  templateDigest : String
  prompts : Json
  assignment : Json
  repository : String
  baseRevision : String
  targetBranch : String
  runId : String
  stateRoot : String
  deadlineAt : Option ℕ
  combines : Bool

def Role.key : Role → String
  | .planner => "planner"
  | .writer slot => slot.name
  | .checker => "checker"
  | .conformance gate => gate.name

def promptKeys : List String :=
  ["planner", "engineering-a", "engineering-b", "qa-tests", "checker", "qa", "testing"]

def promptsFrom (l : Fields) : List String → Except String Unit
  | [] => .ok ()
  | key :: keys => do
    let message := s!"prompt {key} must be non-empty and at most 32768 bytes"
    match field l key with
    | .str s =>
      require (s.toList.all isBlank = false ∧ len s ≤ 32 * 1024) message
      require (s.toList.any isUnsafe = false) s!"prompt {key} contains unsafe control characters"
    | _ => .error message
    promptsFrom l keys

def validatePrompts (v : Json) : Except String Fields := do
  let l ← plainObject v "prompts"
  require (l.length = promptKeys.length ∧ promptKeys.all (fun key => (l.lookup key).isSome) = true)
    ("prompts must contain exactly " ++ ", ".intercalate promptKeys)
  promptsFrom l promptKeys
  pure l

/-- The checks before the first call, but for the clock. -/
def checkInput (input : PodInput) : Except String (Template × Fields) := do
  let template ← validatePodTemplate input.lib input.template
  let prompts ← validatePrompts input.prompts
  let _ ← plainObject input.assignment "assignment"
  require (isSha256 input.templateDigest) "templateDigest must be a SHA-256 digest"
  require (input.repository ≠ "") "repository is required"
  require (input.baseRevision ≠ "") "baseRevision is required"
  require (input.targetBranch ≠ "") "targetBranch is required"
  require (input.runId ≠ "") "runId is required"
  require (input.stateRoot ≠ "") "stateRoot is required"
  pure (template, prompts)

lemma template_of_checkInput {input : PodInput} {template : Template} {prompts : Fields}
    (h : checkInput input = .ok (template, prompts)) :
    validatePodTemplate input.lib input.template = .ok template := by
  obtain ⟨template', htemplate, h⟩ := bind_eq_ok.mp h
  obtain ⟨_, -, h⟩ := bind_eq_ok.mp h
  obtain ⟨_, -, h⟩ := bind_eq_ok.mp h
  obtain ⟨_, -, h⟩ := bind_eq_ok.mp h
  obtain ⟨_, -, h⟩ := bind_eq_ok.mp h
  obtain ⟨_, -, h⟩ := bind_eq_ok.mp h
  obtain ⟨_, -, h⟩ := bind_eq_ok.mp h
  obtain ⟨_, -, h⟩ := bind_eq_ok.mp h
  obtain ⟨_, -, h⟩ := bind_eq_ok.mp h
  obtain ⟨rfl, -⟩ := Prod.mk.inj (Except.ok.inj h)
  exact htemplate

def deadlineOf (startedAt limit : ℕ) (supplied : Option ℕ) : Except String ℕ := do
  require (limit ≤ maxSafeInteger) "workflow deadline exceeds the safe integer range"
  match supplied with
  | none => pure limit
  | some t =>
    require (t ≤ maxSafeInteger ∧ startedAt < t)
      "deadlineAt must be a safe integer strictly in the future"
    require (t ≤ limit) "deadlineAt cannot extend the workflow budget"
    pure t

def configure (input : PodInput) : Io Config := do
  let (template, prompts) ← valid (checkInput input)
  let startedAt ← now
  let deadlineAt ← valid
    (deadlineOf startedAt (startedAt + template.workflowSeconds * 1000) input.deadlineAt)
  pure
    { lib := input.lib, templateJson := input.template, template := template
      prompt := fun role => (PodStore.strOf (prompts.lookup role.key)).getD ""
      assignment := input.assignment, branch := "bimo/" ++ input.runId
      deadlineAt := deadlineAt, combines := input.combines }

def runEngineeringPod (input : PodInput) : Io String := do
  let cfg ← configure input
  runPod cfg

end Bimo.Controller
