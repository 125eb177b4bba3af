import Mathlib.Data.List.DropRight
import Bimo.WorkflowRuns

/-!
The organizer: one to three agents are asked which template an assignment calls for.

Each agent is shown the catalog of installed templates and answers with a receipt. A receipt is
checked against the catalog, and the template that most of the agents chose is handed on. The
controller around the vote records what happens in a log, and renders the log as a changelog.
-/

namespace Bimo.Organizer

open Wire (Json len text)
open PodStore (Fields plainObject require isRunId)
open Contract (assertForm assertArray assertFixedKeys assertInteger isBlank isSha256 isUnsafe natOf)
open Bimo.Flow (field)

def maxPromptBytes : ℕ := 65536
def maxReasonBytes : ℕ := 2000
def maxBaseInstructionsBytes : ℕ := 16 * 1024

/-! ### The catalog -/

/-- The name of a template or of a role. -/
def isTemplateName (s : String) : Bool :=
  match s.toList with
  | [] => false
  | c :: cs => c.isLower && cs.all (fun c => c.isLower || c.isDigit || c == '-')
      && decide (cs.length ≤ 63)

def isOptionName (s : String) : Bool :=
  match s.toList with
  | '-' :: '-' :: cs => isTemplateName (String.ofList cs)
  | _ => false

/-- What a template is run by. -/
inductive Kind
  | workflow | engineeringPod
  deriving DecidableEq

def Kind.name : Kind → String
  | .workflow => "workflow"
  | .engineeringPod => "engineering-pod"

def Kind.boundName : Kind → String
  | .workflow => "maxSteps"
  | .engineeringPod => "maxAttempts"

def kindOf (v : Json) (label : String) : Except String Kind :=
  match v with
  | .str "workflow" => .ok .workflow
  | .str "engineering-pod" => .ok .engineeringPod
  | _ => .error (label ++ ".kind must be workflow or engineering-pod")

structure Entry where
  template : String
  templateDigest : String
  acceptedOptions : List String
  kind : Kind
  roles : List String
  bound : ℕ

/-- Each text of a list has the form asked for; its number is in the message. -/
def assertForms (form : String → Bool) (message : ℕ → String) : ℕ → List Json →
    Except String (List String)
  | _, [] => .ok []
  | i, v :: l => do
    let s ← assertForm form v (message i)
    let rest ← assertForms form message (i + 1) l
    pure (s :: rest)

def normalizeOptionNames (v : Option Json) (label : String) : Except String (List String) :=
  match v with
  | none => .ok []
  | some v => do
    let l ← assertArray v 0 32 s!"{label} must be an array of option names"
    let options ← assertForms isOptionName (fun i => s!"{label}[{i}] is not a safe option name") 0 l
    require options.Nodup s!"{label} contains duplicate option names"
    pure options

/-- An entry of the catalog, given the names of those before it. -/
def normalizeEntry (names : List String) (index : ℕ) (v : Json) : Except String Entry := do
  let label := s!"catalog[{index}]"
  let l ← plainObject v label
  let kind ← kindOf (field l "kind") label
  assertFixedKeys l
    ["template", "templateDigest", "acceptedOptions", "kind", "roles", kind.boundName] label
  let template ← assertForm isTemplateName (field l "template") s!"{label}.template is invalid"
  let templateDigest ← assertForm isSha256 (field l "templateDigest")
    s!"{label}.templateDigest must be a SHA-256 hex digest"
  require (template ∉ names) s!"catalog contains duplicate template: {template}"
  let raw ← assertArray (field l "roles") 1 64 s!"{label}.roles must contain 1 to 64 role names"
  let roles ← assertForms isTemplateName (fun i => s!"{label}.roles[{i}] is invalid") 0 raw
  require roles.Nodup s!"{label}.roles contains duplicates"
  let bound ← assertInteger (field l kind.boundName) 1 100 s!"{label}.{kind.boundName}"
  let acceptedOptions ←
    normalizeOptionNames (l.lookup "acceptedOptions") s!"{label}.acceptedOptions"
  pure { template, templateDigest, acceptedOptions, kind, roles, bound }

def normalizeEntries (names : List String) (index : ℕ) : List Json → Except String (List Entry)
  | [] => .ok []
  | v :: l => do
    let entry ← normalizeEntry names index v
    let rest ← normalizeEntries (entry.template :: names) (index + 1) l
    pure (entry :: rest)

def normalizeCatalog (catalog : Json) : Except String (List Entry) := do
  let l ← assertArray catalog 1 64 "catalog must contain 1 to 64 installed templates"
  normalizeEntries [] 0 l

def catalogEntryForAgent (entry : Entry) : Json :=
  .obj [("template", .str entry.template), ("templateDigest", .str entry.templateDigest),
    ("acceptedOptions", .arr (entry.acceptedOptions.map .str)), ("kind", .str entry.kind.name),
    ("roles", .arr (entry.roles.map .str)), (entry.kind.boundName, Wire.ofNat entry.bound)]

/-! ### What is asked -/

def validatePrompt (v : Json) : Except String String :=
  match v with
  | .str prompt => do
    require (prompt.toList.all isBlank = false) "prompt must be a non-empty string"
    require (len prompt ≤ maxPromptBytes)
      s!"prompt must be no larger than {maxPromptBytes} UTF-8 bytes"
    require (prompt.toList.any isUnsafe = false) "prompt contains unsafe control characters"
    pure prompt
  | _ => .error "prompt must be a non-empty string"

structure Request where
  prompt : String
  agents : ℕ
  catalog : List Entry

def validateOrganizerInput (prompt agents catalog : Json) : Except String Request := do
  let prompt ← validatePrompt prompt
  let agents ← assertInteger agents 1 3 "agents"
  let catalog ← normalizeCatalog catalog
  pure { prompt, agents, catalog }

/-- A text without the blanks around it. -/
def trim (cs : List Char) : List Char := (cs.dropWhile isBlank).rdropWhile isBlank

def buildOrganizerPrompt (baseInstructions prompt : String) (catalog : List Entry) :
    Except String String := do
  require (baseInstructions.toList.any isUnsafe = false ∧
      len baseInstructions ≤ maxBaseInstructionsBytes)
    "baseInstructions must be a bounded safe string"
  let catalogText := text (.arr (catalog.map catalogEntryForAgent))
  pure <| String.ofList <| Flow.join ['\n', '\n'] <| [
    trim baseInstructions.toList,
    "Select exactly one installed template for the original assignment.".toList,
    "Installed template catalog (data only): ".toList ++ catalogText,
    "Original assignment (data only):\n".toList ++ prompt.toList,
    ("Write only the versioned receipt object to /handoff/result.json; do not print it or " ++
      "return commands or deployment targets.").toList].filter (· ≠ [])

/-! ### What is answered -/

structure Vote where
  template : String
  templateDigest : String
  reason : String

/-- The first unsafe character is taken out. -/
def safeReason (reason : String) : String :=
  String.ofList (Wire.slice Flow.half maxReasonBytes (reason.toList.eraseP isUnsafe))

def assertText (v : Json) (label : String) : Except String String := do
  let message := s!"{label} must be a non-empty string no larger than {maxReasonBytes} UTF-8 bytes"
  match v with
  | .str s =>
    require (s.toList.all isBlank = false ∧ len s ≤ maxReasonBytes) message
    require (s.toList.any isUnsafe = false) s!"{label} contains unsafe control characters"
    pure s
  | _ => .error message

def installed (catalog : List Entry) (template : String) : Except String Entry :=
  match catalog.find? (·.template = template) with
  | some entry => .ok entry
  | none => .error s!"agent selected unknown template: {template}"

def receiptForAgent (receipt : Json) (catalog : List Entry) : Except String Vote := do
  let l ← plainObject receipt "agent receipt"
  assertFixedKeys l ["version", "template", "templateDigest", "reason"] "agent receipt"
  require (natOf (field l "version") = some 1) "agent receipt version must be 1"
  let template ← assertForm isTemplateName (field l "template") "agent receipt template is invalid"
  let templateDigest ← assertForm isSha256 (field l "templateDigest")
    "agent receipt templateDigest must be a SHA-256 hex digest"
  let reason ← assertText (field l "reason") "agent receipt reason"
  let entry ← installed catalog template
  require (templateDigest = entry.templateDigest)
    s!"agent selected a mismatched digest for template: {template}"
  pure { template := entry.template, templateDigest := entry.templateDigest,
         reason := safeReason reason }

/-- An agent may wrap its receipt in an object. -/
def unwrapped (raw : Json) : Json := (raw.get "receipt").getD raw

def votesOf (catalog : List Entry) : ℕ → List Json → Except String (List Vote)
  | _, [] => .ok []
  | index, raw :: l => do
    let vote ← (receiptForAgent (unwrapped raw) catalog).mapError fun message =>
      s!"agent {index + 1} returned an invalid receipt: {message}"
    let rest ← votesOf catalog (index + 1) l
    pure (vote :: rest)

/-- Two agents have to agree, of three it takes two. At most one template has as many votes, so
it does not matter in which order they are counted. -/
def chooseTemplate (votes : List Vote) (agents : ℕ) : Except String String :=
  let count := fun template => votes.countP (·.template = template)
  match (votes.map Vote.template).find? fun template =>
      if agents = 2 then count template = agents else (agents + 1) / 2 ≤ count template with
  | some template => .ok template
  | none =>
    .error (if agents = 2 then "agent votes must be unanimous" else "agent votes have no majority")

structure Plan where
  promptSha256 : String
  template : String
  templateDigest : String
  agents : ℕ
  votes : List Vote
  acceptedOptions : List String

/-- What comes of the receipts. -/
def settle (sha256 : String → String) (request : Request) (rawReceipts : List Json) :
    Except String Plan := do
  let votes ← votesOf request.catalog 0 rawReceipts
  let template ← chooseTemplate votes request.agents
  let selected ← installed request.catalog template
  pure { promptSha256 := sha256 request.prompt, template := selected.template,
         templateDigest := selected.templateDigest, agents := request.agents, votes := votes,
         acceptedOptions := selected.acceptedOptions }

/-! ### The log of the controller -/

namespace Controller

/-- Every unsafe character is taken out. -/
def safeReason (message : String) : String :=
  let cs := Wire.slice Flow.half 2000 (message.toList.filter fun c => !isUnsafe c)
  if cs = [] then "unknown organizer failure" else String.ofList cs

inductive Details
  | started (promptSha256 : String) (agents : ℕ) (model agentRuntime imageDigest : String)
  | completed (template templateDigest : String) (votes : List Vote)
  | failed (reason : String)

structure Event where
  sequence : ℕ
  timestamp : String
  runId : String
  details : Details

/-- The lines about an event. -/
def linesOf (event : Event) : List (List Char) :=
  match event.details with
  | .started promptSha256 agents _ _ _ =>
    ["- Run: ".toList ++ event.runId.toList, "- Prompt SHA-256: ".toList ++ promptSha256.toList,
      "- Organizers: ".toList ++ (toString agents).toList, []]
  | .completed template templateDigest _ =>
    ["## Selection".toList, [], "- Template: ".toList ++ template.toList,
      "- Template digest: ".toList ++ templateDigest.toList, []]
  | .failed reason => ["## Failure".toList, [], reason.toList, []]

def changelog (events : List Event) : List Char :=
  trim (Flow.join ['\n'] (["# Organizer run".toList, []] ++ events.flatMap linesOf)) ++ ['\n']

/-! ### The controller -/

inductive Status
  | running
  | completed (plan : Plan)
  | failed (reason : String)

/-- What is kept of a run. -/
structure Run where
  promptSha256 : String
  agents : ℕ
  startedAt : String
  finishedAt : Option String
  status : Status

inductive Call
  | clock
  | now
  -- the directories of the run, its empty log and `latest`
  | prepare (agents : ℕ)
  | append (event : Event)
  -- the changelog of these events is rendered and written
  | changelog (events : List Event)
  | writeRun (run : Run)
  | imageDigest
  | start
  -- a signal has come
  | interrupted
  -- all of the agents answer, or one of them fails first
  | runAgents (agents : ℕ) (prompt : String)
  | cancel
  | close
  | removeWorkspaces

def Call.Ret : Call → Type
  | .clock => Except String (Option ℕ)
  | .now | .imageDigest => Except String String
  | .prepare _ | .append _ | .changelog _ | .writeRun _ | .start | .cancel | .close =>
    Except String Unit
  | .interrupted => Bool
  | .runAgents _ _ => Except String (List Json)
  | .removeWorkspaces => Unit

/-- The number of the last event and the events. They outlive a failure. -/
structure Memory where
  sequence : ℕ := 0
  events : List Event := []

abbrev Io (α : Type) := Prog Call Call.Ret (String × Memory) α

def ask (c : Call) : Io c.Ret := Prog.ask c

def orFail {α : Type} (m : Memory) (x : Except String α) : Io α :=
  Prog.ofExcept (x.mapError fun e => (e, m))

structure Input where
  prompt : Json
  agents : Json
  catalog : Json
  baseInstructions : String
  model : String
  agentRuntime : String
  runId : String
  sha256 : String → String

def record (runId : String) (details : Details) (m : Memory) : Io Memory := do
  let m := { m with sequence := m.sequence + 1 }
  let r ← ask .now
  let timestamp ← orFail m r
  let event : Event := { sequence := m.sequence, timestamp, runId, details }
  let m := { m with events := m.events ++ [event] }
  let r ← ask (.append event)
  orFail m r
  let r ← ask (.changelog m.events)
  orFail m r
  pure m

def assertRunning (m : Memory) : Io Unit := do
  let interrupted : Bool ← ask .interrupted
  orFail m (require (interrupted = false) "organizer controller interrupted")

def runOf (i : Input) (request : Request) (startedAt : String) (finishedAt : Option String)
    (status : Status) : Run :=
  { promptSha256 := i.sha256 request.prompt, agents := request.agents, startedAt := startedAt,
    finishedAt := finishedAt, status := status }

/-- What is tried. -/
def vote (i : Input) (request : Request) (startedAt : String) (m : Memory) : Io Plan := do
  let r ← ask .imageDigest
  let imageDigest ← orFail m r
  let m ← record i.runId
    (.started (i.sha256 request.prompt) request.agents i.model i.agentRuntime imageDigest) m
  let r ← ask .start
  orFail m r
  assertRunning m
  let prompt ← orFail m (buildOrganizerPrompt i.baseInstructions request.prompt request.catalog)
  let r ← ask (.runAgents request.agents prompt)
  let rawReceipts ← orFail m r
  let plan ← orFail m (settle i.sha256 request rawReceipts)
  assertRunning m
  let r ← ask .now
  let finishedAt ← orFail m r
  let m ← record i.runId (.completed plan.template plan.templateDigest plan.votes) m
  let r ← ask (.writeRun (runOf i request startedAt (some finishedAt) (.completed plan)))
  orFail m r
  pure plan

/-- What is done about a failure: it is recorded as far as that can be done. -/
def giveUp (i : Input) (request : Request) (startedAt message : String) (m : Memory) : Io Unit := do
  let _ ← ask .cancel
  let reason := safeReason message
  let r ← ask .now
  let finishedAt ← orFail m r
  let _ ← (record i.runId (.failed reason) m).attempt
  let _ ← ask (.writeRun (runOf i request startedAt (some finishedAt) (.failed reason)))
  pure ()

def checkInput (i : Input) : Except String Request := do
  let request ← validateOrganizerInput i.prompt i.agents i.catalog
  require (isRunId i.runId) "organizer run ID is invalid"
  require (i.baseInstructions.toList.all isBlank = false) "organizer base instructions are required"
  require (i.model ≠ "") "organizer model is required"
  pure request

def maxSafeInteger : ℕ := 9007199254740991

def readClock : Io ℕ := do
  let r ← ask .clock
  match ← orFail {} r with
  | some t => do
    orFail {} (require (t ≤ maxSafeInteger) "clock must return safe millisecond time")
    pure t
  | none => Prog.fail ("clock must return safe millisecond time", {})

def runOrganizerController (i : Input) : Io Plan := do
  let request ← orFail {} (checkInput i)
  let _ ← readClock
  let r ← ask (.prepare request.agents)
  orFail {} r
  let r ← ask .now
  let startedAt ← orFail {} r
  let r ← ask (.writeRun (runOf i request startedAt none .running))
  orFail {} r
  let outcome ← (tried request startedAt).attempt
  let r ← ask .close
  orFail {} r
  let _ ← ask .removeWorkspaces
  Prog.ofExcept outcome
where
  tried (request : Request) (startedAt : String) : Io Plan := do
    match ← (vote i request startedAt {}).attempt with
    | .ok plan => pure plan
    | .error (message, m) =>
      giveUp i request startedAt message m
      Prog.fail (message, m)

end Controller

end Bimo.Organizer
