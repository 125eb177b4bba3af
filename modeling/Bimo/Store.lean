import Bimo.Factory
import Bimo.Wire

/-!
The factory's durable store: messages, inboxes, processed markers, terminal and tool-result
records, all under one state directory with one lock file.

Each function is the program its source is, over the single file operations, so that a process
can be stopped between any two of them. A message file, a record or a marker is written by
renaming or linking a finished file into place: it is there in whole or not at all. What is in
a file is kept as the value its text is read back to.
-/

namespace Bimo.Store

open Factory (FactoryState PodState PodStatus)
open Wire (Frame len)

inductive ErrorKind
  | invalidInput | invalidData | notFound | alreadyExists | other
  deriving DecidableEq, Repr

structure IoError where
  kind : ErrorKind
  message : String
  deriving DecidableEq, Repr

structure MessageEnvelope where
  schemaVersion : ℕ := 2
  id : String
  source : String
  destination : String
  kind : String
  payload : String
  replyTo : Option String := none
  effectId : Option String := none
  deriving DecidableEq, Repr

/-- A persisted result of a tool call. -/
structure ToolRecord where
  argsDigest : String
  result : Wire.Json

/-- A line of the effect journal. -/
structure JournalRecord where
  event : String
  deliveryId : String
  toolCallId : Option String := none
  effectId : Option String := none
  deriving DecidableEq, Repr

inductive Call
  | lock
  | unlock
  | readState
  | writeState (s : FactoryState)
  | ensureLayout
  | readMessage (id : String)
  | writeMessage (m : MessageEnvelope)
  | readInbox (pod : String)
  | writeInbox (pod text : String)
  | readProcessed (pod id : String)
  | writeProcessed (pod id : String)
  | readTerminal (id : String)
  /-- Fails if there is one. -/
  | linkTerminal (id : String) (f : Frame)
  | readToolResult (session id : String)
  | linkToolResult (session id : String) (r : ToolRecord)
  | append (r : JournalRecord)

def Call.Ret : Call → Type
  | .lock | .writeState _ | .ensureLayout | .writeMessage _ | .writeInbox _ _ | .writeProcessed _ _
  | .linkTerminal _ _ | .linkToolResult _ _ _ | .append _ => Except IoError Unit
  | .unlock => Unit
  | .readState => Except IoError (Option FactoryState)
  | .readMessage _ => Except IoError (Option MessageEnvelope)
  | .readInbox _ => Except IoError (Option String)
  | .readProcessed _ _ => Except IoError Bool
  | .readTerminal _ => Except IoError (Option Frame)
  | .readToolResult _ _ => Except IoError (Option ToolRecord)

abbrev Io (α : Type) := Prog Call Call.Ret IoError α

def ask (c : Call) : Io c.Ret := Prog.ask c

/-- A call that may fail. -/
def tryCall {α : Type} (c : Call) (f : c.Ret → Except IoError α) : Io α := do
  let x ← ask c
  .ofExcept (f x)

def lock : Io Unit := tryCall .lock id

def unlock : Io Unit := ask .unlock

def readState : Io (Option FactoryState) := tryCall .readState id

def writeState (s : FactoryState) : Io Unit := tryCall (.writeState s) id

/-- What is done under the factory lock. -/
def locked {α : Type} (p : Io α) : Io α := do
  lock
  let x ← p.attempt
  unlock
  .ofExcept x

def fail {α : Type} (kind : ErrorKind) (message : String) : Io α := .fail ⟨kind, message⟩

/-! ### Messages -/

def validateComponent (v label : String) : Except IoError Unit :=
  if v = "" ∨ v = "." ∨ v = ".." ∨ '/' ∈ v.toList ∨ '\\' ∈ v.toList then
    .error ⟨.invalidInput, label ++ " must be a safe path component"⟩
  else .ok ()

/-- A component passes or fails whatever it is called. -/
lemma validateComponent_label {v l : String} (h : validateComponent v l = .ok ()) (l' : String) :
    validateComponent v l' = .ok () := by
  unfold validateComponent at h ⊢
  split_ifs at h with hv
  rw [if_neg hv]

def stableChar (c : Char) : Bool :=
  c.isAlphanum || c == '-' || c == '_' || c == '.' || c == ':'

def isKind (kind : String) : Bool :=
  kind ≠ "" && decide (len kind ≤ 128) && kind.toList.all stableChar

def validateMessage (m : MessageEnvelope) (expectedId : Option String) : Except IoError Unit := do
  if m.schemaVersion ≠ 2 then
    .error ⟨.invalidData, "unsupported message schema version " ++ toString m.schemaVersion ++
      "; expected 2"⟩
  if expectedId.any (· ≠ m.id) then
    .error ⟨.invalidData, "message id does not match its filename"⟩
  validateComponent m.id "message id"
  validateComponent m.source "source pod"
  validateComponent m.destination "destination pod"
  if !isKind m.kind then .error ⟨.invalidData, "invalid message kind"⟩
  if len m.payload > 32 * 1024 then .error ⟨.invalidData, "message payload exceeds 32 KiB"⟩
  match m.replyTo with
  | some id => validateComponent id "reply message id"
  | none => pure ()
  match m.effectId with
  | some id => validateComponent id "effect id"
  | none => pure ()

/-! ### Inboxes -/

/-- A line, last character first, without the carriage return that belongs to its end. -/
def chomp (line : List Char) : List Char :=
  if line.head? = some '\r' then line.tail else line

/-- The lines of a text, given the characters of the current line, last one first. -/
def linesFrom : List Char → List Char → List String
  | [], line => if line = [] then [] else [String.ofList line.reverse]
  | c :: cs, line =>
    if c = '\n' then String.ofList (chomp line).reverse :: linesFrom cs []
    else linesFrom cs (c :: line)

def lines (text : String) : List String := linesFrom text.toList []

/-- White space, as Unicode has it. -/
def isSpace (c : Char) : Bool :=
  let n := c.toNat
  (9 ≤ n && n ≤ 13) || n == 32 || n == 0x85 || n == 0xA0 || n == 0x1680 ||
    (0x2000 ≤ n && n ≤ 0x200A) || n == 0x2028 || n == 0x2029 || n == 0x202F || n == 0x205F ||
    n == 0x3000

def isBlank (line : String) : Bool := line.toList.all isSpace

/-- The ids an inbox file lists. -/
def inboxIds (text : Option String) : List String :=
  match text with
  | some t => (lines t).filter fun line => !isBlank line
  | none => []

/-- A line without white space, which is read back as it was written. -/
def clean (id : String) : Bool := id ≠ "" && id.toList.all fun c => !isSpace c

def inboxText (ids : List String) : String := String.join (ids.map (· ++ "\n"))

def pendingMessageIds (pod : String) : Io (List String) := do
  .ofExcept (validateComponent pod "pod")
  let text ← tryCall (.readInbox pod) id
  let ids := inboxIds text
  if ids.length > 4096 then
    fail .invalidData "pending message queue exceeds 4096 entries"
  else return ids

/-- The message file, written once: whether it was there already. -/
def storeMessage (m : MessageEnvelope) : Io Bool := do
  match ← tryCall (.readMessage m.id) id with
  | some old =>
    if old ≠ m then fail .alreadyExists "message id reused with different content"
    else return true
  | none => do
    tryCall (.writeMessage m) id
    return false

def queueMessage (m : MessageEnvelope) : Io Unit := do
  let ids ← pendingMessageIds m.destination
  if m.id ∉ ids ∧ ids.length ≥ 4096 then fail .invalidInput "pending message queue is full"
  else if m.id ∉ ids then tryCall (.writeInbox m.destination (inboxText (ids ++ [m.id]))) id
  else return ()

/-- The checks of a message before anything is read. -/
def checkMessage (m : MessageEnvelope) : Except IoError Unit := do
  validateMessage m none
  validateComponent m.id "message id"
  validateComponent m.source "source pod"
  validateComponent m.destination "destination pod"
  if len m.payload > 32 * 1024 then .error ⟨.invalidInput, "message payload exceeds 32 KiB"⟩
  if !isKind m.kind then .error ⟨.invalidInput, "invalid message kind"⟩

lemma validateComponent_of_checkMessage {m : MessageEnvelope} (h : checkMessage m = .ok ())
    (l : String) : validateComponent m.destination l = .ok () := by
  obtain ⟨_, -, h⟩ := bind_eq_ok.mp h
  obtain ⟨_, -, h⟩ := bind_eq_ok.mp h
  obtain ⟨_, -, h⟩ := bind_eq_ok.mp h
  obtain ⟨_, hdest, -⟩ := bind_eq_ok.mp h
  exact validateComponent_label hdest l

def enqueueMessageLocked (m : MessageEnvelope) : Io Bool := do
  .ofExcept (checkMessage m)
  match ← readState with
  | none => fail .notFound "factory state unavailable"
  | some current =>
    if m.destination ∉ current.pods then fail .invalidInput "destination pod is not declared"
    else do
      tryCall .ensureLayout id
      let alreadyExists ← storeMessage m
      queueMessage m
      return !alreadyExists

def enqueueMessage (m : MessageEnvelope) : Io Bool := locked (enqueueMessageLocked m)

/-- The message of a `send` on the command line. No worker had a part in it. -/
def commandSend (m : MessageEnvelope) : Io Unit := do
  let m := { m with schemaVersion := 2, effectId := none }
  match ← readState with
  | none => fail .notFound "no factory state exists"
  | some s =>
    if m.source ∉ s.pods then fail .invalidInput "source pod is not declared"
    else if m.destination ∉ s.pods then fail .invalidInput "destination pod is not declared"
    else do
      let _ ← enqueueMessage m
      return ()

/-! ### Worker identity -/

/-- The generation and session a pod process was launched with. -/
structure SessionIdentity where
  factoryGeneration : ℕ
  pod : String
  session : String
  deriving DecidableEq, Repr

/-- The state file names this process. -/
def current (s : FactoryState) (i : SessionIdentity) : Bool :=
  s.generation = i.factoryGeneration && (s.pods[i.pod]?.bind (·.session)) = some i.session

def assertWorkerIdentityLocked (i : SessionIdentity) : Io Unit := do
  match ← readState with
  | none => fail .notFound "factory state unavailable"
  | some s => if current s i then return () else fail .invalidData "stale worker identity"

def assertWorkerIdentity (i : SessionIdentity) : Io Unit := locked (assertWorkerIdentityLocked i)

def enqueueMessageForWorker (m : MessageEnvelope) (i : SessionIdentity) : Io Bool :=
  locked do
    assertWorkerIdentityLocked i
    enqueueMessageLocked m

def isProcessed (pod id : String) : Io Bool := do
  .ofExcept (validateComponent pod "pod")
  .ofExcept (validateComponent id "message id")
  tryCall (.readProcessed pod id) fun x => x

def markProcessed (i : SessionIdentity) (id : String) : Io Unit :=
  locked do
    .ofExcept (validateComponent i.pod "pod")
    .ofExcept (validateComponent id "message id")
    match ← readState with
    | none => fail .notFound "factory state unavailable"
    | some s =>
      match s.pods[i.pod]? with
      | none => fail .notFound "pod state unavailable"
      | some pod =>
        if s.generation ≠ i.factoryGeneration ∨ pod.session ≠ some i.session then
          fail .invalidData "stale worker identity"
        else tryCall (.writeProcessed i.pod id) fun x => x

def readMessage (id : String) : Io MessageEnvelope := do
  .ofExcept (validateComponent id "message id")
  let found ← tryCall (.readMessage id) fun x => x
  match found with
  | none => fail .notFound "no such message"
  | some m => do
    .ofExcept (validateMessage m (some id))
    return m

/-- The delivery fields of a pod, as one write of the state file. -/
def deliver (pod : PodState) (active terminal : Option String) (status : PodStatus) : PodState :=
  { pod with
    activeDelivery := active
    terminalResult := terminal.or pod.terminalResult
    status := status }

def updatePodDelivery (i : SessionIdentity) (active terminal : Option String)
    (status : PodStatus) : Io Unit :=
  locked do
    match ← readState with
    | none => fail .notFound "factory state unavailable"
    | some s =>
      if s.generation ≠ i.factoryGeneration then fail .invalidData "stale factory generation"
      else match s.pods[i.pod]? with
      | none => fail .notFound "pod state unavailable"
      | some pod =>
        if pod.session ≠ some i.session then fail .invalidData "stale worker session"
        else writeState { s with pods := s.pods.insert i.pod (deliver pod active terminal status) }

/-- A line of the effect journal, under the lock. -/
def record (event deliveryId : String) (toolCallId effectId : Option String := none) : Io Unit :=
  locked (tryCall (.append { event, deliveryId, toolCallId, effectId }) fun x => x)

/-! ### The disk -/

/-- The state directory. -/
structure Disk where
  state : Option FactoryState := none
  messages : String → Option MessageEnvelope := fun _ => none
  inbox : String → Option String := fun _ => none
  processed : String → String → Bool := fun _ _ => false
  terminals : String → Option Frame := fun _ => none
  toolResults : String → String → Option ToolRecord := fun _ _ => none

/-- A table of two keys with one entry written. -/
def write {α : Type} (f : String → String → α) (a b : String) (x : α) : String → String → α :=
  Function.update f a (Function.update (f a) b x)

namespace Disk

/-- What is read, where nothing fails. -/
def answer (d : Disk) : (c : Call) → c.Ret
  | .readState => Except.ok d.state
  | .readMessage id => Except.ok (d.messages id)
  | .readInbox pod => Except.ok (d.inbox pod)
  | .readProcessed pod id => Except.ok (d.processed pod id)
  | .readTerminal id => Except.ok (d.terminals id)
  | .readToolResult session id => Except.ok (d.toolResults session id)
  | .linkTerminal id _ =>
    if (d.terminals id).isSome then Except.error ⟨.alreadyExists, "File exists"⟩ else Except.ok ()
  | .linkToolResult session id _ =>
    if (d.toolResults session id).isSome then Except.error ⟨.alreadyExists, "File exists"⟩
    else Except.ok ()
  | .unlock => ()
  | .lock | .writeState _ | .ensureLayout | .writeMessage _ | .writeInbox _ _ | .writeProcessed _ _
  | .append _ => Except.ok ()

/-- What a call that comes back well leaves on the disk. -/
def apply (d : Disk) : Call → Disk
  | .writeState s => { d with state := some s }
  | .writeMessage m => { d with messages := Function.update d.messages m.id (some m) }
  | .writeInbox pod text => { d with inbox := Function.update d.inbox pod (some text) }
  | .writeProcessed pod id =>
    { d with processed := write d.processed pod id true }
  | .linkTerminal id f => { d with terminals := Function.update d.terminals id (some f) }
  | .linkToolResult session id r =>
    { d with toolResults := write d.toolResults session id (some r) }
  | .lock | .unlock | .readState | .ensureLayout | .readMessage _ | .readInbox _
  | .readProcessed _ _ | .readTerminal _ | .readToolResult _ _ | .append _ => d

/-- The call came back well. -/
def wrote : (c : Call) → c.Ret → Bool
  | .writeState _, .ok _ | .writeMessage _, .ok _ | .writeInbox _ _, .ok _
  | .writeProcessed _ _, .ok _ | .linkTerminal _ _, .ok _ | .linkToolResult _ _ _, .ok _ => true
  | _, _ => false

def next (d : Disk) (c : Call) (x : c.Ret) : Disk := if wrote c x then d.apply c else d

end Disk

end Bimo.Store
