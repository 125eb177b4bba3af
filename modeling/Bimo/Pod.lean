import Bimo.Store

/-!
The pod process: the control side of one worker.

It hands the pending messages of its inbox to the worker one by one, answers the worker's tool
calls, and completes a delivery once the worker's terminal frame is on disk. Its calls are those
of the store and those to the worker; what the worker writes is up to the worker. The loops of
the source have no end of their own: `fuel` is how many rounds a process gets before it is
stopped.

SHA-256 is a parameter, from a text to its hexadecimal digest.
-/

namespace Bimo.Pod

open Factory (FactoryState PodState PodStatus PodManifest)
open Store (MessageEnvelope SessionIdentity ToolRecord IoError stableChar)
open Wire (Json Frame FrameType Direction Machine len)

/-- The private configuration a pod process is launched with. -/
structure PodProcessConfig where
  schemaVersion : ℕ := 2
  factoryGen : ℕ
  factory : String
  pod : PodManifest
  session : String
  launchFingerprint : String

def PodProcessConfig.identity (cfg : PodProcessConfig) : SessionIdentity :=
  { factoryGeneration := cfg.factoryGen, pod := cfg.pod.name, session := cfg.session }

/-- A line from the worker: a frame of so many bytes, or something else. -/
inductive Line
  | frame (f : Frame) (size : ℕ)
  | other

/-- The calls to the worker. -/
inductive Worker
  | launch (cfg : PodProcessConfig)
  | exited
  /-- The next line, or none in time. -/
  | receive
  | send (f : Frame)
  /-- The file that says the handshake is done. -/
  | ready (pod session : String)

def Worker.Ret : Worker → Type
  | .launch _ | .send _ | .ready _ _ => Except String Unit
  | .exited => Bool
  | .receive => Option Line

abbrev Call := Worker ⊕ Store.Call

abbrev Call.Ret : Call → Type := Sum.elim Worker.Ret Store.Call.Ret

abbrev Io (α : Type) := Prog Call Call.Ret String α

def ask (w : Worker) : Io w.Ret := Prog.ask (Sum.inl w)

/-- A call to the worker that may fail. -/
def tryAsk {α : Type} (w : Worker) (f : w.Ret → Except String α) : Io α := do
  let x ← ask w
  .ofExcept (f x)

/-- What is done to the store, with its error as a text. -/
def store {α : Type} (p : Store.Io α) (text : String → String := id) : Io α :=
  (p.mapErr fun e => text e.message).inr

def parseLine (line : Line) (max : ℕ) : Except String Frame :=
  match line with
  | .frame f size => Wire.parse f size max
  | .other => .error "not a frame"

/-! ### Redaction -/

/-- The text has the other one in it. -/
def contains : List Char → List Char → Bool
  | [], needle => needle.isEmpty
  | c :: cs, needle => needle.isPrefixOf (c :: cs) || contains cs needle

/-- The parts of a line between characters no token has in it. -/
def tokens : List Char → List Char → List (List Char)
  | [], token => [token.reverse]
  | c :: cs, token =>
    if c.isAlphanum || c == '-' || c == '_' then tokens cs (c :: token)
    else token.reverse :: tokens cs []

def markers : List String :=
  ["API_KEY", "APIKEY", "TOKEN", "SECRET", "PASSWORD", "BEARER ", "AUTHORIZATION", "COOKIE",
    "PRIVATE_KEY", "CREDENTIAL", "ACCESS_KEY", "CLIENT_SECRET", "PROVIDER"]

def tokenPrefixes : List String :=
  ["sk-", "sk_", "pk-", "pk_", "ghp_", "github_pat_", "xoxb-", "xapp-", "AIza"]

def redactLine (line : String) : String :=
  let upper := line.toList.map Char.toUpper
  let marked := markers.any fun m => contains upper m.toList
  let tokenized := (tokens line.toList []).any fun t =>
    tokenPrefixes.any fun p => p.toList.isPrefixOf t
  if marked || tokenized then "[redacted]" else line

def redact (s : String) : String := "\n".intercalate ((Store.lines s).map redactLine) ++ "\n"

def trimEndNewlines (s : String) : String :=
  String.ofList (s.toList.reverse.dropWhile (· == '\n')).reverse

mutual

def redactTerminal : Json → Json
  | .str s => .str (trimEndNewlines (Factory.bounded (redact s)))
  | .arr l => .arr (redactList l)
  | .obj l => .obj (redactFields l)
  | .null => .null
  | .bool b => .bool b
  | .num t => .num t

def redactList : List Json → List Json
  | [] => []
  | v :: l => redactTerminal v :: redactList l

def redactFields : List (String × Json) → List (String × Json)
  | [] => []
  | (k, v) :: l => (k, redactTerminal v) :: redactFields l

end

/-! ### Frames -/

/-- A frame to the worker, if it is within the limit. -/
def controlFrame (i : SessionIdentity) (seq : ℕ) (kind : FrameType) (requestId toolCallId :
    Option String) (payload : Json) (max : ℕ) : Except String Frame :=
  let frame : Frame :=
    { direction := .controlToWorker, kind, factoryGen := i.factoryGeneration, pod := i.pod,
      session := i.session, seq, requestId, toolCallId, payload }
  if frame.size > max then .error "control frame exceeds configured limit" else .ok frame

def sendControlFrame (i : SessionIdentity) (seq : ℕ) (kind : FrameType) (requestId toolCallId :
    Option String) (payload : Json) (max : ℕ) : Io Unit := do
  let frame ← .ofExcept (controlFrame i seq kind requestId toolCallId payload max)
  tryAsk (.send frame) id

def validateWorkerFrame (f : Frame) (i : SessionIdentity) : Except String Unit :=
  if f.direction ≠ .workerToControl ∨ f.factoryGen ≠ i.factoryGeneration ∨ f.pod ≠ i.pod ∨
      f.session ≠ i.session then
    .error "stale, out-of-order, or wrong-session worker frame"
  else .ok ()

def validateStableId (v label : String) : Except String Unit :=
  if v = "" ∨ len v > 256 ∨ !v.toList.all stableChar then .error ("invalid " ++ label) else .ok ()

/-! ### Capabilities -/

structure SendMessageArgs where
  destination : String
  kind : String
  payload : String
  correlation : Option String := none
  deriving DecidableEq, Repr

/-- An optional text: absent, null or a string. -/
def optionalString : Option Json → Option (Option String)
  | none | some .null => some none
  | some (.str s) => some (some s)
  | some _ => none

def sendMessageArgs (args : Json) : Except String SendMessageArgs :=
  match args with
  | .obj l =>
    if l.all fun (k, _) => k ∈ ["to", "kind", "payload", "correlation"] then
      match (args.get "to").bind Json.asStr, (args.get "kind").bind Json.asStr,
          (args.get "payload").bind Json.asStr, optionalString (args.get "correlation") with
      | some destination, some kind, some payload, some correlation =>
        .ok { destination, kind, payload, correlation }
      | _, _, _, _ => .error "invalid arguments"
    else .error "invalid arguments"
  | _ => .error "invalid arguments"

def authorizeReadState (p : PodManifest) : Except String Unit :=
  if "factory.read_state" ∈ p.capabilities then .ok () else .error "capability not declared"

def authorizeSend (p : PodManifest) (a : SendMessageArgs) : Except String Unit :=
  if "pod.send_message" ∉ p.capabilities then .error "capability not declared"
  else if a.destination ∉ p.destinations then .error "destination not declared"
  else if a.kind ∉ p.messageKinds then .error "message kind denied"
  else if len a.payload > p.maxPayloadBytes then .error "payload too large"
  else if a.correlation.any fun v => v = "" || decide (len v > 256) || !v.toList.all stableChar then
    .error "invalid correlation"
  else .ok ()

def PodStatus.text : PodStatus → String
  | .staging => "staging"
  | .ready => "ready"
  | .working => "working"
  | .cancelling => "cancelling"
  | .terminalPersisted => "terminal_persisted"
  | .failed => "failed"
  | .crashLoop => "crash_loop"
  | .stopped => "stopped"
  | .stale => "stale"

def safePod (p : PodState) : Json :=
  .obj [("engine", .str p.engine), ("name", .str p.name), ("role", .str p.role),
    ("status", .str (PodStatus.text p.status))]

/-! ### Records that are written once -/

/-- Create a record, or find the same one there. -/
def atomicCreate {α : Type} (read : Store.Io (Option α)) (same : α → Bool) (link : Store.Io Unit) :
    Store.Io Unit := do
  match ← read with
  | some old =>
    if same old then return ()
    else Store.fail .alreadyExists "immutable record already contains different content"
  | none => do
    match ← link.attempt with
    | .ok _ => return ()
    | .error e =>
      if e.kind = .alreadyExists then do
        match ← read with
        | some old => if same old then return () else .fail e
        | none => Store.fail .notFound "No such file or directory"
      else .fail e

def readTerminal (id : String) : Store.Io (Option Frame) :=
  Store.tryCall (.readTerminal id) fun x => x

def readToolResult (session id : String) : Store.Io (Option ToolRecord) :=
  Store.tryCall (.readToolResult session id) fun x => x

def createTerminal (id : String) (f : Frame) : Store.Io Unit :=
  atomicCreate (readTerminal id) (fun old => Wire.text old.toJson = Wire.text f.toJson)
    (Store.tryCall (.linkTerminal id f) fun x => x)

def createToolResult (session id : String) (r : ToolRecord) : Store.Io Unit :=
  atomicCreate (readToolResult session id)
    (fun old => old.argsDigest = r.argsDigest && Wire.text old.result = Wire.text r.result)
    (Store.tryCall (.linkToolResult session id r) fun x => x)

/-! ### Tools -/

section

variable (digest : String → String)

/-- What an effect is known by: the delivery it was asked for in, and all it says. -/
def effectKey (i : SessionIdentity) (request : String) (a : SendMessageArgs) : Json :=
  .obj [("delivery", .str request), ("kind", .str a.kind), ("payload", .str a.payload),
    ("pod", .str i.pod), ("to", .str a.destination)]

def effectId (i : SessionIdentity) (request : String) (a : SendMessageArgs) : String :=
  digest (String.ofList (Wire.text (effectKey i request a)))

def effectMessage (i : SessionIdentity) (request : String) (a : SendMessageArgs) :
    MessageEnvelope where
  id := "effect-" ++ effectId digest i request a
  source := i.pod
  destination := a.destination
  kind := a.kind
  payload := a.payload
  replyTo := some request
  effectId := some (effectId digest i request a)

def argsDigest (f : Frame) : String := digest (String.ofList (Wire.text f.payload))

/-- The result of a tool, and the id of the effect it had. -/
structure ToolResult where
  result : Json
  effectId : Option String := none

def readStateTool (cfg : PodProcessConfig) (request id : String) : Io ToolResult := do
  .ofExcept (authorizeReadState cfg.pod)
  store (Store.record "effect_requested" request (some id))
  match ← store Store.readState with
  | none => .fail "state unavailable"
  | some s =>
    let factory : Json := .obj [("generation", Wire.ofNat cfg.factoryGen), ("name", .str cfg.factory)]
    return {
      result := .obj [("factory", factory), ("ok", .bool true),
        ("pods", .arr (s.pods.toList.map fun p => safePod p.2))] }

def sendMessageTool (cfg : PodProcessConfig) (request id : String) (f : Frame) :
    Io ToolResult := do
  let args ← .ofExcept (sendMessageArgs ((f.payload.get "arguments").getD .null))
  .ofExcept (authorizeSend cfg.pod args)
  store (Store.record "effect_requested" request (some id))
  let effect := effectId digest cfg.identity request args
  let m := effectMessage digest cfg.identity request args
  let _ ← store (Store.enqueueMessageForWorker m cfg.identity)
  store (Store.record "effect_applied" request (some id) (some effect))
  return {
    result := .obj [("effect_id", .str effect), ("message_id", .str m.id), ("ok", .bool true)]
    effectId := some effect }

def runTool (cfg : PodProcessConfig) (request id : String) (f : Frame) : Io ToolResult := do
  match (f.payload.get "name").bind Json.asStr with
  | none => .fail "tool call missing capability"
  | some name => do
    .ofExcept (validateStableId name "capability name")
    if name = "factory.read_state" then readStateTool cfg request id
    else if name = "pod.send_message" then sendMessageTool digest cfg request id f
    else .fail "capability denied"

/-- Answer a tool call: with the result on record, or with that of the tool, put on record. -/
def executeTool (cfg : PodProcessConfig) (request : String) (f : Frame) : Io Json := do
  match f.toolCallId with
  | none => .fail "tool call missing id"
  | some id => do
    .ofExcept (validateStableId id "tool call id")
    store (Store.assertWorkerIdentity cfg.identity)
    match ← store (readToolResult cfg.session id) with
    | some old =>
      if old.argsDigest ≠ argsDigest digest f then .fail "conflicting tool_call_id reuse"
      else return old.result
    | none => do
      let x ← runTool digest cfg request id f
      store (createToolResult cfg.session id
        { argsDigest := argsDigest digest f, result := x.result })
      store (Store.record "effect_result_persisted" request (some id) x.effectId)
      return x.result

/-! ### A turn -/

/-- Put the worker's terminal on record: the first one is the truth. -/
def persistTerminal (request : String) (f : Frame) : Io Unit := do
  let f := { f with payload := redactTerminal f.payload }
  match ← (createTerminal request f).attempt.inr with
  | .ok _ => return ()
  | .error e =>
    if e.kind = .alreadyExists then do
      match ← store (readTerminal request) with
      | none => .fail "No such file or directory"
      | some old =>
        if old.kind ≠ .terminal ∨ old.requestId ≠ f.requestId then .fail "conflicting terminal replay"
        else return ()
    else .fail e.message

/-- The end of a turn, one durable write after the other. -/
def complete (cfg : PodProcessConfig) (request : String) (machine : Machine) (f : Frame) :
    Io Machine := do
  let i := cfg.identity
  store (Store.assertWorkerIdentity i)
  persistTerminal request f
  store (Store.record "terminal_persisted" request)
  store (Store.updatePodDelivery i (some request) (some request) .terminalPersisted)
  store (Store.markProcessed i request)
  store (Store.record "delivery_completed" request)
  let machine ← .ofExcept machine.terminalDurable
  store (Store.updatePodDelivery i none (some request) .ready)
  return machine

/-- No frame in time: the worker is told, and the process ends. -/
def timeOut {α : Type} (cfg : PodProcessConfig) (request : String) (machine : Machine) (seq : ℕ) :
    Io α := do
  let i := cfg.identity
  let _ ← .ofExcept machine.beginCancel
  let _ ← (sendControlFrame i seq .cancel (some request) none
    (.obj [("reason", .str "request_timeout")]) cfg.pod.maxFrameBytes : Io Unit).attempt
  store (Store.record "delivery_failed" request)
  store (Store.updatePodDelivery i (some request) none .failed)
  .fail "worker request timed out"

/-- A frame of the worker's that belongs to this turn. -/
def acceptFrame (cfg : PodProcessConfig) (request : String) (machine : Machine) (line : Line) :
    Except String (Frame × Machine) := do
  let f ← (parseLine line cfg.pod.maxFrameBytes).mapError fun _ => "worker emitted malformed frame"
  validateWorkerFrame f cfg.identity
  if f.requestId ≠ some request then .error "worker frame request identity mismatch"
  let machine ← machine.accept f
  return (f, machine)

def turn (cfg : PodProcessConfig) (request : String) :
    ℕ → Machine → ℕ → ℕ → Io (Machine × ℕ)
  | 0, _, _, _ => .fail "stopped"
  | fuel + 1, machine, seq, toolCalls => do
    let line : Option Line ← ask .receive
    match line with
    | none => timeOut cfg request machine seq
    | some line => do
      let (f, machine) ← .ofExcept (acceptFrame cfg request machine line)
      match f.kind with
      | .heartbeat => turn cfg request fuel machine seq toolCalls
      | .toolCall =>
        if f.toolCallId = none then .fail "tool call missing id"
        else if toolCalls + 1 > 32 then .fail "tool-call limit exceeded for turn"
        else do
          let result ← executeTool digest cfg request f
          sendControlFrame cfg.identity seq .toolResult (some request) f.toolCallId result
            cfg.pod.maxFrameBytes
          turn cfg request fuel machine (seq + 1) (toolCalls + 1)
      | .terminal => do
        let machine ← complete cfg request machine f
        return (machine, seq)
      | _ => .fail "illegal worker frame in working state"

def workRequest (m : MessageEnvelope) : Json :=
  .obj [("body", .str m.payload), ("from", .str m.source), ("kind", .str m.kind)]

/-- Hand a message to the worker. -/
def startDelivery (cfg : PodProcessConfig) (machine : Machine) (seq : ℕ) (m : MessageEnvelope) :
    Io Machine := do
  let machine ← .ofExcept machine.beginWork
  store (Store.record "delivery_started" m.id)
  store (Store.updatePodDelivery cfg.identity (some m.id) none .working)
  sendControlFrame cfg.identity seq .workRequest (some m.id) none (workRequest m)
    cfg.pod.maxFrameBytes
  return machine

/-! ### The process -/

/-- One message of the inbox, unless it is processed already or for someone else. -/
def deliver (cfg : PodProcessConfig) (fuel : ℕ) (machine : Machine) (seq : ℕ) (id : String) :
    Io (Machine × ℕ) := do
  if ← store (Store.isProcessed cfg.pod.name id) ("could not read processed marker: " ++ ·) then
    return (machine, seq)
  else do
    let m ← store (Store.readMessage id)
    if m.destination ≠ cfg.pod.name then return (machine, seq)
    else do
      let machine ← startDelivery cfg machine seq m
      turn digest cfg m.id fuel machine (seq + 1) 0

def deliverAll (cfg : PodProcessConfig) (fuel : ℕ) :
    List String → Machine → ℕ → Io (Machine × ℕ)
  | [], machine, seq => return (machine, seq)
  | id :: ids, machine, seq => do
    let (machine, seq) ← deliver digest cfg fuel machine seq id
    deliverAll cfg fuel ids machine seq

def serve (cfg : PodProcessConfig) : ℕ → Machine → ℕ → Io Unit
  | 0, _, _ => .fail "stopped"
  | fuel + 1, machine, seq => do
    let exited : Bool ← ask .exited
    if exited then .fail "worker exited unexpectedly"
    else do
      let ids ← store (Store.pendingMessageIds cfg.pod.name)
        fun e => "could not read " ++ cfg.pod.name ++ " inbox: " ++ e
      let (machine, seq) ← deliverAll digest cfg fuel ids machine seq
      serve cfg fuel machine seq

def jsonIs (v : Option Json) (s : String) : Bool := v.bind Json.asStr = some s

/-- The worker's first frame. -/
def acceptHello (cfg : PodProcessConfig) (line : Option Line) : Except String Machine := do
  match line with
  | none => .error "worker did not send hello"
  | some line =>
    let hello ← (parseLine line cfg.pod.maxFrameBytes).mapError fun _ => "worker hello was malformed"
    if (validateWorkerFrame hello cfg.identity).isOk &&
        jsonIs (hello.payload.get "launch_fingerprint") cfg.launchFingerprint &&
        jsonIs (hello.payload.get "engine") cfg.pod.engine then
      ({ state := .awaitHello, workerSeq := 0, session := cfg.session } : Machine).accept hello
    else .error "worker hello identity mismatch"

def commandPodProcess (cfg : PodProcessConfig) (fuel : ℕ) : Io Unit := do
  store (Store.tryCall .ensureLayout fun x => x) ("could not initialize pod state: " ++ ·)
  if cfg.schemaVersion ≠ 2 then .fail "unsupported private worker config version"
  else do
    tryAsk (.launch cfg) id
    let line : Option Line ← ask .receive
    let machine ← .ofExcept (acceptHello cfg line)
    sendControlFrame cfg.identity 1 .helloAck none none
      (.obj [("capabilities", .arr (cfg.pod.capabilities.map .str)),
        ("max_frame_bytes", Wire.ofNat cfg.pod.maxFrameBytes)]) cfg.pod.maxFrameBytes
    tryAsk (.ready cfg.pod.name cfg.session) id
    serve digest cfg fuel machine 2

end

end Bimo.Pod
