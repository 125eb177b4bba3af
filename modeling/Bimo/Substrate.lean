import Mathlib

/-!
The data of the agent fabric: resources, specs, the agent record and the errors.

Fields nothing in this development reads are left out: time stamps, and the schema version
every file is written with (a file of another version is an error answer of the read).
-/

namespace Bimo

/-- The stable error codes. -/
inductive Code
  | specInvalid | targetUnknown | targetUnavailable | tenantConflict | notFound
  | runtimeUnavailable | sourceFailed | substrateFailed | substrateRefused | probeFailed
  | runtimeState | secretUnresolved | proxyFailed | stateFailed | usage
  deriving DecidableEq, Repr

structure FabricError where
  code : Code
  message : String
  next : List String := []
  deriving DecidableEq, Repr

/-- An I/O error with what was being done. -/
def FabricError.io (code : Code) (context error : String) : FabricError :=
  { code, message := context ++ ": " ++ error }

inductive ResourceKind
  | agentProcess | proxyProcess | guest | relayProcess | proxyRoute
  deriving DecidableEq, Repr

structure ProcessIdentity where
  pid : ℕ
  processGroup : ℤ
  session : String
  launchFingerprint : String
  startTime : ℕ
  deriving DecidableEq, Repr

structure GuestRef where
  node : String
  vmid : ℕ
  guestType : String
  address : Option String
  templateVersion : Option String
  deriving DecidableEq, Repr

structure Resource where
  kind : ResourceKind
  id : String
  process : Option ProcessIdentity := none
  guest : Option GuestRef := none
  deriving DecidableEq, Repr

inductive Source
  | config (path : String)
  | git (repo rev : String)
  deriving DecidableEq, Repr

structure SecretRef where
  env : String
  handle : String
  hosts : List String
  deriving DecidableEq, Repr

/-- A validated spec; `substrate` is its placement and `egress` its allowlist. -/
structure AgentSpec where
  name : String
  tenantId : String
  runtime : String
  source : Source
  secrets : List SecretRef
  egress : List String
  substrate : String
  deriving DecidableEq, Repr

structure LoadedSpec where
  spec : AgentSpec
  fingerprint : String
  deriving DecidableEq, Repr

inductive AgentStatus
  | ready | destroyed
  deriving DecidableEq, Repr

structure AgentRecord where
  name : String
  tenantId : String
  runtime : String
  target : String
  substrate : String
  generation : ℕ
  fingerprint : String
  idempotencyKey : String
  spec : AgentSpec
  status : AgentStatus
  resources : List Resource
  endpoint : Option String
  readyMs : Option ℕ
  firstTaskId : Option String
  proxyManagement : Option String
  secretsDigest : Option String
  deriving DecidableEq, Repr

/-- The resources a record says are live. -/
def liveResources : Option AgentRecord → List Resource
  | some r => if r.status = .ready then r.resources else []
  | none => []

/-- What a driver hands back for a started generation. -/
structure Created where
  resources : List Resource
  endpoint : String
  proxyManagement : Option String
  deriving DecidableEq, Repr

structure CreateRequest where
  agent : String
  tenant : String
  runtime : String
  generation : ℕ
  secrets : List (String × String)
  deriving DecidableEq, Repr

end Bimo
