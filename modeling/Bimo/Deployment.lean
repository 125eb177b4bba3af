import Bimo.Js

/-!
Deployment manifests, and the name the engine knows an agent by.

A manifest is a JSON object with a fixed set of fields. Its target is this machine, a machine
behind SSH, a Proxmox container or a target of the engine, and the target decides what the rest
may say. The engine has one name for an agent: the client and the agent joined by a dash, each
of which may have dashes of its own. The main result says which two agents get one name.
-/

namespace Bimo.Deployment

open Js

/-! ### Checks -/

def require (p : Bool) (message : String) : Except String Unit :=
  if p then .ok () else .error message

def manifestFields : List String :=
  ["schemaVersion", "clientId", "agentId", "lifecycle", "runtime", "target", "workload", "model",
    "secretRefs", "limits"]

def templates : List String :=
  ["react-solo", "react-app", "parallel-engineering-pod", "pi-palantir-pod"]

/-- A plain object with these fields and no others. -/
def assertExactFields (v : Value) (fields : List String) (label : String) : Except String Unit :=
  match v with
  | .obj l => do
    require (l.length == fields.length && l.all fun p => (fields.map lit).contains p.1)
      s!"{label} has an invalid field set"
    require (fields.all fun key => (l.lookup (lit key)).isSome)
      s!"{label} must contain only enumerable data fields"
  | _ => .error s!"{label} must be a plain object"

def isId (s : Text) : Bool := headed isLower (fun u => isLower u || isDigit u || isOneOf "-" u) 31 s

/-- A string of the form asked for. -/
def assertForm (form : Text → Bool) (v : Option Value) (message : String) : Except String Text :=
  match v with
  | some (.str s) => do
    require (form s) message
    pure s
  | _ => .error message

def validateIdentity (v : Option Value) (label : String) : Except String Text :=
  assertForm isId v s!"{label} is invalid"

/-! ### Targets -/

inductive Target
  | here
  | ssh (host : Text)
  | proxmoxLxc (proxmox vmid : Text)
  | engine (name : Text)
  deriving DecidableEq

def isHost (s : Text) : Bool := framed isAlphanum (isOneOf ".-") 253 s

def isUser (s : Text) : Bool :=
  headed (fun u => isLower u || isOneOf "_" u)
    (fun u => isLower u || isDigit u || isOneOf "_-" u) s.length s

/-- A host, after a user and an at sign where there is one. -/
def isSshTarget (s : Text) : Bool :=
  match s.span (· != 64) with
  | (_, []) => isHost s
  | (user, _ :: host) => isUser user && isHost host

def validateSshTarget (s : Text) : Except String Unit :=
  require (isSshTarget s) "SSH target contains unsupported characters"

def isVmid (s : Text) : Bool := consists isDigit 1 9 s

/-- The branch of `resolveDeploymentTarget` for a machine behind SSH. -/
def resolveSsh (host : Text) : Except String Unit := do
  require (!host.isEmpty) "--host is required with --target ssh"
  validateSshTarget host

/-- The branch of `resolveDeploymentTarget` for a Proxmox container. -/
def resolveProxmoxLxc (proxmox vmid : Text) : Except String Unit := do
  require (!proxmox.isEmpty) "--proxmox is required with --target proxmox-lxc"
  validateSshTarget proxmox
  require (isVmid vmid) "--vmid must be numeric with --proxmox"

def isEngineTarget (s : Text) : Bool :=
  framed (fun u => isLower u || isDigit u) (isOneOf "-") 63 s

def validateTarget (target : Value) : Except String Target :=
  if isText (target.get "kind") "local" then do
    assertExactFields target ["kind"] "target"
    pure .here
  else if isText (target.get "kind") "ssh" then do
    assertExactFields target ["kind", "host"] "target"
    let host ← assertForm (fun s => decide (s.length ≤ 300)) (target.get "host")
      "target host is invalid"
    resolveSsh host
    pure (.ssh host)
  else if isText (target.get "kind") "proxmox-lxc" then do
    assertExactFields target ["kind", "proxmox", "vmid"] "target"
    let proxmox ← assertForm (fun s => decide (s.length ≤ 300)) (target.get "proxmox")
      "target Proxmox configuration is invalid"
    let vmid ← assertForm isVmid (target.get "vmid") "target Proxmox configuration is invalid"
    resolveProxmoxLxc proxmox vmid
    pure (.proxmoxLxc proxmox vmid)
  else if isText (target.get "kind") "engine" then do
    assertExactFields target ["kind", "name"] "target"
    let name ← assertForm isEngineTarget (target.get "name") "engine target name is invalid"
    pure (.engine name)
  else .error "target kind is unsupported"

def Target.isEngine : Target → Bool
  | .engine _ => true
  | _ => false

/-! ### Workloads, models and limits -/

inductive Workload
  | config (path : Text)
  | template (name : Text)
  | service (name : Text)
  deriving DecidableEq

def isConfigPath (s : Text) : Bool :=
  decide (1 ≤ s.length ∧ s.length ≤ 1024) && !s.any isControl && !startsWith s "/" &&
    !includes s "\\"

def validateEngineConfigPath (v : Option Value) : Except String Text :=
  assertForm isConfigPath v "engine workload config must be a relative directory path"

def validateWorkload (lifecycle runtime : Option Value) (workload : Value) (target : Target) :
    Except String Workload :=
  if target.isEngine then do
    require (isText lifecycle "service" && isText runtime "hermes")
      "engine targets run Hermes services only"
    assertExactFields workload ["config"] "workload"
    let path ← validateEngineConfigPath (workload.get "config")
    pure (.config path)
  else if isText lifecycle "job" && (isText runtime "opencode" || isText runtime "pi") then do
    assertExactFields workload ["template"] "workload"
    let name ← assertForm (fun s => (templates.map lit).contains s) (workload.get "template")
      "job template is unsupported"
    pure (.template name)
  else if isText lifecycle "service" && isText runtime "hermes" then do
    assertExactFields workload ["service"] "workload"
    let name ← assertForm (fun s => s == lit "aurum") (workload.get "service")
      "service workload is unsupported"
    pure (.service name)
  else .error "runtime and lifecycle combination is unsupported"

def isEngineHandle (s : Text) : Bool :=
  match s.span (· != 47) with
  | (_, []) => false
  | (tenant, _ :: name) =>
    consists (fun u => isLower u || isDigit u || isOneOf "-" u) 1 63 tenant &&
      consists (fun u => isLower u || isDigit u || isOneOf "._-" u) 1 63 name

/-- A part of a reference, whose length is counted in code points. -/
def isRefPart (s : Text) : Bool :=
  decide (1 ≤ (codePoints s).length ∧ (codePoints s).length ≤ 255) && !s.any isControl

def isSecretRef (s : Text) : Bool :=
  match splitOnSlash s with
  | [scheme, blank, vault, item, field] =>
    scheme == lit "op:" && blank.isEmpty && isRefPart vault && isRefPart item && isRefPart field
  | _ => false

structure Model where
  provider : Text
  /-- The reference of the model's secret; a local model has none. -/
  secret : Option Text
  deriving DecidableEq

def validateModel (model secretRefs : Value) (target : Target) : Except String Model := do
  assertExactFields model ["provider", "fallback"] "model"
  assertExactFields secretRefs ["model"] "secretRefs"
  let provider ← assertForm (fun s => s == lit "openrouter" || s == lit "local")
    (model.get "provider") "model policy is unsupported"
  require (isText (model.get "fallback") "disabled") "model policy is unsupported"
  if target.isEngine then
    require (provider == lit "openrouter")
      "engine targets support the openrouter model provider only"
    let secret ← assertForm isEngineHandle (secretRefs.get "model")
      "engine model secret must be a TENANT/NAME handle"
    pure { provider := provider, secret := some secret }
  else if provider = lit "openrouter" then
    let secret ← assertForm isSecretRef (secretRefs.get "model")
      "model secret must be a 1Password reference"
    pure { provider := provider, secret := some secret }
  else match secretRefs.get "model" with
    | some .null => pure { provider := provider, secret := none }
    | _ => .error "local model secret reference must be null"

def boundedInteger (v : Option Value) (minimum maximum : ℕ) (label : String) : Except String ℕ :=
  match v with
  | some (.num (.finite q)) => do
    require (decide (q.den = 1 ∧ (minimum : ℚ) ≤ q ∧ q ≤ maximum)) s!"{label} is invalid"
    pure q.num.toNat
  | _ => .error s!"{label} is invalid"

structure Limits where
  memoryMiB : ℕ
  cpus : ℚ
  maxConcurrentRuns : ℕ
  runTimeoutSeconds : ℕ
  deriving DecidableEq

def cpuLimit (v : Option Value) : Except String ℚ :=
  match v with
  | some (.num (.finite q)) => do
    require (decide (1 / 4 ≤ q ∧ q ≤ 64)) "CPU limit is invalid"
    pure q
  | _ => .error "CPU limit is invalid"

def validateLimits (limits : Value) : Except String Limits := do
  assertExactFields limits ["memoryMiB", "cpus", "maxConcurrentRuns", "runTimeoutSeconds"] "limits"
  let cpus ← cpuLimit (limits.get "cpus")
  let memoryMiB ← boundedInteger (limits.get "memoryMiB") 128 65536 "memory limit"
  let maxConcurrentRuns ← boundedInteger (limits.get "maxConcurrentRuns") 1 8 "concurrency limit"
  let runTimeoutSeconds ← boundedInteger (limits.get "runTimeoutSeconds") 1 7200 "run timeout"
  pure { memoryMiB, cpus, maxConcurrentRuns, runTimeoutSeconds }

/-! ### Manifests -/

structure Manifest where
  clientId : Text
  agentId : Text
  lifecycle : Text
  runtime : Text
  target : Target
  workload : Workload
  model : Model
  limits : Limits
  deriving DecidableEq

/-- The string that a field holds, once it is known to hold one. -/
def textOf : Option Value → Text
  | some (.str s) => s
  | _ => []

def isOne : Option Value → Bool
  | some (.num (.finite q)) => q == 1
  | _ => false

def validateDeploymentManifest (input : Value) : Except String Manifest := do
  assertExactFields input manifestFields "deployment manifest"
  require (isOne (input.get "schemaVersion")) "deployment manifest schemaVersion must be 1"
  let clientId ← validateIdentity (input.get "clientId") "client ID"
  let agentId ← validateIdentity (input.get "agentId") "agent ID"
  let target ← validateTarget ((input.get "target").getD .null)
  let workload ← validateWorkload (input.get "lifecycle") (input.get "runtime")
    ((input.get "workload").getD .null) target
  let model ← validateModel ((input.get "model").getD .null)
    ((input.get "secretRefs").getD .null) target
  let limits ← validateLimits ((input.get "limits").getD .null)
  pure
    { clientId, agentId, lifecycle := textOf (input.get "lifecycle"),
      runtime := textOf (input.get "runtime"), target, workload, model, limits }

/-- A manifest that was accepted, for a target of the engine. -/
structure EngineManifest extends Manifest where
  input : Value
  accepted : validateDeploymentManifest input = .ok toManifest
  engine : target.isEngine = true

/-! ### Names -/

/-- The engine addresses agents by one name; an identity here is a client and an agent. -/
def engineAgentName (m : Manifest) : Text := m.clientId ++ lit "-" ++ m.agentId

/-- Where the spec of an agent is written, in the directory of the specs. -/
def specFile (specDir : Text) (m : Manifest) : Text :=
  specDir ++ lit "/" ++ engineAgentName m ++ lit ".toml"

/-- A dash is read as the one between client and agent for the one manifest and belongs to the
client for the other. -/
def Shifted (m m' : Manifest) : Prop :=
  ∃ x, m'.clientId = m.clientId ++ lit "-" ++ x ∧ m.agentId = x ++ lit "-" ++ m'.agentId

/-- Two texts joined by the same unit: the parts are equal, or the unit is read in another
place. -/
lemma joined_eq_iff {α : Type} {c a c' a' : List α} {d : α} :
    c ++ [d] ++ a = c' ++ [d] ++ a' ↔
      (c = c' ∧ a = a') ∨ (∃ x, c' = c ++ [d] ++ x ∧ a = x ++ [d] ++ a') ∨
        ∃ x, c = c' ++ [d] ++ x ∧ a' = x ++ [d] ++ a := by
  simp only [List.append_assoc, List.singleton_append]
  rw [List.append_eq_append_iff]
  constructor
  · rintro (⟨x, hc, ha⟩ | ⟨x, hc, ha⟩)
    · cases x with
      | nil => exact .inl ⟨by simpa using hc.symm, by simpa using ha⟩
      | cons u x =>
          obtain ⟨rfl, rfl⟩ := List.cons.inj ha
          exact .inr (.inl ⟨x, hc, rfl⟩)
    · cases x with
      | nil => exact .inl ⟨by simpa using hc, by simpa using ha.symm⟩
      | cons u x =>
          obtain ⟨rfl, rfl⟩ := List.cons.inj ha
          exact .inr (.inr ⟨x, hc, rfl⟩)
  · rintro (⟨rfl, rfl⟩ | ⟨x, rfl, rfl⟩ | ⟨x, rfl, rfl⟩)
    · exact .inl ⟨[], by simp⟩
    · exact .inl ⟨d :: x, rfl, rfl⟩
    · exact .inr ⟨d :: x, rfl, rfl⟩

lemma engineAgentName_eq_iff {m m' : Manifest} :
    engineAgentName m = engineAgentName m' ↔
      (m.clientId = m'.clientId ∧ m.agentId = m'.agentId) ∨ Shifted m m' ∨ Shifted m' m :=
  joined_eq_iff

lemma specFile_eq_iff {specDir : Text} {m m' : Manifest} :
    specFile specDir m = specFile specDir m' ↔ engineAgentName m = engineAgentName m' := by
  unfold specFile
  rw [List.append_left_inj, List.append_right_inj]

/-- The longer client is not the shorter one. -/
lemma Shifted.clientId_ne {m m' : Manifest} (h : Shifted m m') : m.clientId ≠ m'.clientId := by
  obtain ⟨x, hx, -⟩ := h
  intro he
  have hlen := congrArg List.length (he.trans hx)
  have hdash : (lit "-").length = 1 := by decide
  rw [List.length_append, List.length_append] at hlen
  omega

/-- **Which agents share a name.** Two accepted manifests for the engine that get one name, and
with it one spec file, are of the same client and agent, unless the client of one of them is the
client of the other with a dash and a text added, and its agent is what is left of the other's
agent behind that text and a dash. -/
theorem agents_named_apart_iff (m m' : EngineManifest) (specDir : Text) :
    ((engineAgentName m.toManifest = engineAgentName m'.toManifest ∨
        specFile specDir m.toManifest = specFile specDir m'.toManifest) →
      m.clientId = m'.clientId ∧ m.agentId = m'.agentId) ↔
    ¬ Shifted m.toManifest m'.toManifest ∧ ¬ Shifted m'.toManifest m.toManifest := by
  rw [specFile_eq_iff, or_self, engineAgentName_eq_iff]
  constructor
  · intro h
    refine ⟨fun hs => ?_, fun hs => ?_⟩
    · exact hs.clientId_ne (h (.inr (.inl hs))).1
    · exact hs.clientId_ne (h (.inr (.inr hs))).1.symm
  · rintro ⟨h, h'⟩ (he | hs | hs)
    · exact he
    · exact absurd hs h
    · exact absurd hs h'

/-- A manifest for the engine, of this client and agent. -/
def sampleInput (clientId agentId : String) : Value :=
  .obj [(lit "schemaVersion", .ofNat 1), (lit "clientId", .str (lit clientId)),
    (lit "agentId", .str (lit agentId)), (lit "lifecycle", .str (lit "service")),
    (lit "runtime", .str (lit "hermes")),
    (lit "target", .obj [(lit "kind", .str (lit "engine")), (lit "name", .str (lit "local"))]),
    (lit "workload", .obj [(lit "config", .str (lit "agents/aurum"))]),
    (lit "model", .obj [(lit "provider", .str (lit "openrouter")),
      (lit "fallback", .str (lit "disabled"))]),
    (lit "secretRefs", .obj [(lit "model", .str (lit "acme/openrouter"))]),
    (lit "limits", .obj [(lit "memoryMiB", .ofNat 2048), (lit "cpus", .ofNat 2),
      (lit "maxConcurrentRuns", .ofNat 1), (lit "runTimeoutSeconds", .ofNat 3600)])]

def sampleManifest (clientId agentId : String) : Manifest where
  clientId := lit clientId
  agentId := lit agentId
  lifecycle := lit "service"
  runtime := lit "hermes"
  target := .engine (lit "local")
  workload := .config (lit "agents/aurum")
  model := { provider := lit "openrouter", secret := some (lit "acme/openrouter") }
  limits := { memoryMiB := 2048, cpus := 2, maxConcurrentRuns := 1, runTimeoutSeconds := 3600 }

/-- The agent `c` of the client `a-b`. -/
def dashedClient : EngineManifest where
  toManifest := sampleManifest "a-b" "c"
  input := sampleInput "a-b" "c"
  accepted := by decide +kernel
  engine := rfl

/-- The agent `b-c` of the client `a`. -/
def dashedAgent : EngineManifest where
  toManifest := sampleManifest "a" "b-c"
  input := sampleInput "a" "b-c"
  accepted := by decide +kernel
  engine := rfl

/-- Two clients share the name `a-b-c`. -/
theorem clients_share_name :
    ¬ ∀ m m' : EngineManifest, engineAgentName m.toManifest = engineAgentName m'.toManifest →
      m.clientId = m'.clientId ∧ m.agentId = m'.agentId := by
  intro h
  have hsame := h dashedClient dashedAgent (by decide +kernel)
  exact absurd hsame.1 (by decide +kernel)

end Bimo.Deployment
