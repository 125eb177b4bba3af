import Bimo.Fabric

/-!
The local driver: an agent as two process groups on the control-plane host, its credential
proxy and its runtime, and secret rotation through the proxy's files and its reload.

The recipes a spec gives rise to (program, arguments, environment, sandbox profile) are the
answers of two calls here; only the program's path is read back, for an error text.
-/

namespace Bimo.Local

structure ProxyPorts where
  tunnel : ℕ
  http : ℕ
  https : ℕ
  management : ℕ
  metrics : ℕ
  deriving DecidableEq, Repr

inductive Call
  | timestampMillis
  | freeLocalPort
  /-- The proxy's launch recipe. -/
  | launch (ports : ProxyPorts)
  /-- The runtime's launch recipe, confined. -/
  | recipe (agent : String) (port tunnel : ℕ)
  | spawnGroup (program session : String)
  | waitForPort (port : ℕ) (identity : ProcessIdentity)
  | identityAlive (identity : ProcessIdentity)
  | stopGroup (identity : ProcessIdentity)
  | writeSecretFile (agent : String) (generation : ℕ) (env value : String)
  | reload (agent : String) (generation : ℕ) (management : String)

def Call.Ret : Call → Type
  | .timestampMillis => ℕ
  | .freeLocalPort => Except String ℕ
  | .launch _ | .recipe _ _ _ => Except FabricError String
  | .spawnGroup _ _ => Except String ProcessIdentity
  | .waitForPort _ _ | .stopGroup _ | .writeSecretFile _ _ _ _ => Except String Unit
  | .identityAlive _ => Bool
  | .reload _ _ _ => Except FabricError Unit

/-- What creates resources: the local calls and the resource journal. -/
abbrev Create (α : Type) :=
  Prog (Fabric.Touch ⊕ Call) (Sum.elim Fabric.Touch.Ret Call.Ret) FabricError α

/-- A local call, in a create. -/
def call (c : Call) : Create c.Ret := Prog.ask (Sum.inr c)

/-- A local call. -/
def ask (c : Call) : Prog Call Call.Ret FabricError c.Ret := Prog.ask c

def touching (r : Resource) : Create Unit := do
  let x : Except FabricError Unit ← Prog.ask (Sum.inl (.touching r))
  .ofExcept x

def created (r : Resource) : Create Unit := do
  let x : Except FabricError Unit ← Prog.ask (Sum.inl (.created r))
  .ofExcept x

def freeLocalPort : Create ℕ := do
  let x : Except String ℕ ← call .freeLocalPort
  .ofExcept (x.mapError (FabricError.io .substrateFailed "could not allocate a port"))

def spawnGroup (code : Code) (context program session : String) : Create ProcessIdentity := do
  let x : Except String ProcessIdentity ← call (.spawnGroup program session)
  .ofExcept (x.mapError (FabricError.io code context))

/-- Start the agent's proxy, journaled before it is spawned. -/
def startLocalProxy (request : CreateRequest) (session : String) :
    Create (Resource × ProxyPorts) := do
  let tunnel ← freeLocalPort
  let http ← freeLocalPort
  let https ← freeLocalPort
  let management ← freeLocalPort
  let metrics ← freeLocalPort
  let ports : ProxyPorts := { tunnel, http, https, management, metrics }
  let x : Except FabricError String ← call (.launch ports)
  let program ← .ofExcept x
  let proxySession := session ++ "-proxy"
  let pending : Resource := { kind := .proxyProcess, id := "local:" ++ proxySession }
  touching pending
  let identity ← spawnGroup .proxyFailed "could not start iron-proxy" program proxySession
  let proxy := { pending with process := some identity }
  created proxy
  let y : Except String Unit ← call (.waitForPort tunnel identity)
  .ofExcept (y.mapError fun message =>
    { code := .proxyFailed, message,
      next := ["bimo agent logs " ++ request.agent ++ " --stream egress"] })
  return (proxy, ports)

def create (request : CreateRequest) : Create Created := do
  let now : ℕ ← call .timestampMillis
  let session :=
    request.agent ++ "-g" ++ toString request.generation ++ "-" ++ toString now
  -- the proxy first: the agent must never run without its boundary
  let (proxy, ports) ← startLocalProxy request session
  let port ← freeLocalPort
  let x : Except FabricError String ←
    call (.recipe request.agent port ports.tunnel)
  let program ← .ofExcept x
  let pending : Resource := { kind := .agentProcess, id := "local:" ++ session }
  touching pending
  let identity ← spawnGroup .substrateFailed ("could not start '" ++ program ++ "'") program session
  let resource := { pending with process := some identity }
  created resource
  return {
    resources := [proxy, resource]
    endpoint := "http://127.0.0.1:" ++ toString port
    proxyManagement := some ("http://127.0.0.1:" ++ toString ports.management) }

def processAlive (r : Resource) : Prog Call Call.Ret FabricError Bool :=
  match r.process with
  | some identity => ask (.identityAlive identity)
  | none => return false

/-- Stop a process resource on this host. Already gone is success. -/
def stopProcess (r : Resource) : Prog Call Call.Ret FabricError Unit :=
  match r.process with
  | none => return () -- journaled before spawn and never created: nothing to stop
  | some identity => do
    let alive : Bool ← ask (.identityAlive identity)
    if !alive then
      return ()
    let x : Except String Unit ← ask (.stopGroup identity)
    .ofExcept (x.mapError (FabricError.io .substrateFailed ("could not stop " ++ r.id)))

/-! ### Rotation -/

/-- Write each real value to its own file, atomically. -/
def writeSecretFiles (agent : String) (generation : ℕ) (secrets : List (String × String)) :
    Prog Call Call.Ret FabricError Unit :=
  Prog.each (fun (env, value) => do
    let x : Except String Unit ← ask (.writeSecretFile agent generation env value)
    .ofExcept (x.mapError (FabricError.io .proxyFailed "could not write a secret file"))) secrets

/-- Re-read config and secret files in a running proxy. -/
def reload (agent : String) (generation : ℕ) (management : String) :
    Prog Call Call.Ret FabricError Unit := do
  let x : Except FabricError Unit ← ask (.reload agent generation management)
  .ofExcept x

def rotateSecrets (agent : String) (generation : ℕ) (_ : List Resource)
    (management : Option String) (secrets : List (String × String)) :
    Prog Call Call.Ret FabricError Unit :=
  match management with
  | none =>
    .fail { code := .proxyFailed,
            message := "the running agent has no credential proxy on record, so its secrets " ++
              "cannot be rotated in place" }
  | some management => do
    writeSecretFiles agent generation secrets
    reload agent generation management

def driver : Fabric.Driver Call Call.Ret where
  kind := "local"
  create := create
  destroy := stopProcess
  alive := processAlive
  rotateSecrets := rotateSecrets

end Bimo.Local
