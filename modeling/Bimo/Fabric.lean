import Bimo.Prog
import Bimo.Journal
import Bimo.Handle

/-!
The control plane for spec-declared agents: `recover`, `apply` and `destroy`.

Each function is the program its source is, over two kinds of calls: the control plane's own
(`Call`: the agent record, the journal, the lock, secrets, the readiness probe) and those of
the substrate driver it is given (`X`). A driver is a record of programs, as the source's
`Substrate` is a trait. Of the journal it sees `Touch` alone, the two calls of the source's
`ResourceJournal`; `serve` answers them.

Copies of logs and audits and the removal of generation directories are best effort in the
source and touch nothing that is read back here; they are left out. Secret values are the
ones the apply resolved.
-/

namespace Bimo.Fabric

/-- The calls of the control plane. -/
inductive Call
  | readRecord (agent : String)
  | readJournal (agent : String)
  | journalExists (agent : String)
  | append (agent : String) (e : JournalEntry)
  | writeRecord (agent : String) (r : AgentRecord)
  | lock (agent : String)
  | target (name : String)
  | resolve (target handle : String)
  | controlKey (agent : String)
  | prepare (agent : String) (generation : ℕ)
  | probe (endpoint : String)
  | stateCheck (endpoint : String)
  /-- Nothing happens here. It marks for an observer that the driver's `destroy` has come
  back, and how. -/
  | returned (target : String) (r : Resource) (ok : Bool)

def Call.Ret : Call → Type
  | .readRecord _ => Except FabricError (Option AgentRecord)
  | .readJournal _ => Except FabricError (List JournalEntry)
  | .journalExists _ => Bool
  | .append _ _ | .writeRecord _ _ | .lock _ => Except String Unit
  | .target _ | .prepare _ _ | .stateCheck _ => Except FabricError Unit
  | .resolve _ _ => Except String String
  | .controlKey _ => Except FabricError String
  | .probe _ => Except FabricError (ℕ × String)
  | .returned _ _ _ => Unit

/-- Programs of the control plane with a driver's calls `X`. -/
abbrev Eff (X : Type) (XRet : X → Type) (ε α : Type) :=
  Prog (Call ⊕ X) (Sum.elim Call.Ret XRet) ε α

variable {X : Type} {XRet : X → Type}

/-- A call of the control plane. -/
def ask {ε : Type} (c : Call) : Eff X XRet ε c.Ret := Prog.ask (Sum.inl c)

def readRecord (agent : String) : Eff X XRet FabricError (Option AgentRecord) := do
  let x : Except FabricError (Option AgentRecord) ← ask (.readRecord agent)
  .ofExcept x

def readJournal (agent : String) : Eff X XRet FabricError (List JournalEntry) := do
  let x : Except FabricError (List JournalEntry) ← ask (.readJournal agent)
  .ofExcept x

/-- Append one line to the journal. -/
def write (agent : String) (e : JournalEntry) : Eff X XRet FabricError Unit := do
  let x : Except String Unit ← ask (.append agent e)
  .ofExcept (x.mapError (FabricError.io .stateFailed "could not write the journal"))

def writeRecord (agent : String) (r : AgentRecord) : Eff X XRet FabricError Unit := do
  let x : Except String Unit ← ask (.writeRecord agent r)
  .ofExcept (x.mapError (FabricError.io .stateFailed "could not write agent state"))

def lock (agent : String) : Eff X XRet FabricError Unit := do
  let x : Except String Unit ← ask (.lock agent)
  .ofExcept (x.mapError (FabricError.io .stateFailed "could not lock agent state"))

/-- Resolve a target and its driver. -/
def target (name : String) : Eff X XRet FabricError Unit := do
  let x : Except FabricError Unit ← ask (.target name)
  .ofExcept x

/-! ### The journal a driver sees -/

/-- The calls of a resource journal. -/
inductive Touch
  | touching (r : Resource)
  | created (r : Resource)

def Touch.Ret (_ : Touch) : Type := Except FabricError Unit

/-- The journal after a call, whether or not the line could be written. -/
def Touch.keep (j : Journal) : Touch → Journal
  | .touching r => j.push r
  | .created r => j.settle r

def Touch.event : Touch → Event
  | .touching _ => .touching
  | .created _ => .created

def Touch.resource : Touch → Resource
  | .touching r | .created r => r

def Touch.entry (j : Journal) (t : Touch) : JournalEntry := j.about t.event t.resource

/-- A driver's program, its journal calls answered by the agent's journal. -/
def serve {ε ε' α : Type} (agent : String) :
    Prog (Touch ⊕ X) (Sum.elim Touch.Ret XRet) ε α → Journal →
      Eff X XRet ε' (Except ε α × Journal)
  | .ret a, j => .ret (.ok a, j)
  | .fail e, j => .ret (.error e, j)
  | .call (.inl t) k, j => do
    let x ← (write agent (t.entry j)).attempt
    serve agent (k x) (t.keep j)
  | .call (.inr o) k, j => .call (Sum.inr o) fun r => serve agent (k r) j

/-- A substrate driver. -/
structure Driver (X : Type) (XRet : X → Type) where
  kind : String
  create : CreateRequest → Prog (Touch ⊕ X) (Sum.elim Touch.Ret XRet) FabricError Created
  destroy : Resource → Prog X XRet FabricError Unit
  alive : Resource → Prog X XRet FabricError Bool
  rotateSecrets : (agent : String) → (generation : ℕ) → List Resource → Option String →
    List (String × String) → Prog X XRet FabricError Unit

end Fabric

/-- The fabric: where the agents' directories are, a driver for every target name, and SHA-256
as lowercase hex text. -/
structure Fabric (X : Type) (XRet : X → Type) where
  stateRoot : String
  driver : String → Fabric.Driver X XRet
  sha256 : String → String

namespace Fabric

variable {X : Type} {XRet : X → Type} (F : Fabric X XRet)

def destroyResource (target : String) (r : Resource) : Eff X XRet FabricError Unit := do
  let res ← ((F.driver target).destroy r).inr.attempt
  let _ ← ask (.returned target r res.isOk)
  .ofExcept res

/-! ### Recovery -/

def clearRemain (agent : String) (journal : Journal) (m : Remain) :
    Eff X XRet FabricError Unit := do
  target m.target
  F.destroyResource m.target m.resource
  write agent (journal.about .cleared m.resource)

def closeIntent (agent : String) (journal : Journal) (generation : ℕ) :
    Eff X XRet FabricError Unit :=
  write agent { journal.entry .rollback with
    generation := some generation
    detail := some "recovered after an interrupted apply" }

/-- Clear whatever an interrupted apply or destroy left behind. -/
def recover (agent : String) : Eff X XRet FabricError (List Remain) := do
  let found := remains (← readJournal agent)
  if found.isEmpty then
    return found
  let journal : Journal := { generation := 0, target := "" }
  Prog.each (F.clearRemain agent journal) found
  let j ← readJournal agent
  Prog.each (closeIntent agent journal) (openIntents j)
  return found

/-! ### Starting a generation -/

def prepare (agent : String) (generation : ℕ) : Eff X XRet FabricError Unit := do
  let x : Except FabricError Unit ← ask (.prepare agent generation)
  .ofExcept x

/-- The probe loop: the runtime accepts its first task, refuses it, exits or times out. -/
def probe (endpoint : String) : Eff X XRet FabricError (ℕ × String) := do
  let x : Except FabricError (ℕ × String) ← ask (.probe endpoint)
  .ofExcept x

def stateCheck (endpoint : String) : Eff X XRet FabricError Unit := do
  let x : Except FabricError Unit ← ask (.stateCheck endpoint)
  .ofExcept x

/-- Create the resources and probe until the first task is accepted. On failure, the
resources for the caller to clear. -/
def startGeneration (loaded : LoadedSpec) (driver : Driver X XRet) (journal : Journal)
    (secrets : List (String × String)) :
    Eff X XRet (FabricError × List Resource) (Created × ℕ × String) := do
  let spec := loaded.spec
  (prepare spec.name journal.generation).mapErr (·, [])
  let request : CreateRequest :=
    { agent := spec.name, tenant := spec.tenantId, runtime := spec.runtime,
      generation := journal.generation, secrets }
  let (result, journal) ← serve spec.name (driver.create request) journal
  let created ← .ofExcept (result.mapError (·, journal.touched))
  let (readyMs, taskId) ← (probe created.endpoint).mapErr (·, created.resources)
  (write spec.name { journal.entry .ready with
    detail := some ("ready_ms=" ++ toString readyMs ++ " task=" ++ taskId) }).mapErr
      (·, created.resources)
  (stateCheck created.endpoint).mapErr (·, created.resources)
  return (created, readyMs, taskId)

/-- Clear one resource of a start that failed. The outcome of the destroy is dropped and the
resource journaled as cleared either way. -/
def undoTouched (agent : String) (journal : Journal) (r : Resource) :
    Eff X XRet FabricError Unit := do
  let _ ← (F.destroyResource journal.target r).attempt
  let _ ← (write agent (journal.about .cleared r)).attempt
  return ()

/-- Destroy one resource of a generation whose record could not be written. -/
def undoCreated (target : String) (r : Resource) : Eff X XRet FabricError Unit := do
  let _ ← (F.destroyResource target r).attempt
  return ()

def retireOne (agent : String) (journal : Journal) (old : AgentRecord) (r : Resource) :
    Eff X XRet FabricError Unit := do
  write agent { journal.about .retiring r with target := some old.target }
  F.destroyResource old.target r
  write agent (journal.about .cleared r)

/-- Retire the previous generation. -/
def retire (agent : String) (journal : Journal) (previous : Option AgentRecord) :
    Eff X XRet FabricError (List Resource) :=
  match previous with
  | some old =>
    if old.status = .ready then do
      target old.target
      Prog.each (F.retireOne agent journal old) old.resources.reverse
      return old.resources.reverse
    else return []
  | none => return []

/-! ### Apply -/

structure ApplyResult where
  name : String
  tenantId : String
  runtime : String
  target : String
  generation : ℕ
  fingerprint : String
  idempotencyKey : String
  endpoint : Option String
  /-- Absent when nothing was started. -/
  readyMs : Option ℕ
  firstTaskId : Option String
  resources : List Resource
  recovered : List Remain
  retired : List Resource
  rotated : List String

structure Outcome (α : Type) where
  changed : Bool
  result : α

/-- What an apply has in hand once everything is resolved. -/
structure Resolved where
  loaded : LoadedSpec
  previous : Option AgentRecord
  recovered : List Remain
  key : String
  secrets : List (String × String)
  digest : String

/-- Tenants do not share an agent name while the agent lives. -/
def checkTenant (record : Option AgentRecord) (spec : AgentSpec) :
    Eff X XRet FabricError Unit :=
  match record with
  | some r =>
    if r.tenantId ≠ spec.tenantId ∧ r.status ≠ .destroyed then
      .fail { code := .tenantConflict,
              message := "agent '" ++ spec.name ++ "' belongs to tenant '" ++ r.tenantId ++
                "', not '" ++ spec.tenantId ++ "'",
              next := ["choose another agent name, or destroy the existing agent first"] }
    else return ()
  | none => return ()

def deadResources (driver : Driver X XRet) : List Resource → Eff X XRet FabricError (List String)
  | [] => return []
  | r :: l => do
    let alive ← (driver.alive r).inr
    let dead ← deadResources driver l
    return if alive then dead else r.id :: dead

def idempotencyKey (loaded : LoadedSpec) : String :=
  String.ofList
    ((F.sha256 ("apply\x00" ++ loaded.spec.name ++ "\x00" ++ loaded.fingerprint)).toList.take 32)

/-- The text the secrets digest is taken of. -/
def digestText (controlKey : String) (secrets : List (String × String)) : String :=
  "monolith-secrets\x00" ++ controlKey ++
    String.join (secrets.map fun (env, value) => "\x00" ++ env ++ "\x00" ++ value)

def secretsDigest (controlKey : String) (secrets : List (String × String)) : String :=
  F.sha256 (digestText controlKey secrets)

/-- Every handle must resolve before anything is touched. -/
def resolveSecrets (substrate : String) :
    List SecretRef → Eff X XRet FabricError (List (String × String))
  | [] => return []
  | s :: l => do
    let x : Except String String ← ask (.resolve substrate s.handle)
    let value ← .ofExcept (x.mapError fun error =>
      { code := .secretUnresolved, message := error,
        next := ["provide secret '" ++ s.handle ++ "' for " ++ s.env ++
          " in the target's secret source, then apply again"] })
    let rest ← resolveSecrets substrate l
    return (s.env, value) :: rest

def controlKey (agent : String) : Eff X XRet FabricError String := do
  let x : Except FabricError String ← ask (.controlKey agent)
  .ofExcept x

/-- Rotate secret values in the running proxy and record the new digest. -/
def rotateSecrets (agent : String) (driver : Driver X XRet) (record : AgentRecord)
    (secrets : List (String × String)) (digest : String) :
    Eff X XRet FabricError (List String) := do
  (driver.rotateSecrets agent record.generation record.resources record.proxyManagement
    secrets).inr.mapErr fun error =>
      { error with next := error.next ++
        ["bimo agent destroy " ++ record.name ++ ", then apply again"] }
  writeRecord agent { record with secretsDigest := some digest }
  let journal : Journal := { generation := record.generation, target := record.target }
  let names := secrets.map Prod.fst
  write agent { journal.entry .secretsRotated with
    detail := some ("reloaded proxy secrets: " ++ String.intercalate ", " names) }
  return names

/-- The record, when what runs is what the spec says. -/
def upToDate (loaded : LoadedSpec) (driver : Driver X XRet) (previous : Option AgentRecord) :
    Eff X XRet FabricError (Option AgentRecord) :=
  match previous with
  | some record =>
    if record.status = .ready ∧ record.fingerprint = loaded.fingerprint ∧
        record.target = loaded.spec.substrate then do
      let dead ← deadResources driver record.resources
      return if dead.isEmpty then some record else none
    else return none
  | none => return none

/-- The path that starts nothing: rotate the secrets if their digest changed. -/
def keep (v : Resolved) (driver : Driver X XRet) (record : AgentRecord) :
    Eff X XRet FabricError (Outcome ApplyResult) := do
  let agent := v.loaded.spec.name
  let rotated ←
    if record.secretsDigest ≠ some v.digest then
      rotateSecrets agent driver record v.secrets v.digest
    else pure []
  let record := (← readRecord agent).getD record
  return {
    changed := !v.recovered.isEmpty || !rotated.isEmpty
    result := {
      name := record.name, tenantId := record.tenantId, runtime := record.runtime,
      target := record.target, generation := record.generation,
      fingerprint := record.fingerprint, idempotencyKey := v.key,
      endpoint := record.endpoint, readyMs := none, firstTaskId := none,
      resources := record.resources, recovered := v.recovered, retired := [], rotated } }

def newRecord (v : Resolved) (driver : Driver X XRet) (generation : ℕ)
    (created : Created) (readyMs : ℕ) (taskId : String) : AgentRecord where
  name := v.loaded.spec.name
  tenantId := v.loaded.spec.tenantId
  runtime := v.loaded.spec.runtime
  target := v.loaded.spec.substrate
  substrate := driver.kind
  generation := generation
  fingerprint := v.loaded.fingerprint
  idempotencyKey := v.key
  spec := v.loaded.spec
  status := .ready
  resources := created.resources
  endpoint := some created.endpoint
  readyMs := some readyMs
  firstTaskId := some taskId
  proxyManagement := created.proxyManagement
  secretsDigest := some v.digest

/-- Commit a started generation: the record, the journal's commit, then the old one. -/
def commit (v : Resolved) (driver : Driver X XRet) (journal : Journal) (created : Created)
    (readyMs : ℕ) (taskId : String) : Eff X XRet FabricError (Outcome ApplyResult) := do
  let agent := v.loaded.spec.name
  let record := newRecord v driver journal.generation created readyMs taskId
  match ← (writeRecord agent record).attempt with
  | .error error => do
    Prog.each (F.undoCreated journal.target) created.resources.reverse
    let _ ← (write agent (journal.entry .rollback)).attempt
    .fail error
  | .ok _ => do
    write agent { journal.entry .commit with retire := liveResources v.previous }
    let retired ← F.retire agent journal v.previous
    return {
      changed := true
      result := {
        name := record.name, tenantId := record.tenantId, runtime := record.runtime,
        target := record.target, generation := journal.generation,
        fingerprint := record.fingerprint, idempotencyKey := v.key,
        endpoint := record.endpoint, readyMs := some readyMs, firstTaskId := some taskId,
        resources := record.resources, recovered := v.recovered, retired, rotated := [] } }

/-- Start a new generation and commit it, or roll it back. -/
def replace (v : Resolved) (driver : Driver X XRet) :
    Eff X XRet FabricError (Outcome ApplyResult) := do
  let agent := v.loaded.spec.name
  let generation := nextGeneration (← readJournal agent) v.previous
  let journal : Journal := { generation, target := v.loaded.spec.substrate }
  write agent { journal.entry .intent with
    fingerprint := some v.loaded.fingerprint
    idempotencyKey := some v.key }
  match ← (startGeneration v.loaded driver journal v.secrets).attempt with
  | .error (error, touched) => do
    Prog.each (F.undoTouched agent journal) touched.reverse
    let _ ← (write agent { journal.entry .rollback with
      detail := some (String.ofList (error.message.toList.take 256)) }).attempt
    .fail error
  | .ok (created, readyMs, taskId) => F.commit v driver journal created readyMs taskId

/-- An agent's directory is named by the agent. -/
def agentDir (name : String) : Eff X XRet FabricError Unit :=
  if !isIdentifier name then
    .fail { code := .usage, message := "'" ++ name ++ "' is not a valid agent name" }
  else return ()

def apply (loaded : LoadedSpec) : Eff X XRet FabricError (Outcome ApplyResult) := do
  let spec := loaded.spec
  target spec.substrate
  let driver := F.driver spec.substrate
  agentDir spec.name
  lock spec.name
  let previous ← readRecord spec.name
  checkTenant previous spec
  let recovered ← F.recover spec.name
  let secrets ← resolveSecrets spec.substrate spec.secrets
  let controlKey ← controlKey spec.name
  let v : Resolved :=
    { loaded, previous, recovered, secrets, key := F.idempotencyKey loaded,
      digest := F.secretsDigest controlKey secrets }
  match ← upToDate loaded driver previous with
  | some record => keep v driver record
  | none => F.replace v driver

/-! ### Destroy -/

structure DestroyResult where
  name : String
  destroyed : List Resource
  recovered : List Remain

def destroyOne (agent : String) (journal : Journal) (r : Resource) :
    Eff X XRet FabricError Unit := do
  write agent (journal.about .destroying r)
  F.destroyResource journal.target r
  write agent (journal.about .cleared r)

def destroyRecord (agent : String) (record : AgentRecord) : Eff X XRet FabricError Unit := do
  target record.target
  let journal : Journal := { generation := record.generation, target := record.target }
  Prog.each (F.destroyOne agent journal) record.resources.reverse
  writeRecord agent { record with status := .destroyed, resources := [], endpoint := none }
  write agent (journal.entry .destroyed)

def destroy (agent : String) : Eff X XRet FabricError (Outcome DestroyResult) := do
  agentDir agent
  let present : Bool ← ask (.journalExists agent)
  if !present then
    .fail { code := .notFound,
            message := "no agent named '" ++ agent ++ "' under " ++ F.stateRoot,
            next := ["bimo agent list"] }
  else do
    lock agent
    let recovered ← F.recover agent
    match ← readRecord agent with
    | none => return { changed := !recovered.isEmpty, result := ⟨agent, [], recovered⟩ }
    | some record =>
      if record.status = .destroyed then
        return { changed := !recovered.isEmpty, result := ⟨agent, [], recovered⟩ }
      else do
        F.destroyRecord agent record
        return { changed := true, result := ⟨agent, record.resources.reverse, recovered⟩ }

end Bimo.Fabric
