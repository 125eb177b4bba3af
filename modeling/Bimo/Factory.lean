import Bimo.Prog
import Bimo.Substrate

/-!
The factory runtime: `apply` and its recovery.

An apply journals its intent, spawns one supervisor for each pod and journals it, journals the
old pods as retiring, writes the state file, journals the commit, stops the old pods and
journals the cleanup. `recoverIncompleteApply` folds the journal and finishes, or undoes, the
last apply it finds there. Generation numbers come from the state file alone.

Time stamps and the schema version every file is written with are left out.
-/

namespace Bimo.Factory

/-- A pod's part of the manifest; `config` is the text of its worker configuration. -/
structure PodManifest where
  name : String
  role : Option String := none
  engine : String
  protocol : String := "agent-worker/v1"
  command : List String
  allowedEnv : List String := []
  capabilities : List String := []
  maxFrameBytes : ℕ := 65536
  requestTimeoutMs : ℕ := 120000
  heartbeatTimeoutMs : ℕ
  config : String := ""
  destinations : List String := []
  messageKinds : List String := ["work.requested", "work.completed", "message"]
  maxPayloadBytes : ℕ := 32768
  deriving DecidableEq, Repr

/-- A validated manifest: no pod name occurs twice. -/
structure Manifest where
  name : String
  pods : List PodManifest
  distinct : (pods.map (·.name)).Nodup

inductive PodStatus
  | staging | ready | working | cancelling | terminalPersisted | failed | crashLoop | stopped
  | stale
  deriving DecidableEq, Repr

structure RestartState where
  count : ℕ := 0
  backoffMs : ℕ := 0
  restartRequired : Bool := false
  deriving DecidableEq, Repr

structure PodState where
  name : String
  role : String := ""
  engine : String := ""
  pid : Option ℕ := none
  processGroup : Option ℤ := none
  session : Option String := none
  launchFingerprint : Option String := none
  processStartTime : Option ℕ := none
  status : PodStatus := .stopped
  activeDelivery : Option String := none
  terminalResult : Option String := none
  restart : RestartState := {}
  lastFailure : Option String := none
  deriving DecidableEq, Repr

structure FactoryState where
  generation : ℕ
  factoryName : String
  pods : Std.TreeMap String PodState

/-- The generation the state file has, none being the first one to come. -/
def generationOf (s : Option FactoryState) : ℕ := (s.map (·.generation)).getD 0

/-- A pod before its process is there. -/
def PodManifest.initial (p : PodManifest) : PodState :=
  { name := p.name, role := p.role.getD p.name, engine := p.engine }

def FactoryState.fromManifest (m : Manifest) (generation : ℕ) : FactoryState where
  generation := generation
  factoryName := m.name
  pods := m.pods.foldl (fun pods p => pods.insert p.name p.initial) ∅

def processIdentity (p : PodState) : Option ProcessIdentity := do
  return {
    pid := ← p.pid
    processGroup := ← p.processGroup
    session := ← p.session
    launchFingerprint := ← p.launchFingerprint
    startTime := ← p.processStartTime }

/-- The processes a state names. -/
def FactoryState.identities (s : FactoryState) : List ProcessIdentity :=
  (s.pods.toList.map Prod.snd).filterMap processIdentity

/-- The lines of the apply journal. A rollback without an error text is a recovered one. -/
inductive Entry
  | intent (generation : ℕ)
  | spawned (generation : ℕ) (identity : ProcessIdentity)
  | retiring (generation : ℕ) (identity : ProcessIdentity)
  | commit (generation : ℕ)
  | rollback (generation : ℕ) (error : Option String)
  | cleanup (generation : ℕ) (recovered : Bool)
  deriving DecidableEq, Repr

/-- How the wait for a worker's handshake ends. -/
inductive Handshake
  | ready | exited | timedOut
  deriving DecidableEq, Repr

inductive Call
  | lock
  | readJournal
  | append (e : Entry)
  | readState
  | writeState (s : FactoryState)
  | identityAlive (identity : ProcessIdentity)
  | preflight (m : Manifest) (p : PodManifest)
  | session (p : PodManifest)
  /-- The worker's config and log files. -/
  | writeConfig (p : PodManifest) (generation : ℕ) (session fingerprint : String)
  | spawn (p : PodManifest) (session fingerprint : String)
  | handshake (p : PodManifest) (session : String)
  | startTime (pid : ℕ)
  | stopGroup (identity : ProcessIdentity)

def Call.Ret : Call → Type
  | .lock | .append _ | .writeState _ | .preflight _ _ | .writeConfig _ _ _ _ | .stopGroup _ =>
    Except String Unit
  | .readJournal => Except String (List Entry)
  | .readState => Except String (Option FactoryState)
  | .identityAlive _ => Bool
  | .session _ => String
  | .spawn _ _ _ => Except String ℕ
  | .handshake _ _ => Handshake
  | .startTime _ => Option ℕ

abbrev Act (α : Type) := Prog Call Call.Ret String α

def ask (c : Call) : Act c.Ret := Prog.ask c

def append (e : Entry) : Act Unit := do
  let x : Except String Unit ← ask (.append e)
  .ofExcept x

/-- Make the state directory and take its lock. -/
def lock : Act Unit := do
  let x : Except String Unit ← ask .lock
  .ofExcept x

def readJournal : Act (List Entry) := do
  let x : Except String (List Entry) ← ask .readJournal
  .ofExcept x

def readState : Act (Option FactoryState) := do
  let x : Except String (Option FactoryState) ← ask .readState
  .ofExcept x

def writeState (s : FactoryState) : Act Unit := do
  let x : Except String Unit ← ask (.writeState s)
  .ofExcept x

/-- Stop a process group; what comes of it is not looked at. -/
def stopGroup (identity : ProcessIdentity) : Act Unit := do
  let _ : Except String Unit ← ask (.stopGroup identity)
  return ()

def stopStaged (staged : List ProcessIdentity) : Act Unit := Prog.each stopGroup staged

/-! ### Recovery -/

/-- What the fold over the journal has seen. -/
structure Seen where
  intent : Option ℕ := none
  closed : List ℕ := []
  committed : List ℕ := []
  cleaned : List ℕ := []
  spawned : List ProcessIdentity := []
  retiring : List ProcessIdentity := []
  deriving DecidableEq, Repr

def Seen.step (f : Seen) : Entry → Seen
  | .intent g => { f with intent := some g, spawned := [], retiring := [] }
  | .spawned g i => if some g = f.intent then { f with spawned := f.spawned ++ [i] } else f
  | .retiring g i => if some g = f.intent then { f with retiring := f.retiring ++ [i] } else f
  | .commit g => { f with closed := g :: f.closed, committed := g :: f.committed }
  | .rollback g _ => { f with closed := g :: f.closed }
  | .cleanup g _ => { f with cleaned := g :: f.cleaned }

def seen (j : List Entry) : Seen := j.foldl Seen.step {}

def recoverIncompleteApply : Act Unit := do
  let f := seen (← readJournal)
  match f.intent with
  | none => return ()
  | some generation =>
    if generation ∉ f.closed then do
      Prog.each stopGroup f.spawned
      append (.rollback generation none)
    else if generation ∈ f.committed ∧ generation ∉ f.cleaned then do
      Prog.each stopGroup f.retiring
      append (.cleanup generation true)
    else return ()

/-! ### Apply -/

def bounded (s : String) : String := String.ofList (s.toList.take 256)

def startTime (pid : ℕ) : Act ℕ := do
  let x : Option ℕ ← ask (.startTime pid)
  match x with
  | some t => return t
  | none => .fail "could not read managed worker start time"

def spawnSupervisor (m : Manifest) (p : PodManifest) (g : ℕ) (fp : String) :
    Act (ℕ × String) := do
  let x : Except String Unit ← ask (.preflight m p)
  .ofExcept x
  let session : String ← ask (.session p)
  let y : Except String Unit ← ask (.writeConfig p g session fp)
  .ofExcept y
  let z : Except String ℕ ← ask (.spawn p session fp)
  let pid ← .ofExcept z
  let h : Handshake ← ask (.handshake p session)
  match h with
  | .ready => return (pid, session)
  | .exited => .fail ("worker " ++ p.name ++ " exited before handshake")
  | .timedOut => do
    let t ← startTime pid
    stopGroup { pid, processGroup := pid, session, launchFingerprint := fp, startTime := t }
    .fail ("worker " ++ p.name ++ " handshake timed out")

/-- The pod's state once its supervisor runs. -/
def started (p : PodState) (i : ProcessIdentity) : PodState :=
  { p with
    pid := some i.pid
    processGroup := some i.processGroup
    session := some i.session
    launchFingerprint := some i.launchFingerprint
    processStartTime := some i.startTime
    status := .ready }

def FactoryState.place (s : FactoryState) (pod : String) (i : ProcessIdentity) : FactoryState :=
  { s with pods := s.pods.insert pod (started ((s.pods[pod]?).getD { name := pod }) i) }

/-- Stop what was staged, then fail. -/
def undo {α : Type} (staged : List ProcessIdentity) (error : String) : Act α := do
  stopStaged staged
  .fail error

/-- Stop what was staged, journal the rollback as far as possible, then fail. -/
def rollback {α : Type} (staged : List ProcessIdentity) (generation : ℕ) (error : String) :
    Act α := do
  stopStaged staged
  let _ ← (append (.rollback generation (some (bounded error)))).attempt
  .fail error

section

variable (fingerprint : PodManifest → Except String String)

/-- Spawn one pod's supervisor and journal it. -/
def stagePod (m : Manifest) (generation : ℕ) (p : PodManifest) (staged : List ProcessIdentity)
    (next : FactoryState) : Act (List ProcessIdentity × FactoryState) := do
  let fp ← .ofExcept (fingerprint p)
  match ← (spawnSupervisor m p generation fp).attempt with
  | .error e => rollback staged generation e
  | .ok (pid, session) =>
    match ← (startTime pid).attempt with
    | .error e => undo staged e
    | .ok t => do
      let identity : ProcessIdentity :=
        { pid, processGroup := pid, session, launchFingerprint := fp, startTime := t }
      let staged := staged ++ [identity]
      match ← (append (.spawned generation identity)).attempt with
      | .error e => undo staged e
      | .ok _ => return (staged, next.place p.name identity)

def stage (m : Manifest) (generation : ℕ) :
    List PodManifest → List ProcessIdentity → FactoryState →
      Act (List ProcessIdentity × FactoryState)
  | [], staged, next => return (staged, next)
  | p :: l, staged, next => do
    let (staged, next) ← stagePod fingerprint m generation p staged next
    stage m generation l staged next

/-- Whether a pod runs as its manifest says. -/
def podUnchanged (old : FactoryState) (p : PodManifest) : Act Bool :=
  match fingerprint p, old.pods[p.name]? with
  | .ok fp, some existing =>
    if existing.launchFingerprint = some fp ∧ existing.status ≠ .failed then
      match processIdentity existing with
      | some identity => ask (.identityAlive identity)
      | none => return false
    else return false
  | _, _ => return false

def podsUnchanged (old : FactoryState) : List PodManifest → Act Bool
  | [] => return true
  | p :: l => do
    if ← podUnchanged fingerprint old p then podsUnchanged old l else return false

def unchanged (previous : Option FactoryState) (m : Manifest) : Act (Option FactoryState) :=
  match previous with
  | some old =>
    if old.factoryName = m.name ∧ old.pods.size = m.pods.length then do
      return if ← podsUnchanged fingerprint old m.pods then some old else none
    else return none
  | none => return none

def nextGeneration (previous : Option FactoryState) : ℕ :=
  match previous with
  | some s => s.generation + 1
  | none => 1

def identitiesOf (previous : Option FactoryState) : List ProcessIdentity :=
  (previous.map (·.identities)).getD []

/-- Record a staged generation, then retire the old one. -/
def record (previous : Option FactoryState) (generation : ℕ) (staged : List ProcessIdentity)
    (next : FactoryState) : Act FactoryState := do
  Prog.each (fun i => append (.retiring generation i)) (identitiesOf previous)
  match ← (writeState next).attempt with
  | .error e => rollback staged generation e
  | .ok _ => do
    append (.commit generation)
    Prog.each stopGroup (identitiesOf previous)
    append (.cleanup generation false)
    return next

def apply (m : Manifest) : Act FactoryState := do
  lock
  recoverIncompleteApply
  let previous ← readState
  match ← unchanged fingerprint previous m with
  | some old => return old
  | none => do
    let generation := nextGeneration previous
    append (.intent generation)
    let (staged, next) ←
      stage fingerprint m generation m.pods [] (.fromManifest m generation)
    record previous generation staged next

end

/-! ### Status and destroy -/

/-- Count a failure: how long to wait, unless it is time to give up. -/
def recordFailure (r : RestartState) : RestartState :=
  let count := r.count + 1
  if count ≥ 5 then { count, backoffMs := 0, restartRequired := true }
  else { count, backoffMs := min (100 * 2 ^ count) 10000, restartRequired := r.restartRequired }

/-- A pod whose process is gone. -/
def failed (p : PodState) : PodState :=
  let restart := recordFailure p.restart
  { p with
    pid := none
    processGroup := none
    status := if restart.restartRequired then .crashLoop else .failed
    lastFailure := some "managed worker process exited"
    restart := restart }

/-- A pod as it is found, and whether that is a change. -/
def refreshPod (p : PodState) : Act (PodState × Bool) :=
  match p.pid with
  | none => return (p, false)
  | some _ =>
    match processIdentity p with
    | none => return (failed p, true)
    | some identity => do
      let alive : Bool ← ask (.identityAlive identity)
      if alive then return (p, false)
      else do
        stopGroup identity
        return (failed p, true)

def refreshPods : List (String × PodState) → FactoryState → Bool → Act (FactoryState × Bool)
  | [], s, changed => return (s, changed)
  | (name, p) :: l, s, changed => do
    let (p, c) ← refreshPod p
    refreshPods l { s with pods := s.pods.insert name p } (changed || c)

def refresh (s : FactoryState) : Act (FactoryState × Bool) := refreshPods s.pods.toList s false

/-- The state file is read, and written if a pod has changed, with no lock taken. -/
def commandStatus : Act Unit := do
  match ← readState with
  | none => .fail "no factory state exists"
  | some s => do
    let (s, changed) ← refresh s
    if changed then writeState s else return ()

def stopped (p : PodState) : PodState :=
  { p with processGroup := none, pid := none, status := .stopped }

def stopPods : List (String × PodState) → FactoryState → Act FactoryState
  | [], s => return s
  | (name, p) :: l, s => do
    match processIdentity p with
    | some identity => do
      let x : Except String Unit ← ask (.stopGroup identity)
      .ofExcept x
    | none => pure ()
    stopPods l { s with pods := s.pods.insert name (stopped p) }

def destroy (s : FactoryState) : Act Unit := do
  lock
  let s ← stopPods s.pods.toList s
  writeState s

/-- The state is read first, then the lock is taken. -/
def commandDestroy : Act Unit := do
  match ← readState with
  | none => .fail "no factory state exists"
  | some s => destroy s

end Bimo.Factory
