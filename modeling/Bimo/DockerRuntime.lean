import Bimo.AgentExecution
import Bimo.Trace
import Bimo.Js
import Mathlib.Data.List.Sort

/-!
How the container runtime replaces the published app.

The clock, the flag that a cancellation sets, the `docker` processes and the file system are
calls, so whatever goes wrong in between is an answer: a process that is killed, a timer that goes
off, a flag that has changed. Every command is run with a deadline of its own, and a command of
the cleanup is run even when the deployment was cancelled.

The artifact is read again, file by file, before and after each probe. A path is the list of its
components.
-/

namespace Bimo.Docker

open Js (Text lit)
open PodStore (isRunId)

/-! ### Calls -/

/-- What a container is asked for when it is inspected. -/
inductive Format
  | id
  | idAndRunning

/-- The commands of a publication. -/
inductive Command
  | create (name : String) (args : List String)
  | start (name : String)
  | stop (name : String)
  | exec (name : String) (args : List String)
  | rename (name newName : String)
  | rm (name : String)
  | inspect (format : Format) (name : String)

/-- How a process ended: it was not run at all, or its streams were closed. -/
inductive Ending
  | error (message : Text)
  | closed (code : Option ℤ) (stdout stderr : Text) (cancelled timedOut outputExceeded : Bool)

/-- How a command ended, and whether its timer went off before. -/
structure Ran where
  ending : Ending
  deadlineExpired : Bool

inductive Kind
  | file
  | directory
  | symlink
  | other
  deriving DecidableEq

structure Stat where
  kind : Kind
  mode : ℕ
  uid : ℕ
  gid : ℕ
  size : ℕ
  ino : ℕ
  mtimeMs : ℚ

/-- The outcome of an operation, or none where its timer went off first. -/
abbrev Timed (α : Type) := Option (Except Text α)

inductive Call
  | now
  | cancelled
  | docker (c : Command) (timeoutMs : ℤ)
  | wait (milliseconds : ℤ)
  | lstatOrNull (target : Path)
  | lstat (target : Path)
  | readdir (target : Path)
  | open (target : Path)
  | stat (handle : ℕ)
  | readFile (handle : ℕ)
  | close (handle : ℕ)

abbrev Call.Ret : Call → Type
  | now => ℤ
  | cancelled => Bool
  | docker _ _ => Ran
  | wait _ => Timed Unit
  | lstatOrNull _ => Option Stat
  | lstat _ => Timed Stat
  | readdir _ => Timed (List String)
  | .open _ => Timed ℕ
  | stat _ => Timed Stat
  | readFile _ => Timed (List UInt8)
  | close _ => Timed Unit

abbrev Io (α : Type) := Prog Call Call.Ret Text α

/-- A call of the runtime; unlike `Prog.ask` it names the type of failure. -/
def ask (c : Call) : Io c.Ret := Prog.ask c

def fail {α : Type} (message : String) : Io α := .fail (lit message)

/-! ### Time -/

def remaining (deadlineAt : ℤ) (label : String) : Io ℤ := do
  let now ← ask .now
  if deadlineAt - now < 1 then fail (label ++ " deadline exceeded") else pure (deadlineAt - now)

/-- An operation of the file system with its deadline. -/
def bounded {α : Type} (operation : Io (Timed α)) (deadlineAt : ℤ) (label : String) : Io α := do
  let _ ← remaining deadlineAt label
  let outcome ← operation
  match outcome with
  | none => fail (label ++ " deadline exceeded")
  | some (.error e) => .fail e
  | some (.ok a) =>
    let now ← ask .now
    if deadlineAt ≤ now then fail (label ++ " deadline exceeded") else pure a

/-- An operation that is aborted at its deadline. -/
def abortableFs {α : Type} (operation : Io (Timed α)) (deadlineAt : ℤ) (label : String) :
    Io α := do
  let _ ← remaining deadlineAt label
  let outcome ← operation
  match outcome with
  | none => fail (label ++ " deadline exceeded")
  | some (.error e) => .fail e
  | some (.ok a) =>
    let _ ← remaining deadlineAt label
    pure a

/-! ### The artifact -/

structure Owner where
  uid : ℕ
  gid : ℕ

structure Artifact where
  files : ℕ
  bytes : ℕ
  sha256 : Text

def sameArtifact (left right : Artifact) : Bool :=
  left.files == right.files && left.bytes == right.bytes && left.sha256 == right.sha256

/-- What the platform brings along: the order of names and the digest. -/
structure Platform where
  localeLe : String → String → Bool
  sha256 : List UInt8 → Text

def maxSnapshotEntries : ℕ := 10000

def maxSnapshotDepth : ℕ := 64

structure Scan where
  platform : Platform
  root : Path
  expected : Artifact
  owner : Owner
  deadlineAt : ℤ

/-- What was counted and hashed so far. -/
structure Tally where
  entries : ℕ
  files : ℕ
  bytes : ℕ
  hashed : List UInt8

/-- The path of an entry below the root. -/
def relativeText (p : Path) : String := "/".intercalate p

def isWritable (s : Stat) : Bool := s.mode &&& 0o222 != 0

def isOwned (s : Stat) (o : Owner) : Bool := s.uid == o.uid && s.gid == o.gid

def assertSnapshotBounds (t : Tally) (relative : Path) (depth : ℕ) : Io Tally := do
  let t := { t with entries := t.entries + 1 }
  if maxSnapshotEntries < t.entries then
    fail ("verified output exceeds " ++ toString maxSnapshotEntries ++ " entries")
  else if maxSnapshotDepth < depth then
    fail ("verified output exceeds maximum depth at: " ++ relativeText relative)
  else pure t

/-- What is read of an open file, which must not change meanwhile. -/
def readOpen (target : Path) (handle : ℕ) (deadlineAt : ℤ) (label : String) :
    Io (List UInt8) := do
  let before ← bounded (ask (.stat handle)) deadlineAt label
  if before.kind ≠ .file then
    fail ("verified output contains an unsupported entry: " ++ pathText target)
  else
    let content ← abortableFs (ask (.readFile handle)) deadlineAt label
    let after ← bounded (ask (.stat handle)) deadlineAt label
    if content.length ≠ before.size ∨ after.size ≠ before.size ∨ after.ino ≠ before.ino ∨
        after.mtimeMs ≠ before.mtimeMs then
      fail ("verified output changed while being copied: " ++ pathText target)
    else pure content

def readRegularFile (target : Path) (deadlineAt : ℤ) (label : String) : Io (List UInt8) := do
  let handle ← bounded (ask (.open target)) deadlineAt label
  let outcome ← (readOpen target handle deadlineAt label).attempt
  -- the handle is closed whatever came of it, and a failure to do so comes first
  let now ← ask .now
  bounded (ask (.close handle)) (max deadlineAt (now + 250)) "snapshot handle cleanup"
  Prog.ofExcept outcome

/-- One regular file, counted and hashed. -/
def scanFile (s : Scan) (relative : Path) (stat : Stat) (t : Tally) : Io Tally := do
  if isWritable stat || !isOwned stat s.owner then
    fail ("artifact snapshot is not locked: " ++ relativeText relative)
  else
    let t := { t with files := t.files + 1, bytes := t.bytes + stat.size }
    if s.expected.files < t.files then
      fail "artifact snapshot file count does not match verification"
    else if s.expected.bytes < t.bytes then
      fail "artifact snapshot byte count does not match verification"
    else
      let content ← readRegularFile (s.root ++ relative) s.deadlineAt "snapshot scan"
      let header := relativeText relative ++ "\x00" ++ toString stat.size ++ "\x00"
      pure { t with hashed := t.hashed ++ header.toUTF8.toList ++ content }

/-- One entry of a directory; `descend` visits a directory in it. -/
def scanEntry (s : Scan) (descend : Path → Tally → Io Tally) (depth : ℕ) (relative : Path)
    (t : Tally) : Io Tally := do
  let t ← assertSnapshotBounds t relative depth
  let stat ← bounded (ask (.lstat (s.root ++ relative))) s.deadlineAt "snapshot scan"
  match stat.kind with
  | .symlink => fail ("artifact snapshot contains a symlink: " ++ relativeText relative)
  | .directory => descend relative t
  | .file => scanFile s relative stat t
  | .other => fail ("artifact snapshot contains an unsupported entry: " ++ relativeText relative)

/-- One entry after the other. -/
def scanEntries (s : Scan) (descend : Path → Tally → Io Tally) (depth : ℕ) (directory : Path) :
    List String → Tally → Io Tally
  | [], t => pure t
  | name :: names, t => do
    let t ← scanEntry s descend depth (directory ++ [name]) t
    scanEntries s descend depth directory names t

/-- A directory with what is below it, `left` levels above the deepest. On the deepest level the
bounds refuse every entry, so nothing is visited from there. -/
def visit (s : Scan) : ℕ → Path → Tally → Io Tally
  | left, directory, t => do
    let stat ← bounded (ask (.lstat (s.root ++ directory))) s.deadlineAt "snapshot scan"
    if stat.kind ≠ .directory ∨ isWritable stat ∨ isOwned stat s.owner = false then
      fail "artifact snapshot is not locked"
    else
      let names ← bounded (ask (.readdir (s.root ++ directory))) s.deadlineAt "snapshot scan"
      let sorted := names.insertionSort fun a b => s.platform.localeLe a b = true
      match left with
      | 0 => scanEntries s (fun _ t => pure t) (maxSnapshotDepth + 1) directory sorted t
      | left + 1 => scanEntries s (visit s left) (maxSnapshotDepth - left) directory sorted t

def scanSnapshot (s : Scan) : Io Artifact := do
  let t ← visit s maxSnapshotDepth [] { entries := 0, files := 0, bytes := 0, hashed := [] }
  pure { files := t.files, bytes := t.bytes, sha256 := s.platform.sha256 t.hashed }

/-! ### Commands -/

structure Runtime where
  docker : String
  image : String
  deployment : String
  hostRoot : Path
  port : Option ℕ
  publicUrl : Option Text
  snapshotOwner : Owner
  healthAttempts : ℕ
  cleanupTimeoutMs : ℤ
  cleanupCommandTimeoutMs : ℤ
  deploymentDeadlineAt : Option ℤ

structure Output where
  code : Option ℤ
  stdout : Text
  stderr : Text

structure Options where
  allowFailure : Bool
  timeoutMs : Option ℤ

def maxOutputBytes : ℕ := 256 * 1024

def codeText : Option ℤ → Text
  | none => lit "null"
  | some n => lit (toString n)

/-- What a process that ended so is to its caller. -/
def execute (command : String) (allowFailure : Bool) : Ending → Except Text Output
  | .error e => .error e
  | .closed code stdout stderr cancelled timedOut outputExceeded =>
    if cancelled then .error (lit (command ++ " cancelled"))
    else if timedOut then .error (lit (command ++ " timed out"))
    else if outputExceeded then
      .error (lit (command ++ " output exceeded " ++ toString maxOutputBytes ++ " bytes"))
    else if code ≠ some 0 ∧ allowFailure = false then
      .error (lit (command ++ " exited ") ++ codeText code ++ lit ": " ++
        (Js.trim stderr).take 500)
    else .ok ⟨code, stdout, stderr⟩

def throwIfCancelled : Io Unit := do
  let cancelled ← ask .cancelled
  if cancelled then fail "deployment cancelled" else pure ()

/-- A cancellation is no concern of the cleanup. -/
def unlessCleanup (cleanup : Bool) : Io Unit := if cleanup then pure () else throwIfCancelled

/-- What is left of the outcome of a command once cancellation and deadline were looked at. -/
def settle (outcome : Except Text Output) (expired cleanup : Bool) (commandDeadline : ℤ)
    (label : String) : Io Output := do
  let late : Io Unit := do
    let now ← ask .now
    if expired ∨ commandDeadline ≤ now then fail (label ++ " deadline exceeded") else pure ()
  let tried ← Prog.attempt (do
    let result ← Prog.ofExcept outcome
    unlessCleanup cleanup
    late
    pure result : Io Output)
  match tried with
  | .ok result => pure result
  | .error e =>
    unlessCleanup cleanup
    late
    .fail e

def commandWithin (r : Runtime) (c : Command) (o : Options) (deadlineAt : ℤ) (label : String)
    (cleanup : Bool) : Io Output := do
  unlessCleanup cleanup
  let available ← remaining deadlineAt label
  let timeoutMs := max 1 (min (o.timeoutMs.getD available) available)
  let now ← ask .now
  let commandDeadline := min deadlineAt (now + timeoutMs)
  let _ ← remaining commandDeadline label
  let ran ← ask (.docker c timeoutMs)
  settle (execute r.docker o.allowFailure ran.ending) ran.deadlineExpired cleanup commandDeadline
    label

/-- A command of the publication itself. -/
def command (r : Runtime) (c : Command) (deadlineAt : ℤ) : Io Output :=
  commandWithin r c ⟨false, none⟩ deadlineAt "publication" false

/-- A command of the cleanup, whose exit status is left to the caller. -/
def cleanupWithin (r : Runtime) (c : Command) (cleanupDeadline : ℤ) : Io Output :=
  commandWithin r c ⟨true, some r.cleanupCommandTimeoutMs⟩ cleanupDeadline "cleanup" true

def cleanupCommand (r : Runtime) (c : Command) (deadlineAt : ℤ) : Io Unit := do
  let _ ← ((cleanupWithin r c deadlineAt).attempt : Io (Except Text Output))
  pure ()

def cleanupDeadline (r : Runtime) : Io ℤ := do
  let now ← ask .now
  pure (now + r.cleanupTimeoutMs)

def phaseDeadline (r : Runtime) (timeoutSeconds : ℤ) (label : String) (maximumSeconds : ℤ) :
    Io ℤ := do
  if timeoutSeconds < 1 then fail ("invalid " ++ label ++ " timeout")
  else
    let now ← ask .now
    let requested := now + min timeoutSeconds maximumSeconds * 1000
    pure (match r.deploymentDeadlineAt with
      | none => requested
      | some deadlineAt => min requested deadlineAt)

def waitWithin (milliseconds deadlineAt : ℤ) (label : String) : Io Unit := do
  let left ← remaining deadlineAt label
  let duration := min milliseconds left
  let now ← ask .now
  bounded (ask (.wait duration)) (min deadlineAt (now + duration + 1)) label

/-! ### The app -/

def containerName (deployment suffix : String) : String := "bimo-" ++ deployment ++ "-" ++ suffix

structure Smoke where
  path : String
  status : ℕ
  contains : String

structure Server where
  outputHost : Path
  port : ℕ
  nameSuffix : String
  publish : Bool
  restart : Bool
  transient : Bool

def commonSandbox (memory cpus pids : String) : List String :=
  ["--read-only", "--cap-drop", "ALL", "--security-opt", "no-new-privileges", "--pids-limit", pids,
    "--memory", memory, "--cpus", cpus, "--user", "1000:1000"]

def transientLabels (deployment : String) : List String :=
  ["--label", "dev.ascii.bimo.deployment=" ++ deployment,
    "--label", "dev.ascii.bimo.transient=true"]

def serverCreateArgs (r : Runtime) (s : Server) : Io Command := do
  Prog.ofExcept ((bind s.outputHost).mapError lit)
  pure (.create (containerName r.deployment s.nameSuffix)
    ((if s.transient then transientLabels r.deployment else []) ++
      (if s.restart then ["--restart", "unless-stopped"] else []) ++
      commonSandbox "128m" "0.5" "64" ++
      ["--tmpfs", "/tmp:rw,nosuid,nodev,noexec,size=32m"] ++
      (if s.publish then ["--publish", toString s.port ++ ":8080"] else []) ++
      ["--mount", "type=bind,src=" ++ pathText s.outputHost ++ ",dst=/site,readonly", r.image,
        "serve", "--root", "/site", "--port", "8080"]))

/-- Letters match in both cases, and the long s is one of those of s. -/
def foldCase (u : UInt16) : UInt16 :=
  if Js.isUpper u then u + 32 else if u = 0x17F then 115 else u

def noSuchContainer (stderr : Text) : Bool :=
  Js.includes (stderr.map foldCase) "no such object" ||
    Js.includes (stderr.map foldCase) "no such container"

def isHexUnit (u : UInt16) : Bool := Js.isDigit u || decide (97 ≤ u.toNat ∧ u.toNat ≤ 102)

def isContainerId (id : Text) : Prop := id.length = 64 ∧ id.all isHexUnit = true

instance (id : Text) : Decidable (isContainerId id) := inferInstanceAs (Decidable (_ ∧ _))

/-- What is known of a container. -/
structure Container where
  id : Text
  running : Bool
  id_valid : isContainerId id

/-- An id of 64 digits, a blank, and whether the container runs. -/
def matchState (stdout : Text) : Option Container :=
  let text := Js.trim stdout
  if h : isContainerId (text.take 64) then
    if text.drop 64 = lit " true" then some ⟨text.take 64, true, h⟩
    else if text.drop 64 = lit " false" then some ⟨text.take 64, false, h⟩
    else none
  else none

/-- The app of that name, or none where there is no such container. -/
def appState (r : Runtime) (name : String) (deadlineAt : ℤ) : Io (Option Container) := do
  let inspected ← commandWithin r (.inspect .idAndRunning name) ⟨true, none⟩ deadlineAt
    "publication" false
  if inspected.code ≠ some 0 then
    if noSuchContainer inspected.stderr then pure none
    else fail "could not inspect the existing published app"
  else
    match matchState inspected.stdout with
    | none => fail "Docker returned an invalid app state"
    | some state => pure (some state)

def probe (name : String) (smoke : Smoke) : Command :=
  .exec name ["node", "/app/src/probe.mjs", "--url", "http://127.0.0.1:8080" ++ smoke.path,
    "--status", toString smoke.status, "--contains", smoke.contains]

/-- The probe, tried a number of times with a pause after each failure. -/
def probeFrom (r : Runtime) (name : String) (smoke : Smoke) (deadlineAt : ℤ) :
    ℕ → Text → Io Unit
  | 0, lastError => .fail lastError
  | attempts + 1, _ => do
    let tried ← (commandWithin r (probe name smoke) ⟨false, some 15000⟩ deadlineAt "publication"
      false).attempt
    match tried with
    | .ok _ => pure ()
    | .error e =>
      waitWithin 250 deadlineAt "publication"
      probeFrom r name smoke deadlineAt attempts e

def probeApp (r : Runtime) (name : String) (smoke : Smoke) (deadlineAt : ℤ) : Io Unit :=
  probeFrom r name smoke deadlineAt r.healthAttempts (lit "published app did not become healthy")

/-! ### Publication -/

/-- What a publication is rejected with. -/
inductive Failure
  | error (message : Text)
  | aggregate (first second message : Text)

structure Input where
  smoke : Smoke
  runDir : Path
  timeoutSeconds : ℤ
  /-- The receipt that a verification of this run left behind. -/
  receipt : Option Artifact

def Input.runId (i : Input) : String := basename i.runDir

def appName (r : Runtime) : String := containerName r.deployment "app"

def candidateSuffix (runId : String) : String := "app-candidate-" ++ runId

def candidateName (r : Runtime) (runId : String) : String :=
  containerName r.deployment (candidateSuffix runId)

def backupName (r : Runtime) (runId : String) : String :=
  containerName r.deployment ("app-backup-" ++ runId)

/-- The scan of the artifact that a publication makes. -/
def scanOf (p : Platform) (r : Runtime) (i : Input) (expected : Artifact) (deadlineAt : ℤ) :
    Scan where
  platform := p
  root := join i.runDir ["artifact"]
  expected := expected
  owner := r.snapshotOwner
  deadlineAt := deadlineAt

def assertArtifact (s : Scan) : Io Unit := do
  throwIfCancelled
  let receipt ← scanSnapshot s
  if sameArtifact receipt s.expected then throwIfCancelled
  else fail "artifact snapshot no longer matches verification receipt"

def outputHost (r : Runtime) (runId : String) : Path :=
  join r.hostRoot ["runs", runId, "artifact"]

/-- The candidate is tried out under a name of its own and removed again. -/
def tryCandidate (r : Runtime) (i : Input) (s : Scan) (args : Command) : Io Unit := do
  let name := candidateName r i.runId
  let tried ← Prog.attempt (do
    let _ ← command r args s.deadlineAt
    let _ ← command r (.start name) s.deadlineAt
    probeApp r name i.smoke s.deadlineAt
    assertArtifact s : Io Unit)
  let deadline ← cleanupDeadline r
  cleanupCommand r (.rm name) deadline
  Prog.ofExcept tried

/-- The part of the replacement that puts the previous app aside. -/
def setAside (r : Runtime) (i : Input) (previous : Option Container) (deadlineAt : ℤ) :
    Io Unit :=
  match previous with
  | none => pure ()
  | some state => do
    let _ ← command r (.rename (appName r) (backupName r i.runId)) deadlineAt
    if state.running then
      let _ ← command r (.stop (backupName r i.runId)) deadlineAt
      pure ()
    else pure ()

def replace (r : Runtime) (i : Input) (port : ℕ) (s : Scan) : Io Unit := do
  let args ← serverCreateArgs r
    { outputHost := outputHost r i.runId, port := port, nameSuffix := "app", publish := true,
      restart := true, transient := false }
  let _ ← command r args s.deadlineAt
  let _ ← command r (.start (appName r)) s.deadlineAt
  probeApp r (appName r) i.smoke s.deadlineAt
  assertArtifact s
  throwIfCancelled
  let left ← remaining s.deadlineAt "publication"
  if left < 1000 then fail "publication deadline exceeded" else pure ()

/-- The previous app, renamed and started again, and checked to be what it was. -/
def restore (r : Runtime) (i : Input) (previous : Container) (deadline : ℤ) : Io Unit := do
  let _ ← cleanupWithin r (.rename (backupName r i.runId) (appName r)) deadline
  if previous.running then
    let _ ← cleanupWithin r (.start (appName r)) deadline
  let restored ← cleanupWithin r (.inspect .idAndRunning (appName r)) deadline
  let backup ← cleanupWithin r (.inspect .id (backupName r i.runId)) deadline
  let backupGone := decide (backup.code ≠ some 0) && noSuchContainer backup.stderr
  let good := match matchState restored.stdout with
    | none => false
    | some state => decide (restored.code = some 0 ∧ state.id = previous.id ∧
        state.running = previous.running)
  if good && backupGone then pure () else fail "the previous published app could not be restored"

/-- The failed app has been removed. -/
def reconcile (r : Runtime) (deadline : ℤ) : Io Unit := do
  let lingering ← cleanupWithin r (.inspect .id (appName r)) deadline
  if lingering.code = some 0 || !noSuchContainer lingering.stderr then
    fail "the failed published app could not be removed"
  else pure ()

/-- The error to reject with, once it is known whether the state before was reached again. -/
def putBack (r : Runtime) (i : Input) (previous : Option Container) (replacementAttempted : Bool)
    (replacementError : Text) (deadline : ℤ) : Prog Call Call.Ret Failure Unit :=
  match previous with
  | some state => do
    let tried ← (restore r i state deadline).attempt
    match tried with
    | .ok _ => .fail (.error replacementError)
    | .error restoreError => .fail (.aggregate replacementError restoreError
        (lit "published app replacement failed and the previous app could not be restored"))
  | none =>
    if replacementAttempted then do
      let tried ← (reconcile r deadline).attempt
      match tried with
      | .ok _ => .fail (.error replacementError)
      | .error reconcileError => .fail (.aggregate replacementError reconcileError
          (lit "published app replacement failed and the failed app could not be removed"))
    else .fail (.error replacementError)

def removeFailed (r : Runtime) (replacementAttempted : Bool) (deadline : ℤ) : Io Unit :=
  if replacementAttempted then cleanupCommand r (.rm (appName r)) deadline else pure ()

/-- What is done after a replacement failed. Where there was a previous app, a rename of it was
attempted. -/
def rollback (r : Runtime) (i : Input) (previous : Option Container)
    (replacementAttempted : Bool) (replacementError : Text) :
    Prog Call Call.Ret Failure Unit := do
  let deadline ← (cleanupDeadline r).mapErr .error
  (removeFailed r replacementAttempted deadline).mapErr .error
  putBack r i previous replacementAttempted replacementError deadline

/-- What is known once the candidate was tried out. -/
structure Prepared where
  port : ℕ
  publicUrl : Text
  scan : Scan
  previous : Option Container

/-- All that comes before the first change of the app. -/
def prepare (p : Platform) (r : Runtime) (i : Input) : Io Prepared := do
  throwIfCancelled
  match r.port, r.publicUrl with
  | some port, some publicUrl =>
    let deadlineAt ← phaseDeadline r i.timeoutSeconds "publication" 900
    if isRunId i.runId = false then fail "invalid publication run ID"
    else
      let stat ← ask (.lstatOrNull (join i.runDir ["artifact"]))
      if stat.any (fun stat => stat.kind == .directory) = false then
        fail "verified artifact snapshot is missing"
      else
        match i.receipt with
        | none => fail "verified artifact receipt is missing"
        | some expected =>
          let s := scanOf p r i expected deadlineAt
          assertArtifact s
          let candidateArgs ← serverCreateArgs r
            { outputHost := outputHost r i.runId, port := port,
              nameSuffix := candidateSuffix i.runId, publish := false, restart := false,
              transient := true }
          tryCandidate r i s candidateArgs
          let previous ← appState r (appName r) deadlineAt
          pure ⟨port, publicUrl, s, previous⟩
  | _, _ => fail "runtime publication is not configured"

/-- The previous app is put aside and a new one takes its name, or all is put back. -/
def exchange (r : Runtime) (i : Input) (ready : Prepared) : Prog Call Call.Ret Failure Unit := do
  let aside ← (setAside r i ready.previous ready.scan.deadlineAt).attempt
  match aside with
  | .error e => rollback r i ready.previous false e
  | .ok _ =>
    let replaced ← (replace r i ready.port ready.scan).attempt
    match replaced with
    | .error e => rollback r i ready.previous true e
    | .ok _ => pure ()

/-- The url of the app once it has been replaced. -/
def publish (p : Platform) (r : Runtime) (i : Input) : Prog Call Call.Ret Failure Text := do
  let ready ← (prepare p r i).mapErr .error
  exchange r i ready
  pure (ready.publicUrl ++ lit i.smoke.path)

end Bimo.Docker
