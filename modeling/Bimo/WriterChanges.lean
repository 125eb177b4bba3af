import Bimo.SourceScan

/-!
The changes of a writer, checked and committed.

The changes are read three times: from the files of the workspace, from the index once they are
added, and from the commit. They are accepted when the three agree, when all of them lie within the
directories the writer was given, and when nothing is left over.
-/

namespace Bimo.Git

open Utf8

inductive Slot
  | engineeringA
  | engineeringB
  | qaTests
  deriving DecidableEq

def Slot.text : Slot → Text
  | .engineeringA => "engineering-a".toList
  | .engineeringB => "engineering-b".toList
  | .qaTests => "qa-tests".toList

/-- `FIXED_INTEGRATION_ORDER` -/
def integrationOrder : List Slot := [.engineeringA, .engineeringB, .qaTests]

inductive Kind
  | writer
  | combined
  | read
  | integration
  deriving DecidableEq

structure Workspace where
  id : Text
  root : Text
  kind : Kind
  attempt : ℕ
  slot : Slot
  workItemId : Text
  runBaseSha : Text
  writeDirectories : List Text

structure WorkItem where
  id : Text
  ownerSlot : Text
  writePaths : List Text

structure Limits where
  maxFiles : ℤ
  maxBytes : ℤ

/-- What is remembered of an accepted result. -/
structure ResultRecord where
  attempt : ℕ
  slot : Slot
  workItemId : Text
  directBaseSha : Text
  runBaseSha : Text
  resultSha : Text
  treeSha : Text
  writeDirectories : List Text
  deriving DecidableEq

def maxInspectFileBytes : ℕ := 32 * 1024 * 1024

/-! ### Inputs -/

def pathWithin (directory candidate : Text) : Bool :=
  candidate = directory || (directory ++ ['/']).isPrefixOf candidate

def requireLimits (l : Limits) : Except String Limits := do
  failUnless (0 ≤ l.maxFiles ∧ l.maxFiles ≤ 100000) "invalid changed-file limit"
  failUnless (0 ≤ l.maxBytes ∧ l.maxBytes ≤ 2 ^ 40) "invalid changed-byte limit"
  pure l

section

local instance : LawfulBEq Text := inferInstance

/-- A text given once for each time it is there. -/
def distinct (l : List Text) : List Text :=
  l.foldl (fun seen t => if t ∈ seen then seen else seen ++ [t]) []

end

def validateWorkItem (lib : Lib) (allowedWriteRoots : Slot → List Text) (item : WorkItem)
    (expectedSlot : Slot) : Except String (List Text) := do
  failUnless (item.ownerSlot = expectedSlot.text) "invalid writer slot"
  failUnless (item.id ≠ [] ∧ (encode item.id).length ≤ 256 ∧ ¬item.id.any isControlChar)
    "invalid work-item ID"
  failUnless (item.writePaths ≠ []) "workItem.writePaths must contain existing directories"
  let checked ← item.writePaths.mapM fun p => validateRelativePath lib p "write path"
  let writePaths := sortPaths (distinct checked)
  failUnless (writePaths.length = item.writePaths.length) "write paths must be unique"
  ensureNoPathCollisions lib writePaths "write paths"
  match writePaths.find? fun p => !(allowedWriteRoots expectedSlot).any fun r => pathWithin r p with
  | some p => .error (String.ofList p ++ " is outside the allowed write roots for " ++
      String.ofList expectedSlot.text)
  | none => pure writePaths

/-! ### The files of a workspace -/

/-- One change as it was looked at. -/
structure Detail where
  path : Text
  status : Text
  bytes : ℕ
  contentSha256 : Option String
  deriving DecidableEq

structure Inspected where
  changes : List Detail
  changedBytes : ℕ

def isStatus (t : Text) : Bool := t = ['A'] || t = ['M'] || t = ['D']

def setChange (m : List (Text × Text)) (path status : Text) : List (Text × Text) :=
  if m.any (·.1 = path) then m.map fun x => if x.1 = path then (path, status) else x
  else m ++ [(path, status)]

/-- The paths of a listing of states and paths. -/
def readTracked (m : List (Text × Text)) : List Text → Except String (List (Text × Text))
  | status :: path :: rest =>
    if isStatus status then readTracked (setChange m path status) rest
    else .error ("unsupported Git change type " ++ String.ofList status)
  | _ => .ok m

def addUntracked (m : List (Text × Text)) (path : Text) : Except String (List (Text × Text)) :=
  if m.any (·.1 = path) then .error "Git reported a path as both tracked and untracked"
  else .ok (setChange m path ['A'])

def takeWhileChars (isMember : Char → Bool) (t : Text) : Option (Text × Text) :=
  if t.takeWhile isMember = [] then none
  else some (t.takeWhile isMember, t.dropWhile isMember)

/-- `^(\d+) blob [a-f0-9]{40}\s+(\d+)\t([\s\S]+)$`: the mode, the size and the path. -/
def parseHeadEntry (t : Text) : Option (Text × Text × Text) := do
  let (mode, t) ← takeWhileChars Char.isDigit t
  let (_, t) ← takingWord " blob ".toList t
  let (_, t) ← takingOid t
  let (_, t) ← takeWhileChars isSpace t
  let (size, t) ← takeWhileChars Char.isDigit t
  let (_, t) ← takingWord ['\t'] t
  if t = [] then none else some (mode, size, t)

def readHeadEntry (path : Text) (out : Bytes) : Except String ℕ := do
  let records ← splitNull "Git ls-tree output" out
  match records with
  | [record] =>
    match parseHeadEntry record with
    | some (mode, size, found) => do
      failUnless (found = path) "unexpected Git ls-tree output"
      failUnless (mode ≠ "120000".toList ∧ mode ≠ "160000".toList)
        (String.ofList path ++ " has a forbidden Git mode")
      match (number size).filter (· ≤ maxSafeInteger) with
      | some n => pure n
      | none => .error "invalid Git blob size"
    | none => .error "unexpected Git ls-tree output"
  | _ => .error ("could not resolve deleted file " ++ String.ofList path)

def guard (g : Guard) : Io Unit :=
  Prog.ask (Call.guard g) >>= fun x : Except String Unit => Prog.ofExcept x

def fileSizeAtHead (w : Workspace) (path : Text) : Io ℕ := do
  let out ← git (.headEntry w.id path)
  Prog.ofExcept (readHeadEntry path out)

def readFile (w : Workspace) (path : Text) : Io Bytes :=
  Prog.ask (Call.readFile w.id path) >>= fun x : Except String Bytes => Prog.ofExcept x

def inspectPath (lib : Lib) (w : Workspace) (changes : List (Text × Text)) (seen : Inspected)
    (path : Text) : Io Inspected := do
  let _ ← Prog.ofExcept (validateRelativePath lib path "changed path")
  Prog.ofExcept (failUnless (w.writeDirectories.any fun d => pathWithin d path)
    (String.ofList path ++ " is outside the writer scope"))
  let status := ((changes.find? (·.1 = path)).map (·.2)).getD []
  let (bytes, content) ←
    if status = ['D'] then do
      let bytes ← fileSizeAtHead w path
      pure (bytes, none)
    else do
      let content ← readFile w path
      Prog.ofExcept (failUnless (content.length ≤ maxInspectFileBytes)
        (String.ofList path ++ " exceeds the inspect file-size limit"))
      pure (content.length, some (lib.sha256 content))
  Prog.ofExcept (failUnless (seen.changedBytes + bytes ≤ maxSafeInteger)
    "changed-byte count exceeded the safe integer range")
  pure ⟨seen.changes ++ [⟨path, status, bytes, content⟩], seen.changedBytes + bytes⟩

/-- The bounds on what was changed. -/
def checkLimits (l : Limits) (x : Inspected) : Except String Unit := do
  failUnless ((x.changes.length : ℤ) ≤ l.maxFiles) "changed-file limit exceeded"
  failUnless ((x.changedBytes : ℤ) ≤ l.maxBytes) "changed-byte limit exceeded"

def inspect (lib : Lib) (w : Workspace) (limits : Limits) : Io Inspected := do
  requireDeadline
  Prog.ofExcept (failUnless (w.kind = .writer ∨ w.kind = .combined) "workspace is not writable")
  let bounded ← Prog.ofExcept (requireLimits limits)
  w.writeDirectories.forM fun d => guard (.safeDirectory w.id d)
  let unmerged ← git (.unmerged w.id)
  Prog.ofExcept (failUnless (unmerged = []) "workspace contains an unmerged path")
  let tracked ← Prog.ofExcept (splitNull "Git tracked diff" (← git (.trackedDiff w.id)))
  Prog.ofExcept (failUnless (tracked.length % 2 = 0) "unexpected Git tracked diff")
  let changes ← Prog.ofExcept (readTracked [] tracked)
  let untracked ← Prog.ofExcept (splitNull "Git untracked files" (← git (.others w.id)))
  let changes ← Prog.ofExcept (untracked.foldlM addUntracked changes)
  let paths := sortPaths (changes.map (·.1))
  Prog.ofExcept (ensureNoPathCollisions lib paths "changed paths")
  let x ← paths.foldlM (inspectPath lib w changes) ⟨[], 0⟩
  Prog.ofExcept (checkLimits bounded x)
  pure x

/-! ### The index -/

/-- `^(\d{6}) ([a-f0-9]{40}) 0\t([\s\S]+)$` -/
def parseStaged (t : Text) : Option (Text × Oid × Text) := do
  let (mode, t) ← taking 6 Char.isDigit t
  let (_, t) ← takingWord [' '] t
  let (objectId, t) ← takingOid t
  let (_, t) ← takingWord " 0\t".toList t
  if t = [] then none else some (mode, objectId, t)

def readStaged (path : Text) (out : Bytes) : Except String Oid := do
  let entries ← splitNull "Git staged entry" out
  match entries with
  | [entry] =>
    match parseStaged entry with
    | some (mode, objectId, found) => do
      failUnless (found = path) "unexpected Git staged entry"
      failUnless (mode = "100644".toList ∨ mode = "100755".toList)
        (String.ofList path ++ " has a forbidden staged Git mode")
      pure objectId
    | none => .error "unexpected Git staged entry"
  | _ => .error ("staged path " ++ String.ofList path ++ " has an invalid index entry")

def stagedContent (w : Workspace) (path : Text) : Io Bytes := do
  let object ← Prog.ofExcept (readStaged path (← git (.stagedEntry w.id path)))
  let sizeText ← git (.size object)
  match (number (asciiTrim sizeText)).filter (· ≤ min maxSafeInteger maxInspectFileBytes) with
  | none => .fail (String.ofList path ++ " exceeds the staged file-size limit")
  | some size =>
    let content ← git (.blob object)
    if content.length ≠ size then .fail (String.ofList path ++ " staged blob size changed")
    else pure content

/-- The loop over the states and paths of the index. -/
def inspectStaged (lib : Lib) (w : Workspace) (seen : Inspected) : List Text → Io Inspected
  | status :: path :: rest => do
    let path ← Prog.ofExcept (validateRelativePath lib path "staged path")
    Prog.ofExcept (failUnless (isStatus status)
      ("unsupported staged Git change type " ++ String.ofList status))
    Prog.ofExcept (failUnless (w.writeDirectories.any fun d => pathWithin d path)
      (String.ofList path ++ " is outside the writer scope"))
    let (bytes, content) ←
      if status = ['D'] then do
        let bytes ← fileSizeAtHead w path
        pure (bytes, none)
      else do
        let content ← stagedContent w path
        pure (content.length, some (lib.sha256 content))
    Prog.ofExcept (failUnless (seen.changedBytes + bytes ≤ maxSafeInteger)
      "staged byte count exceeded the safe integer range")
    inspectStaged lib w
      ⟨seen.changes ++ [⟨path, status, bytes, content⟩], seen.changedBytes + bytes⟩ rest
  | _ => pure seen

def inspectIndex (lib : Lib) (w : Workspace) (limits : Limits) : Io Inspected := do
  let bounded ← Prog.ofExcept (requireLimits limits)
  let tokens ← Prog.ofExcept (splitNull "Git staged diff" (← git (.stagedDiff w.id)))
  Prog.ofExcept (failUnless (tokens.length % 2 = 0) "unexpected Git staged diff")
  let x ← inspectStaged lib w ⟨[], 0⟩ tokens
  let details := x.changes.insertionSort fun a b => pathLe a.path b.path
  Prog.ofExcept (ensureNoPathCollisions lib (details.map (·.path)) "staged paths")
  Prog.ofExcept (checkLimits bounded ⟨details, x.changedBytes⟩)
  pure ⟨details, x.changedBytes⟩

/-! ### The commit -/

def head (w : Workspace) : Io Text := do pure (asciiTrim (← git (.head w.id)))

def commitStaged (w : Workspace) (message : Text) : Io Text := do
  Prog.ofExcept (failUnless (message ≠ [] ∧ (encode message).length ≤ 512 ∧
    ¬message.any isControlChar) "invalid controller commit message")
  let _ ← git (.commit w.id message)
  head w

structure WriterResult where
  baseSha : Text
  resultSha : Text
  treeSha : Text
  changedPaths : List Text
  changedFiles : ℕ
  changedBytes : ℕ
  diffSha256 : String
  diff : Text

/-- What the runtime knows of a workspace that is handed in. -/
def workspaceRecord (workspaces : List Workspace) (id root : Text) : Except String Workspace :=
  match workspaces.find? (·.id = id) with
  | some w => if w.root = root then .ok w else .error "unknown workspace"
  | none => .error "unknown workspace"

def validateAndCommit (lib : Lib) (allowedWriteRoots : Slot → List Text)
    (workspaces : List Workspace) (id root : Text) (item : WorkItem) (limits : Limits) :
    Io (ResultRecord × WriterResult) := do
  requireDeadline
  let w ← Prog.ofExcept (workspaceRecord workspaces id root)
  Prog.ofExcept (failUnless (w.kind = .writer ∨ w.kind = .combined) "workspace is not writable")
  let writePaths ← Prog.ofExcept (validateWorkItem lib allowedWriteRoots item w.slot)
  Prog.ofExcept (failUnless (item.id = w.workItemId ∧ writePaths = w.writeDirectories)
    "workItem does not match the controller-captured writer scope")
  guard (.freeze w.id)
  let inspected ← inspect lib w limits
  Prog.ofExcept (failUnless (inspected.changes ≠ []) "writer produced no changes")
  let baseSha ← head w
  let _ ← git (.add w.id w.writeDirectories)
  let staged ← inspectIndex lib w limits
  Prog.ofExcept (failUnless (staged.changes = inspected.changes)
    "writer content changed between inspection and staging")
  let resultSha ← commitStaged w
    ("bimo(".toList ++ w.slot.text ++ "): ".toList ++ w.workItemId)
  let parents := ((asciiTrim (← git (.parents resultSha))).splitOnP isSpace).filter (· ≠ [])
  Prog.ofExcept (failUnless (parents = [baseSha]) "controller commit has an unexpected parent")
  let reread ← diffBetween lib baseSha resultSha []
  Prog.ofExcept (failUnless (reread.changedPaths = staged.changes.map (·.path))
    "committed diff does not match the inspected writer delta")
  let remaining ← inspect lib w ⟨0, 0⟩
  Prog.ofExcept (failUnless (remaining.changes = [])
    "workspace remained dirty after controller commit")
  let treeSha := asciiTrim (← git (.treeOf resultSha))
  guard (.secure w.id)
  pure (⟨w.attempt, w.slot, w.workItemId, baseSha, w.runBaseSha, resultSha, treeSha,
      w.writeDirectories⟩,
    ⟨baseSha, resultSha, treeSha, reread.changedPaths, staged.changes.length,
      staged.changedBytes, reread.diffSha256, lossy reread.bytes⟩)

end Bimo.Git
