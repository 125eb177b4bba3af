import Bimo.GitObjects
import Bimo.Secrets
import Mathlib.Data.List.DropRight

/-!
The scan of a candidate before it is published.

The scan reads the trees and messages of all commits that come with the candidate, and the
difference of the two trees at the ends. A blob is read once, and not at all where the base has an
object of that name. The names of the base are those of all its entries, so that a commit named
there might stand in for a blob. This is where the second half of the scan is needed: a candidate
without that entry has a difference that does not pass.
-/

namespace Bimo.Git

open Utf8 Secrets

def maxScanBlobBytes : ℕ := 16 * 1024 * 1024

def maxSnapshotBytes : ℕ := 100 * 1024 * 1024

def maxReachableCommits : ℕ := 100

def maxReachableTreeEntries : ℕ := 200000

def maxSafeInteger : ℕ := 2 ^ 53 - 1

/-! ### Reading answers -/

structure Entry where
  mode : Text
  type : Text
  objectId : Oid
  path : Text
  deriving DecidableEq

/-- So many characters of a class, and what is behind them. -/
def taking (n : ℕ) (isMember : Char → Bool) (t : Text) : Option (Text × Text) :=
  if n ≤ t.length ∧ (t.take n).all isMember then some (t.take n, t.drop n) else none

def takingWord (w t : Text) : Option (Text × Text) :=
  if w.isPrefixOf t then some (w, t.drop w.length) else none

def takingOid (t : Text) : Option (Oid × Text) := (toOid (t.take 40)).map fun o => (o, t.drop 40)

/-- `^(\d{6}) (blob|commit) ([a-f0-9]{40})\t([\s\S]+)$` -/
def parseEntry (t : Text) : Option Entry := do
  let (mode, t) ← taking 6 Char.isDigit t
  let (_, t) ← takingWord [' '] t
  let (type, t) ← (takingWord "blob".toList t).or (takingWord "commit".toList t)
  let (_, t) ← takingWord [' '] t
  let (objectId, t) ← takingOid t
  let (_, t) ← takingWord ['\t'] t
  if t = [] then none else some ⟨mode, type, objectId, t⟩

def readEntry (lib : Lib) (token : Text) : Except String Entry :=
  match parseEntry token with
  | none => .error "reachable history contains an invalid tree entry"
  | some e => do
    let path ← validateSnapshotPath lib e.path "reachable history path"
    pure { e with path }

def readTree (lib : Lib) (out : Bytes) : Except String (List Entry) := do
  let tokens ← splitNull "reachable Git tree" out
  let entries ← tokens.mapM (readEntry lib)
  ensureNoPathCollisions lib (entries.map (·.path)) "reachable history paths"
  pure entries

def treeEntries (lib : Lib) (sha : Oid) : Io (List Entry) := do
  let out ← git (.lsTree sha)
  Prog.ofExcept (readTree lib out)

def isSpace (c : Char) : Bool := c == ' ' || (9 ≤ c.toNat && c.toNat ≤ 13)

/-- `buffer.toString("ascii").trim()` -/
def asciiTrim (b : Bytes) : Text :=
  ((b.map fun u => Char.ofNat (u.toNat % 128)).dropWhile isSpace).rdropWhile isSpace

/-- `Number`, of what Git prints for a size: decimal digits. -/
def number (t : Text) : Option ℕ :=
  if t ≠ [] ∧ t.all Char.isDigit then some (Nat.ofDigitChars 10 t 0) else none

def requireSha (label : String) (t : Text) : Except String Oid :=
  match toOid t with
  | some o => .ok o
  | none => .error (label ++ " must be an exact lowercase 40-character SHA-1")

def readRevisions (out : Bytes) : Except String (List Oid) := do
  let revisions := ((asciiTrim out).splitOn '\n').filter (· ≠ [])
  failUnless (1 ≤ revisions.length ∧ revisions.length ≤ maxReachableCommits)
    "candidate reachable-commit limit exceeded"
  revisions.mapM (requireSha "reachable commit")

def requireDeadline : Io Unit :=
  Prog.ask Call.inTime >>= fun ahead : Bool =>
    Prog.ofExcept (failUnless (ahead = true) "deadlineAt must be a future safe integer")

/-! ### Blobs -/

/-- The texts of the errors over one blob. -/
structure BlobErrors where
  size : String
  total : String
  changed : String
  secret : String

/-- A blob is read and looked through. The bytes scanned so far are counted on. -/
def readBlob (errors : BlobErrors) (object : Oid) (scannedBytes : ℕ) : Io (ℕ × Bytes) := do
  let sizeText ← git (.size object)
  match (number (asciiTrim sizeText)).filter (· ≤ min maxSafeInteger maxScanBlobBytes) with
  | none => .fail errors.size
  | some size =>
    if min maxSafeInteger maxSnapshotBytes < scannedBytes + size then .fail errors.total
    else
      let content ← git (.blob object)
      if content.length ≠ size then .fail errors.changed
      else if hasSecret content then .fail errors.secret
      else pure (scannedBytes + size, content)

/-! ### The history -/

/-- The entries by their paths: a `Map`. -/
def setEntry (m : List Entry) (e : Entry) : List Entry :=
  if m.any (·.path = e.path) then m.map fun x => if x.path = e.path then e else x else m ++ [e]

def byPath (entries : List Entry) : List Entry := entries.foldl setEntry []

def entryAt (m : List Entry) (path : Text) : Option Entry := m.find? (·.path = path)

def isControlPath (lib : Lib) (path : Text) : Bool :=
  (components path).any fun c => lib.lower c = ".github".toList

structure History where
  scannedObjects : List Oid
  digest : Bytes
  treeEntries : ℕ
  scannedBytes : ℕ

def ascii (s : String) : Bytes := encode s.toList

def historyErrors (path : Text) : BlobErrors where
  size := String.ofList path ++ " exceeds the reachable-history blob limit"
  total := "reachable history exceeds the scan byte limit"
  changed := "reachable blob changed during scan"
  secret := String.ofList path ++
    " contains a likely live secret or private key in reachable history"

def checkEntry (lib : Lib) (base : List Entry) (e : Entry) : Except String Unit := do
  failUnless (e.type = "blob".toList ∧ e.mode ≠ "120000".toList)
    (String.ofList e.path ++ " is a symbolic link or Git link in reachable history")
  failUnless (e.mode = "100644".toList ∨ e.mode = "100755".toList)
    (String.ofList e.path ++ " has an unsupported reachable Git mode")
  let baseEntry := entryAt base e.path
  failUnless (isControlPath lib e.path = true →
      baseEntry.any fun b => b.objectId = e.objectId ∧ b.mode = e.mode)
    (String.ofList e.path ++ " changes forbidden repository control history")
  failUnless (e.mode = "100755".toList → baseEntry.any (·.mode = "100755".toList))
    (String.ofList e.path ++ " adds an unexpected executable in reachable history")
  failUnless (baseEntry.all (·.mode = e.mode))
    (String.ofList e.path ++ " changes executable policy in reachable history")

def scanEntry (lib : Lib) (base : List Entry) (h : History) (e : Entry) : Io History := do
  Prog.ofExcept (checkEntry lib base e)
  if e.objectId ∈ base.map (·.objectId) ∨ e.objectId ∈ h.scannedObjects then pure h
  else
    let (scannedBytes, content) ← readBlob (historyErrors e.path) e.objectId h.scannedBytes
    let header := ascii "B\x00" ++ encode e.objectId.1 ++ ascii s!"\x00{content.length}\x00"
    pure
      { h with
        scannedBytes
        scannedObjects := e.objectId :: h.scannedObjects
        digest := h.digest ++ header ++ content }

def scanRevision (lib : Lib) (base : List Entry) (h : History) (revision : Oid) : Io History := do
  let digest := h.digest ++ ascii "C\x00" ++ encode revision.1 ++ [0]
  let message ← git (.message revision)
  if hasSecret message then
    .fail "reachable commit metadata contains a likely live secret or private key"
  else
    let entries ← treeEntries lib revision
    let count := h.treeEntries + entries.length
    if maxReachableTreeEntries < count then
      .fail "candidate reachable-tree entry limit exceeded"
    else
      let scanned ← entries.foldlM (scanEntry lib base) { h with digest, treeEntries := count }
      match (base.filter fun e => isControlPath lib e.path).find? fun e =>
          e.path ∉ entries.map (·.path) with
      | some e => .fail (String.ofList e.path ++ " is deleted in reachable control history")
      | none => pure scanned

structure HistoryReceipt where
  commits : ℕ
  blobs : ℕ
  bytes : ℕ
  sha256 : String

def scanReachableHistory (lib : Lib) (baseSha candidateSha : Oid) : Io HistoryReceipt := do
  let base := byPath (← treeEntries lib baseSha)
  let revisions ← Prog.ofExcept (readRevisions (← git (.revList candidateSha baseSha)))
  let h ← revisions.foldlM (scanRevision lib base) ⟨[], [], 0, 0⟩
  pure ⟨revisions.length, h.scannedObjects.length, h.scannedBytes, lib.sha256 h.digest⟩

/-! ### The difference of the two ends -/

structure RawChange where
  oldMode : Text
  newMode : Text
  candidateObject : Oid
  statusCode : Char

/-- `^:(\d{6}) (\d{6}) ([a-f0-9]{40}) ([a-f0-9]{40}) ([AMD])$` -/
def parseChange (t : Text) : Option RawChange := do
  let (_, t) ← takingWord [':'] t
  let (oldMode, t) ← taking 6 Char.isDigit t
  let (_, t) ← takingWord [' '] t
  let (newMode, t) ← taking 6 Char.isDigit t
  let (_, t) ← takingWord [' '] t
  let (_, t) ← takingOid t
  let (_, t) ← takingWord [' '] t
  let (candidateObject, t) ← takingOid t
  let (_, t) ← takingWord [' '] t
  match t with
  | [c] => if c ∈ ['A', 'M', 'D'] then some ⟨oldMode, newMode, candidateObject, c⟩ else none
  | _ => none

def checkMode (path mode : Text) : Except String Unit :=
  if mode = noMode then .ok ()
  else do
    failUnless (mode ≠ "120000".toList)
      (String.ofList path ++ " is a symbolic link in the candidate diff")
    failUnless (mode ≠ "160000".toList)
      (String.ofList path ++ " is a Git link in the candidate diff")
    failUnless (mode = "100644".toList ∨ mode = "100755".toList)
      (String.ofList path ++ " has an unsupported Git mode")

def candidateErrors (path : Text) : BlobErrors where
  size := String.ofList path ++ " exceeds the candidate scan blob limit"
  total := "candidate changed blobs exceed the scan byte limit"
  changed := "candidate blob changed during scan"
  secret := String.ofList path ++ " contains a likely live secret or private key"

def checkChange (lib : Lib) (metadata path : Text) : Except String (RawChange × Text) :=
  match parseChange metadata with
  | none => .error "candidate contains an unsupported change type"
  | some raw => do
    let path ← validateRelativePath lib path "candidate changed path"
    checkMode path raw.oldMode
    checkMode path raw.newMode
    failUnless (raw.oldMode ≠ noMode → raw.newMode ≠ noMode → raw.oldMode = raw.newMode)
      (String.ofList path ++ " changes executable policy")
    failUnless (¬(raw.oldMode = noMode ∧ raw.newMode = "100755".toList))
      (String.ofList path ++ " adds an unexpected executable")
    pure (raw, path)

/-- The loop over the difference: the paths changed, and the bytes scanned so far. -/
def scanChanges (lib : Lib) (changedPaths : List Text) (scannedBytes : ℕ) :
    List Text → Io (List Text × ℕ)
  | metadata :: path :: rest => do
    let (raw, path) ← Prog.ofExcept (checkChange lib metadata path)
    if raw.statusCode = 'D' then scanChanges lib (changedPaths ++ [path]) scannedBytes rest
    else
      let (scannedBytes, _) ← readBlob (candidateErrors path) raw.candidateObject scannedBytes
      scanChanges lib (changedPaths ++ [path]) scannedBytes rest
  | _ => pure (changedPaths, scannedBytes)

structure Diff where
  bytes : Bytes
  diffSha256 : String
  changedPaths : List Text

def diffBetween (lib : Lib) (base result : Text) (directories : List Text) : Io Diff := do
  let baseSha ← Prog.ofExcept (requireSha "baseSha" base)
  let resultSha ← Prog.ofExcept (requireSha "resultSha" result)
  let bytes ← git (.diffPatch baseSha resultSha directories)
  let out ← git (.diffNames baseSha resultSha directories)
  let names ← Prog.ofExcept (splitNull "Git commit diff" out)
  Prog.ofExcept (names.forM fun n => (validateRelativePath lib n "changed path").map fun _ => ())
  Prog.ofExcept (ensureNoPathCollisions lib names "changed paths")
  pure ⟨bytes, lib.sha256 bytes, sortPaths names⟩

/-! ### The scan -/

/-- What the runtime remembers of the run. -/
structure Runtime where
  baseSha : Oid
  branchHeads : List Oid

structure ScanReceipt where
  candidateSha : Oid
  evidence : List String

def scan (lib : Lib) (runtime : Runtime) (base candidate : Text) : Io ScanReceipt := do
  requireDeadline
  let baseSha ← Prog.ofExcept (requireSha "baseSha" base)
  Prog.ofExcept (failUnless (baseSha = runtime.baseSha)
    "scan base must be the immutable run base")
  let candidateSha ← Prog.ofExcept (requireSha "candidateSha" candidate)
  Prog.ofExcept (failUnless (candidateSha ∈ runtime.branchHeads)
    "scan candidate is not an integrated controller candidate")
  let ancestry ← Prog.ask (Call.isAncestor baseSha candidateSha)
  Prog.ofExcept (ancestry.bind fun yes => failUnless (yes = true)
    "candidate is not descended from the immutable run base")
  let history ← scanReachableHistory lib baseSha candidateSha
  let raw ← Prog.ofExcept (splitNull "candidate raw diff" (← git (.diffRaw baseSha candidateSha)))
  Prog.ofExcept (failUnless (raw.length % 2 = 0) "candidate raw diff is malformed")
  let (changedPaths, scannedBytes) ← scanChanges lib [] 0 raw
  Prog.ofExcept (ensureNoPathCollisions lib changedPaths "candidate changed paths")
  let exactDiff ← diffBetween lib base candidate []
  Prog.ofExcept (failUnless (exactDiff.changedPaths = sortPaths changedPaths)
    "candidate diff path scan disagrees with the exact diff")
  pure ⟨candidateSha,
    [s!"base:{String.ofList baseSha.1}", s!"candidate:{String.ofList candidateSha.1}",
      s!"changed-files:{changedPaths.length}", s!"changed-bytes:{scannedBytes}",
      s!"diff-sha256:{exactDiff.diffSha256}", s!"reachable-commits:{history.commits}",
      s!"reachable-new-blobs:{history.blobs}", s!"reachable-sha256:{history.sha256}"]⟩

end Bimo.Git
