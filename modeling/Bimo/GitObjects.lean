import Bimo.GitPaths
import Mathlib.Logic.Relation

/-!
What Git keeps, and what it prints when asked.

`Repo` is the commits and blobs by their names, a tree being the list of all entries below it.
`Repo.Prints` says what the controller's questions are answered with, byte for byte. Every question
may fail as well.
-/

namespace Bimo.Git

open Utf8

/-! ### What Git keeps -/

def isHex (c : Char) : Bool := c.isDigit || ('a'.toNat ≤ c.toNat && c.toNat ≤ 'f'.toNat)

/-- `SHA1` -/
def isSha (t : Text) : Bool := t.length = 40 && t.all isHex

/-- The name of an object. -/
abbrev Oid := {t : Text // isSha t = true}

def toOid (t : Text) : Option Oid := if h : isSha t = true then some ⟨t, h⟩ else none

inductive Mode
  | file
  | executable
  | symlink
  | gitlink
  deriving DecidableEq

def Mode.text : Mode → Text
  | .file => "100644".toList
  | .executable => "100755".toList
  | .symlink => "120000".toList
  | .gitlink => "160000".toList

/-- The kind of object an entry of this mode names. -/
def Mode.type : Mode → Text
  | .gitlink => "commit".toList
  | _ => "blob".toList

/-- The two are files of one kind to Git. -/
def Mode.sameKind (m m' : Mode) : Bool :=
  m == m' || (m != .symlink && m != .gitlink && m' != .symlink && m' != .gitlink)

structure TreeEntry where
  mode : Mode
  objectId : Oid
  path : Bytes
  deriving DecidableEq

/-- A tree with all trees below it. -/
structure Tree where
  entries : List TreeEntry
  nodup : (entries.map (·.path)).Nodup
  paths : ∀ e ∈ entries, e.path ≠ [] ∧ 0 ∉ e.path

structure Commit where
  parents : List Oid
  tree : Tree
  message : Bytes

structure Repo where
  commits : Oid → Option Commit
  blobs : Oid → Option Bytes

/-- The one commit is the other or comes before it. -/
def Repo.Reaches (R : Repo) : Oid → Oid → Prop :=
  Relation.ReflTransGen fun a b => ∃ c, R.commits a = some c ∧ b ∈ c.parents

/-! ### What Git prints -/

def TreeEntry.head (e : TreeEntry) : Text :=
  e.mode.text ++ ' ' :: e.mode.type ++ ' ' :: e.objectId.1 ++ ['\t']

def TreeEntry.bytes (e : TreeEntry) : Bytes := encode e.head ++ e.path

def Tree.bytes (t : Tree) : Bytes := nulled (t.entries.map TreeEntry.bytes)

inductive Change
  | added (e : TreeEntry)
  | deleted (e : TreeEntry)
  | changed (old new : TreeEntry)
  deriving DecidableEq

/-- What is changed between two trees. -/
def Change.Between (b c : Tree) : Change → Prop
  | .added e => e ∈ c.entries ∧ ∀ e' ∈ b.entries, e'.path ≠ e.path
  | .deleted e => e ∈ b.entries ∧ ∀ e' ∈ c.entries, e'.path ≠ e.path
  | .changed old new =>
    old ∈ b.entries ∧ new ∈ c.entries ∧ old.path = new.path ∧ old ≠ new

def noMode : Text := "000000".toList

def noOid : Text := List.replicate 40 '0'

def metaText (oldMode newMode oldObject newObject : Text) (status : Char) : Text :=
  ':' :: oldMode ++ ' ' :: newMode ++ ' ' :: oldObject ++ ' ' :: newObject ++ [' ', status]

def Change.metadata : Change → Text
  | .added e => metaText noMode e.mode.text noOid e.objectId.1 'A'
  | .deleted e => metaText e.mode.text noMode e.objectId.1 noOid 'D'
  | .changed old new => metaText old.mode.text new.mode.text old.objectId.1 new.objectId.1
      (if old.mode.sameKind new.mode then 'M' else 'T')

def Change.path : Change → Bytes
  | .added e => e.path
  | .deleted e => e.path
  | .changed _ new => new.path

def changesBytes (l : List Change) : Bytes :=
  nulled (l.flatMap fun c => [encode c.metadata, c.path])

def linesBytes (l : List Oid) : Bytes := l.flatMap fun r => encode r.1 ++ [0x0A]

inductive Query
  /-- `rev-list --topo-order candidate ^base` -/
  | revList (candidate base : Oid)
  /-- `show -s --format=%B revision` -/
  | message (revision : Oid)
  /-- `ls-tree -r -z --full-tree revision` -/
  | lsTree (revision : Oid)
  /-- `cat-file -s object` -/
  | size (object : Oid)
  /-- `cat-file blob object` -/
  | blob (object : Oid)
  /-- `diff --raw -z --abbrev=40 --no-renames --no-ext-diff base candidate --` -/
  | diffRaw (base candidate : Oid)
  /-- `diff --binary --full-index --no-renames … base result [-- directories]` -/
  | diffPatch (base result : Oid) (directories : List Text)
  /-- `diff --name-only -z --no-renames … base result [-- directories]` -/
  | diffNames (base result : Oid) (directories : List Text)
  /-- `show -s --format=%P revision` -/
  | parents (revision : Text)
  /-- `show -s --format=%T revision` -/
  | treeOf (revision : Text)
  /-- `rev-parse --verify HEAD`, in a workspace as all that follow -/
  | head (workspace : Text)
  /-- `ls-files --unmerged -z` -/
  | unmerged (workspace : Text)
  /-- `diff --name-status -z --no-renames … HEAD --` -/
  | trackedDiff (workspace : Text)
  /-- `ls-files --others -z` -/
  | others (workspace : Text)
  /-- `ls-tree -z -l HEAD -- path` -/
  | headEntry (workspace path : Text)
  /-- `add -f -A -- directories` -/
  | add (workspace : Text) (directories : List Text)
  /-- `diff --cached --name-status -z --no-renames HEAD --` -/
  | stagedDiff (workspace : Text)
  /-- `ls-files --stage -z -- path` -/
  | stagedEntry (workspace path : Text)
  /-- `commit --no-verify --no-gpg-sign --cleanup=verbatim -m message` -/
  | commit (workspace message : Text)
  /-- `apply --cached --binary --whitespace=nowarn -` -/
  | apply (workspace : Text) (patch : Bytes)
  /-- `write-tree` -/
  | writeTree (workspace : Text)
  /-- `show -s --format=%ct revision` -/
  | committedAt (revision : Text)
  /-- `commit-tree tree -p parent … -m message`, at the time -/
  | commitTree (tree : Text) (parents : List Text) (message : Text) (date : ℕ)
  /-- `reset --hard revision` -/
  | reset (workspace revision : Text)
  /-- `rev-parse --verify refs/heads/branch`, with nothing where there is no such branch -/
  | readBranch (branch : Text)
  /-- `update-ref refs/heads/branch new old` -/
  | updateRef (branch new old : Text)

/-- What Git may print of what it keeps. All else is any bytes. -/
def Repo.Prints (R : Repo) : Query → Bytes → Prop
  | .revList c b, out =>
    ∃ l : List Oid, (∀ r, r ∈ l ↔ R.Reaches c r ∧ ¬R.Reaches b r) ∧ out = linesBytes l
  | .message r, out => ∃ c, R.commits r = some c ∧ out = c.message ++ [0x0A]
  | .lsTree r, out => ∃ c, R.commits r = some c ∧ out = c.tree.bytes
  | .size o, out =>
    ∃ content, R.blobs o = some content ∧ out = encode (Nat.toDigits 10 content.length) ++ [0x0A]
  | .blob o, out => R.blobs o = some out
  | .diffRaw b c, out => ∃ base candidate l, R.commits b = some base ∧
      R.commits c = some candidate ∧
      (∀ ch, ch ∈ l ↔ Change.Between base.tree candidate.tree ch) ∧ out = changesBytes l
  | _, _ => True

/-- Steps that look at the files of a workspace, or change who may write them. -/
inductive Guard
  | safeDirectory (workspace directory : Text)
  | freeze (workspace : Text)
  | secure (workspace : Text)
  | unlock (workspace : Text)
  | addWorktree (id sha : Text)

inductive Call
  /-- The deadline is a safe integer that is still ahead. -/
  | inTime
  /-- `merge-base --is-ancestor base candidate` -/
  | isAncestor (base candidate : Oid)
  | guard (g : Guard)
  /-- A regular file with one link, inside of the workspace and unchanged while it is read. -/
  | readFile (workspace path : Text)
  | out (q : Query)

abbrev Call.Ret : Call → Type
  | .inTime => Bool
  | .isAncestor _ _ => Except String Bool
  | .guard _ => Except String Unit
  | .readFile _ _ => Except String Bytes
  | .out _ => Except String Bytes

def Repo.answers (R : Repo) : (o : Call) → o.Ret → Prop
  | .inTime, _ => True
  | .isAncestor b c, .ok yes => yes = true ↔ R.Reaches c b
  | .isAncestor _ _, .error _ => True
  | .guard _, _ => True
  | .readFile _ _, _ => True
  | .out q, .ok out => R.Prints q out
  | .out _, .error _ => True

abbrev Io := Prog Call Call.Ret String

def git (q : Query) : Io Bytes :=
  Prog.ask (Call.out q) >>= fun out : Except String Bytes => Prog.ofExcept out

lemma yields_git {R : Repo} {q : Query} {out : Bytes} :
    Yields R.answers (git q) out ↔ R.Prints q out := by
  unfold git
  simp only [yields_bind, yields_ask, yields_ofExcept]
  constructor
  · rintro ⟨_, h, rfl⟩
    exact h
  · exact fun h => ⟨.ok out, h, rfl⟩

end Bimo.Git
