import Bimo.Answers
import Bimo.Lossy
import Mathlib.Data.List.Sort

/-!
Names of paths as Git lists them.

Git writes paths as bytes with a zero behind each, and the controller reads them back as text. What
it accepts is text in its normal form whose components a file system keeps as they are, and no two
paths of a listing may differ in the case of letters alone.

Normal forms, letter case and hashes come with the platform and are parameters.
-/

namespace Bimo.Git

open Utf8

abbrev Bytes := List UInt8

abbrev Text := List Char

structure Lib where
  /-- `normalize("NFC")` -/
  nfc : Text → Text
  /-- `toLowerCase` -/
  lower : Text → Text
  sha256 : Bytes → String

/-- A platform that leaves texts as they are. -/
def plainLib : Lib where
  nfc t := t
  lower t := t
  sha256 _ := ""

def failUnless (p : Prop) [Decidable p] (message : String) : Except String Unit :=
  if p then .ok () else .error message

lemma failUnless_eq {p : Prop} [Decidable p] {message : String} :
    failUnless p message = .ok () ↔ p := by
  unfold failUnless
  split_ifs with h <;> simp [h]

/-! ### Paths -/

def components (path : Text) : List Text := path.splitOn '/'

/-- `CONTROL` -/
def isControlChar (c : Char) : Bool := c.toNat ≤ 0x1F || c.toNat = 0x7F

def isAbsolute (path : Text) : Bool := path.head? = some '/'

/-- The components that are left of a path, the last one first. -/
def normalizeComponent (allowAboveRoot : Bool) (done : List Text) (c : Text) : List Text :=
  if c = [] ∨ c = ['.'] then done
  else if c = ['.', '.'] then
    match done with
    | [] => if allowAboveRoot then [c] else []
    | d :: rest => if d = ['.', '.'] then c :: done else rest
  else c :: done

/-- `path.posix.normalize` -/
def normalize (path : Text) : Text :=
  if path = [] then ['.']
  else
    let absolute := isAbsolute path
    let trailing := path.getLast? = some '/'
    let parts := ((components path).foldl (normalizeComponent !absolute) []).reverse
    let joined := ['/'].intercalate parts
    if joined = [] then
      if absolute then ['/'] else if trailing then ['.', '/'] else ['.']
    else
      (if absolute then ['/'] else []) ++ joined ++ (if trailing then ['/'] else [])

/-- The part that the two kinds of paths have in common. -/
def checkCanonical (lib : Lib) (value : Text) (label : String) : Except String Unit := do
  failUnless (value ≠ [] ∧ (encode value).length ≤ 1024 ∧ value = lib.nfc value ∧ '\\' ∉ value ∧
    ¬value.any isControlChar ∧ ¬isAbsolute value ∧ normalize value = value)
    (label ++ " must be a canonical relative path")
  failUnless (∀ c ∈ components value, c ≠ [] ∧ c ≠ ['.'] ∧ c ≠ ['.', '.'])
    (label ++ " must be a canonical relative path")

def validateRelativePath (lib : Lib) (value : Text) (label : String) : Except String Text := do
  checkCanonical lib value label
  failUnless (∀ c ∈ components value,
    lib.lower c ≠ ".git".toList ∧ lib.lower c ≠ ".github".toList)
    (label ++ " names a forbidden repository control path")
  pure value

def validateSnapshotPath (lib : Lib) (value : Text) (label : String) : Except String Text := do
  checkCanonical lib value label
  failUnless (∀ c ∈ components value, lib.lower c ≠ ".git".toList)
    (label ++ " names forbidden Git administration data")
  pure value

lemma validateSnapshotPath_eq {lib : Lib} {value v : Text} {label : String}
    (h : validateSnapshotPath lib value label = .ok v) : v = value := by
  obtain ⟨_, _, h⟩ := bind_eq_ok.mp h
  obtain ⟨_, _, h⟩ := bind_eq_ok.mp h
  exact (Except.ok.inj h).symm

/-- The key under which a path is looked for among those before it. -/
def foldedKey (lib : Lib) (path : Text) : Text := lib.lower (lib.nfc path)

/-- The loop: the paths so far, the last one first. -/
def collisionsFrom (lib : Lib) (label : String) (seen : List Text) :
    List Text → Except String Unit
  | [] => .ok ()
  | path :: rest =>
    match seen.find? fun p => foldedKey lib p = foldedKey lib path with
    | some existing =>
      if existing ≠ path then
        .error (label ++ " contain a case or Unicode normalization collision")
      else collisionsFrom lib label (path :: seen) rest
    | none => collisionsFrom lib label (path :: seen) rest

def ensureNoPathCollisions (lib : Lib) (paths : List Text) (label : String) :
    Except String Unit :=
  collisionsFrom lib label [] paths

/-- `Buffer.compare` of the texts' bytes. -/
def pathLe (a b : Text) : Prop := encode a ≤ encode b

instance : DecidableRel pathLe := fun a b => inferInstanceAs (Decidable (encode a ≤ encode b))

def sortPaths (paths : List Text) : List Text := paths.insertionSort pathLe

/-! ### Lists of paths -/

/-- The bytes of one path, and what is behind its zero. -/
def readTokens (label : String) (token : Bytes) : Bytes → Except String (List Text)
  | [] => .ok []
  | b :: rest =>
    if b ≠ 0 then readTokens label (token ++ [b]) rest
    else if encode (lossy token) ≠ token then
      .error (label ++ " contains a non-UTF-8 path")
    else (readTokens label [] rest).map (lossy token :: ·)

def splitNull (label : String) (buffer : Bytes) : Except String (List Text) :=
  if buffer = [] then .ok []
  else if buffer.getLast? ≠ some 0 then .error (label ++ " was not NUL terminated")
  else readTokens label [] buffer

/-- The tokens, each with a zero behind it. -/
def nulled (tokens : List Bytes) : Bytes := tokens.flatMap (· ++ [0])

lemma readTokens_append (label : String) {token t rest : Bytes} (h : 0 ∉ t) :
    readTokens label token (t ++ 0 :: rest) =
      if encode (lossy (token ++ t)) ≠ token ++ t then
        .error (label ++ " contains a non-UTF-8 path")
      else (readTokens label [] rest).map (lossy (token ++ t) :: ·) := by
  induction t generalizing token with
  | nil => simp [readTokens]
  | cons b t ih =>
      have hb : b ≠ 0 := fun hb => h (by simp [hb])
      have ht : 0 ∉ t := fun ht => h (List.mem_cons_of_mem _ ht)
      rw [List.cons_append, readTokens, if_pos hb, ih ht]
      simp

lemma readTokens_nulled {label : String} {tokens : List Bytes} (h : ∀ t ∈ tokens, 0 ∉ t)
    {out : List Text} (hread : readTokens label [] (nulled tokens) = .ok out) :
    out.map encode = tokens := by
  induction tokens generalizing out with
  | nil =>
      obtain rfl := Except.ok.inj hread
      rfl
  | cons t tokens ih =>
      have hnulled : nulled (t :: tokens) = t ++ 0 :: nulled tokens := by simp [nulled]
      rw [hnulled, readTokens_append label (h t (by simp)), List.nil_append] at hread
      split_ifs at hread with henc
      cases hrest : readTokens label [] (nulled tokens) with
      | error e =>
          rw [hrest] at hread
          cases hread
      | ok rest =>
          rw [hrest] at hread
          obtain rfl := Except.ok.inj hread
          rw [List.map_cons, ih (fun u hu => h u (List.mem_cons_of_mem _ hu)) hrest,
            not_not.mp henc]

/-- **What is read is what was listed.** -/
theorem splitNull_nulled {label : String} {tokens : List Bytes} (h : ∀ t ∈ tokens, 0 ∉ t)
    {out : List Text} (hsplit : splitNull label (nulled tokens) = .ok out) :
    out.map encode = tokens := by
  unfold splitNull at hsplit
  split_ifs at hsplit with hnil hlast
  · obtain rfl := Except.ok.inj hsplit
    cases tokens with
    | nil => rfl
    | cons t tokens => simp [nulled] at hnil
  · exact readTokens_nulled h hsplit

end Bimo.Git
