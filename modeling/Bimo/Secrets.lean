import Mathlib

/-!
Patterns of secrets, looked for in bytes.

A pattern is a row of pieces: the edge of a word, one word out of some, or a run of bytes of a
class. A pattern is found in bytes when its pieces fit one behind the other at some place. Bytes are
read as Latin-1, so that a byte is a character.
-/

namespace Bimo.Secrets

abbrev Bytes := List UInt8

inductive Piece
  /-- `\b` -/
  | edge
  /-- `(?:a|b)` -/
  | one (words : List Bytes)
  /-- `[…]{low,high}` -/
  | many (isMember : UInt8 → Bool) (low : ℕ) (high : Option ℕ)

abbrev Pattern := List Piece

def between (low high b : UInt8) : Bool := low ≤ b && b ≤ high

def isUpper : UInt8 → Bool := between 0x41 0x5A

def isLower : UInt8 → Bool := between 0x61 0x7A

def isDigit : UInt8 → Bool := between 0x30 0x39

def isAlphanumeric (b : UInt8) : Bool := isUpper b || isLower b || isDigit b

/-- `\w` -/
def isWord (b : UInt8) : Bool := isAlphanumeric b || b == 0x5F

/-- A word stands on one side alone. -/
def atEdge (before : Option UInt8) (rest : Bytes) : Bool :=
  before.any isWord != rest.head?.any isWord

/-- The last byte of those read, or of those before. -/
def lastOf (before : Option UInt8) (read : Bytes) : Option UInt8 := read.getLast?.or before

def matchAt (before : Option UInt8) (s : Bytes) : Pattern → Bool
  | [] => true
  | .edge :: ps => atEdge before s && matchAt before s ps
  | .one words :: ps =>
    words.any fun w => w.isPrefixOf s && matchAt (lastOf before w) (s.drop w.length) ps
  | .many isMember low high :: ps =>
    (List.range (s.length + 1)).any fun n =>
      decide (low ≤ n) && high.all (n ≤ ·) && (s.take n).all isMember &&
        matchAt (lastOf before (s.take n)) (s.drop n) ps

/-- The pattern fits here or further on. -/
def testFrom (p : Pattern) (before : Option UInt8) : Bytes → Bool
  | [] => matchAt before [] p
  | b :: rest => matchAt before (b :: rest) p || testFrom p (some b) rest

/-- `pattern.test(text)` -/
def test (p : Pattern) (s : Bytes) : Bool := testFrom p none s

/-! ### The patterns -/

def lit (s : String) : Bytes := s.toUTF8.toList

def dashed (isMember : UInt8 → Bool) (b : UInt8) : Bool := isMember b || b == 0x2D

/-- `SECRET_PATTERNS` -/
def secretPatterns : List Pattern :=
  [[.one [lit "-----BEGIN "],
      .one (["ENCRYPTED ", "RSA ", "EC ", "DSA ", "OPENSSH ", ""].map lit),
      .one [lit "PRIVATE KEY-----"]],
    [.edge, .one [lit "AKIA", lit "ASIA"], .many (fun b => isDigit b || isUpper b) 16 (some 16),
      .edge],
    [.edge, .one [lit "gh"], .one (["p", "o", "u", "s", "r"].map lit), .one [lit "_"],
      .many isAlphanumeric 20 none, .edge],
    [.edge, .one [lit "github_pat_"], .many isWord 20 none, .edge],
    [.edge, .one [lit "npm_"], .many isAlphanumeric 36 (some 36), .edge],
    [.edge, .one [lit "xox"], .one (["b", "a", "p", "r", "s"].map lit), .one [lit "-"],
      .many (dashed isAlphanumeric) 20 none, .edge],
    [.edge, .one [lit "AIza"], .many (dashed isWord) 35 (some 35), .edge]]

/-- Some pattern is found in the bytes. -/
def hasSecret (s : Bytes) : Bool := secretPatterns.any (test · s)

/-! ### A line break behind -/

lemma atEdge_newline {before : Option UInt8} {s : Bytes} :
    atEdge before (s ++ [0x0A]) = atEdge before s := by
  cases s with
  | nil => rfl
  | cons b s => rfl

/-- What fits still fits when a line break follows. -/
lemma matchAt_newline (ps : Pattern) {before : Option UInt8} {s : Bytes}
    (h : matchAt before s ps = true) : matchAt before (s ++ [0x0A]) ps = true := by
  induction ps generalizing before s with
  | nil => rfl
  | cons piece ps ih =>
      cases piece with
      | edge =>
          simp only [matchAt, Bool.and_eq_true, atEdge_newline] at h ⊢
          exact ⟨h.1, ih h.2⟩
      | one words =>
          simp only [matchAt, List.any_eq_true, Bool.and_eq_true] at h ⊢
          obtain ⟨w, hw, hprefix, hrest⟩ := h
          rw [List.isPrefixOf_iff_prefix] at hprefix
          refine ⟨w, hw, ?_, ?_⟩
          · rw [List.isPrefixOf_iff_prefix]
            exact hprefix.trans (List.prefix_append _ _)
          · rw [List.drop_append_of_le_length hprefix.length_le]
            exact ih hrest
      | many isMember low high =>
          simp only [matchAt, List.any_eq_true, List.mem_range, Bool.and_eq_true] at h ⊢
          obtain ⟨n, hn, hfits, hrest⟩ := h
          have hle : n ≤ s.length := by omega
          refine ⟨n, ?_, ?_, ?_⟩
          · rw [List.length_append]
            omega
          · rwa [List.take_append_of_le_length hle]
          · rw [List.take_append_of_le_length hle, List.drop_append_of_le_length hle]
            exact ih hrest

lemma testFrom_newline {p : Pattern} {before : Option UInt8} {s : Bytes}
    (h : testFrom p before s = true) : testFrom p before (s ++ [0x0A]) = true := by
  induction s generalizing before with
  | nil =>
      have hmatch := matchAt_newline p h
      simp only [List.nil_append] at hmatch
      simp [testFrom, hmatch]
  | cons b s ih =>
      simp only [List.cons_append, testFrom, Bool.or_eq_true] at h ⊢
      exact h.imp (fun h => matchAt_newline p h) ih

/-- **No secret is hidden by the line break that is printed behind a text.** -/
theorem hasSecret_newline {s : Bytes} (h : hasSecret (s ++ [0x0A]) = false) :
    hasSecret s = false := by
  simp only [hasSecret, List.any_eq_false, Bool.not_eq_true] at h ⊢
  intro p hp
  cases htest : test p s with
  | false => rfl
  | true => exact absurd (testFrom_newline htest) (by simpa [test] using h p hp)

example : hasSecret (lit "key: AKIA0123456789ABCDEF\n") = true ∧
    hasSecret (lit "key: AKIA0123456789ABCDEFG\n") = false := by decide +kernel

end Bimo.Secrets
