import Mathlib

/-!
Values of the command line's language, as far as its checks look at them.

A string is the list of its UTF-16 code units, so it may hold half of a pair, and its length
is counted in units. A value is one that a JSON text is read to. A number is a rational one or
too large to be one.
-/

namespace Bimo.Js

abbrev Text := List UInt16

/-- The units that a character takes. -/
def units (c : Char) : Text :=
  if c.toNat < 0x10000 then [c.toNat.toUInt16]
  else
    [(0xD800 + (c.toNat - 0x10000) / 0x400).toUInt16,
      (0xDC00 + (c.toNat - 0x10000) % 0x400).toUInt16]

/-- The string that is written so. -/
def lit (s : String) : Text := s.toList.flatMap units

inductive Number
  | finite (q : ℚ)
  | infinite (negative : Bool)
  deriving DecidableEq

inductive Value
  | null
  | bool (b : Bool)
  | num (n : Number)
  | str (s : Text)
  | arr (l : List Value)
  | obj (l : List (Text × Value))

abbrev Fields := List (Text × Value)

def Value.ofNat (n : ℕ) : Value := .num (.finite n)

/-- A field of an object; what is not an object has none. -/
def Value.get (key : String) : Value → Option Value
  | .obj l => l.lookup (lit key)
  | _ => none

/-- The value is this string. -/
def isText (v : Option Value) (s : String) : Bool :=
  match v with
  | some (.str t) => t = lit s
  | _ => false

/-! ### Units -/

def isDigit (u : UInt16) : Bool := decide (48 ≤ u.toNat ∧ u.toNat ≤ 57)

def isUpper (u : UInt16) : Bool := decide (65 ≤ u.toNat ∧ u.toNat ≤ 90)

def isLower (u : UInt16) : Bool := decide (97 ≤ u.toNat ∧ u.toNat ≤ 122)

def isLetter (u : UInt16) : Bool := isUpper u || isLower u

def isAlphanum (u : UInt16) : Bool := isLetter u || isDigit u

/-- The unit is one of these characters. -/
def isOneOf (s : String) (u : UInt16) : Bool := (lit s).contains u

def isControl (u : UInt16) : Bool := decide (u.toNat < 32) || decide (u.toNat = 127)

def isHigh (u : UInt16) : Bool := decide (0xD800 ≤ u.toNat ∧ u.toNat ≤ 0xDBFF)

def isLow (u : UInt16) : Bool := decide (0xDC00 ≤ u.toNat ∧ u.toNat ≤ 0xDFFF)

/-- The code points of a string; half of a pair that stands alone is one by itself. -/
def codePoints : Text → List ℕ
  | [] => []
  | [u] => [u.toNat]
  | u :: v :: l =>
    if isHigh u && isLow v then
      (0x10000 + (u.toNat - 0xD800) * 0x400 + (v.toNat - 0xDC00)) :: codePoints l
    else u.toNat :: codePoints (v :: l)

/-- The bytes of a string in UTF-8; half of a pair that stands alone takes three. -/
def byteLength (s : Text) : ℕ :=
  ((codePoints s).map fun c =>
    if c < 0x80 then 1 else if c < 0x800 then 2 else if c < 0x10000 then 3 else 4).sum

/-- The units that trimming takes away. -/
def isSpace (u : UInt16) : Bool :=
  u.toNat ∈ [9, 10, 11, 12, 13, 32, 160, 5760, 8232, 8233, 8239, 8287, 12288, 65279] ||
    decide (8192 ≤ u.toNat ∧ u.toNat ≤ 8202)

def trim (s : Text) : Text := ((s.dropWhile isSpace).reverse.dropWhile isSpace).reverse

/-- The lower case of a string of ASCII. -/
def toLowerCase (s : Text) : Text := s.map fun u => if isUpper u then u + 32 else u

/-! ### Patterns -/

/-- The whole string is made of such units, this many of them. -/
def consists (p : UInt16 → Bool) (minimum maximum : ℕ) (s : Text) : Bool :=
  decide (minimum ≤ s.length ∧ s.length ≤ maximum) && s.all p

/-- One such unit, then at most so many of others. -/
def headed (first rest : UInt16 → Bool) (maximum : ℕ) : Text → Bool
  | [] => false
  | u :: l => first u && consists rest 0 maximum l

/-- The first and the last unit are of one kind, those between of another. -/
def framed (edge inner : UInt16 → Bool) (maximum : ℕ) (s : Text) : Bool :=
  s.head?.any edge && s.getLast?.any edge && s.all (fun u => edge u || inner u) &&
    decide (s.length ≤ maximum)

def startsWith (s : Text) (t : String) : Bool := (lit t).isPrefixOf s

def endsWith (s : Text) (t : String) : Bool := (lit t).isSuffixOf s

/-- The one string stands somewhere in the other. -/
def includes (s : Text) (t : String) : Bool := s.tails.any fun r => (lit t).isPrefixOf r

/-- What stands between the slashes. -/
def splitOnSlash (s : Text) : List Text := s.splitOn 47

end Bimo.Js
