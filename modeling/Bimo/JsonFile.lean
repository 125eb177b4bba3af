import Bimo.Js
import Bimo.JsonParse

/-!
JSON files.

A file may hold any JSON text, not only one that a program has written: a number may be written
in many ways, and a string may hold half of a surrogate pair. A number is read as the text of the
double that it stands for, which the reader is given as a function. A string is read as its code
units first, and half of a pair becomes the character that stands for it in UTF-8.

A text that is read has no NUL in it.
-/

namespace Bimo.Wire

/-! ### Reading -/

/-- The character of a code point; half of a pair that stands alone is U+FFFD. -/
def charOf (n : ℕ) : Char := if 0xD800 ≤ n ∧ n ≤ 0xDFFF then '\uFFFD' else Char.ofNat n

/-- `String.prototype.toWellFormed` -/
def wellFormed (t : Js.Text) : String := String.ofList ((Js.codePoints t).map charOf)

/-- The code units of a string up to its closing quote. -/
def readUnits : List Char → Option (Js.Text × List Char)
  | [] => none
  | c :: r =>
    if c = '"' then some ([], r)
    else if c = '\\' then
      match r with
      | [] => none
      | e :: r =>
        if e = 'u' then
          match r with
          | a :: b :: c :: d :: r =>
            (unit a b c d).bind fun u => (readUnits r).map fun p => (u.toUInt16 :: p.1, p.2)
          | _ => none
        else (simpleEscape e).bind fun e => (readUnits r).map fun p => (Js.units e ++ p.1, p.2)
    else if c.toNat < 32 then none
    else (readUnits r).map fun p => (Js.units c ++ p.1, p.2)
termination_by structural cs => cs

section Parse

variable (number : String → String)

def readDouble (cs : List Char) : Option (Json × List Char) :=
  let t := cs.takeWhile isNumeric
  if isNumber t then some (.num (number (String.ofList t)), cs.dropWhile isNumeric) else none

mutual

def parseValue : ℕ → List Char → Option (Json × List Char)
  | 0, _ => none
  | n + 1, cs =>
    match skip cs with
    | '"' :: r => (readUnits r).map fun p => (.str (wellFormed p.1), p.2)
    | '[' :: r =>
      match skip r with
      | ']' :: r' => some (.arr [], r')
      | _ => (parseElements n r).map fun p => (.arr p.1, p.2)
    | '{' :: r =>
      match skip r with
      | '}' :: r' => some (.obj [], r')
      | _ => (parseMembers n r).map fun p => (.obj (fieldsOf p.1), p.2)
    | 'n' :: r => readWord "ull".toList .null r
    | 't' :: r => readWord "rue".toList (.bool true) r
    | 'f' :: r => readWord "alse".toList (.bool false) r
    | r => readDouble number r

/-- The values of an array, up to its closing bracket. -/
def parseElements : ℕ → List Char → Option (List Json × List Char)
  | 0, _ => none
  | n + 1, cs => do
    let (v, r) ← parseValue n cs
    match skip r with
    | ',' :: r => do
      let (l, r) ← parseElements n r
      pure (v :: l, r)
    | ']' :: r => pure ([v], r)
    | _ => none

/-- The fields of an object, up to its closing brace. -/
def parseMembers : ℕ → List Char → Option (List (String × Json) × List Char)
  | 0, _ => none
  | n + 1, cs =>
    match skip cs with
    | '"' :: r => do
      let (k, r) ← readUnits r
      match skip r with
      | ':' :: r => do
        let (v, r) ← parseValue n r
        match skip r with
        | ',' :: r => do
          let (l, r) ← parseMembers n r
          pure ((wellFormed k, v) :: l, r)
        | '}' :: r => pure ([(wellFormed k, v)], r)
        | _ => none
      | _ => none
    | _ => none

end

/-- `JSON.parse` -/
def parseFile (cs : List Char) : Option Json :=
  match parseValue number (2 * cs.length + 1) cs with
  | some (v, r) => if skip r = [] then some v else none
  | none => none

end Parse

/-! ### What is read -/

def nul : Char := '\x00'

/-- What is read of a text, up to the rest, has no NUL in it. -/
def Reads (cs r : List Char) : Prop := ∃ p, cs = p ++ r ∧ nul ∉ p

namespace Reads

variable {cs ds r : List Char}

lemma refl (cs : List Char) : Reads cs cs := ⟨[], rfl, List.not_mem_nil⟩

lemma trans (h : Reads cs ds) (h' : Reads ds r) : Reads cs r := by
  obtain ⟨p, rfl, hp⟩ := h
  obtain ⟨q, rfl, hq⟩ := h'
  refine ⟨p ++ q, (List.append_assoc p q r).symm, fun hmem => ?_⟩
  exact (List.mem_append.mp hmem).elim hp hq

lemma cons {c : Char} (hc : c ≠ nul) (h : Reads cs r) : Reads (c :: cs) r := by
  obtain ⟨p, rfl, hp⟩ := h
  exact ⟨c :: p, rfl, fun hmem => (List.mem_cons.mp hmem).elim (hc ·.symm) hp⟩

lemma not_mem (h : Reads cs []) : nul ∉ cs := by
  obtain ⟨p, rfl, hp⟩ := h
  rwa [List.append_nil]

end Reads

lemma reads_dropWhile {p : Char → Bool} (hp : p nul = false) (cs : List Char) :
    Reads cs (cs.dropWhile p) := by
  refine ⟨cs.takeWhile p, List.takeWhile_append_dropWhile.symm, fun hmem => ?_⟩
  rw [List.mem_takeWhile_imp hmem] at hp
  cases hp

lemma reads_skip (cs : List Char) : Reads cs (skip cs) := reads_dropWhile (by decide) cs

/-- Blanks and then a character. -/
lemma reads_of_skip {cs r : List Char} {c : Char} (h : skip cs = c :: r) (hc : c ≠ nul) :
    Reads cs r :=
  (reads_skip cs).trans (h ▸ (Reads.refl r).cons hc)

lemma ne_nul_of_hexValue {c : Char} {n : ℕ} (h : hexValue c = some n) : c ≠ nul := by
  rintro rfl
  cases h

lemma ne_nul_of_unit {a b c d : Char} {u : ℕ} (h : unit a b c d = some u) :
    a ≠ nul ∧ b ≠ nul ∧ c ≠ nul ∧ d ≠ nul := by
  obtain ⟨_, ha, h⟩ := Option.bind_eq_some_iff.mp h
  obtain ⟨_, hb, h⟩ := Option.bind_eq_some_iff.mp h
  obtain ⟨_, hc, h⟩ := Option.bind_eq_some_iff.mp h
  obtain ⟨_, hd, -⟩ := Option.bind_eq_some_iff.mp h
  exact ⟨ne_nul_of_hexValue ha, ne_nul_of_hexValue hb, ne_nul_of_hexValue hc,
    ne_nul_of_hexValue hd⟩

/-- A part of a text that is read and turned into something. -/
lemma reads_map {α β : Type} {x : Option (α × List Char)} {f : α → β} {b : β} {cs r : List Char}
    (h : (x.map fun p => (f p.1, p.2)) = some (b, r))
    (hx : ∀ a, x = some (a, r) → Reads cs r) : Reads cs r := by
  obtain ⟨⟨a, r'⟩, ha, hp⟩ := Option.map_eq_some_iff.mp h
  obtain ⟨-, rfl⟩ := Prod.mk.inj hp
  exact hx a ha

lemma reads_units {cs r : List Char} {t : Js.Text} (h : readUnits cs = some (t, r)) :
    Reads cs r := by
  fun_induction readUnits cs generalizing t r with
  | case1 | case3 | case5 | case7 => cases h
  | case2 =>
      obtain ⟨-, rfl⟩ := Prod.mk.inj (Option.some.inj h)
      exact (Reads.refl _).cons (by decide)
  | case4 a b c d r' hquote ih =>
      obtain ⟨u, hu, h⟩ := Option.bind_eq_some_iff.mp h
      obtain ⟨ha, hb, hc, hd⟩ := ne_nul_of_unit hu
      have hrest : Reads r' r := reads_map h fun _ h => ih h
      exact ((((hrest.cons hd).cons hc).cons hb).cons ha).cons (by decide) |>.cons (by decide)
  | case6 e r' hu hquote ih =>
      obtain ⟨_, he, h⟩ := Option.bind_eq_some_iff.mp h
      have hne : e ≠ nul := by
        rintro rfl
        cases he
      exact ((reads_map h fun _ h => ih h : Reads r' r).cons hne).cons (by decide)
  | case8 c r' hquote hslash hctl ih =>
      have hne : c ≠ nul := by
        rintro rfl
        exact hctl (by decide)
      exact (reads_map h fun _ h => ih h : Reads r' r).cons hne

lemma reads_word {w cs r : List Char} {u v : Json} (hw : nul ∉ w)
    (h : readWord w u cs = some (v, r)) : Reads cs r := by
  unfold readWord at h
  split_ifs at h with hpre
  obtain ⟨-, rfl⟩ := Prod.mk.inj (Option.some.inj h)
  obtain ⟨s, rfl⟩ := List.isPrefixOf_iff_prefix.mp hpre
  exact ⟨w, by rw [List.drop_left], hw⟩

section Parse

variable {number : String → String}

lemma reads_double {cs r : List Char} {v : Json} (h : readDouble number cs = some (v, r)) :
    Reads cs r := by
  unfold readDouble at h
  dsimp only at h
  split_ifs at h
  obtain ⟨-, rfl⟩ := Prod.mk.inj (Option.some.inj h)
  exact reads_dropWhile (by decide) cs

/-- What each of the three readers has gone through, with so much fuel. -/
def ReadsAll (number : String → String) (n : ℕ) : Prop :=
  (∀ cs v r, parseValue number n cs = some (v, r) → Reads cs r) ∧
    (∀ cs l r, parseElements number n cs = some (l, r) → Reads cs r) ∧
    ∀ cs l r, parseMembers number n cs = some (l, r) → Reads cs r

lemma reads_value {n : ℕ} (ih : ReadsAll number n) {cs r : List Char} {v : Json}
    (h : parseValue number (n + 1) cs = some (v, r)) : Reads cs r := by
  obtain ⟨-, helements, hmembers⟩ := ih
  unfold parseValue at h
  split at h
  · rename_i r₁ hskip
    refine (reads_of_skip hskip (by decide)).trans ?_
    exact reads_map (f := fun t => Json.str (wellFormed t)) h fun _ => reads_units
  · rename_i r₁ hskip
    refine (reads_of_skip hskip (by decide)).trans ?_
    split at h
    · rename_i r₂ hskip'
      obtain ⟨-, rfl⟩ := Prod.mk.inj (Option.some.inj h)
      exact reads_of_skip hskip' (by decide)
    · exact reads_map h fun _ => helements _ _ _
  · rename_i r₁ hskip
    refine (reads_of_skip hskip (by decide)).trans ?_
    split at h
    · rename_i r₂ hskip'
      obtain ⟨-, rfl⟩ := Prod.mk.inj (Option.some.inj h)
      exact reads_of_skip hskip' (by decide)
    · exact reads_map (f := fun l => Json.obj (fieldsOf l)) h fun _ => hmembers _ _ _
  · rename_i r₁ hskip
    exact (reads_of_skip hskip (by decide)).trans (reads_word (by decide) h)
  · rename_i r₁ hskip
    exact (reads_of_skip hskip (by decide)).trans (reads_word (by decide) h)
  · rename_i r₁ hskip
    exact (reads_of_skip hskip (by decide)).trans (reads_word (by decide) h)
  · exact (reads_skip cs).trans (reads_double h)

lemma reads_elements {n : ℕ} (ih : ReadsAll number n) {cs r : List Char} {l : List Json}
    (h : parseElements number (n + 1) cs = some (l, r)) : Reads cs r := by
  obtain ⟨hvalue, helements, -⟩ := ih
  unfold parseElements at h
  obtain ⟨⟨v, r₁⟩, hv, h⟩ := Option.bind_eq_some_iff.mp h
  refine (hvalue _ _ _ hv).trans ?_
  dsimp only at h
  split at h
  · rename_i r₂ hskip
    obtain ⟨⟨l', r₃⟩, hl, h⟩ := Option.bind_eq_some_iff.mp h
    obtain ⟨-, rfl⟩ := Prod.mk.inj (Option.some.inj h)
    exact (reads_of_skip hskip (by decide)).trans (helements _ _ _ hl)
  · rename_i r₂ hskip
    obtain ⟨-, rfl⟩ := Prod.mk.inj (Option.some.inj h)
    exact reads_of_skip hskip (by decide)
  · cases h

lemma reads_members {n : ℕ} (ih : ReadsAll number n) {cs r : List Char}
    {l : List (String × Json)} (h : parseMembers number (n + 1) cs = some (l, r)) :
    Reads cs r := by
  obtain ⟨hvalue, -, hmembers⟩ := ih
  unfold parseMembers at h
  split at h
  · rename_i r₁ hskip
    refine (reads_of_skip hskip (by decide)).trans ?_
    obtain ⟨⟨k, r₂⟩, hk, h⟩ := Option.bind_eq_some_iff.mp h
    refine (reads_units hk).trans ?_
    dsimp only at h
    split at h
    · rename_i r₃ hskip
      refine (reads_of_skip hskip (by decide)).trans ?_
      obtain ⟨⟨v, r₄⟩, hv, h⟩ := Option.bind_eq_some_iff.mp h
      refine (hvalue _ _ _ hv).trans ?_
      dsimp only at h
      split at h
      · rename_i r₅ hskip
        obtain ⟨⟨l', r₆⟩, hl, h⟩ := Option.bind_eq_some_iff.mp h
        obtain ⟨-, rfl⟩ := Prod.mk.inj (Option.some.inj h)
        exact (reads_of_skip hskip (by decide)).trans (hmembers _ _ _ hl)
      · rename_i r₅ hskip
        obtain ⟨-, rfl⟩ := Prod.mk.inj (Option.some.inj h)
        exact reads_of_skip hskip (by decide)
      · cases h
    · cases h
  · cases h

lemma readsAll (n : ℕ) : ReadsAll number n := by
  induction n with
  | zero => exact ⟨nofun, nofun, nofun⟩
  | succ n ih =>
      exact ⟨fun _ _ _ => reads_value ih, fun _ _ _ => reads_elements ih,
        fun _ _ _ => reads_members ih⟩

/-- A text that is read as a value has no NUL in it. -/
theorem nul_not_mem_of_parseFile {cs : List Char} {v : Json} (h : parseFile number cs = some v) :
    nul ∉ cs := by
  unfold parseFile at h
  split at h
  · rename_i v' r hvalue
    split_ifs at h with hskip
    have hend : Reads r [] := hskip ▸ reads_skip r
    exact (((readsAll _).1 _ _ _ hvalue).trans hend).not_mem
  · cases h

end Parse

end Bimo.Wire
