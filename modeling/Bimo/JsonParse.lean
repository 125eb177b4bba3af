import Bimo.JsonScan
import Bimo.JsonText
import Mathlib.Data.List.TakeWhile

/-!
JSON texts read back.

The reader takes any JSON text, with blanks and with all ways to write a character. A number is
kept as it is written, and of fields with one key the last one counts. The compact text of a value
is read back as the value, whatever follows it.
-/

namespace Bimo.Wire

/-! ### Reading -/

def isBlank (c : Char) : Bool := c = ' ' || c = '\t' || c = '\n' || c = '\r'

def skip (cs : List Char) : List Char := cs.dropWhile isBlank

def hexValue (c : Char) : Option ℕ :=
  if c.isDigit then some (c.toNat - 48)
  else if 97 ≤ c.toNat ∧ c.toNat ≤ 102 then some (c.toNat - 87)
  else if 65 ≤ c.toNat ∧ c.toNat ≤ 70 then some (c.toNat - 55)
  else none

/-- The code unit of four hexadecimal digits. -/
def unit (a b c d : Char) : Option ℕ := do
  let a ← hexValue a
  let b ← hexValue b
  let c ← hexValue c
  let d ← hexValue d
  pure (((a * 16 + b) * 16 + c) * 16 + d)

/-- What a backslash and a character stand for. -/
def simpleEscape (c : Char) : Option Char :=
  if c ∈ ['"', '\\', '/', 'b', 'f', 'n', 'r', 't'] then some (unescaped c) else none

/-- A character in front of what is read behind it. -/
def prepend (c : Char) (x : Option (List Char × List Char)) : Option (List Char × List Char) :=
  x.map fun p => (c :: p.1, p.2)

def isHigh (u : ℕ) : Bool := 0xD800 ≤ u && u < 0xDC00

def isLow (u : ℕ) : Bool := 0xDC00 ≤ u && u ≤ 0xDFFF

/-- A string up to its closing quote. A surrogate without its other half is in no text. -/
def readString : List Char → Option (List Char × List Char)
  | [] => none
  | c :: r =>
    if c = '"' then some ([], r)
    else if c = '\\' then
      match r with
      | [] => none
      | e :: r =>
        if e = 'u' then
          match r with
          | a :: b :: c :: d :: r =>
            (unit a b c d).bind fun u =>
              if isHigh u then
                match r with
                | '\\' :: 'u' :: a :: b :: c :: d :: r =>
                  ((unit a b c d).filter isLow).bind fun v =>
                    prepend (Char.ofNat (0x10000 + (u - 0xD800) * 0x400 + (v - 0xDC00)))
                      (readString r)
                | _ => none
              else if isLow u then none
              else prepend (Char.ofNat u) (readString r)
          | _ => none
        else (simpleEscape e).bind fun e => prepend e (readString r)
    else if c.toNat < 32 then none
    else prepend c (readString r)
termination_by structural cs => cs

/-- `[eE][+-]?\d+`, or nothing. -/
def isExponent : List Char → Bool
  | [] => true
  | e :: r =>
    let digits := if r.head? = some '+' ∨ r.head? = some '-' then r.tail else r
    (e = 'e' || e = 'E') && digits ≠ [] && digits.all Char.isDigit

/-- `\.\d+` and what may follow. -/
def isFraction (r : List Char) : Bool :=
  match r with
  | '.' :: r => (r.takeWhile Char.isDigit) ≠ [] && isExponent (r.dropWhile Char.isDigit)
  | _ => isExponent r

/-- The grammar of numbers. -/
def isNumber (t : List Char) : Bool :=
  let t := if t.head? = some '-' then t.tail else t
  let whole := t.takeWhile Char.isDigit
  whole ≠ [] && (whole.head? ≠ some '0' || whole.length = 1) &&
    isFraction (t.dropWhile Char.isDigit)

def readNumber (cs : List Char) : Option (Json × List Char) :=
  let t := cs.takeWhile isNumeric
  if isNumber t then some (.num (String.ofList t), cs.dropWhile isNumeric) else none

def readWord (w : List Char) (v : Json) (cs : List Char) : Option (Json × List Char) :=
  if w.isPrefixOf cs then some (v, cs.drop w.length) else none

/-- A field set: in its place where it is there already, at the end where it is not. -/
def setField (l : List (String × Json)) (key : String) (v : Json) : List (String × Json) :=
  if l.any (·.1 = key) then l.map fun p => if p.1 = key then (key, v) else p else l ++ [(key, v)]

/-- Fields as they come to stand in an object. -/
def fieldsOf (l : List (String × Json)) : List (String × Json) :=
  l.foldl (fun l p => setField l p.1 p.2) []

mutual

def readValue : ℕ → List Char → Option (Json × List Char)
  | 0, _ => none
  | n + 1, cs =>
    match skip cs with
    | '"' :: r => (readString r).map fun p => (.str (String.ofList p.1), p.2)
    | '[' :: r =>
      match skip r with
      | ']' :: r' => some (.arr [], r')
      | _ => (readElements n r).map fun p => (.arr p.1, p.2)
    | '{' :: r =>
      match skip r with
      | '}' :: r' => some (.obj [], r')
      | _ => (readMembers n r).map fun p => (.obj (fieldsOf p.1), p.2)
    | 'n' :: r => readWord "ull".toList .null r
    | 't' :: r => readWord "rue".toList (.bool true) r
    | 'f' :: r => readWord "alse".toList (.bool false) r
    | r => readNumber r

/-- The values of an array, up to its closing bracket. -/
def readElements : ℕ → List Char → Option (List Json × List Char)
  | 0, _ => none
  | n + 1, cs => do
    let (v, r) ← readValue n cs
    match skip r with
    | ',' :: r => do
      let (l, r) ← readElements n r
      pure (v :: l, r)
    | ']' :: r => pure ([v], r)
    | _ => none

/-- The fields of an object, up to its closing brace. -/
def readMembers : ℕ → List Char → Option (List (String × Json) × List Char)
  | 0, _ => none
  | n + 1, cs =>
    match skip cs with
    | '"' :: r => do
      let (k, r) ← readString r
      match skip r with
      | ':' :: r => do
        let (v, r) ← readValue n r
        match skip r with
        | ',' :: r => do
          let (l, r) ← readMembers n r
          pure ((String.ofList k, v) :: l, r)
        | '}' :: r => pure ([(String.ofList k, v)], r)
        | _ => none
      | _ => none
    | _ => none

end

/-- `JSON.parse` -/
def parseJson (cs : List Char) : Option Json :=
  match readValue (2 * cs.length + 1) cs with
  | some (v, r) => if skip r = [] then some v else none
  | none => none

/-! ### Values that are written -/

mutual

/-- Numbers are written as numbers, and an object has each key once. -/
def Json.WellFormed : Json → Prop
  | .null | .bool _ | .str _ => True
  | .num t => isNumber t.toList = true
  | .arr l => wellFormedList l
  | .obj l => (l.map (·.1)).Nodup ∧ wellFormedFields l

def wellFormedList : List Json → Prop
  | [] => True
  | v :: l => v.WellFormed ∧ wellFormedList l

def wellFormedFields : List (String × Json) → Prop
  | [] => True
  | (_, v) :: l => v.WellFormed ∧ wellFormedFields l

end

lemma isNumeric_of_isDigit {c : Char} (h : c.isDigit = true) : isNumeric c = true := by
  simp [isNumeric, h]

lemma numeric_of_isExponent {r : List Char} (h : isExponent r = true) :
    ∀ c ∈ r, isNumeric c = true := by
  cases r with
  | nil => simp
  | cons e r =>
      simp only [isExponent, Bool.and_eq_true, Bool.or_eq_true, decide_eq_true_eq] at h
      obtain ⟨⟨he, -⟩, hall⟩ := h
      have he : isNumeric e = true := by rcases he with rfl | rfl <;> decide
      refine List.forall_mem_cons.mpr ⟨he, ?_⟩
      split_ifs at hall with hsign
      · cases r with
        | nil => simp
        | cons s r =>
            have hs : isNumeric s = true := by
              simp only [List.head?_cons, Option.some.injEq] at hsign
              rcases hsign with rfl | rfl <;> decide
            exact List.forall_mem_cons.mpr
              ⟨hs, fun c hc => isNumeric_of_isDigit (List.all_eq_true.mp hall c hc)⟩
      · exact fun c hc => isNumeric_of_isDigit (List.all_eq_true.mp hall c hc)

lemma numeric_of_parts {r : List Char} (h : ∀ c ∈ r.dropWhile Char.isDigit, isNumeric c = true) :
    ∀ c ∈ r, isNumeric c = true := by
  intro c hc
  rw [← List.takeWhile_append_dropWhile (p := Char.isDigit) (l := r)] at hc
  rcases List.mem_append.mp hc with hc | hc
  · exact isNumeric_of_isDigit (List.all_eq_true.mp List.all_takeWhile c hc)
  · exact h c hc

lemma numeric_of_isFraction {r : List Char} (h : isFraction r = true) :
    ∀ c ∈ r, isNumeric c = true := by
  unfold isFraction at h
  split at h
  · simp only [Bool.and_eq_true] at h
    exact List.forall_mem_cons.mpr
      ⟨by decide, numeric_of_parts (numeric_of_isExponent h.2)⟩
  · exact numeric_of_isExponent h

/-- A number is written in the characters of numbers, and begins with none of another value. -/
lemma numeric_of_isNumber {t : List Char} (h : isNumber t = true) :
    t ≠ [] ∧ (∀ c ∈ t, isNumeric c = true) ∧
      ∀ c ∈ t.head?, c.isDigit = true ∨ c = '-' := by
  cases t with
  | nil => cases h
  | cons c t =>
      simp only [isNumber, List.head?_cons, Option.some.injEq, List.tail_cons,
        Bool.and_eq_true] at h
      obtain ⟨⟨hne, -⟩, hfrac⟩ := h
      split_ifs at hne hfrac with hc
      · subst hc
        refine ⟨List.cons_ne_nil _ _, List.forall_mem_cons.mpr ⟨by decide, ?_⟩, by simp⟩
        exact numeric_of_parts (numeric_of_isFraction hfrac)
      · refine ⟨List.cons_ne_nil _ _, numeric_of_parts (numeric_of_isFraction hfrac), ?_⟩
        intro d hd
        obtain rfl := Option.some.inj hd
        by_contra hnot
        rw [List.takeWhile_cons_of_neg (by simpa using fun h => hnot (.inl h))] at hne
        simp at hne

lemma isToken_of_isNumeric {c : Char} (h : isNumeric c = true) :
    isToken c = true ∧ 32 ≤ c.toNat := by
  simp only [isNumeric, Bool.or_eq_true, decide_eq_true_eq] at h
  rcases h with ((((h | rfl) | rfl) | rfl) | rfl) | rfl
  · exact isToken_of_isDigit h
  all_goals decide

/-- A number without a sign, a point and an exponent. -/
lemma isNumber_of_digits {t : List Char} (hne : t ≠ []) (hall : ∀ c ∈ t, c.isDigit = true)
    (hzero : t.head? ≠ some '0' ∨ t.length = 1) : isNumber t = true := by
  have htake : t.takeWhile Char.isDigit = t := List.takeWhile_eq_self_iff.mpr hall
  have hdrop : t.dropWhile Char.isDigit = [] := List.dropWhile_eq_nil_iff.mpr hall
  have hsign : t.head? ≠ some '-' := fun h =>
    absurd (hall '-' (List.mem_of_mem_head? h)) (by decide)
  simp only [isNumber, if_neg hsign, htake, hdrop]
  simp [hne, hzero, isFraction, isExponent]

lemma head_toDigits {n : ℕ} (h : 0 < n) : (Nat.toDigits 10 n).head? ≠ some '0' := by
  induction n using Nat.strong_induction_on with
  | h n ih =>
      by_cases hn : n < 10
      · rw [Nat.toDigits_of_lt_base hn]
        have hdigit : ∀ m < 10, 0 < m → [Nat.digitChar m].head? ≠ some '0' := by decide
        exact hdigit n hn h
      · rw [Nat.toDigits_of_base_le (by decide) (by omega)]
        have hrec := ih (n / 10) (by omega) (by omega)
        cases hd : Nat.toDigits 10 (n / 10) with
        | nil => exact absurd hd Nat.toDigits_ne_nil
        | cons c cs =>
            rw [hd] at hrec
            exact hrec

lemma isNumber_toString (n : ℕ) : isNumber (toString n).toList = true := by
  have hlist : (toString n).toList = Nat.toDigits 10 n := Nat.toList_repr
  refine isNumber_of_digits (hlist ▸ Nat.toDigits_ne_nil) (fun c => isDigit_of_mem_toString) ?_
  rw [hlist]
  rcases Nat.eq_zero_or_pos n with rfl | hn
  · exact .inr rfl
  · exact .inl (head_toDigits hn)

@[simp] lemma wellFormed_ofNat (n : ℕ) : (ofNat n).WellFormed := isNumber_toString n

/-! ### What is written is read -/

lemma readString_escape {e : Char} (h : e ≠ 'u') (r : List Char) :
    readString ('\\' :: e :: r) = (simpleEscape e).bind fun e => prepend e (readString r) := by
  rw [readString.eq_def]
  simp only
  rw [if_neg (by decide), if_pos trivial, if_neg h]

lemma readString_char (c : Char) (r : List Char) :
    readString (escape c ++ r) = prepend c (readString r) := by
  have hhex : ∀ n < 32, unit '0' '0' (hexDigit (n / 16)) (hexDigit (n % 16)) = some n := by decide
  have hunit : ∀ n < 32, isHigh n = false ∧ isLow n = false := by decide
  obtain ⟨e, he, heq⟩ | ⟨hc, ⟨hlow, heq⟩ | ⟨hhigh, heq⟩⟩ := escape_cases c
  · have hall : ∀ p ∈ shortEscapes, p.2 ≠ 'u' ∧ simpleEscape p.2 = some p.1 := by decide
    obtain ⟨hu, hback⟩ := hall _ he
    rw [heq, List.cons_append, List.cons_append, List.nil_append, readString_escape hu, hback]
    rfl
  · have hread : readString ('\\' :: 'u' :: '0' :: '0' :: hexDigit (c.toNat / 16) ::
        hexDigit (c.toNat % 16) :: r) = (unit '0' '0' (hexDigit (c.toNat / 16))
          (hexDigit (c.toNat % 16))).bind fun u =>
        if isHigh u then
          match r with
          | '\\' :: 'u' :: a :: b :: c :: d :: r =>
            ((unit a b c d).filter isLow).bind fun v =>
              prepend (Char.ofNat (0x10000 + (u - 0xD800) * 0x400 + (v - 0xDC00)))
                (readString r)
          | _ => none
        else if isLow u then none
        else prepend (Char.ofNat u) (readString r) := by
      rw [readString.eq_def]
      rfl
    rw [heq]
    simp only [List.cons_append, List.nil_append, hread, hhex _ hlow, Option.bind_some,
      (hunit _ hlow).1, (hunit _ hlow).2, Char.ofNat_toNat]
    rfl
  · have hquote : c ≠ '"' := fun h => hc (by rw [h]; decide)
    have hslash : c ≠ '\\' := fun h => hc (by rw [h]; decide)
    rw [heq, List.singleton_append, readString.eq_def]
    simp only
    rw [if_neg hquote, if_neg hslash, if_neg (Nat.not_lt.mpr hhigh)]

/-- A string is read up to its closing quote. -/
lemma readString_quote (s : List Char) (r : List Char) :
    readString (s.flatMap escape ++ '"' :: r) = some (s, r) := by
  induction s with
  | nil => rw [List.flatMap_nil, List.nil_append, readString.eq_def]; rfl
  | cons c s ih => rw [List.flatMap_cons, List.append_assoc, readString_char, ih]; rfl

lemma skip_cons {c : Char} (h : isBlank c = false) (r : List Char) : skip (c :: r) = c :: r :=
  List.dropWhile_cons_of_neg (by simp [h])

lemma isBlank_of_shape {c : Char} (h : shapeOf c ≠ 7) : isBlank c = false := by
  by_contra hblank
  simp only [isBlank, Bool.or_eq_true, decide_eq_true_eq, Bool.not_eq_false] at hblank
  rcases hblank with ((rfl | rfl) | rfl) | rfl <;> exact h (by decide)

lemma shape_lt (v : Json) : v.shape < 7 := by
  cases v with
  | bool b => cases b <;> simp [Json.shape]
  | _ => simp [Json.shape]

mutual

lemma Json.WellFormed.numeric : ∀ {v : Json}, v.WellFormed → v.Numeric
  | .null, _ | .bool _, _ | .str _, _ => trivial
  | .num _, h => ⟨(numeric_of_isNumber h).1, (numeric_of_isNumber h).2.1⟩
  | .arr _, h => numericList_of_wellFormed h
  | .obj _, h => numericFields_of_wellFormed h.2

lemma numericList_of_wellFormed : ∀ {l : List Json}, wellFormedList l → numericList l
  | [], _ => trivial
  | _ :: _, h => ⟨h.1.numeric, numericList_of_wellFormed h.2⟩

lemma numericFields_of_wellFormed :
    ∀ {l : List (String × Json)}, wellFormedFields l → numericFields l
  | [], _ => trivial
  | (_, _) :: _, h => ⟨h.1.numeric, numericFields_of_wellFormed h.2⟩

end

mutual

lemma Json.WellFormed.plain : ∀ {v : Json}, v.WellFormed → v.Plain
  | .null, _ | .bool _, _ | .str _, _ => trivial
  | .num _, h => fun c hc => isToken_of_isNumeric ((numeric_of_isNumber h).2.1 c hc)
  | .arr _, h => plainList_of_wellFormed h
  | .obj _, h => plainFields_of_wellFormed h.2

lemma plainList_of_wellFormed : ∀ {l : List Json}, wellFormedList l → plainList l
  | [], _ => trivial
  | _ :: _, h => ⟨h.1.plain, plainList_of_wellFormed h.2⟩

lemma plainFields_of_wellFormed :
    ∀ {l : List (String × Json)}, wellFormedFields l → plainFields l
  | [], _ => trivial
  | (_, _) :: _, h => ⟨h.1.plain, plainFields_of_wellFormed h.2⟩

end

/-- No line of a file is broken by what is written on it. -/
lemma newline_not_mem_text {v : Json} (h : v.WellFormed) : '\n' ∉ text v := fun hc =>
  absurd (le_toNat_of_mem_text v h.plain hc) (by decide)

/-- A text begins with what it is the text of: no blank, and no bracket that closes. -/
lemma exists_head_text {v : Json} (h : v.WellFormed) :
    ∃ c rest, text v = c :: rest ∧ shapeOf c ≠ 7 := by
  obtain ⟨c, rest, heq, hshape⟩ := head_text h.numeric
  exact ⟨c, rest, heq, by have := shape_lt v; omega⟩

lemma takeWhile_numeric {t r : List Char} (ht : ∀ c ∈ t, isNumeric c = true) (hr : Ends r) :
    (t ++ r).takeWhile isNumeric = t ∧ (t ++ r).dropWhile isNumeric = r := by
  have htake : (t ++ r).takeWhile isNumeric = t := by
    rw [List.takeWhile_append_of_pos ht]
    cases r with
    | nil => simp
    | cons c r => simp [hr c rfl]
  have hsplit := List.takeWhile_append_dropWhile (p := isNumeric) (l := t ++ r)
  rw [htake] at hsplit
  exact ⟨htake, List.append_cancel_left hsplit⟩

lemma readValue_number {n : ℕ} {c : Char} {cs : List Char} (h : c.isDigit = true ∨ c = '-') :
    readValue (n + 1) (c :: cs) = readNumber (c :: cs) := by
  have hne : ∀ d ∈ ['"', '[', '{', 'n', 't', 'f', ' ', '\t', '\n', '\r'], c ≠ d := by
    rintro d hd rfl
    simp only [List.mem_cons, List.not_mem_nil, or_false] at hd
    rcases hd with rfl | rfl | rfl | rfl | rfl | rfl | rfl | rfl | rfl | rfl <;>
      exact absurd h (by decide)
  simp only [List.mem_cons, List.not_mem_nil, or_false, forall_eq_or_imp, forall_eq] at hne
  have hblank : isBlank c = false := by simp [isBlank, hne]
  rw [readValue, skip_cons hblank]
  split <;> simp_all

lemma readNumber_text {t : String} {r : List Char} (h : isNumber t.toList = true) (hr : Ends r) :
    readNumber (t.toList ++ r) = some (.num t, r) := by
  obtain ⟨htake, hdrop⟩ := takeWhile_numeric (numeric_of_isNumber h).2.1 hr
  simp only [readNumber, htake, hdrop, h, if_true, String.ofList_toList]

/-- Fields with keys of their own stay as they are. -/
lemma fieldsOf_of_nodup {l : List (String × Json)} (h : (l.map (·.1)).Nodup) : fieldsOf l = l := by
  have hfold : ∀ {l acc : List (String × Json)}, ((acc ++ l).map (·.1)).Nodup →
      l.foldl (fun l p => setField l p.1 p.2) acc = acc ++ l := by
    intro l
    induction l with
    | nil => simp
    | cons p l ih =>
        intro acc hnodup
        have hset : setField acc p.1 p.2 = acc ++ [p] := by
          refine if_neg ?_
          rintro hany
          obtain ⟨q, hq, heq⟩ := List.any_eq_true.mp hany
          rw [List.map_append, List.map_cons] at hnodup
          exact (List.nodup_append.mp hnodup).2.2 _ (List.mem_map_of_mem hq) _
            List.mem_cons_self (by simpa using heq)
        rw [List.foldl_cons, hset, ih (by simpa using hnodup), List.append_assoc,
          List.singleton_append]
  exact hfold h

mutual

/-- **A text is read back as its value**, whatever stands behind it. -/
theorem readValue_text : ∀ {v : Json} {n : ℕ} {r : List Char}, v.WellFormed → Ends r →
    2 * (text v).length ≤ n → readValue n (text v ++ r) = some (v, r)
  | v, 0, r, hv, _, hn => by
    obtain ⟨c, rest, heq, -⟩ := exists_head_text hv
    simp [heq] at hn
  | .null, n + 1, r, _, _, _ => rfl
  | .bool true, n + 1, r, _, _, _ => rfl
  | .bool false, n + 1, r, _, _, _ => rfl
  | .num t, n + 1, r, hv, hr, _ => by
    obtain ⟨hne, -, hhead⟩ := numeric_of_isNumber hv
    obtain ⟨c, rest, heq⟩ := List.exists_cons_of_ne_nil hne
    have hread := readNumber_text hv hr
    rw [heq] at hhead hread
    rw [text, heq, List.cons_append, readValue_number (hhead c rfl)]
    exact hread
  | .str s, n + 1, r, _, _, _ => by
    have hquote : text (.str s) ++ r = '"' :: (s.toList.flatMap escape ++ '"' :: r) := by
      simp [text, quote]
    rw [hquote, readValue, skip_cons (by decide)]
    simp [readString_quote]
  | .arr [], n + 1, r, _, _, _ => rfl
  | .arr (v :: l), n + 1, r, hv, _, hn => by
    have heq : text (.arr (v :: l)) ++ r = '[' :: (textList (v :: l) ++ ']' :: r) := by simp [text]
    have hlen : (text (.arr (v :: l))).length = (textList (v :: l)).length + 2 := by simp [text]
    have hread := readElements_text (n := n) (r := r) hv (by omega)
    obtain ⟨c, rest, hc, hshape⟩ := exists_head_text hv.1
    rw [heq, readValue, skip_cons (by decide)]
    rw [textList_cons, hc] at hread ⊢
    simp only [List.cons_append] at hread ⊢
    rw [skip_cons (isBlank_of_shape hshape)]
    split
    · next heq => exact absurd (List.cons.inj heq).1 (by rintro rfl; exact hshape (by decide))
    · rw [hread]
      rfl
  | .obj [], n + 1, r, _, _, _ => rfl
  | .obj ((k, v) :: l), n + 1, r, hv, _, hn => by
    have heq : text (.obj ((k, v) :: l)) ++ r = '{' :: (textFields ((k, v) :: l) ++ '}' :: r) := by
      simp [text]
    have hlen : (text (.obj ((k, v) :: l))).length = (textFields ((k, v) :: l)).length + 2 := by
      simp [text]
    have hread := readMembers_text (n := n) (r := r) hv.2 (by omega)
    have hquote : textFields ((k, v) :: l) ++ '}' :: r =
        '"' :: (k.toList.flatMap escape ++ '"' :: ':' :: (text v ++ fieldsTail l) ++ '}' :: r) := by
      simp [textFields_cons, quote]
    rw [heq, readValue, skip_cons (by decide)]
    rw [hquote] at hread ⊢
    simp only [skip_cons (show isBlank '"' = false by decide)]
    rw [hread]
    simp [fieldsOf_of_nodup hv.1]

theorem readElements_text : ∀ {v : Json} {l : List Json} {n : ℕ} {r : List Char},
    wellFormedList (v :: l) → 2 * (textList (v :: l)).length + 1 ≤ n →
      readElements n (textList (v :: l) ++ ']' :: r) = some (v :: l, r)
  | v, [], n + 1, r, hv, hn => by
    have hlen : (textList [v]).length = (text v).length := by simp [textList]
    have heq : textList [v] ++ ']' :: r = text v ++ ']' :: r := by simp [textList]
    have hread := readValue_text (n := n) (r := ']' :: r) hv.1 (ends_cons (by decide) _) (by omega)
    rw [heq, readElements, hread]
    simp [skip_cons (show isBlank ']' = false by decide)]
  | v, w :: l, n + 1, r, hv, hn => by
    have hlen : (textList (v :: w :: l)).length =
        (text v).length + 1 + (textList (w :: l)).length := by
      simp [textList]
      omega
    have heq : textList (v :: w :: l) ++ ']' :: r =
        text v ++ ',' :: (textList (w :: l) ++ ']' :: r) := by simp [textList]
    have hread := readValue_text (n := n) (r := ',' :: (textList (w :: l) ++ ']' :: r)) hv.1
      (ends_cons (by decide) _) (by omega)
    have hrest := readElements_text (n := n) (r := r) hv.2 (by omega)
    rw [heq, readElements, hread]
    simp [skip_cons (show isBlank ',' = false by decide), hrest]

theorem readMembers_text : ∀ {k : String} {v : Json} {l : List (String × Json)} {n : ℕ}
    {r : List Char}, wellFormedFields ((k, v) :: l) →
      2 * (textFields ((k, v) :: l)).length + 1 ≤ n →
      readMembers n (textFields ((k, v) :: l) ++ '}' :: r) = some ((k, v) :: l, r)
  | k, v, [], n + 1, r, hv, hn => by
    have hlen : (text v).length ≤ (textFields [(k, v)]).length := by simp [textFields]; omega
    have heq : textFields [(k, v)] ++ '}' :: r =
        '"' :: (k.toList.flatMap escape ++ '"' :: (':' :: (text v ++ '}' :: r))) := by
      simp [textFields, quote]
    have hread := readValue_text (n := n) (r := '}' :: r) hv.1 (ends_cons (by decide) _) (by omega)
    rw [heq, readMembers, skip_cons (by decide)]
    simp [skip_cons (show isBlank ':' = false by decide),
      skip_cons (show isBlank '}' = false by decide), readString_quote, hread]
  | k, v, (k', w) :: l, n + 1, r, hv, hn => by
    have hlen : (text v).length + 1 + (textFields ((k', w) :: l)).length ≤
        (textFields ((k, v) :: (k', w) :: l)).length := by
      simp [textFields]
      omega
    have heq : textFields ((k, v) :: (k', w) :: l) ++ '}' :: r = '"' :: (k.toList.flatMap escape ++
        '"' :: (':' :: (text v ++ ',' :: (textFields ((k', w) :: l) ++ '}' :: r)))) := by
      simp [textFields, quote]
    have hread := readValue_text (n := n) (r := ',' :: (textFields ((k', w) :: l) ++ '}' :: r)) hv.1
      (ends_cons (by decide) _) (by omega)
    have hrest := readMembers_text (n := n) (r := r) hv.2 (by omega)
    rw [heq, readMembers, skip_cons (by decide)]
    simp [skip_cons (show isBlank ':' = false by decide),
      skip_cons (show isBlank ',' = false by decide), readString_quote, hread, hrest]

end

/-- **`JSON.parse` undoes `JSON.stringify`.** -/
theorem parseJson_text {v : Json} (h : v.WellFormed) : parseJson (text v) = some v := by
  have hread := readValue_text (n := 2 * (text v).length + 1) (r := []) h
    (fun c hc => by cases hc) (by omega)
  rw [List.append_nil] at hread
  rw [parseJson, hread]
  rfl

end Bimo.Wire
