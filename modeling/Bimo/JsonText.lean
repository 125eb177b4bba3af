import Bimo.Wire

/-!
What a compact JSON text says of its value.

A text determines the value that it is the text of, and where it ends: two texts with something
behind each are equal only if the values are and what is behind them is. Numbers alone have no
end of their own, so what is behind a value must not go on with one.
-/

namespace Bimo.Wire

/-! ### Strings -/

def hexVal (c : Char) : ℕ := if c.isDigit then c.toNat - 48 else c.toNat - 87

/-- The character behind a backslash. -/
def unescaped : Char → Char
  | 'b' => '\x08'
  | 'f' => '\x0c'
  | 'n' => '\n'
  | 'r' => '\r'
  | 't' => '\t'
  | c => c

/-- The character that a piece of a string begins with. -/
def unescape : List Char → Option (Char × List Char)
  | '\\' :: 'u' :: _ :: _ :: a :: b :: rest => some (Char.ofNat (16 * hexVal a + hexVal b), rest)
  | '\\' :: c :: rest => some (unescaped c, rest)
  | c :: rest => some (c, rest)
  | [] => none

lemma unescape_escape (c : Char) (rest : List Char) :
    unescape (escape c ++ rest) = some (c, rest) := by
  obtain ⟨d, hd, h⟩ | ⟨hc, ⟨hlow, h⟩ | ⟨-, h⟩⟩ := escape_cases c
  · have hall : ∀ p ∈ shortEscapes, p.2 ≠ 'u' ∧ unescaped p.2 = p.1 := by decide
    obtain ⟨hu, hback⟩ := hall _ hd
    rw [h, List.cons_append, List.cons_append, List.nil_append, unescape.eq_2, hback]
    exact fun _ _ _ _ _ hu' _ => hu hu'
  · have hhex : ∀ n < 32, Char.ofNat (16 * hexVal (hexDigit (n / 16)) +
        hexVal (hexDigit (n % 16))) = Char.ofNat n := by decide
    rw [h]
    show some (Char.ofNat _, rest) = _
    rw [hhex _ hlow, Char.ofNat_toNat]
  · have hne : c ≠ '\\' := by
      rintro rfl
      exact absurd h (by decide)
    rw [h, List.singleton_append, unescape.eq_3]
    · exact fun _ _ _ _ _ heq _ => hne heq
    · exact fun _ _ heq _ => hne heq

lemma escape_cancel {c d : Char} {r s : List Char} (h : escape c ++ r = escape d ++ s) :
    c = d ∧ r = s := by
  have hsome := (unescape_escape c r).symm.trans ((congrArg unescape h).trans (unescape_escape d s))
  simpa using hsome

lemma escape_ne_quote (c : Char) (r s : List Char) : escape c ++ r ≠ '"' :: s := by
  intro heq
  obtain ⟨d, -, h⟩ | ⟨-, ⟨-, h⟩ | ⟨-, h⟩⟩ := escape_cases c
  · rw [h] at heq
    exact absurd (List.cons.inj heq).1 (by decide)
  · rw [h] at heq
    exact absurd (List.cons.inj heq).1 (by decide)
  · rw [h] at heq
    obtain rfl : c = '"' := (List.cons.inj heq).1
    exact absurd h (by decide)

lemma body_cancel {cs ds : List Char} {r s : List Char}
    (h : cs.flatMap escape ++ '"' :: r = ds.flatMap escape ++ '"' :: s) : cs = ds ∧ r = s := by
  induction cs generalizing ds with
  | nil =>
    cases ds with
    | nil => exact ⟨rfl, (List.cons.inj h).2⟩
    | cons d ds =>
      rw [List.flatMap_cons, List.append_assoc] at h
      exact absurd h.symm (escape_ne_quote _ _ _)
  | cons c cs ih =>
    rw [List.flatMap_cons, List.append_assoc] at h
    cases ds with
    | nil => exact absurd h (escape_ne_quote _ _ _)
    | cons d ds =>
      rw [List.flatMap_cons, List.append_assoc] at h
      obtain ⟨rfl, hrest⟩ := escape_cancel h
      obtain ⟨rfl, rfl⟩ := ih hrest
      exact ⟨rfl, rfl⟩

theorem quote_cancel {a b : String} {r s : List Char} (h : quote a ++ r = quote b ++ s) :
    a = b ∧ r = s := by
  have hbody : a.toList.flatMap escape ++ '"' :: r = b.toList.flatMap escape ++ '"' :: s := by
    simpa [quote] using h
  obtain ⟨hl, rfl⟩ := body_cancel hbody
  exact ⟨String.toList_inj.mp hl, rfl⟩

/-! ### Values -/

/-- The characters of numbers. -/
def isNumeric (c : Char) : Bool :=
  c.isDigit || c = '+' || c = '-' || c = '.' || c = 'e' || c = 'E'

mutual

/-- The numbers of a value are written in the characters of numbers. -/
def Json.Numeric : Json → Prop
  | .null | .bool _ | .str _ => True
  | .num t => t.toList ≠ [] ∧ ∀ c ∈ t.toList, isNumeric c = true
  | .arr l => numericList l
  | .obj l => numericFields l

def numericList : List Json → Prop
  | [] => True
  | v :: l => v.Numeric ∧ numericList l

def numericFields : List (String × Json) → Prop
  | [] => True
  | (_, v) :: l => v.Numeric ∧ numericFields l

end

/-- A number does not go on here. -/
def Ends (r : List Char) : Prop := ∀ c ∈ r.head?, isNumeric c = false

lemma ends_cons {c : Char} (h : isNumeric c = false) (r : List Char) : Ends (c :: r) := by
  intro d hd
  obtain rfl := Option.some.inj hd
  exact h

/-- What the first character of a text says. -/
def shapeOf (c : Char) : ℕ :=
  if c = 'n' then 0 else if c = 't' then 1 else if c = 'f' then 2 else if isNumeric c then 3
  else if c = '"' then 4 else if c = '[' then 5 else if c = '{' then 6 else 7

def Json.shape : Json → ℕ
  | .null => 0
  | .bool b => if b then 1 else 2
  | .num _ => 3
  | .str _ => 4
  | .arr _ => 5
  | .obj _ => 6

lemma head_text {v : Json} (h : v.Numeric) :
    ∃ c rest, text v = c :: rest ∧ shapeOf c = v.shape := by
  cases v with
  | null => exact ⟨'n', _, rfl, by decide⟩
  | bool b => cases b <;> exact ⟨_, _, rfl, by decide⟩
  | num t =>
    obtain ⟨hne, hall⟩ := h
    obtain ⟨c, rest, heq⟩ := List.exists_cons_of_ne_nil hne
    refine ⟨c, rest, heq, ?_⟩
    have hc := hall c (heq ▸ List.mem_cons_self)
    have hlit : ∀ d ∈ ['n', 't', 'f'], c ≠ d := by
      rintro d hd rfl
      revert hc
      simp only [List.mem_cons, List.not_mem_nil, or_false] at hd
      rcases hd with rfl | rfl | rfl <;> decide
    simp only [List.mem_cons, List.not_mem_nil, or_false, forall_eq_or_imp, forall_eq] at hlit
    simp [shapeOf, hlit, hc, Json.shape]
  | str s => exact ⟨'"', _, rfl, rfl⟩
  | arr l => exact ⟨'[', _, rfl, rfl⟩
  | obj l => exact ⟨'{', _, rfl, rfl⟩

lemma shape_eq {a b : Json} {r s : List Char} (ha : a.Numeric) (hb : b.Numeric)
    (h : text a ++ r = text b ++ s) : a.shape = b.shape := by
  obtain ⟨c, rest, hc, hca⟩ := head_text ha
  obtain ⟨d, rest', hd, hdb⟩ := head_text hb
  rw [hc, hd] at h
  obtain ⟨rfl, -⟩ := List.cons.inj h
  exact hca.symm.trans hdb

/-- No value begins with a bracket that closes. -/
lemma text_ne_close {v : Json} {c : Char} {r s : List Char} (hv : v.Numeric) (hc : shapeOf c = 7) :
    c :: r ≠ text v ++ s := by
  intro h
  obtain ⟨d, rest, hd, hdv⟩ := head_text hv
  rw [hd] at h
  obtain ⟨rfl, -⟩ := List.cons.inj h
  rw [hc] at hdv
  cases v with
  | bool b => cases b <;> cases hdv
  | _ => cases hdv

lemma num_cancel {t u : List Char} {r s : List Char} (ht : ∀ c ∈ t, isNumeric c = true)
    (hu : ∀ c ∈ u, isNumeric c = true) (hr : Ends r) (hs : Ends s) (h : t ++ r = u ++ s) :
    t = u ∧ r = s := by
  have htake : ∀ {t r : List Char}, (∀ c ∈ t, isNumeric c = true) → Ends r →
      (t ++ r).takeWhile isNumeric = t := by
    intro t r ht hr
    rw [List.takeWhile_append_of_pos ht]
    cases r with
    | nil => simp
    | cons c r => simp [hr c rfl]
  have heq : t = u := by rw [← htake ht hr, h, htake hu hs]
  subst heq
  exact ⟨rfl, List.append_cancel_left h⟩

/-- The values behind the first one of an array. -/
def textTail : List Json → List Char
  | [] => []
  | v :: l => ',' :: (text v ++ textTail l)

lemma textList_cons (v : Json) (l : List Json) : textList (v :: l) = text v ++ textTail l := by
  induction l generalizing v with
  | nil => simp [textList, textTail]
  | cons w l ih => simp [textList, textTail, ih w]

/-- The fields behind the first one of an object. -/
def fieldsTail : List (String × Json) → List Char
  | [] => []
  | (k, v) :: l => ',' :: (quote k ++ ':' :: (text v ++ fieldsTail l))

lemma textFields_cons (k : String) (v : Json) (l : List (String × Json)) :
    textFields ((k, v) :: l) = quote k ++ ':' :: (text v ++ fieldsTail l) := by
  induction l generalizing k v with
  | nil => simp [textFields, fieldsTail]
  | cons w l ih => simp [textFields, fieldsTail, ih]

lemma ends_tail (l : List Json) (r : List Char) : Ends (textTail l ++ ']' :: r) := by
  cases l <;> exact ends_cons (by decide) _

lemma ends_fieldsTail (l : List (String × Json)) (r : List Char) :
    Ends (fieldsTail l ++ '}' :: r) := by
  cases l <;> exact ends_cons (by decide) _

/-- An array is told apart as the values behind a first one are. -/
lemma textTail_of_textList {l m : List Json} {r s : List Char} (hl : numericList l)
    (hm : numericList m) (h : textList l ++ ']' :: r = textList m ++ ']' :: s) :
    textTail l ++ ']' :: r = textTail m ++ ']' :: s := by
  cases l with
  | nil =>
    cases m with
    | nil => exact h
    | cons w m =>
      rw [textList_cons, List.append_assoc] at h
      exact absurd h (text_ne_close hm.1 (by decide))
  | cons v l =>
    cases m with
    | nil =>
      rw [textList_cons, List.append_assoc] at h
      exact absurd h.symm (text_ne_close hl.1 (by decide))
    | cons w m =>
      rw [textList_cons, textList_cons] at h
      exact congrArg (',' :: ·) h

/-- An object is told apart as the fields behind a first one are. -/
lemma fieldsTail_of_textFields {l m : List (String × Json)} {r s : List Char}
    (h : textFields l ++ '}' :: r = textFields m ++ '}' :: s) :
    fieldsTail l ++ '}' :: r = fieldsTail m ++ '}' :: s := by
  cases l with
  | nil =>
    cases m with
    | nil => exact h
    | cons w m =>
      rw [textFields_cons] at h
      cases h
  | cons v l =>
    cases m with
    | nil =>
      rw [textFields_cons] at h
      cases h
    | cons w m =>
      rw [textFields_cons, textFields_cons] at h
      exact congrArg (',' :: ·) h

mutual

/-- **A text determines its value** and where it ends. -/
theorem text_cancel : ∀ {a b : Json} {r s : List Char}, a.Numeric → b.Numeric → Ends r → Ends s →
    text a ++ r = text b ++ s → a = b ∧ r = s
  | .null, b, r, s, ha, hb, _, _, h => by
    have hshape := shape_eq ha hb h
    cases b with
    | null => exact ⟨rfl, List.append_cancel_left h⟩
    | bool b => cases b <;> cases hshape
    | _ => cases hshape
  | .bool a, b, r, s, ha, hb, _, _, h => by
    have hshape := shape_eq ha hb h
    cases b with
    | bool b =>
      obtain rfl : a = b := by cases a <;> cases b <;> first | rfl | cases hshape
      exact ⟨rfl, List.append_cancel_left h⟩
    | _ => cases a <;> cases hshape
  | .num t, b, r, s, ha, hb, hr, hs, h => by
    have hshape := shape_eq ha hb h
    cases b with
    | num u =>
      obtain ⟨htu, rfl⟩ := num_cancel ha.2 hb.2 hr hs h
      exact ⟨congrArg Json.num (String.toList_inj.mp htu), rfl⟩
    | bool b => cases b <;> cases hshape
    | _ => cases hshape
  | .str t, b, r, s, ha, hb, _, _, h => by
    have hshape := shape_eq ha hb h
    cases b with
    | str u =>
      obtain ⟨rfl, rfl⟩ := quote_cancel h
      exact ⟨rfl, rfl⟩
    | bool b => cases b <;> cases hshape
    | _ => cases hshape
  | .arr l, b, r, s, ha, hb, _, _, h => by
    have hshape := shape_eq ha hb h
    cases b with
    | arr m =>
      have hlist : textList l ++ ']' :: r = textList m ++ ']' :: s := by simpa [text] using h
      obtain ⟨rfl, rfl⟩ := textTail_cancel ha hb (textTail_of_textList ha hb hlist)
      exact ⟨rfl, rfl⟩
    | bool b => cases b <;> cases hshape
    | _ => cases hshape
  | .obj l, b, r, s, ha, hb, _, _, h => by
    have hshape := shape_eq ha hb h
    cases b with
    | obj m =>
      have hfields : textFields l ++ '}' :: r = textFields m ++ '}' :: s := by
        simpa [text] using h
      obtain ⟨rfl, rfl⟩ := fieldsTail_cancel ha hb (fieldsTail_of_textFields hfields)
      exact ⟨rfl, rfl⟩
    | bool b => cases b <;> cases hshape
    | _ => cases hshape

theorem textTail_cancel : ∀ {l m : List Json} {r s : List Char}, numericList l → numericList m →
    textTail l ++ ']' :: r = textTail m ++ ']' :: s → l = m ∧ r = s
  | [], [], _, _, _, _, h => ⟨rfl, (List.cons.inj h).2⟩
  | [], _ :: _, _, _, _, _, h => by cases h
  | _ :: _, [], _, _, _, _, h => by cases h
  | v :: l, w :: m, r, s, hl, hm, h => by
    have hvalue : text v ++ (textTail l ++ ']' :: r) = text w ++ (textTail m ++ ']' :: s) := by
      simpa [textTail] using h
    obtain ⟨rfl, htail⟩ := text_cancel hl.1 hm.1 (ends_tail _ _) (ends_tail _ _) hvalue
    obtain ⟨rfl, rfl⟩ := textTail_cancel hl.2 hm.2 htail
    exact ⟨rfl, rfl⟩

theorem fieldsTail_cancel : ∀ {l m : List (String × Json)} {r s : List Char}, numericFields l →
    numericFields m → fieldsTail l ++ '}' :: r = fieldsTail m ++ '}' :: s → l = m ∧ r = s
  | [], [], _, _, _, _, h => ⟨rfl, (List.cons.inj h).2⟩
  | [], (_, _) :: _, _, _, _, _, h => by cases h
  | (_, _) :: _, [], _, _, _, _, h => by cases h
  | (k, v) :: l, (k', w) :: m, r, s, hl, hm, h => by
    have hfield : quote k ++ (':' :: (text v ++ (fieldsTail l ++ '}' :: r))) =
        quote k' ++ (':' :: (text w ++ (fieldsTail m ++ '}' :: s))) := by
      simpa [fieldsTail] using h
    obtain ⟨rfl, hcolon⟩ := quote_cancel hfield
    have hvalue := (List.cons.inj hcolon).2
    obtain ⟨rfl, htail⟩ := text_cancel hl.1 hm.1 (ends_fieldsTail _ _) (ends_fieldsTail _ _) hvalue
    obtain ⟨rfl, rfl⟩ := fieldsTail_cancel hl.2 hm.2 htail
    exact ⟨rfl, rfl⟩

end

/-- An object ends by itself. -/
theorem obj_cancel {l m : List (String × Json)} {r s : List Char} (hl : (Json.obj l).Numeric)
    (hm : (Json.obj m).Numeric) (h : text (.obj l) ++ r = text (.obj m) ++ s) : l = m ∧ r = s := by
  have hfields : textFields l ++ '}' :: r = textFields m ++ '}' :: s := by simpa [text] using h
  exact fieldsTail_cancel hl hm (fieldsTail_of_textFields hfields)

end Bimo.Wire
