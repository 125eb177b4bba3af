import Bimo.PodStore

/-!
How many bytes a JSON value takes, on one line and over several.

A field adds its key, its value and what stands around them, so the size of an object is a sum
over its fields, and so is that of an array over its elements.
-/

namespace Bimo.Sizes

open Wire (Json bytes len text textList textFields escapedLen quote)
open PodStore (pretty prettyList prettyFields spaces Fields)

@[simp] lemma bytes_spaces (n : ℕ) : bytes (spaces n) = n := by
  have h : Char.utf8Size ' ' = 1 := by decide
  simp [bytes, spaces, h]

/-- A character of ASCII takes one byte. -/
lemma bytes_ascii {c : Char} (h : c.utf8Size = 1) (cs : List Char) :
    bytes (c :: cs) = bytes cs + 1 := by
  rw [Wire.bytes_cons, h, Nat.add_comm]

/-! ### On one line -/

/-- What a field takes, with the comma behind it. -/
def fieldBytes (p : String × Json) : ℕ := escapedLen p.1 + bytes (text p.2) + 4

lemma bytes_textFields (p : String × Json) (l : Fields) :
    bytes (textFields (p :: l)) + 1 = ((p :: l).map fieldBytes).sum := by
  have hcolon : Char.utf8Size ':' = 1 := by decide
  have hcomma : Char.utf8Size ',' = 1 := by decide
  induction l generalizing p with
  | nil =>
      obtain ⟨k, v⟩ := p
      simp [textFields, fieldBytes, hcolon]
      omega
  | cons q l ih =>
      obtain ⟨k, v⟩ := p
      have hq := ih q
      rw [List.map_cons, List.sum_cons, ← hq]
      simp [textFields, fieldBytes, hcolon, hcomma]
      omega

/-- An object on one line. -/
lemma bytes_text_obj {l : Fields} (h : l ≠ []) :
    bytes (text (.obj l)) = (l.map fieldBytes).sum + 1 := by
  obtain ⟨p, l, rfl⟩ := List.exists_cons_of_ne_nil h
  rw [← bytes_textFields, text, bytes_ascii (by decide), Wire.bytes_append,
    bytes_ascii (by decide), Wire.bytes_nil]

lemma bytes_text_str (s : String) : bytes (text (.str s)) = escapedLen s + 2 := by
  rw [text, Wire.bytes_quote]

lemma bytes_textList (v : Json) (l : List Json) :
    bytes (textList (v :: l)) + 1 = ((v :: l).map fun v => bytes (text v) + 1).sum := by
  have hcomma : Char.utf8Size ',' = 1 := by decide
  induction l generalizing v with
  | nil => simp [textList]
  | cons w l ih =>
      have hw := ih w
      rw [List.map_cons, List.sum_cons, ← hw]
      simp [textList, hcomma]
      omega

/-- An array on one line. -/
lemma bytes_text_arr {l : List Json} (h : l ≠ []) :
    bytes (text (.arr l)) = (l.map fun v => bytes (text v) + 1).sum + 1 := by
  obtain ⟨v, l, rfl⟩ := List.exists_cons_of_ne_nil h
  rw [← bytes_textList, text, bytes_ascii (by decide), Wire.bytes_append,
    bytes_ascii (by decide), Wire.bytes_nil]

/-! ### Over several lines -/

/-- What a field takes on its lines, with the comma and the line break behind it. -/
def prettyFieldBytes (indent : ℕ) (p : String × Json) : ℕ :=
  indent + escapedLen p.1 + bytes (pretty indent p.2) + 6

lemma bytes_prettyFields (indent : ℕ) (p : String × Json) (l : Fields) :
    bytes (prettyFields indent (p :: l)) + 2 =
      ((p :: l).map (prettyFieldBytes indent)).sum := by
  have hcolon : Char.utf8Size ':' = 1 := by decide
  have hcomma : Char.utf8Size ',' = 1 := by decide
  have hspace : Char.utf8Size ' ' = 1 := by decide
  have hline : Char.utf8Size '\n' = 1 := by decide
  induction l generalizing p with
  | nil =>
      obtain ⟨k, v⟩ := p
      simp [prettyFields, prettyFieldBytes, hcolon, hspace]
      omega
  | cons q l ih =>
      obtain ⟨k, v⟩ := p
      have hq := ih q
      rw [List.map_cons, List.sum_cons, ← hq]
      simp [prettyFields, prettyFieldBytes, hcolon, hcomma, hspace, hline]
      omega

/-- An object over several lines. -/
lemma bytes_pretty_obj {l : Fields} (indent : ℕ) (h : l ≠ []) :
    bytes (pretty indent (.obj l)) =
      (l.map (prettyFieldBytes (indent + 2))).sum + indent + 2 := by
  obtain ⟨p, l, rfl⟩ := List.exists_cons_of_ne_nil h
  rw [← bytes_prettyFields, pretty, bytes_ascii (by decide), bytes_ascii (by decide),
    Wire.bytes_append, bytes_ascii (by decide), Wire.bytes_append, bytes_spaces,
    bytes_ascii (by decide), Wire.bytes_nil]
  · omega
  · simp

lemma bytes_prettyList (indent : ℕ) (v : Json) (l : List Json) :
    bytes (prettyList indent (v :: l)) + 2 =
      ((v :: l).map fun v => indent + bytes (pretty indent v) + 2).sum := by
  have hcomma : Char.utf8Size ',' = 1 := by decide
  have hline : Char.utf8Size '\n' = 1 := by decide
  induction l generalizing v with
  | nil => simp [prettyList]
  | cons w l ih =>
      have hw := ih w
      rw [List.map_cons, List.sum_cons, ← hw]
      simp [prettyList, hcomma, hline]
      omega

/-- An array over several lines. -/
lemma bytes_pretty_arr {l : List Json} (indent : ℕ) (h : l ≠ []) :
    bytes (pretty indent (.arr l)) =
      (l.map fun v => indent + 2 + bytes (pretty (indent + 2) v) + 2).sum + indent + 2 := by
  obtain ⟨v, l, rfl⟩ := List.exists_cons_of_ne_nil h
  rw [← bytes_prettyList, pretty, bytes_ascii (by decide), bytes_ascii (by decide),
    Wire.bytes_append, bytes_ascii (by decide), Wire.bytes_append, bytes_spaces,
    bytes_ascii (by decide), Wire.bytes_nil]
  · omega
  · simp

lemma bytes_pretty_str (indent : ℕ) (s : String) :
    bytes (pretty indent (.str s)) = escapedLen s + 2 := by
  rw [pretty, bytes_text_str] <;> simp

/-! ### At most -/

/-- The bytes of a string, counted on its encoding. -/
lemma len_eq_utf8ByteSize (s : String) : len s = s.utf8ByteSize := by
  have hlist : ∀ cs : List Char, bytes cs = (String.ofList cs).utf8ByteSize := by
    intro cs
    induction cs with
    | nil => rfl
    | cons c cs ih =>
        have hcons : String.ofList (c :: cs) = String.singleton c ++ String.ofList cs := by
          rw [← String.toList_inj]
          simp
        rw [Wire.bytes_cons, ih, hcons, String.utf8ByteSize_append, String.utf8ByteSize_singleton]
  rw [len, hlist, String.ofList_toList]

lemma escapedSize_le (c : Char) : Wire.escapedSize c ≤ 6 * c.utf8Size := by
  have hpos := Char.utf8Size_pos c
  unfold Wire.escapedSize
  split_ifs <;> omega

lemma escapedLen_le_utf8ByteSize (s : String) : escapedLen s ≤ 6 * s.utf8ByteSize := by
  rw [← len_eq_utf8ByteSize, len, Wire.bytes, escapedLen]
  induction s.toList with
  | nil => exact le_rfl
  | cons c cs ih =>
      have hc := escapedSize_le c
      rw [List.map_cons, List.map_cons, List.sum_cons, List.sum_cons]
      omega

mutual

/-- What a value takes at most over several lines. -/
def atMost (indent : ℕ) : Json → ℕ
  | .null | .bool _ => 5
  | .num t => 6 * t.utf8ByteSize
  | .str s => 6 * s.utf8ByteSize + 2
  | .arr l => atMostList (indent + 2) l + indent + 4
  | .obj l => atMostFields (indent + 2) l + indent + 4

def atMostList (indent : ℕ) : List Json → ℕ
  | [] => 0
  | v :: l => indent + atMost indent v + 2 + atMostList indent l

def atMostFields (indent : ℕ) : Fields → ℕ
  | [] => 0
  | (k, v) :: l => indent + 6 * k.utf8ByteSize + atMost indent v + 6 + atMostFields indent l

end

mutual

lemma bytes_pretty_le (indent : ℕ) : ∀ v : Json, bytes (pretty indent v) ≤ atMost indent v
  | .null => by simp only [pretty, atMost]; decide
  | .bool b => by cases b <;> simp only [pretty, atMost] <;> decide
  | .num t => by
      have hlen := len_eq_utf8ByteSize t
      have htext : bytes (pretty indent (.num t)) = len t := by
        rw [pretty, text, len] <;> simp
      rw [htext, hlen, atMost]
      omega
  | .str s => by
      have hle := escapedLen_le_utf8ByteSize s
      rw [bytes_pretty_str, atMost]
      omega
  | .arr l => by
      have ih := bytes_prettyList_le (indent + 2) l
      cases l with
      | nil =>
          have hsize : bytes (pretty indent (.arr [])) = 2 := by
            rw [pretty]
            decide
          rw [hsize, atMost]
          omega
      | cons v l =>
          rw [bytes_pretty_arr indent (List.cons_ne_nil v l), atMost]
          omega
  | .obj l => by
      have ih := bytes_prettyFields_le (indent + 2) l
      cases l with
      | nil =>
          have hsize : bytes (pretty indent (.obj [])) = 2 := by
            rw [pretty]
            decide
          rw [hsize, atMost]
          omega
      | cons p l =>
          rw [bytes_pretty_obj indent (List.cons_ne_nil p l), atMost]
          omega

lemma bytes_prettyList_le (indent : ℕ) : ∀ l : List Json,
    (l.map fun v => indent + bytes (pretty indent v) + 2).sum ≤ atMostList indent l
  | [] => le_rfl
  | v :: l => by
      have hv := bytes_pretty_le indent v
      have hl := bytes_prettyList_le indent l
      rw [List.map_cons, List.sum_cons, atMostList]
      omega

lemma bytes_prettyFields_le (indent : ℕ) : ∀ l : Fields,
    (l.map (prettyFieldBytes indent)).sum ≤ atMostFields indent l
  | [] => le_rfl
  | (k, v) :: l => by
      have hk := escapedLen_le_utf8ByteSize k
      have hv := bytes_pretty_le indent v
      have hl := bytes_prettyFields_le indent l
      rw [List.map_cons, List.sum_cons, atMostFields, prettyFieldBytes]
      dsimp only
      omega

end

mutual

/-- On one line a value takes no more. -/
lemma bytes_text_le (indent : ℕ) : ∀ v : Json, bytes (text v) ≤ atMost indent v
  | .null => by simp only [text, atMost]; decide
  | .bool b => by cases b <;> simp only [text, atMost] <;> decide
  | .num t => by
      have hlen := len_eq_utf8ByteSize t
      rw [len] at hlen
      rw [text, hlen, atMost]
      omega
  | .str s => by
      have hle := escapedLen_le_utf8ByteSize s
      rw [bytes_text_str, atMost]
      omega
  | .arr l => by
      have ih := bytes_textList_le (indent + 2) l
      cases l with
      | nil =>
          have hsize : bytes (text (.arr [])) = 2 := by decide
          rw [hsize, atMost]
          omega
      | cons v l =>
          rw [bytes_text_arr (List.cons_ne_nil v l), atMost]
          omega
  | .obj l => by
      have ih := bytes_textFields_le (indent + 2) l
      cases l with
      | nil =>
          have hsize : bytes (text (.obj [])) = 2 := by decide
          rw [hsize, atMost]
          omega
      | cons p l =>
          rw [bytes_text_obj (List.cons_ne_nil p l), atMost]
          omega

lemma bytes_textList_le (indent : ℕ) : ∀ l : List Json,
    (l.map fun v => bytes (text v) + 1).sum ≤ atMostList indent l
  | [] => le_rfl
  | v :: l => by
      have hv := bytes_text_le indent v
      have hl := bytes_textList_le indent l
      rw [List.map_cons, List.sum_cons, atMostList]
      omega

lemma bytes_textFields_le (indent : ℕ) : ∀ l : Fields,
    (l.map fieldBytes).sum ≤ atMostFields indent l
  | [] => le_rfl
  | (k, v) :: l => by
      have hk := escapedLen_le_utf8ByteSize k
      have hv := bytes_text_le indent v
      have hl := bytes_textFields_le indent l
      rw [List.map_cons, List.sum_cons, atMostFields, fieldBytes]
      dsimp only
      omega

end

end Bimo.Sizes
