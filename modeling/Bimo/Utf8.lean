import Mathlib

/-!
Texts as lists of bytes in UTF-8.

`encode` and `decode` are the two directions, and `decode` is defined on the encodings alone.
A byte that starts a character is never one that continues another, so a text that is cut
inside a character does not become well formed again by what is written behind it.
-/

namespace Bimo.Utf8

def encode (cs : List Char) : List UInt8 := cs.flatMap String.utf8EncodeChar

/-- The text the bytes are, when they are one. -/
def decode (bs : List UInt8) : Option (List Char) := bs.toByteArray.utf8Decode?.map (·.toList)

@[simp] lemma encode_nil : encode [] = [] := rfl

@[simp] lemma encode_cons (c : Char) (cs : List Char) :
    encode (c :: cs) = String.utf8EncodeChar c ++ encode cs := rfl

@[simp] lemma encode_append (a b : List Char) : encode (a ++ b) = encode a ++ encode b := by
  simp [encode]

lemma toByteArray_encode (cs : List Char) : (encode cs).toByteArray = cs.utf8Encode := rfl

@[simp] lemma decode_encode (cs : List Char) : decode (encode cs) = some cs := by
  simp [decode, toByteArray_encode]

theorem decode_eq_some {bs : List UInt8} {cs : List Char} :
    decode bs = some cs ↔ bs = encode cs := by
  constructor
  · intro h
    obtain ⟨arr, harr, rfl⟩ := Option.map_eq_some_iff.mp h
    have hget : bs.toByteArray.utf8Decode?.get (by simp [harr]) = arr := by simp [harr]
    have henc := ByteArray.utf8Encode_get_utf8Decode? (b := bs.toByteArray) (h := by simp [harr])
    rw [hget, ← toByteArray_encode] at henc
    exact (List.toByteArray_inj.mp henc).symm
  · rintro rfl
    exact decode_encode cs

lemma encode_injective {a b : List Char} (h : encode a = encode b) : a = b := by
  have hd : decode (encode a) = some b := decode_eq_some.mpr h
  simpa using hd

@[simp] lemma encode_eq_nil {cs : List Char} : encode cs = [] ↔ cs = [] :=
  ⟨fun h => encode_injective (h.trans encode_nil.symm), fun h => by simp [h]⟩

/-- No encoding is cut by another one inside a character. -/
lemma prefix_of_encode {a b : List Char} {bs : List UInt8} (h : encode a ++ bs = encode b) :
    a <+: b := by
  refine List.isPrefix_of_utf8Encode_append_eq_utf8Encode bs.toByteArray ?_
  rw [← toByteArray_encode, ← toByteArray_encode, ← h, List.toByteArray_append]

lemma encode_of_append {a b : List Char} {bs : List UInt8} (h : encode a ++ bs = encode b) :
    ∃ c, b = a ++ c ∧ bs = encode c := by
  obtain ⟨c, rfl⟩ := prefix_of_encode h
  rw [encode_append] at h
  exact ⟨c, rfl, List.append_cancel_left h⟩

/-! ### Cuts inside a character -/

/-- The bytes begin where a character may begin, or there are none. -/
def Begins (bs : List UInt8) : Prop := ∀ b ∈ bs.head?, b.IsUTF8FirstByte

@[simp] lemma begins_nil : Begins [] := by simp [Begins]

lemma begins_encode (cs : List Char) : Begins (encode cs) := by
  cases cs with
  | nil => exact begins_nil
  | cons c cs =>
    intro b hb
    rw [encode_cons, List.head?_append_of_ne_nil _ String.utf8EncodeChar_ne_nil] at hb
    have h0 : 0 < (String.utf8EncodeChar c).length := by simp [c.utf8Size_pos]
    rw [List.head?_eq_getElem?, List.getElem?_eq_getElem h0] at hb
    obtain rfl : _ = b := Option.some.inj hb
    exact UInt8.isUTF8FirstByte_getElem_utf8EncodeChar.mpr rfl

/-- Bytes of a character that leave some of it out, and at least one in. -/
def Torn (bs : List UInt8) : Prop :=
  bs ≠ [] ∧ ∃ c rest, rest ≠ [] ∧ String.utf8EncodeChar c = bs ++ rest

/-- Nothing that follows completes a character that was cut, unless it begins in the middle of
one. -/
lemma not_encode_of_torn {bs rest : List UInt8} {cs : List Char} (ht : Torn bs) (hr : Begins rest) :
    bs ++ rest ≠ encode cs := by
  obtain ⟨hne, c, more, hmore, hc⟩ := ht
  intro h
  obtain - | ⟨d, ds⟩ := cs
  · simp [hne] at h
  rw [encode_cons] at h
  by_cases hlen : (String.utf8EncodeChar d).length ≤ bs.length
  · -- the first character read would be a proper part of the one that was cut
    obtain ⟨tail, htail⟩ := List.prefix_of_prefix_length_le (h ▸ List.prefix_append _ _)
      (List.prefix_append bs rest) hlen
    have hpre : encode [d] ++ (tail ++ more) = encode [c] := by
      simp [hc, ← htail]
    obtain ⟨e, he, -⟩ := encode_of_append hpre
    obtain ⟨rfl, -⟩ : c = d ∧ e = [] := by simpa using he
    have hl := congrArg List.length (hc.symm.trans (List.append_nil _).symm)
    rw [← htail] at hl
    have hpos : 0 < more.length := List.length_pos_iff.mpr hmore
    simp only [List.length_append, List.length_nil] at hl
    omega
  · -- the first byte behind the cut would continue the first character read
    have hlt : bs.length < (String.utf8EncodeChar d).length := by omega
    have hget : (bs ++ rest)[bs.length]? = some (String.utf8EncodeChar d)[bs.length] := by
      rw [h, List.getElem?_append_left hlt, List.getElem?_eq_getElem hlt]
    rw [List.getElem?_append_right le_rfl, Nat.sub_self, ← List.head?_eq_getElem?] at hget
    have hfirst := hr _ hget
    rw [UInt8.isUTF8FirstByte_getElem_utf8EncodeChar, List.length_eq_zero_iff] at hfirst
    exact hne hfirst

/-- The characters that lie whole within the first `k` bytes of a text. -/
def within : ℕ → List Char → List Char
  | _, [] => []
  | k, c :: cs => if c.utf8Size ≤ k then c :: within (k - c.utf8Size) cs else []

lemma within_prefix (k : ℕ) (cs : List Char) : within k cs <+: cs := by
  induction cs generalizing k with
  | nil => exact List.prefix_rfl
  | cons c cs ih =>
    unfold within
    split_ifs
    · exact (List.prefix_cons_inj c).mpr (ih _)
    · exact List.nil_prefix

/-- The first bytes of a text are those of the characters within them, with at most the
beginning of one more. -/
lemma take_encode (k : ℕ) (cs : List Char) :
    (encode cs).take k = encode (within k cs) ∨
      ∃ torn, Torn torn ∧ (encode cs).take k = encode (within k cs) ++ torn := by
  induction cs generalizing k with
  | nil => exact .inl (by simp [within])
  | cons c cs ih =>
    have hlen := String.length_utf8EncodeChar c
    rw [encode_cons]
    unfold within
    split_ifs with hk
    · rw [List.take_append, List.take_of_length_le (by omega), hlen, encode_cons]
      rcases ih (k - c.utf8Size) with h | ⟨torn, ht, h⟩
      · exact .inl (by rw [h])
      · exact .inr ⟨torn, ht, by rw [h, List.append_assoc]⟩
    · rw [List.take_append_of_le_length (by omega)]
      by_cases h0 : k = 0
      · exact .inl (by simp [h0])
      · refine .inr ⟨(String.utf8EncodeChar c).take k, ⟨by simp [h0], c, _, ?_,
          (List.take_append_drop k _).symm⟩, by simp⟩
        rw [Ne, List.drop_eq_nil_iff]
        omega

end Bimo.Utf8
