import Mathlib

/-!
The files of a go request, as text.

A warm runtime gets its files inside a JSON body, so their bytes are written in base64. The
launcher reads them with a decoder that skips what is not of the alphabet and stops at the
padding; the standard one is strict. Both give back the bytes that were written.
-/

namespace Bimo.Base64

/-! ### The encoder -/

/-- `TABLE` -/
def table : List Char :=
  "ABCDEFGHIJKLMNOPQRSTUVWXYZabcdefghijklmnopqrstuvwxyz0123456789+/".toList

lemma length_table : table.length = 64 := by decide

lemma and_lt_table (n : ℕ) : n &&& 63 < table.length := by
  rw [length_table]
  exact Nat.lt_succ_of_le Nat.and_le_right

/-- The byte at a position of a chunk, zero behind its end. -/
def byteAt (chunk : List UInt8) (i : ℕ) : ℕ := ((chunk[i]?).getD 0).toNat

/-- The 24 bits of a chunk. -/
def word (chunk : List UInt8) : ℕ :=
  (byteAt chunk 0 <<< 16) ||| (byteAt chunk 1 <<< 8) ||| byteAt chunk 2

/-- A character of a chunk, by its number. -/
def letter (chunk : List UInt8) (i : ℕ) : Char :=
  if i ≤ chunk.length then
    table.get ⟨(word chunk >>> (18 - 6 * i)) &&& 63, and_lt_table _⟩
  else '='

/-- `bytes.chunks(3)` -/
def chunks : List UInt8 → List (List UInt8)
  | [] => []
  | [a] => [[a]]
  | [a, b] => [[a, b]]
  | a :: b :: c :: rest => [a, b, c] :: chunks rest

/-- `fn base64` -/
def base64 (bytes : List UInt8) : String :=
  String.ofList ((chunks bytes).flatMap fun chunk => (List.range 4).map (letter chunk))

/-! ### The decoders -/

/-- The value of a character of the alphabet. -/
def valueOf (c : Char) : Option ℕ := table.idxOf? c

/-- Base64 as the standard has it: quanta of four characters, padding in the last one only, and
no bits left over that are not zero. -/
def decode : List Char → Option (List UInt8)
  | [] => some []
  | [a, b, '=', '='] => do
    let x ← valueOf a
    let y ← valueOf b
    guard (y % 16 = 0)
    return [.ofNat (x * 4 + y / 16)]
  | [a, b, c, '='] => do
    let x ← valueOf a
    let y ← valueOf b
    let z ← valueOf c
    guard (z % 4 = 0)
    return [.ofNat (x * 4 + y / 16), .ofNat (y % 16 * 16 + z / 4)]
  | a :: b :: c :: d :: rest => do
    let x ← valueOf a
    let y ← valueOf b
    let z ← valueOf c
    let w ← valueOf d
    let bytes ← decode rest
    return .ofNat (x * 4 + y / 16) :: .ofNat (y % 16 * 16 + z / 4) ::
      .ofNat (z % 4 * 64 + w) :: bytes
  | _ => none

/-- The decoder's loop, at a place in a quantum, with the bits left over from the character
before and the padding seen since. A strict decoder takes nothing that is not of the alphabet, no
letter behind padding and nothing behind the padding that ends a quantum; padding behind a whole
quantum is skipped by both. -/
def a2b (strict started : Bool) (quad left pads : ℕ) : List Char → Option (List UInt8)
  | [] => if quad = 0 then some [] else none
  | c :: rest =>
    if c = '=' then
      if 2 ≤ quad then
        if 4 ≤ quad + (pads + 1) then if strict && !rest.isEmpty then none else some []
        else a2b strict true quad left (pads + 1) rest
      else a2b strict true quad left pads rest
    else
      match valueOf c with
      | none => if strict then none else a2b strict started quad left pads rest
      | some v =>
        if strict && started then none
        else
          match quad with
          | 0 => a2b strict started 1 v 0 rest
          | 1 => (UInt8.ofNat ((left <<< 2) ||| (v >>> 4)) :: ·) <$>
              a2b strict started 2 (v &&& 15) 0 rest
          | 2 => (UInt8.ofNat ((left <<< 4) ||| (v >>> 2)) :: ·) <$>
              a2b strict started 3 (v &&& 3) 0 rest
          | _ => (UInt8.ofNat ((left <<< 6) ||| v) :: ·) <$> a2b strict started 0 0 0 rest

/-- `base64.b64decode` on a text. -/
def b64decode (s : String) (validate : Bool := false) : Option (List UInt8) :=
  if s.toList.all (·.toNat < 128) then
    if validate && s.toList.head? == some '=' then none
    else a2b validate false 0 0 0 s.toList
  else none

/-! ### Letters -/

lemma valueOf_get : ∀ i : Fin table.length, valueOf (table.get i) = some i.val := by decide

lemma get_ne_pad : ∀ i : Fin table.length, table.get i ≠ '=' := by decide

lemma word_eq (chunk : List UInt8) :
    word chunk = byteAt chunk 0 * 65536 + byteAt chunk 1 * 256 + byteAt chunk 2 := by
  have h1 : byteAt chunk 1 < 2 ^ 8 := UInt8.toNat_lt _
  have h2 : byteAt chunk 2 < 2 ^ 8 := UInt8.toNat_lt _
  calc word chunk = ((byteAt chunk 0 <<< 8 ||| byteAt chunk 1) <<< 8) ||| byteAt chunk 2 := by
        rw [Nat.shiftLeft_or_distrib, ← Nat.shiftLeft_add]
        rfl
    _ = (byteAt chunk 0 <<< 8 + byteAt chunk 1) <<< 8 + byteAt chunk 2 := by
        rw [Nat.shiftLeft_add_eq_or_of_lt h2, Nat.shiftLeft_add_eq_or_of_lt h1]
    _ = _ := by
        rw [Nat.shiftLeft_eq, Nat.shiftLeft_eq]
        omega

/-- Six bits of a chunk. -/
def sextet (chunk : List UInt8) (i : ℕ) : ℕ := word chunk / 2 ^ (18 - 6 * i) % 64

lemma letter_of_le {chunk : List UInt8} {i : ℕ} (h : i ≤ chunk.length) :
    ∃ k : Fin table.length, letter chunk i = table.get k ∧ k.val = sextet chunk i := by
  refine ⟨⟨_, and_lt_table _⟩, if_pos h, ?_⟩
  rw [sextet, Nat.shiftRight_eq_div_pow]
  exact Nat.and_two_pow_sub_one_eq_mod _ 6

lemma valueOf_letter {chunk : List UInt8} {i : ℕ} (h : i ≤ chunk.length) :
    valueOf (letter chunk i) = some (sextet chunk i) := by
  obtain ⟨k, hk, hv⟩ := letter_of_le h
  rw [hk, valueOf_get, hv]

lemma letter_ne_pad {chunk : List UInt8} {i : ℕ} (h : i ≤ chunk.length) :
    letter chunk i ≠ '=' := by
  obtain ⟨k, hk, -⟩ := letter_of_le h
  rw [hk]
  exact get_ne_pad k

lemma letter_of_lt {chunk : List UInt8} {i : ℕ} (h : chunk.length < i) : letter chunk i = '=' :=
  if_neg (by omega)

lemma toList_cons (a b c : UInt8) (rest : List UInt8) :
    (base64 (a :: b :: c :: rest)).toList =
      letter [a, b, c] 0 :: letter [a, b, c] 1 :: letter [a, b, c] 2 :: letter [a, b, c] 3 ::
        (base64 rest).toList := by
  simp [base64, chunks, List.range_succ]

lemma toList_two (a b : UInt8) :
    (base64 [a, b]).toList = [letter [a, b] 0, letter [a, b] 1, letter [a, b] 2, '='] := by
  simp [base64, chunks, List.range_succ, letter_of_lt]

lemma toList_one (a : UInt8) :
    (base64 [a]).toList = [letter [a] 0, letter [a] 1, '=', '='] := by
  simp [base64, chunks, List.range_succ, letter_of_lt]

/-! ### What is written -/

lemma length_base64 (bytes : List UInt8) :
    (base64 bytes).toList.length = 4 * ((bytes.length + 2) / 3) := by
  induction bytes using chunks.induct with
  | case1 => rfl
  | case2 a => simp [toList_one]
  | case3 a b => simp [toList_two]
  | case4 a b c rest ih =>
      rw [toList_cons]
      simp only [List.length_cons, ih]
      omega

lemma sextet_bytes (chunk : List UInt8) :
    sextet chunk 0 * 4 + sextet chunk 1 / 16 = byteAt chunk 0 ∧
      sextet chunk 1 % 16 * 16 + sextet chunk 2 / 4 = byteAt chunk 1 ∧
      sextet chunk 2 % 4 * 64 + sextet chunk 3 = byteAt chunk 2 := by
  have h0 : byteAt chunk 0 < 2 ^ 8 := UInt8.toNat_lt _
  have h1 : byteAt chunk 1 < 2 ^ 8 := UInt8.toNat_lt _
  have h2 : byteAt chunk 2 < 2 ^ 8 := UInt8.toNat_lt _
  simp only [sextet, word_eq]
  omega

lemma left_over_one (a : UInt8) : sextet [a] 1 % 16 = 0 := by
  have h := word_eq [a]
  have h1 : byteAt [a] 1 = 0 := rfl
  have h2 : byteAt [a] 2 = 0 := rfl
  simp only [sextet]
  omega

lemma left_over_two (a b : UInt8) : sextet [a, b] 2 % 4 = 0 := by
  have h := word_eq [a, b]
  have h2 : byteAt [a, b] 2 = 0 := rfl
  simp only [sextet]
  omega

lemma ofNat_byteAt {chunk : List UInt8} {i n : ℕ} {a : UInt8} (h : n = byteAt chunk i)
    (ha : chunk[i]? = some a) : UInt8.ofNat n = a := by
  rw [h, byteAt, ha]
  exact UInt8.ofNat_toNat

lemma decode_base64 (bytes : List UInt8) : decode (base64 bytes).toList = some bytes := by
  induction bytes using chunks.induct with
  | case1 => rfl
  | case2 a =>
      have ha := ofNat_byteAt (sextet_bytes [a]).1 rfl
      rw [toList_one]
      simpa [decode, valueOf_letter, left_over_one] using ha
  | case3 a b =>
      have ha := ofNat_byteAt (sextet_bytes [a, b]).1 rfl
      have hb := ofNat_byteAt (sextet_bytes [a, b]).2.1 rfl
      have hne : letter [a, b] 2 ≠ '=' := letter_ne_pad le_rfl
      have hbytes := And.intro ha hb
      rw [toList_two]
      simpa [decode, hne, valueOf_letter, left_over_two] using hbytes
  | case4 a b c rest ih =>
      have ha := ofNat_byteAt (sextet_bytes [a, b, c]).1 rfl
      have hb := ofNat_byteAt (sextet_bytes [a, b, c]).2.1 rfl
      have hc := ofNat_byteAt (sextet_bytes [a, b, c]).2.2 rfl
      have hne : letter [a, b, c] 3 ≠ '=' := letter_ne_pad le_rfl
      have hbytes := And.intro ha (And.intro hb hc)
      rw [toList_cons]
      simpa [decode, hne, valueOf_letter, ih] using hbytes

section Letter

variable {strict : Bool} {c : Char} {v pads left : ℕ} (hne : c ≠ '=') (hv : valueOf c = some v)
  (rest : List Char)
include hne hv

lemma a2b_zero : a2b strict false 0 left pads (c :: rest) = a2b strict false 1 v 0 rest := by
  simp [a2b, hne, hv]

lemma a2b_one : a2b strict false 1 left pads (c :: rest) =
    (UInt8.ofNat ((left <<< 2) ||| (v >>> 4)) :: ·) <$> a2b strict false 2 (v &&& 15) 0 rest := by
  simp [a2b, hne, hv]

lemma a2b_two : a2b strict false 2 left pads (c :: rest) =
    (UInt8.ofNat ((left <<< 4) ||| (v >>> 2)) :: ·) <$> a2b strict false 3 (v &&& 3) 0 rest := by
  simp [a2b, hne, hv]

lemma a2b_three : a2b strict false 3 left pads (c :: rest) =
    (UInt8.ofNat ((left <<< 6) ||| v) :: ·) <$> a2b strict false 0 0 0 rest := by
  simp [a2b, hne, hv]

end Letter

lemma sextet_lt (chunk : List UInt8) (i : ℕ) : sextet chunk i < 64 := Nat.mod_lt _ (by omega)

/-- The first byte of a quantum, put together. -/
lemma join_two {x y : ℕ} (hy : y < 64) : (x <<< 2) ||| (y >>> 4) = x * 4 + y / 16 := by
  rw [Nat.shiftRight_eq_div_pow, ← Nat.shiftLeft_add_eq_or_of_lt (by omega), Nat.shiftLeft_eq]

lemma join_four {y z : ℕ} (hz : z < 64) :
    ((y &&& 15) <<< 4) ||| (z >>> 2) = y % 16 * 16 + z / 4 := by
  rw [Nat.shiftRight_eq_div_pow, ← Nat.shiftLeft_add_eq_or_of_lt (by omega), Nat.shiftLeft_eq]
  exact congrArg (· * 16 + z / 4) (Nat.and_two_pow_sub_one_eq_mod y 4)

lemma join_six {z w : ℕ} (hw : w < 64) : ((z &&& 3) <<< 6) ||| w = z % 4 * 64 + w := by
  rw [← Nat.shiftLeft_add_eq_or_of_lt (by omega), Nat.shiftLeft_eq]
  exact congrArg (· * 64 + w) (Nat.and_two_pow_sub_one_eq_mod z 2)

lemma a2b_base64 (strict : Bool) (bytes : List UInt8) (left : ℕ) :
    a2b strict false 0 left 0 (base64 bytes).toList = some bytes := by
  induction bytes using chunks.induct generalizing left with
  | case1 => rfl
  | case2 a =>
      have ha := ofNat_byteAt (sextet_bytes [a]).1 rfl
      rw [toList_one, a2b_zero (letter_ne_pad (by simp)) (valueOf_letter (by simp)),
        a2b_one (letter_ne_pad (by simp)) (valueOf_letter (by simp)), join_two (sextet_lt _ _), ha]
      cases strict <;> rfl
  | case3 a b =>
      have ha := ofNat_byteAt (sextet_bytes [a, b]).1 rfl
      have hb := ofNat_byteAt (sextet_bytes [a, b]).2.1 rfl
      rw [toList_two, a2b_zero (letter_ne_pad (by simp)) (valueOf_letter (by simp)),
        a2b_one (letter_ne_pad (by simp)) (valueOf_letter (by simp)),
        a2b_two (letter_ne_pad (by simp)) (valueOf_letter (by simp)),
        join_two (sextet_lt _ _), join_four (sextet_lt _ _), ha, hb]
      cases strict <;> rfl
  | case4 a b c rest ih =>
      have ha := ofNat_byteAt (sextet_bytes [a, b, c]).1 rfl
      have hb := ofNat_byteAt (sextet_bytes [a, b, c]).2.1 rfl
      have hc := ofNat_byteAt (sextet_bytes [a, b, c]).2.2 rfl
      rw [toList_cons, a2b_zero (letter_ne_pad (by simp)) (valueOf_letter (by simp)),
        a2b_one (letter_ne_pad (by simp)) (valueOf_letter (by simp)),
        a2b_two (letter_ne_pad (by simp)) (valueOf_letter (by simp)),
        a2b_three (letter_ne_pad (by simp)) (valueOf_letter (by simp)),
        join_two (sextet_lt _ _), join_four (sextet_lt _ _), join_six (sextet_lt _ _), ha, hb, hc,
        ih]
      rfl

lemma letter_mem {chunk : List UInt8} {i : ℕ} (h : i ≤ chunk.length) : letter chunk i ∈ table := by
  obtain ⟨k, hk, -⟩ := letter_of_le h
  rw [hk]
  exact List.get_mem _ _

/-- Letters of the alphabet, then the padding of the last quantum. -/
lemma letters_padding (bytes : List UInt8) :
    ∃ letters, (base64 bytes).toList =
      letters ++ List.replicate ((3 - bytes.length % 3) % 3) '=' ∧ ∀ c ∈ letters, c ∈ table := by
  induction bytes using chunks.induct with
  | case1 => exact ⟨[], rfl, nofun⟩
  | case2 a =>
      refine ⟨[letter [a] 0, letter [a] 1], toList_one a, ?_⟩
      simp [letter_mem]
  | case3 a b =>
      refine ⟨[letter [a, b] 0, letter [a, b] 1, letter [a, b] 2], toList_two a b, ?_⟩
      simp [letter_mem]
  | case4 a b c rest ih =>
      obtain ⟨letters, heq, hmem⟩ := ih
      have hpad : (3 - (a :: b :: c :: rest).length % 3) % 3 = (3 - rest.length % 3) % 3 := by
        simp only [List.length_cons]
        omega
      refine ⟨letter [a, b, c] 0 :: letter [a, b, c] 1 :: letter [a, b, c] 2 ::
        letter [a, b, c] 3 :: letters, ?_, ?_⟩
      · rw [toList_cons, heq, hpad]
        rfl
      · simp only [List.mem_cons, forall_eq_or_imp]
        exact ⟨letter_mem (by simp), letter_mem (by simp), letter_mem (by simp),
          letter_mem (by simp), hmem⟩

lemma ascii_of_mem : ∀ c ∈ table, c.toNat < 128 := by
  have hall : table.all (fun c => decide (c.toNat < 128)) = true := by decide
  exact fun c hc => of_decide_eq_true (List.all_eq_true.mp hall c hc)

lemma ascii_base64 (bytes : List UInt8) :
    (base64 bytes).toList.all (fun c => decide (c.toNat < 128)) = true := by
  obtain ⟨letters, heq, hmem⟩ := letters_padding bytes
  rw [List.all_eq_true, heq]
  intro c hc
  rw [decide_eq_true_eq]
  rcases List.mem_append.mp hc with hc | hc
  · exact ascii_of_mem c (hmem c hc)
  · rw [(List.mem_replicate.mp hc).2]
    decide

/-- What the launcher reads is what was written. -/
lemma b64decode_base64 (bytes : List UInt8) : b64decode (base64 bytes) = some bytes := by
  rw [b64decode, if_pos (ascii_base64 bytes)]
  exact a2b_base64 false bytes 0

/-- **A file of a go request is the file.** Its text has four characters for every three bytes
begun, all of the alphabet up to the padding of the last quantum. The standard decoder and the
launcher's read the bytes back from it, so no two files have one text. -/
theorem base64_correct :
    (∀ bytes, (base64 bytes).toList.length = 4 * ((bytes.length + 2) / 3) ∧
      (∃ letters, (base64 bytes).toList =
        letters ++ List.replicate ((3 - bytes.length % 3) % 3) '=' ∧ ∀ c ∈ letters, c ∈ table) ∧
      decode (base64 bytes).toList = some bytes ∧ b64decode (base64 bytes) = some bytes) ∧
    Function.Injective base64 := by
  refine ⟨fun bytes => ⟨length_base64 bytes, letters_padding bytes, decode_base64 bytes,
    b64decode_base64 bytes⟩, fun a b h => ?_⟩
  have hsome : some a = some b := by
    rw [← b64decode_base64 a, ← b64decode_base64 b, h]
  exact Option.some.inj hsome

example : base64 [77, 97] = "TWE=" := by decide

example : b64decode "YTpj==" true = some [97, 58, 99] ∧ b64decode "YT=p" true = none := by decide

end Bimo.Base64
