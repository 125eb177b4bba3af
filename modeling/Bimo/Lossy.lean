import Bimo.Utf8

/-!
Bytes read as a text when they may be none.

`lossy` reads byte by byte. Bytes that may still become a character are kept; where they do not,
a replacement character stands for them and the byte that breaks them off is looked at anew.
Text is read as itself, and a reading without replacement characters says what was read.
-/

namespace Bimo.Utf8

def replacement : Char := '\uFFFD'

/-! ### Bytes that may become a character -/

def isContinuation (b : ℕ) : Bool := 0x80 ≤ b && b ≤ 0xBF

/-- What may stand behind the first byte of a character of three or four bytes. -/
def isSecond (a b : ℕ) : Bool :=
  if a = 0xE0 then 0xA0 ≤ b && b ≤ 0xBF
  else if a = 0xED then 0x80 ≤ b && b ≤ 0x9F
  else if a = 0xF0 then 0x90 ≤ b && b ≤ 0xBF
  else if a = 0xF4 then 0x80 ≤ b && b ≤ 0x8F
  else 0xE1 ≤ a && a ≤ 0xF3 && isContinuation b

def isBegun (p : List UInt8) : Bool :=
  match p.map UInt8.toNat with
  | [a] => 0xC2 ≤ a && a ≤ 0xF4
  | [a, b] => isSecond a b
  | [a, b, c] => 0xF0 ≤ a && isSecond a b && isContinuation c
  | _ => false

lemma toNat_ofNat_of_lt {n : ℕ} (h : n < 256) : (UInt8.ofNat n).toNat = n := by
  rw [UInt8.toNat_ofNat']
  omega

/-- The first two bytes of a character of three or four bytes. -/
lemma isSecond_of_three {v : ℕ} (hlow : 0x800 ≤ v) (hhigh : v ≤ 0xFFFF)
    (hvalid : v < 0xD800 ∨ 0xDFFF < v) :
    isSecond (v / 4096 % 16 + 224) (v / 64 % 64 + 128) = true := by
  unfold isSecond isContinuation
  split_ifs <;> simp only [Bool.and_eq_true, decide_eq_true_eq] <;> omega

lemma isSecond_of_four {v : ℕ} (hlow : 0x10000 ≤ v) (hhigh : v < 0x110000) :
    isSecond (v / 262144 % 8 + 240) (v / 4096 % 64 + 128) = true := by
  unfold isSecond isContinuation
  split_ifs <;> simp only [Bool.and_eq_true, decide_eq_true_eq] <;> omega

/-- Bytes that a character begins with may become one. -/
lemma isBegun_of_torn {p : List UInt8} (h : Torn p) : isBegun p = true := by
  obtain ⟨hne, c, rest, hrest, hc⟩ := h
  have hv : c.val.toNat < 0xD800 ∨ 0xDFFF < c.val.toNat ∧ c.val.toNat < 0x110000 := c.valid
  have hlen := congrArg List.length hc
  have hpos : 0 < rest.length := List.length_pos_iff.mpr hrest
  have hp : p = (String.utf8EncodeChar c).take p.length := by simp [hc]
  have hk : 0 < p.length := List.length_pos_iff.mpr hne
  rw [List.length_append] at hlen
  rw [hp]
  unfold String.utf8EncodeChar at hlen ⊢
  generalize c.val.toNat = v at *
  generalize p.length = k at *
  have hsmall : ∀ {m d e : ℕ}, m % d + e < 256 → (UInt8.ofNat (m % d + e)).toNat = m % d + e :=
    fun h => toNat_ofNat_of_lt h
  -- one case for each number of bytes of the character, then one for each cut of it
  dsimp only at hlen ⊢
  split_ifs at hlen ⊢ with h1 h2 h3 <;> simp only [List.length_cons, List.length_nil] at hlen
  · omega
  · obtain rfl : k = 1 := by omega
    simp only [List.take_succ_cons, List.take_zero, isBegun, List.map_cons, List.map_nil]
    rw [hsmall (by omega)]
    simp only [Bool.and_eq_true, decide_eq_true_eq]
    omega
  · obtain rfl | rfl : k = 1 ∨ k = 2 := by omega
    · simp only [List.take_succ_cons, List.take_zero, isBegun, List.map_cons, List.map_nil]
      rw [hsmall (by omega)]
      simp only [Bool.and_eq_true, decide_eq_true_eq]
      omega
    · simp only [List.take_succ_cons, List.take_zero, isBegun, List.map_cons, List.map_nil]
      rw [hsmall (by omega), hsmall (by omega)]
      exact isSecond_of_three (by omega) h3 (by omega)
  · have hsecond := isSecond_of_four (v := v) (by omega) (by omega)
    obtain rfl | rfl | rfl : k = 1 ∨ k = 2 ∨ k = 3 := by omega
    · simp only [List.take_succ_cons, List.take_zero, isBegun, List.map_cons, List.map_nil]
      rw [hsmall (by omega)]
      simp only [Bool.and_eq_true, decide_eq_true_eq]
      omega
    · simp only [List.take_succ_cons, List.take_zero, isBegun, List.map_cons, List.map_nil]
      rwa [hsmall (by omega), hsmall (by omega)]
    · simp only [List.take_succ_cons, List.take_zero, isBegun, List.map_cons, List.map_nil]
      rw [hsmall (by omega), hsmall (by omega), hsmall (by omega), hsecond]
      simp only [isContinuation, Bool.and_true, Bool.and_eq_true, decide_eq_true_eq]
      omega

/-! ### Reading -/

/-- The character that bytes are, when they are one. -/
def whole (p : List UInt8) : Option Char :=
  match decode p with
  | some [c] => some c
  | _ => none

lemma whole_eq_some {p : List UInt8} {c : Char} :
    whole p = some c ↔ p = String.utf8EncodeChar c := by
  have hone : whole p = some c ↔ decode p = some [c] := by
    unfold whole
    split <;> simp_all
  rw [hone, decode_eq_some, encode_cons, encode_nil, List.append_nil]

/-- What one byte leads to, behind bytes that may become a character. -/
def feed (p : List UInt8) (b : UInt8) : List Char × List UInt8 :=
  match whole (p ++ [b]) with
  | some c => ([c], [])
  | none =>
    if isBegun (p ++ [b]) then ([], p ++ [b])
    else if p = [] then ([replacement], [])
    else
      match whole [b] with
      | some c => ([replacement, c], [])
      | none => if isBegun [b] then ([replacement], [b]) else ([replacement, replacement], [])

def lossyFrom : List UInt8 → List UInt8 → List Char
  | p, [] => if p = [] then [] else [replacement]
  | p, b :: bs => (feed p b).1 ++ lossyFrom (feed p b).2 bs

lemma lossyFrom_nil (p : List UInt8) :
    lossyFrom p [] = if p = [] then [] else [replacement] := by
  rw [lossyFrom]

lemma lossyFrom_cons (p : List UInt8) (b : UInt8) (bs : List UInt8) :
    lossyFrom p (b :: bs) = (feed p b).1 ++ lossyFrom (feed p b).2 bs := by
  rw [lossyFrom]

def lossy (bs : List UInt8) : List Char := lossyFrom [] bs

@[simp] lemma lossy_nil : lossy [] = [] := rfl

/-- **A reading without replacements says what was read.** -/
lemma eq_encode_of_lossyFrom {p bs : List UInt8} (h : replacement ∉ lossyFrom p bs) :
    p ++ bs = encode (lossyFrom p bs) := by
  induction bs generalizing p with
  | nil =>
    rw [lossyFrom] at h ⊢
    split_ifs at h ⊢ with hp
    · simp [hp]
    · simp at h
  | cons b bs ih =>
    have hstep : ∀ cs q, feed p b = (cs, q) → p ++ [b] = encode cs ++ q →
        p ++ b :: bs = encode (lossyFrom p (b :: bs)) := by
      intro cs q hfeed heq
      rw [lossyFrom, hfeed] at h ⊢
      rw [encode_append, ← ih fun hmem => h (List.mem_append_right _ hmem), ← List.append_assoc,
        ← heq]
      simp
    have hno : ∀ {cs q}, feed p b = (cs, q) → replacement ∉ cs := by
      intro cs q hfeed hmem
      rw [lossyFrom, hfeed] at h
      exact h (List.mem_append_left _ hmem)
    cases hwhole : whole (p ++ [b]) with
    | some c =>
      refine hstep [c] [] (by rw [feed, hwhole]) ?_
      rw [whole_eq_some.mp hwhole]
      simp
    | none =>
      by_cases hbegun : isBegun (p ++ [b]) = true
      · exact hstep [] (p ++ [b]) (by rw [feed, hwhole]; simp [hbegun]) rfl
      · refine absurd ?_ (hno (Prod.eta _).symm)
        rw [feed, hwhole]
        dsimp only
        rw [if_neg hbegun]
        by_cases hp : p = []
        · simp [hp]
        · rw [if_neg hp]
          cases whole [b] with
          | some c => simp
          | none => dsimp only; split_ifs <;> simp

theorem eq_encode_of_lossy {bs : List UInt8} (h : replacement ∉ lossy bs) :
    bs = encode (lossy bs) :=
  eq_encode_of_lossyFrom h

/-- The bytes of a character are read as the character. -/
lemma lossyFrom_char {c : Char} {p q : List UInt8} (h : p ++ q = String.utf8EncodeChar c)
    (hq : q ≠ []) (bs : List UInt8) : lossyFrom p (q ++ bs) = c :: lossyFrom [] bs := by
  induction q generalizing p with
  | nil => exact absurd rfl hq
  | cons b q ih =>
    rw [List.cons_append, lossyFrom]
    by_cases hlast : q = []
    · subst hlast
      have hfeed : feed p b = ([c], []) := by rw [feed, whole_eq_some.mpr h]
      rw [hfeed]
      rfl
    · have htorn : Torn (p ++ [b]) := ⟨by simp, c, q, hlast, by rw [← h]; simp⟩
      have hwhole : whole (p ++ [b]) = none := by
        cases hw : whole (p ++ [b]) with
        | none => rfl
        | some d =>
          refine absurd ?_ (not_encode_of_torn htorn begins_nil : _ ≠ encode [d])
          rw [List.append_nil, whole_eq_some.mp hw]
          simp
      have hfeed : feed p b = ([], p ++ [b]) := by
        rw [feed, hwhole]
        simp [isBegun_of_torn htorn]
      rw [hfeed]
      exact ih (by rw [← h]; simp) hlast

theorem lossy_encode_append (cs : List Char) (bs : List UInt8) :
    lossy (encode cs ++ bs) = cs ++ lossy bs := by
  induction cs with
  | nil => rfl
  | cons c cs ih =>
    rw [encode_cons, List.append_assoc]
    exact (lossyFrom_char (List.nil_append _) String.utf8EncodeChar_ne_nil _).trans
      (congrArg (c :: ·) ih)

@[simp] theorem lossy_encode (cs : List Char) : lossy (encode cs) = cs := by
  simpa using lossy_encode_append cs []

/-- A byte that no character has. -/
lemma lossy_invalid (bs : List UInt8) : lossy (0xFF :: bs) = replacement :: lossy bs := by
  have hfeed : feed [] 0xFF = ([replacement], []) := by decide +kernel
  rw [lossy, lossyFrom, hfeed]
  rfl

/-! ### Bytes below 128 -/

lemma encodeChar_of_lt {c : Char} (hc : c.toNat < 128) :
    String.utf8EncodeChar c = [UInt8.ofNat c.toNat] := by
  have hv : c.val.toNat ≤ 127 := Nat.le_of_lt_succ hc
  unfold String.utf8EncodeChar
  dsimp only
  rw [if_pos hv]
  rfl

/-- A byte below 128 is a character. -/
lemma char_of_lt_of_mem {c : Char} {b : UInt8} (hb : b.toNat < 128)
    (h : b ∈ String.utf8EncodeChar c) : c.toNat = b.toNat := by
  have hv : c.val.toNat < 0xD800 ∨ 0xDFFF < c.val.toNat ∧ c.val.toNat < 0x110000 := c.valid
  have hmod : ∀ {m d e : ℕ}, b = UInt8.ofNat (m % d + e) → d + e ≤ 256 → 0 < d →
      b.toNat = m % d + e := by
    rintro m d e rfl hde hd
    have := Nat.mod_lt m hd
    exact toNat_ofNat_of_lt (by omega)
  rw [Char.toNat]
  unfold String.utf8EncodeChar at h
  generalize c.val.toNat = v at *
  dsimp only at h
  split_ifs at h with h1 h2 h3 <;> simp only [List.mem_cons, List.not_mem_nil, or_false] at h
  · rw [h, toNat_ofNat_of_lt (by omega)]
  · rcases h with h | h
    all_goals have := hmod h (by decide) (by decide)
    all_goals omega
  · rcases h with h | h | h
    all_goals have := hmod h (by decide) (by decide)
    all_goals omega
  · rcases h with h | h | h | h
    all_goals have := hmod h (by decide) (by decide)
    all_goals omega

lemma toNat_ofNat_char {c : Char} (hc : c.toNat < 128) : (UInt8.ofNat c.toNat).toNat = c.toNat :=
  toNat_ofNat_of_lt (by omega)

/-- A byte below 128 breaks off what was begun, and is read as its character. -/
lemma lossyFrom_ascii {c : Char} (hc : c.toNat < 128) (p bs : List UInt8) :
    lossyFrom p (UInt8.ofNat c.toNat :: bs) = lossyFrom p [] ++ c :: lossyFrom [] bs := by
  have hwhole : whole [UInt8.ofNat c.toNat] = some c := whole_eq_some.mpr (encodeChar_of_lt hc).symm
  by_cases hp : p = []
  · have hfeed : feed p (UInt8.ofNat c.toNat) = ([c], []) := by
      rw [feed, hp, List.nil_append, hwhole]
    rw [lossyFrom_cons, hfeed, lossyFrom_nil, if_pos hp]
    rfl
  · have hnone : whole (p ++ [UInt8.ofNat c.toNat]) = none := by
      cases hw : whole (p ++ [UInt8.ofNat c.toNat]) with
      | none => rfl
      | some d =>
        have htorn : Torn p := ⟨hp, d, _, by simp, (whole_eq_some.mp hw).symm⟩
        have hbegins : Begins [UInt8.ofNat c.toNat] := by
          have := begins_encode [c]
          rwa [encode_cons, encode_nil, List.append_nil, encodeChar_of_lt hc] at this
        refine absurd ?_ (not_encode_of_torn htorn hbegins : _ ≠ encode [d])
        rw [whole_eq_some.mp hw]
        simp
    have hbegun : ¬ isBegun (p ++ [UInt8.ofNat c.toNat]) = true := by
      have hlow := toNat_ofNat_char hc
      generalize UInt8.ofNat c.toNat = b at hlow
      match p, hp with
      | [a], _ =>
        simp only [isBegun, List.cons_append, List.nil_append, List.map_cons, List.map_nil, isSecond,
          isContinuation]
        split_ifs <;> simp only [Bool.and_eq_true, decide_eq_true_eq] <;> omega
      | [a, a'], _ =>
        simp only [isBegun, List.cons_append, List.nil_append, List.map_cons, List.map_nil,
          isContinuation, Bool.and_eq_true, decide_eq_true_eq]
        omega
      | _ :: _ :: _ :: _, _ => simp [isBegun]
    have hfeed : feed p (UInt8.ofNat c.toNat) = ([replacement, c], []) := by
      rw [feed, hnone]
      dsimp only
      rw [if_neg hbegun, if_neg hp, hwhole]
    rw [lossyFrom_cons, hfeed, lossyFrom_nil, if_neg hp]
    rfl

lemma lossyFrom_append_ascii {c : Char} (hc : c.toNat < 128) (p a bs : List UInt8) :
    lossyFrom p (a ++ UInt8.ofNat c.toNat :: bs) = lossyFrom p a ++ c :: lossyFrom [] bs := by
  induction a generalizing p with
  | nil => exact lossyFrom_ascii hc p bs
  | cons b a ih => rw [List.cons_append, lossyFrom, lossyFrom, ih, List.append_assoc]

/-- **What stands between bytes below 128 is read on its own.** -/
theorem lossy_append_ascii {c : Char} (hc : c.toNat < 128) (a bs : List UInt8) :
    lossy (a ++ UInt8.ofNat c.toNat :: bs) = lossy a ++ c :: lossy bs :=
  lossyFrom_append_ascii hc [] a bs

lemma mem_of_mem_lossyFrom {c : Char} (hc : c.toNat < 128) {p bs : List UInt8}
    (h : c ∈ lossyFrom p bs) : UInt8.ofNat c.toNat ∈ bs := by
  have hrep : c ≠ replacement := by
    rintro rfl
    exact absurd hc (by decide)
  have hlast : ∀ {p : List UInt8} {b : UInt8}, whole (p ++ [b]) = some c →
      UInt8.ofNat c.toNat = b := by
    intro p b hw
    have heq := whole_eq_some.mp hw
    rw [encodeChar_of_lt hc] at heq
    obtain rfl : p = [] := by
      have := congrArg List.length heq
      simp at this
      exact this
    exact (List.cons.inj heq).1.symm
  induction bs generalizing p with
  | nil =>
    rw [lossyFrom] at h
    split_ifs at h
    · cases h
    · exact absurd (List.mem_singleton.mp h) hrep
  | cons b bs ih =>
    rw [lossyFrom] at h
    obtain h | h := List.mem_append.mp h
    · refine List.mem_cons.mpr (.inl ?_)
      unfold feed at h
      split at h
      · rename_i d hw
        obtain rfl := List.mem_singleton.mp h
        exact hlast hw
      · split at h
        · cases h
        split at h
        · exact absurd (List.mem_singleton.mp h) hrep
        split at h
        · rename_i d hw
          obtain rfl : c = d := by simpa [hrep] using h
          exact hlast (p := []) hw
        · split at h <;> exact absurd h (by simp [hrep])
    · exact List.mem_cons_of_mem _ (ih h)

lemma mem_of_mem_lossy {c : Char} (hc : c.toNat < 128) {bs : List UInt8} (h : c ∈ lossy bs) :
    UInt8.ofNat c.toNat ∈ bs :=
  mem_of_mem_lossyFrom hc h

lemma mem_of_mem_encode {cs : List Char} {b : UInt8} (hb : b.toNat < 128) (h : b ∈ encode cs) :
    ∃ c ∈ cs, c.toNat = b.toNat := by
  obtain ⟨c, hc, hmem⟩ := List.mem_flatMap.mp h
  exact ⟨c, hc, char_of_lt_of_mem hb hmem⟩

/-- **Bytes with a replacement are not told from others**, which have no other bytes below 128. -/
theorem exists_lossy_eq {bs : List UInt8} (h : replacement ∈ lossy bs) :
    ∃ bs', bs' ≠ bs ∧ lossy bs' = lossy bs ∧ ∀ b ∈ bs', b.toNat < 128 → b ∈ bs := by
  by_cases hbs : bs = encode (lossy bs)
  · obtain ⟨a, b, hab⟩ := List.append_of_mem h
    rw [hab] at hbs
    refine ⟨encode a ++ 0xFF :: encode b, ?_, ?_, ?_⟩
    · rw [hbs, encode_append, encode_cons]
      intro heq
      have hhead := List.append_cancel_left heq
      have hrep : String.utf8EncodeChar replacement = [0xEF, 0xBF, 0xBD] := by decide
      rw [hrep] at hhead
      cases hhead
    · rw [lossy_encode_append, lossy_invalid, lossy_encode, hab]
    · intro x hx hlt
      rw [hbs, encode_append, encode_cons]
      simp only [List.mem_append, List.mem_cons] at hx ⊢
      rcases hx with hx | rfl | hx
      · exact .inl hx
      · exact absurd hlt (by decide)
      · exact .inr (.inr hx)
  · refine ⟨encode (lossy bs), fun heq => hbs heq.symm, lossy_encode _, fun b hb hlt => ?_⟩
    obtain ⟨c, hc, heq⟩ := mem_of_mem_encode hlt hb
    have hmem := mem_of_mem_lossy (heq ▸ hlt) hc
    rwa [heq, UInt8.ofNat_toNat] at hmem

end Bimo.Utf8
