import Mathlib

/-!
Finite numbers of 64 bits, and the text they are written as.

A number is a sign, a significand and an exponent of two. Its text has as few decimal digits as
are enough to come back to it when the text is rounded to the nearest number, and of the texts
with so few the closest one. Texts tell numbers apart, but for the sign of zero.
-/

namespace Bimo

/-- A finite number of 64 bits. -/
structure Double where
  negative : Bool
  significand : ℕ
  exponent : ℤ
  significand_lt : significand < 2 ^ 53
  exponent_bounds : -1074 ≤ exponent ∧ exponent ≤ 971
  normal : 2 ^ 52 ≤ significand ∨ exponent = -1074
  deriving DecidableEq

namespace Double

def magnitude (x : Double) : ℚ := x.significand * 2 ^ x.exponent

def value (x : Double) : ℚ := if x.negative then -x.magnitude else x.magnitude

/-! ### Rounding -/

/-- The nearest integer; of two that are equally near the even one. -/
def roundHalfEven (r : ℚ) : ℤ :=
  if r - ⌊r⌋ < 1 / 2 then ⌊r⌋
  else if 1 / 2 < r - ⌊r⌋ then ⌊r⌋ + 1
  else if ⌊r⌋ % 2 = 0 then ⌊r⌋ else ⌊r⌋ + 1

/-- The exponent of the numbers around a number that is not negative. -/
def gridExponent (q : ℚ) : ℤ := max (Int.log 2 q - 52) (-1074)

/-- The magnitude that is nearest; what is too large has none. -/
def nearest (q : ℚ) : Option ℚ :=
  let y := roundHalfEven (q / 2 ^ gridExponent q) * (2 : ℚ) ^ gridExponent q
  if y < 2 ^ 1024 then some y else none

lemma roundHalfEven_natCast (m : ℕ) : roundHalfEven m = m := by
  rw [roundHalfEven, Int.floor_natCast, Int.cast_natCast, sub_self, if_pos (by norm_num)]

lemma gridExponent_magnitude {x : Double} (h : 0 < x.significand) :
    gridExponent x.magnitude = x.exponent := by
  have hpos : (0 : ℚ) < 2 ^ x.exponent := by positivity
  have hmag : 0 < x.magnitude := mul_pos (by exact_mod_cast h) hpos
  have hlt : x.magnitude < 2 ^ (x.exponent + 53) := by
    rw [magnitude, zpow_add₀ (by norm_num), mul_comm]
    have hm : (x.significand : ℚ) < 2 ^ (53 : ℤ) := by exact_mod_cast x.significand_lt
    gcongr
  have hlog : Int.log 2 x.magnitude < x.exponent + 53 :=
    (Int.lt_zpow_iff_log_lt (by norm_num) hmag).mp (by exact_mod_cast hlt)
  obtain ⟨hlow, -⟩ := x.exponent_bounds
  rw [gridExponent]
  rcases x.normal with hnorm | hsub
  · have hge : (2 : ℚ) ^ (x.exponent + 52) ≤ x.magnitude := by
      rw [magnitude, zpow_add₀ (by norm_num), mul_comm]
      have hm : (2 : ℚ) ^ (52 : ℤ) ≤ x.significand := by exact_mod_cast hnorm
      gcongr
    have hlog' : x.exponent + 52 ≤ Int.log 2 x.magnitude :=
      (Int.zpow_le_iff_le_log (by norm_num) hmag).mp (by exact_mod_cast hge)
    omega
  · omega

/-- A number is the nearest one to itself. -/
lemma nearest_magnitude {x : Double} (h : 0 < x.significand) :
    nearest x.magnitude = some x.magnitude := by
  have hpos : (0 : ℚ) < 2 ^ x.exponent := by positivity
  have hquot : x.magnitude / 2 ^ x.exponent = x.significand := by
    rw [magnitude, mul_div_assoc, div_self hpos.ne', mul_one]
  have hlt : x.magnitude < 2 ^ 1024 := by
    have hm : (x.significand : ℚ) < 2 ^ 53 := by exact_mod_cast x.significand_lt
    have he : (2 : ℚ) ^ x.exponent ≤ 2 ^ (971 : ℤ) :=
      zpow_le_zpow_right₀ (by norm_num) x.exponent_bounds.2
    calc x.magnitude < 2 ^ 53 * 2 ^ x.exponent := by
          rw [magnitude]
          gcongr
      _ ≤ 2 ^ 53 * 2 ^ (971 : ℤ) := by gcongr
      _ = 2 ^ 1024 := by
          rw [← zpow_natCast, ← zpow_natCast, ← zpow_add₀ (by norm_num)]
          rfl
  simp only [nearest, gridExponent_magnitude h, hquot, roundHalfEven_natCast, Int.cast_natCast]
  exact if_pos hlt

lemma nearest_zero : nearest 0 = some 0 := by
  have hround : roundHalfEven 0 = 0 := by exact_mod_cast roundHalfEven_natCast 0
  simp only [nearest, zero_div, hround, Int.cast_zero, zero_mul]
  exact if_pos (by positivity)

/-! ### Digits -/

/-- The exponent of ten that the last of so many digits has. -/
def lastPlace (v : ℚ) (k : ℕ) : ℤ := Int.log 10 v + 1 - k

/-- So many digits of a magnitude, cut off. -/
def below (v : ℚ) (k : ℕ) : ℕ := ⌊v / 10 ^ lastPlace v k⌋₊

/-- The digits are rounded to the magnitude. -/
def ComesBack (v : ℚ) (k s : ℕ) : Prop := nearest (s * 10 ^ lastPlace v k) = some v

instance (v : ℚ) (k s : ℕ) : Decidable (ComesBack v k s) := inferInstanceAs (Decidable (_ = _))

/-- So many digits are enough. -/
def Enough (v : ℚ) (k : ℕ) : Prop :=
  0 < k ∧ (ComesBack v k (below v k) ∨ ComesBack v k (below v k + 1))

instance (v : ℚ) (k : ℕ) : Decidable (Enough v k) := inferInstanceAs (Decidable (_ ∧ _))

/-- Of the two that are next to a magnitude the one that comes back to it; of both the closer one,
and of two that are equally close the even one. -/
def closest (v : ℚ) (k : ℕ) : ℕ :=
  let s := below v k
  let rest := v / 10 ^ lastPlace v k - s
  if ComesBack v k (s + 1) then
    if ComesBack v k s then
      if rest < 1 / 2 then s
      else if 1 / 2 < rest then s + 1
      else if s % 2 = 0 then s else s + 1
    else s + 1
  else s

/-- The shortest digits of a magnitude, and the exponent of ten of the last one. -/
def shortest (v : ℚ) (h : ∃ k, Enough v k) : ℕ × ℤ :=
  let k := Nat.find h
  if closest v k = 10 ^ k then (10 ^ (k - 1), lastPlace v k + 1)
  else (closest v k, lastPlace v k)

lemma comesBack_closest {v : ℚ} {k : ℕ} (h : Enough v k) : ComesBack v k (closest v k) := by
  obtain ⟨-, hback⟩ := h
  simp only [closest]
  split_ifs with h1 h2 h3 h4 h5
  · exact h2
  · exact h1
  · exact h2
  · exact h1
  · exact h1
  · exact hback.resolve_right h1

lemma nearest_shortest {v : ℚ} (h : ∃ k, Enough v k) :
    nearest ((shortest v h).1 * 10 ^ (shortest v h).2) = some v := by
  have hspec := Nat.find_spec h
  have hback := comesBack_closest hspec
  rw [ComesBack] at hback
  simp only [shortest]
  split_ifs with hcarry
  · rw [hcarry] at hback
    have hsame : ((10 ^ (Nat.find h - 1) : ℕ) : ℚ) * 10 ^ (lastPlace v (Nat.find h) + 1) =
        ((10 ^ Nat.find h : ℕ) : ℚ) * 10 ^ lastPlace v (Nat.find h) := by
      rw [← Nat.sub_add_cancel hspec.1, pow_succ, zpow_add₀ (by norm_num), Nat.add_sub_cancel]
      push_cast
      ring
    rw [hsame, hback]
  · exact hback

/-- All the digits of a magnitude are enough. -/
lemma exists_enough {x : Double} (h : 0 < x.significand) : ∃ k, Enough x.magnitude k := by
  obtain ⟨k, hk⟩ : ∃ k : ℕ, lastPlace x.magnitude k ≤ -1074 ∧ 0 < k := by
    refine ⟨(Int.log 10 x.magnitude + 1075).toNat + 1, ?_, by omega⟩
    simp only [lastPlace]
    omega
  obtain ⟨hplace, hpos⟩ := hk
  obtain ⟨n, hn⟩ : ∃ n : ℕ, lastPlace x.magnitude k = -n :=
    ⟨(-lastPlace x.magnitude k).toNat, by omega⟩
  obtain ⟨i, hi⟩ : ∃ i : ℕ, x.exponent + n = i := ⟨(x.exponent + n).toNat, by
    have := x.exponent_bounds
    omega⟩
  have hwhole : x.magnitude / 10 ^ lastPlace x.magnitude k =
      ((x.significand * 2 ^ i * 5 ^ n : ℕ) : ℚ) := by
    have hten : (10 : ℚ) ^ n = 2 ^ n * 5 ^ n := by
      rw [← mul_pow]
      norm_num
    have htwo : (2 : ℚ) ^ x.exponent * 2 ^ n = 2 ^ i := by
      rw [← zpow_natCast, ← zpow_natCast, ← zpow_add₀ (by norm_num), hi]
    rw [hn, zpow_neg, zpow_natCast, div_inv_eq_mul, magnitude, hten]
    push_cast
    rw [← htwo]
    ring
  have hbelow : (below x.magnitude k : ℚ) * 10 ^ lastPlace x.magnitude k = x.magnitude := by
    rw [below, hwhole, Nat.floor_natCast, ← hwhole, div_mul_cancel₀ _ (by positivity)]
  exact ⟨k, hpos, .inl (by rw [ComesBack, hbelow, nearest_magnitude h])⟩

/-! ### The text -/

def exponentText (e : ℤ) : List Char :=
  'e' :: (if e < 0 then '-' else '+') :: Nat.toDigits 10 e.natAbs

/-- Digits, by the exponent of ten of the last one: as an integer, with a point, or with an
exponent of their own. -/
def layout (digits : List Char) (place : ℤ) : List Char :=
  let n := place + digits.length
  if digits.length ≤ n ∧ n ≤ 21 then digits ++ List.replicate place.toNat '0'
  else if 0 < n ∧ n ≤ 21 then digits.take n.toNat ++ '.' :: digits.drop n.toNat
  else if -6 < n ∧ n ≤ 0 then '0' :: '.' :: (List.replicate (-n).toNat '0' ++ digits)
  else if digits.length = 1 then digits ++ exponentText (n - 1)
  else digits.take 1 ++ '.' :: (digits.drop 1 ++ exponentText (n - 1))

/-- `Number.prototype.toString` -/
def toText (x : Double) : List Char :=
  if h : 0 < x.significand then
    let s := shortest x.magnitude (exists_enough h)
    (if x.negative then ['-'] else []) ++ layout (Nat.toDigits 10 s.1) s.2
  else ['0']

/-! ### The text read back -/

def readExponent : List Char → ℤ
  | 'e' :: '-' :: digits => -(Nat.ofDigitChars 10 digits 0 : ℤ)
  | 'e' :: _ :: digits => Nat.ofDigitChars 10 digits 0
  | _ => 0

/-- The number that a decimal text without a sign stands for. -/
def readText (t : List Char) : ℚ :=
  let mantissa := t.takeWhile (· ≠ 'e')
  let whole := mantissa.takeWhile (· ≠ '.')
  let fraction := (mantissa.dropWhile (· ≠ '.')).drop 1
  Nat.ofDigitChars 10 (whole ++ fraction) 0 *
    10 ^ (readExponent (t.dropWhile (· ≠ 'e')) - fraction.length)

/-- Nothing, or an exponent. -/
def Behind (t : List Char) : Prop := ∀ c ∈ t.head?, c = 'e'

lemma takeWhile_behind {p : Char → Bool} (l behind : List Char) (hl : ∀ c ∈ l, p c = true)
    (hb : ∀ c ∈ behind.head?, p c = false) :
    (l ++ behind).takeWhile p = l ∧ (l ++ behind).dropWhile p = behind := by
  rw [List.takeWhile_append_of_pos hl, List.dropWhile_append_of_pos hl]
  cases behind with
  | nil => simp
  | cons c rest => simp [hb c rfl]

lemma ne_of_isDigit {c d : Char} (hc : c.isDigit = true) (hd : d.isDigit = false) : c ≠ d := by
  rintro rfl
  rw [hc] at hd
  cases hd

lemma read_whole (whole behind : List Char) (hw : ∀ c ∈ whole, c.isDigit = true)
    (hb : Behind behind) :
    readText (whole ++ behind) = Nat.ofDigitChars 10 whole 0 * 10 ^ readExponent behind := by
  have hsplit := takeWhile_behind (p := (· ≠ 'e')) whole behind
    (fun c hc => by simpa using ne_of_isDigit (hw c hc) (by decide))
    (fun c hc => by simpa using hb c hc)
  have hpoint := takeWhile_behind (p := (· ≠ '.')) whole []
    (fun c hc => by simpa using ne_of_isDigit (hw c hc) (by decide)) nofun
  rw [List.append_nil] at hpoint
  simp only [readText, hsplit, hpoint, List.drop_nil, List.append_nil, List.length_nil,
    Nat.cast_zero, sub_zero]

lemma read_point (whole fraction behind : List Char) (hw : ∀ c ∈ whole, c.isDigit = true)
    (hf : ∀ c ∈ fraction, c.isDigit = true) (hb : Behind behind) :
    readText (whole ++ '.' :: (fraction ++ behind)) =
      Nat.ofDigitChars 10 (whole ++ fraction) 0 *
        10 ^ (readExponent behind - fraction.length) := by
  have hsplit := takeWhile_behind (p := (· ≠ 'e')) (whole ++ '.' :: fraction) behind
    (fun c hc => by
      rcases List.mem_append.mp hc with hc | hc
      · simpa using ne_of_isDigit (hw c hc) (by decide)
      · rcases List.mem_cons.mp hc with rfl | hc
        · decide
        · simpa using ne_of_isDigit (hf c hc) (by decide))
    (fun c hc => by simpa using hb c hc)
  have hpoint := takeWhile_behind (p := (· ≠ '.')) whole ('.' :: fraction)
    (fun c hc => by simpa using ne_of_isDigit (hw c hc) (by decide)) (by simp)
  have hassoc : whole ++ '.' :: (fraction ++ behind) = (whole ++ '.' :: fraction) ++ behind := by
    simp
  rw [hassoc]
  simp only [readText, hsplit, hpoint, List.drop_one, List.tail_cons]

lemma isDigit_of_mem_replicate {n : ℕ} {c : Char} (h : c ∈ List.replicate n '0') :
    c.isDigit = true := by
  rw [(List.mem_replicate.mp h).2]
  decide

lemma behind_exponentText (e : ℤ) : Behind (exponentText e) := by
  intro d hd
  exact (Option.some.inj hd).symm

lemma readExponent_exponentText (e : ℤ) : readExponent (exponentText e) = e := by
  unfold exponentText
  split_ifs with h
  · change -(Nat.ofDigitChars 10 (Nat.toDigits 10 e.natAbs) 0 : ℤ) = e
    rw [Nat.ofDigitChars_ten_toDigits]
    omega
  · change (Nat.ofDigitChars 10 (Nat.toDigits 10 e.natAbs) 0 : ℤ) = e
    rw [Nat.ofDigitChars_ten_toDigits]
    omega

/-- However digits are laid out, they are read with the exponent they were laid out for. -/
lemma read_layout {digits : List Char} (hd : ∀ c ∈ digits, c.isDigit = true) (hne : digits ≠ [])
    (place : ℤ) :
    readText (layout digits place) = Nat.ofDigitChars 10 digits 0 * 10 ^ place := by
  have hlen : 0 < digits.length := List.length_pos_of_ne_nil hne
  have htake : ∀ k, ∀ c ∈ digits.take k, c.isDigit = true := fun k c hc =>
    hd c (List.mem_of_mem_take hc)
  have hdrop : ∀ k, ∀ c ∈ digits.drop k, c.isDigit = true := fun k c hc =>
    hd c (List.mem_of_mem_drop hc)
  simp only [layout]
  split_ifs with h1 h2 h3 h4
  · -- an integer
    have hread := read_whole (digits ++ List.replicate place.toNat '0') []
      (fun c hc => (List.mem_append.mp hc).elim (hd c) isDigit_of_mem_replicate) nofun
    obtain ⟨n, rfl⟩ : ∃ n : ℕ, place = n := ⟨place.toNat, by omega⟩
    rw [List.append_nil] at hread
    rw [hread, Int.toNat_natCast, Nat.ofDigitChars_append, Nat.ofDigitChars_replicate_zero]
    simp only [readExponent, zpow_zero, mul_one, zpow_natCast]
    push_cast
    ring
  · -- a point between the digits
    have hread := read_point (digits.take (place + digits.length).toNat)
      (digits.drop (place + digits.length).toNat) [] (htake _) (hdrop _)
      nofun
    rw [List.append_nil] at hread
    have hexp : (0 : ℤ) - (digits.drop (place + digits.length).toNat).length = place := by
      rw [List.length_drop]
      omega
    rw [hread, List.take_append_drop, show readExponent [] = 0 from rfl, hexp]
  · -- zeros behind the point
    have hread := read_point ['0']
      (List.replicate (-(place + digits.length)).toNat '0' ++ digits) []
      (by simp) (fun c hc => (List.mem_append.mp hc).elim isDigit_of_mem_replicate (hd c)) nofun
    have hexp : (0 : ℤ) -
        (List.replicate (-(place + digits.length)).toNat '0' ++ digits).length = place := by
      rw [List.length_append, List.length_replicate]
      omega
    have hzeros : Nat.ofDigitChars 10
        (['0'] ++ (List.replicate (-(place + digits.length)).toNat '0' ++ digits)) 0 =
          Nat.ofDigitChars 10 digits 0 := by
      rw [Nat.ofDigitChars_append, Nat.ofDigitChars_append, Nat.ofDigitChars_cons,
        Nat.ofDigitChars_nil, Nat.ofDigitChars_replicate_zero]
      simp
    rw [List.append_nil, show readExponent [] = 0 from rfl, hexp, hzeros] at hread
    exact hread
  · -- one digit and an exponent
    have hexp : place + digits.length - 1 = place := by omega
    rw [read_whole _ _ hd (behind_exponentText _), readExponent_exponentText, hexp]
  · -- a point behind the first digit, and an exponent
    have hexp : place + digits.length - 1 - (digits.drop 1).length = place := by
      rw [List.length_drop]
      omega
    rw [read_point _ _ _ (htake 1) (hdrop 1) (behind_exponentText _), readExponent_exponentText, hexp,
      List.take_append_drop]

/-! ### Texts tell numbers apart -/

lemma isDigit_of_mem_toDigits {n : ℕ} {c : Char} (h : c ∈ Nat.toDigits 10 n) : c.isDigit = true :=
  Nat.isDigit_of_mem_toDigits (by decide) (by decide) h

lemma magnitude_pos {x : Double} (h : 0 < x.significand) : 0 < x.magnitude :=
  mul_pos (by exact_mod_cast h) (by positivity)

lemma magnitude_eq_zero {x : Double} (h : ¬ 0 < x.significand) : x.magnitude = 0 := by
  rw [magnitude, Nat.eq_zero_of_not_pos h, Nat.cast_zero, zero_mul]

/-- The digits of a magnitude. -/
def digitsOf (v : ℚ) (h : ∃ k, Enough v k) : List Char :=
  layout (Nat.toDigits 10 (shortest v h).1) (shortest v h).2

lemma nearest_readText {v : ℚ} (h : ∃ k, Enough v k) :
    nearest (readText (digitsOf v h)) = some v := by
  rw [digitsOf, read_layout (fun _ => isDigit_of_mem_toDigits) Nat.toDigits_ne_nil,
    Nat.ofDigitChars_ten_toDigits]
  exact nearest_shortest h

lemma head_layout {digits : List Char} (hd : ∀ c ∈ digits, c.isDigit = true) (hne : digits ≠ [])
    (place : ℤ) : ∃ c rest, layout digits place = c :: rest ∧ c.isDigit = true := by
  obtain ⟨c, rest, rfl⟩ := List.exists_cons_of_ne_nil hne
  have hc := hd c List.mem_cons_self
  simp only [layout]
  split_ifs with h1 h2 h3 h4
  · exact ⟨c, _, rfl, hc⟩
  · obtain ⟨n, hn⟩ : ∃ n, (place + (c :: rest).length).toNat = n + 1 :=
      ⟨(place + (c :: rest).length).toNat - 1, by omega⟩
    rw [hn]
    exact ⟨c, _, rfl, hc⟩
  · exact ⟨'0', _, rfl, by decide⟩
  · exact ⟨c, _, rfl, hc⟩
  · exact ⟨c, _, rfl, hc⟩

lemma mem_layout {digits : List Char} (hd : ∀ c ∈ digits, c.isDigit = true) {place : ℤ} {c : Char}
    (h : c ∈ layout digits place) : c.isDigit = true ∨ c ∈ ['.', 'e', '+', '-'] := by
  have hexp : ∀ e, c ∈ exponentText e → c.isDigit = true ∨ c ∈ ['.', 'e', '+', '-'] := by
    intro e he
    simp only [exponentText, List.mem_cons] at he
    rcases he with rfl | he | he
    · exact .inr (by decide)
    · split_ifs at he <;> exact .inr (by simp [he])
    · exact .inl (isDigit_of_mem_toDigits he)
  simp only [layout] at h
  split_ifs at h with h1 h2 h3 h4
  · rcases List.mem_append.mp h with h | h
    · exact .inl (hd c h)
    · exact .inl (isDigit_of_mem_replicate h)
  · rcases List.mem_append.mp h with h | h
    · exact .inl (hd c (List.mem_of_mem_take h))
    · rcases List.mem_cons.mp h with rfl | h
      · exact .inr (by decide)
      · exact .inl (hd c (List.mem_of_mem_drop h))
  · rcases List.mem_cons.mp h with rfl | h
    · exact .inl (by decide)
    · rcases List.mem_cons.mp h with rfl | h
      · exact .inr (by decide)
      · exact .inl ((List.mem_append.mp h).elim isDigit_of_mem_replicate (hd c))
  · exact (List.mem_append.mp h).elim (fun h => .inl (hd c h)) (hexp _)
  · rcases List.mem_append.mp h with h | h
    · exact .inl (hd c (List.mem_of_mem_take h))
    · rcases List.mem_cons.mp h with rfl | h
      · exact .inr (by decide)
      · exact (List.mem_append.mp h).elim (fun h => .inl (hd c (List.mem_of_mem_drop h))) (hexp _)

/-- The characters of a number. -/
lemma mem_toText {x : Double} {c : Char} (h : c ∈ toText x) :
    c.isDigit = true ∨ c ∈ ['.', 'e', '+', '-'] := by
  rw [toText] at h
  split_ifs at h with hpos hneg
  · rcases List.mem_append.mp h with h | h
    · exact .inr (by simp [List.mem_singleton.mp h])
    · exact mem_layout (fun _ => isDigit_of_mem_toDigits) h
  · exact mem_layout (fun _ => isDigit_of_mem_toDigits) h
  · exact .inl (by rw [List.mem_singleton.mp h]; decide)

lemma toText_of_pos {x : Double} (h : 0 < x.significand) :
    toText x = (if x.negative then ['-'] else []) ++ digitsOf x.magnitude (exists_enough h) :=
  dif_pos h

lemma toText_of_zero {x : Double} (h : ¬ 0 < x.significand) : toText x = ['0'] := dif_neg h

lemma head_digitsOf {v : ℚ} (h : ∃ k, Enough v k) :
    ∃ c rest, digitsOf v h = c :: rest ∧ c.isDigit = true :=
  head_layout (fun _ => isDigit_of_mem_toDigits) Nat.toDigits_ne_nil _

lemma toText_ne_nil (x : Double) : toText x ≠ [] := by
  by_cases h : 0 < x.significand
  · obtain ⟨c, rest, heq, -⟩ := head_digitsOf (exists_enough h)
    rw [toText_of_pos h, heq]
    simp
  · rw [toText_of_zero h]
    simp

lemma sign_cancel {a b : Bool} {v w : ℚ} {hv : ∃ k, Enough v k} {hw : ∃ k, Enough w k}
    (h : (if a then ['-'] else []) ++ digitsOf v hv = (if b then ['-'] else []) ++ digitsOf w hw) :
    a = b ∧ v = w := by
  have hdigits : ∀ {v w : ℚ} {hv : ∃ k, Enough v k} {hw : ∃ k, Enough w k},
      digitsOf v hv = digitsOf w hw → v = w := fun {v w hv hw} heq => by
    have hsome := (nearest_readText hv).symm.trans (heq ▸ nearest_readText hw)
    exact Option.some.inj hsome
  obtain ⟨c, rest, hc, hcd⟩ := head_digitsOf hv
  obtain ⟨d, rest', hd, hdd⟩ := head_digitsOf hw
  cases a <;> cases b
  · exact ⟨rfl, hdigits h⟩
  · rw [hc] at h
    obtain ⟨rfl, -⟩ := List.cons.inj h
    cases hcd
  · rw [hd] at h
    obtain ⟨rfl, -⟩ := List.cons.inj h
    cases hdd
  · exact ⟨rfl, hdigits (List.cons.inj h).2⟩

lemma digitsOf_ne_zero {x : Double} (h : 0 < x.significand) :
    (if x.negative then ['-'] else []) ++ digitsOf x.magnitude (exists_enough h) ≠ ['0'] := by
  intro heq
  cases hx : x.negative
  · rw [hx] at heq
    have hread := nearest_readText (exists_enough h)
    have hzero : readText ['0'] = 0 := by
      have hwhole := read_whole ['0'] [] (by simp) nofun
      simpa [Nat.ofDigitChars_cons] using hwhole
    rw [show digitsOf x.magnitude (exists_enough h) = ['0'] from heq, hzero, nearest_zero] at hread
    exact (magnitude_pos h).ne (Option.some.inj hread)
  · rw [hx] at heq
    cases (List.cons.inj heq).1

/-- **A number's text is its own**, but for the sign of zero. -/
theorem toText_eq_iff {x y : Double} : toText x = toText y ↔ x.value = y.value := by
  have hvalue : ∀ x : Double, x.value = 0 ↔ ¬ 0 < x.significand := by
    intro x
    refine ⟨fun h hpos => ?_, fun h => by simp [value, magnitude_eq_zero h]⟩
    have := magnitude_pos hpos
    rw [value] at h
    split_ifs at h <;> linarith
  by_cases hx : 0 < x.significand
  · by_cases hy : 0 < y.significand
    · rw [toText_of_pos hx, toText_of_pos hy]
      constructor
      · intro h
        obtain ⟨hsign, hmag⟩ := sign_cancel h
        rw [value, value, hsign, hmag]
      · intro h
        have hpx := magnitude_pos hx
        have hpy := magnitude_pos hy
        rw [value, value] at h
        have hboth : x.negative = y.negative ∧ x.magnitude = y.magnitude := by
          cases hnx : x.negative <;> cases hny : y.negative <;>
            simp only [hnx, hny, if_true, if_false, Bool.false_eq_true] at h
          · exact ⟨rfl, h⟩
          · linarith
          · linarith
          · exact ⟨rfl, neg_injective h⟩
        simp only [hboth.1, hboth.2]
    · rw [toText_of_pos hx, toText_of_zero hy]
      refine ⟨fun h => absurd h (digitsOf_ne_zero hx), fun h => ?_⟩
      exact absurd hx ((hvalue x).mp (h.trans ((hvalue y).mpr hy)))
  · by_cases hy : 0 < y.significand
    · rw [toText_of_pos hy, toText_of_zero hx]
      refine ⟨fun h => absurd h.symm (digitsOf_ne_zero hy), fun h => ?_⟩
      exact absurd hy ((hvalue y).mp (h.symm.trans ((hvalue x).mpr hx)))
    · rw [toText_of_zero hx, toText_of_zero hy, (hvalue x).mpr hx, (hvalue y).mpr hy]
      simp

end Double

end Bimo
