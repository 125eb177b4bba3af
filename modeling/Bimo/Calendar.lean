import Mathlib.Logic.Function.Iterate
import Mathlib.Tactic.IntervalCases
import Mathlib.Tactic.NormNum
import Bimo.Timestamp

/-!
The Gregorian calendar, day by day, and the dates of an agent's CA.

A date is reached from the first of January 1970 by turning over one day at a time, forwards or
backwards; the length of a month is all that this asks for. The engine finds a date in one step
instead, from the number of the day, by the eras of 400 years that begin in March. Both name the
same date, so the window that a CA is valid in opens and closes on the right days.
-/

namespace Bimo.Timestamp

/-! ### Counting -/

/-- Every fourth year, without the centuries that are not divisible by 400. -/
def isLeap (year : ℤ) : Bool := year % 4 = 0 && (year % 100 ≠ 0 || year % 400 = 0)

def monthLength (year : ℤ) : ℕ → ℕ
  | 2 => if isLeap year then 29 else 28
  | 4 | 6 | 9 | 11 => 30
  | _ => 31

structure Date.Valid (d : Date) : Prop where
  month : 1 ≤ d.month ∧ d.month ≤ 12
  day : 1 ≤ d.day ∧ d.day ≤ monthLength d.year d.month

def tomorrow (d : Date) : Date :=
  if d.day < monthLength d.year d.month then { d with day := d.day + 1 }
  else if d.month < 12 then { d with month := d.month + 1, day := 1 }
  else { year := d.year + 1, month := 1, day := 1 }

def yesterday (d : Date) : Date :=
  if 1 < d.day then { d with day := d.day - 1 }
  else if 1 < d.month then
    { d with month := d.month - 1, day := monthLength d.year (d.month - 1) }
  else { year := d.year - 1, month := 12, day := 31 }

/-- The first of January 1970. -/
def epoch : Date := ⟨1970, 1, 1⟩

/-- The date so many days after the epoch, or before it. -/
def count : ℤ → Date
  | .ofNat n => tomorrow^[n] epoch
  | .negSucc n => yesterday^[n + 1] epoch

lemma monthLength_bounds (year : ℤ) (month : ℕ) :
    28 ≤ monthLength year month ∧ monthLength year month ≤ 31 := by
  unfold monthLength
  split <;> (try split_ifs) <;> omega

lemma valid_epoch : epoch.Valid := ⟨by decide, by decide⟩

lemma Date.Valid.tomorrow {d : Date} (h : d.Valid) : (tomorrow d).Valid := by
  obtain ⟨hmonth, hday⟩ := h
  unfold Timestamp.tomorrow
  split_ifs with h1 h2
  · exact ⟨hmonth, by simp only; omega⟩
  · have hlen := monthLength_bounds d.year (d.month + 1)
    exact ⟨by simp only; omega, by simp only; omega⟩
  · exact ⟨by simp, by simp [monthLength]⟩

lemma Date.Valid.yesterday {d : Date} (h : d.Valid) : (yesterday d).Valid := by
  obtain ⟨hmonth, hday⟩ := h
  unfold Timestamp.yesterday
  split_ifs with h1 h2
  · exact ⟨hmonth, by simp only; omega⟩
  · have hlen := monthLength_bounds d.year (d.month - 1)
    exact ⟨by simp only; omega, by simp only; omega⟩
  · exact ⟨by simp, by simp [monthLength]⟩

/-! ### The number of a date -/

/-- The days before the March of a year. -/
def daysToMarch (y : ℤ) : ℤ := 365 * y + y / 4 - y / 100 + y / 400

lemma daysToMarch_succ (y : ℤ) :
    daysToMarch y = daysToMarch (y - 1) + (if isLeap y then 366 else 365) := by
  have hleap : isLeap y = true ↔ y % 4 = 0 ∧ (y % 100 ≠ 0 ∨ y % 400 = 0) := by simp [isLeap]
  simp only [daysToMarch]
  split_ifs with h
  · have := hleap.mp h
    omega
  · have := mt hleap.mpr h
    omega

lemma daysOf_eq (year : ℤ) (month day : ℕ) :
    daysOf ⟨year, month, day⟩ =
      daysToMarch (if month ≤ 2 then year - 1 else year) +
        ((153 * (if month ≤ 2 then (month : ℤ) + 9 else month - 3) + 2) / 5 + day - 1) -
          719468 := by
  simp only [daysOf, daysBefore, daysToMarch]
  generalize (if month ≤ 2 then year - 1 else year) = y
  omega

/-- The day after the last one of a month is the first one of the next. -/
lemma daysOf_turn (year : ℤ) {month : ℕ} (h1 : 1 ≤ month) (h2 : month < 12) :
    daysOf ⟨year, month + 1, 1⟩ = daysOf ⟨year, month, monthLength year month⟩ + 1 := by
  have hleap := daysToMarch_succ year
  rw [daysOf_eq, daysOf_eq]
  by_cases hfeb : month = 2
  · subst hfeb
    simp only [monthLength]
    norm_num
    split_ifs at hleap ⊢ <;> omega
  · interval_cases month
    all_goals first
      | exact absurd rfl hfeb
      | norm_num [monthLength]; omega

lemma daysOf_next (year : ℤ) (month day : ℕ) :
    daysOf ⟨year, month, day + 1⟩ = daysOf ⟨year, month, day⟩ + 1 := by
  rw [daysOf_eq, daysOf_eq]
  push_cast
  omega

lemma daysOf_newYear (year : ℤ) : daysOf ⟨year + 1, 1, 1⟩ = daysOf ⟨year, 12, 31⟩ + 1 := by
  rw [daysOf_eq, daysOf_eq]
  norm_num
  omega

lemma daysOf_tomorrow {d : Date} (h : d.Valid) : daysOf (tomorrow d) = daysOf d + 1 := by
  obtain ⟨year, month, day⟩ := d
  obtain ⟨⟨hm1, hm2⟩, hd1, hd2⟩ := h
  simp only at hm1 hm2 hd1 hd2
  unfold tomorrow
  split_ifs with h1 h2
  · exact daysOf_next year month day
  · obtain rfl : day = monthLength year month := le_antisymm hd2 (not_lt.mp h1)
    exact daysOf_turn year hm1 h2
  · obtain rfl : month = 12 := le_antisymm hm2 (not_lt.mp h2)
    obtain rfl : day = 31 := le_antisymm hd2 (not_lt.mp h1)
    exact daysOf_newYear year

lemma daysOf_yesterday {d : Date} (h : d.Valid) : daysOf (yesterday d) = daysOf d - 1 := by
  obtain ⟨year, month, day⟩ := d
  obtain ⟨⟨hm1, hm2⟩, hd1, hd2⟩ := h
  simp only at hm1 hm2 hd1 hd2
  unfold yesterday
  split_ifs with h1 h2
  · obtain ⟨n, rfl⟩ := Nat.exists_eq_add_of_lt h1
    have := daysOf_next year month (1 + n)
    simp only [Nat.add_sub_cancel]
    omega
  · have h2 : 1 < month := h2
    obtain rfl : day = 1 := le_antisymm (not_lt.mp h1) hd1
    have hmonth : 1 ≤ month - 1 := by omega
    have hturn := daysOf_turn year hmonth (by omega)
    rw [Nat.sub_add_cancel hm1] at hturn
    exact eq_sub_of_add_eq hturn.symm
  · obtain rfl : month = 1 := le_antisymm (not_lt.mp h2) hm1
    obtain rfl : day = 1 := le_antisymm (not_lt.mp h1) hd1
    have hnew := daysOf_newYear (year - 1)
    rw [sub_add_cancel] at hnew
    exact eq_sub_of_add_eq hnew.symm

/-- Counting gets to dates, and each stands for its number. -/
lemma count_spec (n : ℤ) : (count n).Valid ∧ daysOf (count n) = n := by
  have hepoch : daysOf epoch = 0 := by decide
  cases n with
  | ofNat n =>
      simp only [count]
      induction n with
      | zero => exact ⟨valid_epoch, hepoch⟩
      | succ n ih =>
          rw [Function.iterate_succ_apply']
          refine ⟨ih.1.tomorrow, ?_⟩
          rw [daysOf_tomorrow ih.1, ih.2]
          rfl
  | negSucc n =>
      simp only [count]
      induction n with
      | zero => exact ⟨valid_epoch.yesterday, by decide⟩
      | succ n ih =>
          rw [Function.iterate_succ_apply']
          refine ⟨ih.1.yesterday, ?_⟩
          rw [daysOf_yesterday ih.1, ih.2]
          rfl

/-! ### From the number to the date -/

/-- What an `i64` holds. -/
def i64 (n : ℤ) : Option ℤ := if -2 ^ 63 ≤ n ∧ n < 2 ^ 63 then some n else none

/-- `as u8` -/
def asU8 (n : ℤ) : ℤ := n % 2 ^ 8

/-- `as i32` -/
def asI32 (n : ℤ) : ℤ := (n + 2 ^ 31) % 2 ^ 32 - 2 ^ 31

/-- The body of `civil_from_days`, with the casts it makes. A day of an era is below 146097, so
only the sums that the day itself and the era are in can run over. -/
def civilWith (u8 i32 : ℤ → ℤ) (days : ℤ) : Option (ℤ × ℤ × ℤ) := do
  let z ← i64 (days + 719468)
  let era := z / 146097
  let doe := z % 146097
  let yoe := (doe - doe.tdiv 1460 + doe.tdiv 36524 - doe.tdiv 146096).tdiv 365
  let doy := doe - (365 * yoe + yoe.tdiv 4 - yoe.tdiv 100)
  let mp := (5 * doy + 2).tdiv 153
  let day := u8 (doy - (153 * mp + 2).tdiv 5 + 1)
  let month := u8 (if mp < 10 then mp + 3 else mp - 9)
  let first ← i64 (era * 400)
  let year ← i64 (yoe + first + if month ≤ 2 then 1 else 0)
  return (i32 year, month, day)

/-- `fn civil_from_days` -/
def civilFromDays (days : ℤ) : Option (ℤ × ℤ × ℤ) := civilWith asU8 asI32 days

/-- The year, the month and the day of a date. -/
def Date.parts (d : Date) : ℤ × ℤ × ℤ := (d.year, d.month, d.day)

/-- The day of a clock reading. -/
def dayOf (millis : ℕ) : ℤ := millis / 86400000

/-- `as i64` -/
def asI64 (n : ℤ) : ℤ := (n + 2 ^ 63) % 2 ^ 64 - 2 ^ 63

/-- The first and the last day of an agent's CA, from the clock. -/
def window (millis : ℕ) : Option ((ℤ × ℤ × ℤ) × (ℤ × ℤ × ℤ)) := do
  let today := asI64 (dayOf millis)
  let notBefore ← civilFromDays (← i64 (today - 1))
  let notAfter ← civilFromDays (← i64 (today + 30))
  return (notBefore, notAfter)

/-- The year of an era is found from the day. The quotients by 1460 and by 36524 are the leap days
before, where the last day of a leap year counts as one of them. -/
lemma yearOfDoe {c q r doy : ℤ} (hc : 0 ≤ c ∧ c ≤ 3) (hq : 0 ≤ q ∧ q ≤ 24) (hr : 0 ≤ r ∧ r ≤ 3)
    (hd0 : 0 ≤ doy) (hd1 : doy ≤ 364 ∨ doy = 365 ∧ r = 3 ∧ (q ≠ 24 ∨ c = 3)) {doe : ℤ}
    (hdoe : doe = 36524 * c + 1461 * q + 365 * r + doy) :
    (doe - doe / 1460 + doe / 36524 - doe / 146096) / 365 = 100 * c + 4 * q + r := by
  have hcentury : doe / 36524 - doe / 146096 = c := by
    rcases eq_or_ne doe 146096 with hend | hend
    · rw [hend]
      omega
    · have hera : doe / 146096 = 0 := by omega
      have hlow : 36524 * c ≤ doe := by omega
      have hhigh : doe < 36524 * (c + 1) := by omega
      rw [hera]
      omega
  have hcycle : doe / 1460 = 25 * c + q + (24 * c + q + 365 * r + doy) / 1460 := by omega
  have hlast : 0 ≤ doy - (24 * c + q + 365 * r + doy) / 1460 ∧
      doy - (24 * c + q + 365 * r + doy) / 1460 ≤ 364 := by omega
  generalize (24 * c + q + 365 * r + doy) / 1460 = last at *
  have hsum : doe - doe / 1460 + doe / 36524 - doe / 146096 =
      365 * (100 * c + 4 * q + r) + (doy - last) := by omega
  rw [hsum]
  omega

/-- A date by the year that begins in March, its months from there and its days from there. -/
lemma Date.Valid.shifted {d : Date} (h : d.Valid) :
    ∃ y mp doy : ℤ, (0 ≤ mp ∧ mp ≤ 11) ∧ (0 ≤ doy ∧ (doy ≤ 364 ∨ doy = 365 ∧ isLeap (y + 1))) ∧
      (5 * doy + 2) / 153 = mp ∧ doy - (153 * mp + 2) / 5 + 1 = d.day ∧
      (if mp < 10 then mp + 3 else mp - 9) = d.month ∧
      (y + if (d.month : ℤ) ≤ 2 then 1 else 0) = d.year ∧
      daysOf d = daysToMarch y + doy - 719468 := by
  obtain ⟨year, month, day⟩ := d
  obtain ⟨⟨hm1, hm2⟩, hd1, hd2⟩ := h
  simp only at hm1 hm2 hd1 hd2
  by_cases hfeb : month = 2
  · subst hfeb
    have hlen : day ≤ 28 ∨ day = 29 ∧ isLeap year = true := by
      simp only [monthLength] at hd2
      split_ifs at hd2 with hleap
      · rcases Nat.lt_or_ge day 29 with hlt | hge
        · exact .inl (Nat.le_of_lt_succ hlt)
        · exact .inr ⟨le_antisymm hd2 hge, hleap⟩
      · exact .inl hd2
    refine ⟨year - 1, 11, 337 + day - 1, by norm_num, ⟨by omega, ?_⟩, by omega, ?_,
      by norm_num, by norm_num, ?_⟩
    · rw [sub_add_cancel]
      exact hlen.imp (by omega) fun h => ⟨by omega, h.2⟩
    · simp only
      omega
    · rw [daysOf_eq]
      norm_num
  · have hlen : monthLength year month = if month ∈ [4, 6, 9, 11] then 30 else 31 := by
      interval_cases month <;> first
        | exact absurd rfl hfeb
        | rfl
    rw [hlen] at hd2
    refine ⟨if month ≤ 2 then year - 1 else year, if month ≤ 2 then month + 9 else month - 3,
      (153 * (if month ≤ 2 then (month : ℤ) + 9 else month - 3) + 2) / 5 + day - 1,
      ?_, ⟨?_, .inl ?_⟩, ?_, by simp only; omega, ?_, ?_, daysOf_eq year month day⟩
    all_goals clear hlen
    all_goals interval_cases month
    all_goals first
      | exact absurd rfl hfeb
      | norm_num at hd2 ⊢
    all_goals omega

lemma yearOfDoe_days {y doy : ℤ} (hd0 : 0 ≤ doy) (hd1 : doy ≤ 364 ∨ doy = 365 ∧ isLeap (y + 1)) :
    let doe := daysBefore (y % 400) + doy
    (0 ≤ doe ∧ doe < 146097) ∧ daysToMarch y + doy = y / 400 * 146097 + doe ∧
      (doe - doe / 1460 + doe / 36524 - doe / 146096) / 365 = y % 400 := by
  have hleap : isLeap (y + 1) = true ↔
      (y + 1) % 4 = 0 ∧ ((y + 1) % 100 ≠ 0 ∨ (y + 1) % 400 = 0) := by simp [isLeap]
  obtain ⟨c, hc⟩ : ∃ c, c = y % 400 / 100 := ⟨_, rfl⟩
  obtain ⟨q, hq⟩ : ∃ q, q = y % 100 / 4 := ⟨_, rfl⟩
  obtain ⟨r, hr⟩ : ∃ r, r = y % 4 := ⟨_, rfl⟩
  have hparts : y % 400 = 100 * c + 4 * q + r := by omega
  have hlast : doy ≤ 364 ∨ doy = 365 ∧ r = 3 ∧ (q ≠ 24 ∨ c = 3) := by
    refine hd1.imp id fun h => ⟨h.1, ?_⟩
    have hy := hleap.mp h.2
    omega
  have hdoe : daysBefore (y % 400) + doy = 36524 * c + 1461 * q + 365 * r + doy := by
    simp only [daysBefore]
    omega
  have hyear := yearOfDoe (by omega) (by omega) (by omega) hd0 hlast hdoe
  refine ⟨by omega, ?_, hyear.trans hparts.symm⟩
  simp only [daysToMarch, daysBefore]
  omega

/-- The formula finds a date from its number, without a cast that changes anything. -/
lemma civilWith_daysOf {u8 i32 : ℤ → ℤ} (hu8 : ∀ n, 0 ≤ n → n < 2 ^ 8 → u8 n = n)
    (hi32 : ∀ n, -2 ^ 31 ≤ n → n < 2 ^ 31 → i32 n = n) {d : Date} (h : d.Valid)
    (hyear : -2 ^ 31 ≤ d.year ∧ d.year < 2 ^ 31) :
    civilWith u8 i32 (daysOf d) = some d.parts := by
  obtain ⟨y, mp, doy, hmp, ⟨hd0, hd1⟩, hmonth, hday, hcal, hy, hdays⟩ := h.shifted
  obtain ⟨hm, hd⟩ := h
  have hlen := monthLength_bounds d.year d.month
  obtain ⟨hdoe, hz, hyoe⟩ := yearOfDoe_days hd0 hd1
  generalize hdoeEq : daysBefore (y % 400) + doy = doe at *
  have hsum : daysOf d + 719468 = y / 400 * 146097 + doe := by omega
  have hdoy : doe - (365 * (y % 400) + y % 400 / 4 - y % 400 / 100) = doy := by
    simp only [daysBefore] at hdoeEq
    omega
  have hybound : -2 ^ 31 ≤ y + 1 ∧ y < 2 ^ 31 := by split_ifs at hy <;> omega
  have hera : (y / 400 * 146097 + doe) / 146097 = y / 400 := by omega
  have hrest : (y / 400 * 146097 + doe) % 146097 = doe := by omega
  have hwide : i64 (y / 400 * 146097 + doe) = some (y / 400 * 146097 + doe) := if_pos (by omega)
  have hfirst : i64 (y / 400 * 400) = some (y / 400 * 400) := if_pos (by omega)
  have hlast : i64 d.year = some d.year := if_pos (by omega)
  have hback : y % 400 + y / 400 * 400 = y := by omega
  have hquot : (doe - doe.tdiv 1460 + doe.tdiv 36524 - doe.tdiv 146096).tdiv 365 = y % 400 := by
    rw [Int.tdiv_eq_ediv_of_nonneg hdoe.1, Int.tdiv_eq_ediv_of_nonneg hdoe.1,
      Int.tdiv_eq_ediv_of_nonneg hdoe.1, Int.tdiv_eq_ediv_of_nonneg (by omega), hyoe]
  have hfour : (y % 400).tdiv 4 = y % 400 / 4 := Int.tdiv_eq_ediv_of_nonneg (by omega)
  have hhundred : (y % 400).tdiv 100 = y % 400 / 100 := Int.tdiv_eq_ediv_of_nonneg (by omega)
  have hmonths : (5 * doy + 2).tdiv 153 = mp := by
    rw [Int.tdiv_eq_ediv_of_nonneg (by omega), hmonth]
  have hdays' : (153 * mp + 2).tdiv 5 = (153 * mp + 2) / 5 :=
    Int.tdiv_eq_ediv_of_nonneg (by omega)
  have h1 : u8 d.day = d.day := hu8 _ (by omega) (by omega)
  have h2 : u8 d.month = d.month := hu8 _ (by omega) (by omega)
  simp only [civilWith, hsum, hwide, Option.bind_eq_bind, Option.bind_some, hera, hrest, hquot,
    hfour, hhundred, hdoy, hmonths, hdays', hday, hcal, h1, h2, hfirst, hback, hy, hlast,
    hi32 _ hyear.1 hyear.2]
  rfl

lemma civilWith_count {u8 i32 : ℤ → ℤ} (hu8 : ∀ n, 0 ≤ n → n < 2 ^ 8 → u8 n = n)
    (hi32 : ∀ n, -2 ^ 31 ≤ n → n < 2 ^ 31 → i32 n = n) {days : ℤ}
    (h1 : -2 ^ 31 ≤ (count days).year) (h2 : (count days).year < 2 ^ 31) :
    civilWith u8 i32 days = some (count days).parts := by
  have heq := civilWith_daysOf hu8 hi32 (count_spec days).1 ⟨h1, h2⟩
  rwa [(count_spec days).2] at heq

lemma civilFromDays_count {days : ℤ} (h1 : -2 ^ 31 ≤ (count days).year)
    (h2 : (count days).year < 2 ^ 31) : civilFromDays days = some (count days).parts := by
  refine civilWith_count (fun n h0 hn => ?_) (fun n h0 hn => ?_) h1 h2
  · exact Int.emod_eq_of_lt h0 hn
  · simp only [asI32]
    omega

/-! ### Years in order -/

lemma daysToMarch_mono : Monotone daysToMarch := by
  refine monotone_int_of_le_succ fun y => ?_
  have h := daysToMarch_succ (y + 1)
  rw [add_sub_cancel_right] at h
  split_ifs at h <;> omega

/-- A day is in its year. -/
lemma Date.Valid.year_bounds {d : Date} (h : d.Valid) :
    daysToMarch (d.year - 1) + 306 ≤ daysOf d + 719468 ∧
      daysOf d + 719468 < daysToMarch d.year + 306 := by
  obtain ⟨y, mp, doy, hmp, ⟨hd0, hd1⟩, hmonth, -, hcal, hy, hdays⟩ := h.shifted
  have hsucc := daysToMarch_succ d.year
  have hstep : daysToMarch (d.year - 1) + 365 ≤ daysToMarch d.year := by
    split_ifs at hsucc <;> omega
  have hd2 : doy ≤ 365 := by omega
  by_cases hfeb : (d.month : ℤ) ≤ 2
  · rw [if_pos hfeb] at hy
    obtain rfl : y = d.year - 1 := by omega
    split_ifs at hcal <;> omega
  · rw [if_neg hfeb, add_zero] at hy
    subst hy
    split_ifs at hcal <;> omega

lemma year_mono {n m : ℤ} (h : n ≤ m) : (count n).year ≤ (count m).year := by
  obtain ⟨hn, hn'⟩ := count_spec n
  obtain ⟨hm, hm'⟩ := count_spec m
  have h1 := hn.year_bounds.1
  have h2 := hm.year_bounds.2
  by_contra hc
  have hle := daysToMarch_mono (show (count m).year ≤ (count n).year - 1 by omega)
  omega

/-- The days of a window are in years of 32 bits, when the last one is. -/
lemma window_years {today : ℤ} (h0 : 0 ≤ today) (h : (count (today + 30)).year < 2 ^ 31) :
    (count (today - 1)).year < 2 ^ 31 ∧ -2 ^ 31 ≤ (count (today - 1)).year ∧ today < 2 ^ 62 := by
  have hfirst : (1969 : ℤ) ≤ (count (today - 1)).year := by
    have hmono := year_mono (n := -1) (m := today - 1) (by omega)
    have hold : (count (-1)).year = 1969 := by decide
    omega
  have hmono := year_mono (n := today - 1) (m := today + 30) (by omega)
  obtain ⟨hvalid, hdays⟩ := count_spec (today + 30)
  have hbound := hvalid.year_bounds.2
  simp only [daysToMarch] at hbound
  omega

lemma asI64_eq {n : ℤ} (h0 : 0 ≤ n) (h : n < 2 ^ 62) : asI64 n = n := by
  simp only [asI64]
  omega

lemma window_eq {millis : ℕ} (hlast : (count (dayOf millis + 30)).year < 2 ^ 31) :
    window millis = some ((count (dayOf millis - 1)).parts, (count (dayOf millis + 30)).parts) := by
  have h0 : 0 ≤ dayOf millis := by
    simp only [dayOf]
    omega
  obtain ⟨hfirst, hlow, hsmall⟩ := window_years h0 hlast
  have hmono := year_mono (m := dayOf millis + 30) (n := dayOf millis - 1) (by omega)
  have hbefore : i64 (dayOf millis - 1) = some (dayOf millis - 1) := if_pos (by omega)
  have hafter : i64 (dayOf millis + 30) = some (dayOf millis + 30) := if_pos (by omega)
  have hfound1 := civilFromDays_count hlow hfirst
  have hfound2 := civilFromDays_count (hlow.trans hmono) hlast
  rw [window, asI64_eq h0 hsmall]
  exact Option.bind_eq_some_iff.mpr ⟨_, hbefore, Option.bind_eq_some_iff.mpr ⟨_, hfound1,
    Option.bind_eq_some_iff.mpr ⟨_, hafter, Option.bind_eq_some_iff.mpr ⟨_, hfound2, rfl⟩⟩⟩⟩

/-- **The engine's dates are the calendar's.** For every day in a year of 32 bits the formula
gives the date that counting the days from the first of January 1970 gets to: no sum runs over,
the month and the day are ones that are there, and no cast changes what is cast. So the window of
an agent's CA opens on the day before and closes on the thirtieth day after. -/
theorem civilFromDays_eq_count :
    (∀ days : ℤ, -2 ^ 31 ≤ (count days).year → (count days).year < 2 ^ 31 →
      civilFromDays days = some (count days).parts ∧ (count days).Valid ∧
        civilWith id id days = civilFromDays days) ∧
    ∀ millis : ℕ, (count (dayOf millis + 30)).year < 2 ^ 31 →
      window millis = some ((count (dayOf millis - 1)).parts,
        (count (dayOf millis + 30)).parts) := by
  refine ⟨fun days h1 h2 => ?_, fun millis hlast => window_eq hlast⟩
  have heq := civilFromDays_count h1 h2
  exact ⟨heq, (count_spec days).1, (civilWith_count (fun _ _ _ => rfl) (fun _ _ _ => rfl)
    h1 h2).trans heq.symm⟩

theorem civilFromDays_eq_count_epoch :
    civilFromDays 0 = some (1970, 1, 1) ∧ window 0 = some ((1969, 12, 31), (1970, 1, 31)) :=
  ⟨(civilFromDays_eq_count.1 0 (by decide) (by decide)).1,
    civilFromDays_eq_count.2 0 (by decide)⟩

end Bimo.Timestamp
