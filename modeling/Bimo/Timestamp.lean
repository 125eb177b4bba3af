import Mathlib

/-!
Points in time and the text they are written as.

A time is a number of milliseconds, and its text is the calendar date and the clock time at
Greenwich, with four digits for the year where these are enough and a sign and six digits
where they are not. A text is the text of a time when it reads back to one that is written in
exactly that way.
-/

namespace Bimo.Timestamp

/-! ### Digits -/

def digit (n : ℕ) : Char := Char.ofNat (48 + n % 10)

def pad : ℕ → ℕ → List Char
  | 0, _ => []
  | w + 1, n => pad w (n / 10) ++ [digit n]

def number (cs : List Char) : ℕ := cs.foldl (fun n c => 10 * n + (c.toNat - 48)) 0

lemma toNat_digit (n : ℕ) : (digit n).toNat - 48 = n % 10 := by
  have hall : ∀ m < 10, (Char.ofNat (48 + m)).toNat - 48 = m := by decide
  exact hall _ (Nat.mod_lt _ (by decide))

@[simp] lemma length_pad (w n : ℕ) : (pad w n).length = w := by
  induction w generalizing n with
  | zero => rfl
  | succ w ih => simp [pad, ih]

lemma number_pad {w n : ℕ} (h : n < 10 ^ w) : number (pad w n) = n := by
  induction w generalizing n with
  | zero =>
      rw [pow_zero] at h
      simp [pad, number]
      omega
  | succ w ih =>
      have hn : n / 10 < 10 ^ w := by
        rw [pow_succ] at h
        omega
      have hrec := ih hn
      simp only [number] at hrec
      simp only [number, pad, List.foldl_append, List.foldl_cons, List.foldl_nil, hrec, toNat_digit]
      omega

/-! ### The calendar -/

structure Date where
  year : ℤ
  month : ℕ
  day : ℕ
  deriving DecidableEq, Repr

/-- The centuries, the four-year cycles and the years before a day of an era. An era has 400
years and a year starts in March, so that the day that is not always there comes last, in a
year as in a century and in the era. -/
def century (doe : ℤ) : ℤ := min (doe / 36524) 3

def cycle (doe : ℤ) : ℤ := (doe - 36524 * century doe) / 1461

def yearOfCycle (doe : ℤ) : ℤ :=
  min ((doe - 36524 * century doe - 1461 * cycle doe) / 365) 3

def yearOfEra (doe : ℤ) : ℤ := 100 * century doe + 4 * cycle doe + yearOfCycle doe

/-- The days of an era before a year. -/
def daysBefore (yoe : ℤ) : ℤ := 365 * yoe + yoe / 4 - yoe / 100

/-- The months from March on, by day of the year. -/
def monthOfYear (doy : ℤ) : ℤ := (5 * doy + 2) / 153

/-- The date with this day in this year of this era. -/
def dateIn (era yoe doy : ℤ) : Date :=
  let mp := monthOfYear doy
  let month := if mp < 10 then mp + 3 else mp - 9
  { year := yoe + era * 400 + (if month ≤ 2 then 1 else 0)
    month := month.toNat
    day := (doy - (153 * mp + 2) / 5 + 1).toNat }

def dateOf (days : ℤ) : Date :=
  let z := days + 719468
  let doe := z % 146097
  dateIn (z / 146097) (yearOfEra doe) (doe - daysBefore (yearOfEra doe))

def daysOf (d : Date) : ℤ :=
  let y := if d.month ≤ 2 then d.year - 1 else d.year
  let mp : ℤ := if d.month ≤ 2 then d.month + 9 else d.month - 3
  y / 400 * 146097 + (daysBefore (y % 400) + ((153 * mp + 2) / 5 + d.day - 1)) - 719468

section Calendar

variable {doe doy era yoe : ℤ}

/-- A day of an era falls into one of its 400 years, and into one of the 366 days of that. -/
lemma yearOfEra_bounds (h0 : 0 ≤ doe) (h1 : doe < 146097) :
    (0 ≤ yearOfEra doe ∧ yearOfEra doe ≤ 399) ∧
      0 ≤ doe - daysBefore (yearOfEra doe) ∧ doe - daysBefore (yearOfEra doe) ≤ 365 := by
  have hc : 0 ≤ century doe ∧ century doe ≤ 3 ∧ 36524 * century doe ≤ doe ∧
      doe ≤ 36524 * century doe + 36524 := by
    simp only [century]
    omega
  have hq : 0 ≤ cycle doe ∧ cycle doe ≤ 24 ∧ 1461 * cycle doe ≤ doe - 36524 * century doe ∧
      doe - 36524 * century doe ≤ 1461 * cycle doe + 1460 := by
    simp only [cycle]
    omega
  have hy : 0 ≤ yearOfCycle doe ∧ yearOfCycle doe ≤ 3 ∧
      365 * yearOfCycle doe ≤ doe - 36524 * century doe - 1461 * cycle doe ∧
      doe - 36524 * century doe - 1461 * cycle doe ≤ 365 * yearOfCycle doe + 365 := by
    simp only [yearOfCycle]
    omega
  have h4 : yearOfEra doe / 4 = 25 * century doe + cycle doe := by
    simp only [yearOfEra]
    omega
  have h100 : yearOfEra doe / 100 = century doe := by
    simp only [yearOfEra]
    omega
  simp only [daysBefore, h4, h100]
  simp only [yearOfEra]
  omega

lemma monthOfYear_bounds (h0 : 0 ≤ doy) (h1 : doy ≤ 365) :
    (0 ≤ monthOfYear doy ∧ monthOfYear doy ≤ 11) ∧
      1 ≤ doy - (153 * monthOfYear doy + 2) / 5 + 1 ∧
      doy - (153 * monthOfYear doy + 2) / 5 + 1 ≤ 31 := by
  simp only [monthOfYear]
  omega

lemma dateIn_bounds (h0 : 0 ≤ doy) (h1 : doy ≤ 365) :
    (dateIn era yoe doy).month < 100 ∧ (dateIn era yoe doy).day < 100 := by
  obtain ⟨hm, hd⟩ := monthOfYear_bounds h0 h1
  refine ⟨?_, ?_⟩
  · simp only [dateIn]
    split_ifs <;> omega
  · simp only [dateIn]
    omega

lemma daysOf_dateIn (hy0 : 0 ≤ yoe) (hy1 : yoe ≤ 399) (h0 : 0 ≤ doy) (h1 : doy ≤ 365) :
    daysOf (dateIn era yoe doy) = era * 146097 + (daysBefore yoe + doy) - 719468 := by
  obtain ⟨hm, hd⟩ := monthOfYear_bounds h0 h1
  have hera : (yoe + era * 400) / 400 = era := by omega
  have hyoe : (yoe + era * 400) % 400 = yoe := by omega
  simp only [daysOf, dateIn]
  rcases lt_or_ge (monthOfYear doy) 10 with hmp | hmp
  · have hmonth : ¬ (monthOfYear doy + 3).toNat ≤ 2 := by omega
    have hback : ((monthOfYear doy + 3).toNat : ℤ) - 3 = monthOfYear doy := by omega
    simp only [if_pos hmp, if_neg hmonth, if_neg (show ¬ monthOfYear doy + 3 ≤ 2 by omega),
      add_zero, hera, hyoe, hback]
    omega
  · have hmonth : (monthOfYear doy - 9).toNat ≤ 2 := by omega
    have hback : ((monthOfYear doy - 9).toNat : ℤ) + 9 = monthOfYear doy := by omega
    simp only [if_neg (not_lt.mpr hmp), if_pos hmonth,
      if_pos (show monthOfYear doy - 9 ≤ 2 by omega), add_sub_cancel_right, hera, hyoe, hback]
    omega

end Calendar

/-- The day of an era that a day is. -/
lemma doe_bounds (days : ℤ) :
    0 ≤ (days + 719468) % 146097 ∧ (days + 719468) % 146097 < 146097 := by
  omega

lemma dateOf_bounds (days : ℤ) : (dateOf days).month < 100 ∧ (dateOf days).day < 100 := by
  obtain ⟨h0, h1⟩ := doe_bounds days
  obtain ⟨-, hd0, hd1⟩ := yearOfEra_bounds h0 h1
  exact dateIn_bounds hd0 hd1

/-- A day is found again from its date. -/
lemma daysOf_dateOf (days : ℤ) : daysOf (dateOf days) = days := by
  obtain ⟨h0, h1⟩ := doe_bounds days
  obtain ⟨⟨hy0, hy1⟩, hd0, hd1⟩ := yearOfEra_bounds h0 h1
  rw [dateOf, daysOf_dateIn hy0 hy1 hd0 hd1]
  omega

/-- A day less than 100 million days from the epoch is in a year of at most six digits. -/
lemma natAbs_year_dateOf {days : ℤ} (h : days.natAbs ≤ 100000000) :
    (dateOf days).year.natAbs < 1000000 := by
  obtain ⟨h0, h1⟩ := doe_bounds days
  obtain ⟨⟨hy0, hy1⟩, -⟩ := yearOfEra_bounds h0 h1
  simp only [dateOf, dateIn]
  generalize yearOfEra ((days + 719468) % 146097) = yoe at *
  split_ifs <;> omega

/-! ### The text of a time -/

/-- The largest number of milliseconds before or after the epoch that a time can have. -/
def maxTime : ℕ := 8640000000000000

def yearText (y : ℤ) : List Char :=
  if 0 ≤ y ∧ y ≤ 9999 then pad 4 y.toNat
  else (if 0 ≤ y then '+' else '-') :: pad 6 y.natAbs

/-- The text after the year. -/
def restText (month day ms : ℕ) : List Char :=
  '-' :: (pad 2 month ++ '-' :: (pad 2 day ++ 'T' :: (pad 2 (ms / 3600000) ++
    ':' :: (pad 2 (ms / 60000 % 60) ++ ':' :: (pad 2 (ms / 1000 % 60) ++
      '.' :: (pad 3 (ms % 1000) ++ ['Z']))))))

def toISOString (t : ℤ) : String :=
  let d := dateOf (t / 86400000)
  String.ofList (yearText d.year ++ restText d.month d.day (t % 86400000).toNat)

/-- The sign and the digits of the year, and what comes after it. -/
def splitYear : List Char → ℤ × List Char
  | '+' :: cs => (number (cs.take 6), cs.drop 6)
  | '-' :: cs => (-number (cs.take 6), cs.drop 6)
  | cs => (number (cs.take 4), cs.drop 4)

/-- The number written in some of the characters. -/
def field (cs : List Char) (i w : ℕ) : ℕ := number ((cs.drop i).take w)

/-- The time a text in this form stands for. -/
def ofISOString (s : String) : ℤ :=
  let (year, cs) := splitYear s.toList
  daysOf ⟨year, field cs 1 2, field cs 4 2⟩ * 86400000 + (field cs 7 2 * 3600000 +
    field cs 10 2 * 60000 + field cs 13 2 * 1000 + field cs 16 3 : ℕ)

/-- The text is a time's own text. -/
def validStoredTimestamp (s : String) : Bool :=
  decide ((ofISOString s).natAbs ≤ maxTime ∧ toISOString (ofISOString s) = s)

lemma isDigit_digit (n : ℕ) : (digit n).isDigit = true := by
  have hall : ∀ m < 10, (Char.ofNat (48 + m)).isDigit = true := by decide
  exact hall _ (Nat.mod_lt _ (by decide))

lemma isDigit_of_mem_pad {w n : ℕ} {c : Char} (h : c ∈ pad w n) : c.isDigit = true := by
  induction w generalizing n with
  | zero => cases h
  | succ w ih =>
      rcases List.mem_append.mp h with h | h
      · exact ih h
      · rw [List.mem_singleton.mp h]
        exact isDigit_digit n

lemma splitYear_of_digit {c : Char} (h : c.isDigit = true) (cs : List Char) :
    splitYear (c :: cs) = ((number ((c :: cs).take 4) : ℤ), (c :: cs).drop 4) := by
  unfold splitYear
  split
  · rename_i heq
    obtain ⟨rfl, -⟩ := List.cons.inj heq
    exact absurd h (by decide)
  · rename_i heq
    obtain ⟨rfl, -⟩ := List.cons.inj heq
    exact absurd h (by decide)
  · rfl

/-- The year is found again in front of anything. -/
lemma splitYear_yearText {y : ℤ} (h : y.natAbs < 1000000) (cs : List Char) :
    splitYear (yearText y ++ cs) = (y, cs) := by
  unfold yearText
  split_ifs with h4 h0
  · have hy : y.toNat < 10 ^ 4 := by omega
    obtain ⟨c, ds, hpad⟩ := List.exists_cons_of_length_pos
      (show 0 < (pad 4 y.toNat).length by simp)
    have hc : c.isDigit = true := isDigit_of_mem_pad (w := 4) (n := y.toNat) (by simp [hpad])
    have hlen : (c :: ds).length = 4 := by rw [← hpad, length_pad]
    rw [hpad, List.cons_append, splitYear_of_digit hc, ← List.cons_append,
      List.take_left' hlen, List.drop_left' hlen, ← hpad, number_pad hy, Int.toNat_of_nonneg h4.1]
  · rw [List.cons_append, splitYear, List.take_left' (length_pad 6 _),
      List.drop_left' (length_pad 6 _), number_pad (by omega), Int.natAbs_of_nonneg h0]
  · rw [List.cons_append, splitYear, List.take_left' (length_pad 6 _),
      List.drop_left' (length_pad 6 _), number_pad (by omega)]
    congr 1
    omega

/-- Every number after the year stands where it is looked for. -/
lemma field_restText {month day ms : ℕ} (hm : month < 100) (hd : day < 100)
    (hms : ms < 86400000) :
    field (restText month day ms) 1 2 = month ∧ field (restText month day ms) 4 2 = day ∧
      field (restText month day ms) 7 2 = ms / 3600000 ∧
      field (restText month day ms) 10 2 = ms / 60000 % 60 ∧
      field (restText month day ms) 13 2 = ms / 1000 % 60 ∧
      field (restText month day ms) 16 3 = ms % 1000 := by
  have hhour := number_pad (w := 2) (n := ms / 3600000) (by omega)
  have hminute := number_pad (w := 2) (n := ms / 60000 % 60) (by omega)
  have hsecond := number_pad (w := 2) (n := ms / 1000 % 60) (by omega)
  have hmilli := number_pad (w := 3) (n := ms % 1000) (by omega)
  exact ⟨number_pad (w := 2) hm, number_pad (w := 2) hd, hhour, hminute, hsecond, hmilli⟩

lemma ofISOString_toISOString {t : ℤ} (h : t.natAbs ≤ maxTime) :
    ofISOString (toISOString t) = t := by
  have hdays : (t / 86400000).natAbs ≤ 100000000 := by
    simp only [maxTime] at h
    omega
  have hms : (t % 86400000).toNat < 86400000 := by omega
  obtain ⟨hmonth, hday⟩ := dateOf_bounds (t / 86400000)
  obtain ⟨h1, h2, h3, h4, h5, h6⟩ := field_restText hmonth hday hms
  have hback := daysOf_dateOf (t / 86400000)
  simp only [ofISOString, toISOString, String.toList_ofList,
    splitYear_yearText (natAbs_year_dateOf hdays), h1, h2, h3, h4, h5, h6, hback]
  omega

/-- A time's text is accepted as one. -/
theorem validStoredTimestamp_toISOString {t : ℤ} (h : t.natAbs ≤ maxTime) :
    validStoredTimestamp (toISOString t) = true := by
  simp only [validStoredTimestamp, ofISOString_toISOString h, decide_eq_true_eq]
  exact ⟨h, trivial⟩

example : toISOString 1709164800123 = "2024-02-29T00:00:00.123Z" := by decide +kernel

example : toISOString (-62198755200000) = "-000001-01-01T00:00:00.000Z" := by decide +kernel

end Bimo.Timestamp
