import Bimo.Utf8

/-!
The reader of a worker's output.

A thread reads what the worker writes in whatever pieces it comes and hands on one value for each
line. It never holds more than one byte above the limit: a piece is looked at only as far as the
line may still grow. What it hands on does not depend on the pieces. The limit is on the bytes
before the newline, a carriage return among them.
-/

namespace Bimo.LineReader

/-! ### The thread -/

/-- What the reader has in its buffer and what comes after it; no piece is empty. -/
abbrev Pieces := List (List UInt8)

def newline : UInt8 := 10

def carriageReturn : UInt8 := 13

/-- The first bytes of what is available are done with. -/
def consume (k : ℕ) : Pieces → Pieces
  | [] => []
  | available :: rest => if available.drop k = [] then rest else available.drop k :: rest

/-- How the bytes of a line end. -/
inductive LineEnd
  | terminated (line : List UInt8) (left : Pieces)
  | unterminated (line : List UInt8)
  | oversized
  /-- The output can't be read any more. -/
  | failed
  deriving DecidableEq, Repr

/-- The inner loop, with the line so far. The output ends, or it fails, when there is no piece
left. -/
def readLine (max : ℕ) (fails : Bool) : List UInt8 → Pieces → LineEnd
  | line, [] => if fails then .failed else .unterminated line
  | line, available :: rest =>
    let limit := min (max + 1 - line.length) available.length
    let slice := available.take limit
    match slice.idxOf? newline with
    | some i => .terminated (line ++ slice.take i) (consume (i + 1) (available :: rest))
    | none =>
      let line := line ++ slice
      if line.length > max then .oversized
      -- all that was available is consumed: the limit is not reached
      else readLine max fails line rest

/-- A line without the carriage return at its end. -/
def dropCr (line : List UInt8) : List UInt8 :=
  if line.getLast? = some carriageReturn then line.dropLast else line

def oversizedMark : String := "\x7b\"oversized\":true\x7d"

def malformedMark : String := "\x7b\"malformed\":true\x7d"

/-- The value a line is handed on as. -/
def value (max : ℕ) (line : List UInt8) : Option String :=
  match Utf8.decode line with
  | some cs => if (Utf8.encode cs).length ≤ max then some (String.ofList cs) else none
  | none => none

def size (pieces : Pieces) : ℕ := (pieces.map List.length).sum

lemma size_consume {i : ℕ} {available : List UInt8} {rest : Pieces} (h : i < available.length) :
    size (consume (i + 1) (available :: rest)) < size (available :: rest) := by
  have hdrop : (available.drop (i + 1)).length = available.length - (i + 1) := List.length_drop
  unfold consume
  dsimp only
  split_ifs with hnil <;> simp only [size, List.map_cons, List.sum_cons] <;> omega

lemma size_of_terminated {max : ℕ} {fails : Bool} {line full : List UInt8} {pieces left : Pieces}
    (h : readLine max fails line pieces = .terminated full left) : size left < size pieces := by
  induction pieces generalizing line with
  | nil =>
    unfold readLine at h
    split_ifs at h
  | cons available rest ih =>
    unfold readLine at h
    dsimp only at h
    split at h
    · rename_i i hi
      obtain ⟨-, rfl⟩ := LineEnd.terminated.inj h
      refine size_consume ?_
      obtain ⟨hlt, -⟩ := List.idxOf?_eq_some_iff.mp hi
      rw [List.length_take] at hlt
      omega
    · split_ifs at h
      have := ih h
      simp only [size, List.map_cons, List.sum_cons] at this ⊢
      omega

/-- The outer loop: the values that are sent. -/
def sent (max : ℕ) (fails : Bool) (pieces : Pieces) : List String :=
  match _h : readLine max fails [] pieces with
  | .failed => []
  | .oversized => [oversizedMark]
  | .unterminated line =>
    if dropCr line = [] then []
    else match value max (dropCr line) with
      | some v => [v]
      | none => [malformedMark]
  | .terminated line left =>
    match value max (dropCr line) with
    | some v => v :: sent max fails left
    | none => [malformedMark]
termination_by size pieces
decreasing_by exact size_of_terminated _h

lemma sent_eq (max : ℕ) (fails : Bool) (pieces : Pieces) :
    sent max fails pieces = match readLine max fails [] pieces with
      | .failed => []
      | .oversized => [oversizedMark]
      | .unterminated line =>
        if dropCr line = [] then []
        else match value max (dropCr line) with
          | some v => [v]
          | none => [malformedMark]
      | .terminated line left =>
        match value max (dropCr line) with
        | some v => v :: sent max fails left
        | none => [malformedMark] := by
  rw [sent]
  split <;> rename_i h <;> rw [h]

/-! ### What is to be sent -/

/-- The values of the lines of a text, the last of which has no newline behind it. -/
def expected (max : ℕ) (fails : Bool) : List (List UInt8) → List String
  | [] => []
  | [line] =>
    if line.length > max then [oversizedMark]
    else if fails ∨ dropCr line = [] then []
    else match Utf8.decode (dropCr line) with
      | some cs => [String.ofList cs]
      | none => [malformedMark]
  | line :: lines =>
    if line.length > max then [oversizedMark]
    else match Utf8.decode (dropCr line) with
      | some cs => String.ofList cs :: expected max fails lines
      | none => [malformedMark]

/-! ### Lines do not depend on the pieces -/

/-- No piece is empty, since an empty one is the end. -/
def Full (pieces : Pieces) : Prop := ∀ p ∈ pieces, p ≠ []

lemma flatten_consume {k : ℕ} {available : List UInt8} {rest : Pieces} :
    (consume k (available :: rest)).flatten = available.drop k ++ rest.flatten := by
  unfold consume
  dsimp only
  split_ifs with h
  · rw [h, List.nil_append]
  · rw [List.flatten_cons]

lemma Full.consume {k : ℕ} {pieces : Pieces} (h : Full pieces) : Full (consume k pieces) := by
  cases pieces with
  | nil => exact h
  | cons available rest =>
    have hrest : Full rest := fun p hp => h p (List.mem_cons_of_mem _ hp)
    unfold LineReader.consume
    dsimp only
    split_ifs with hnil
    · exact hrest
    · rintro p (- | ⟨_, hp⟩)
      · exact hnil
      · exact hrest p hp

section

variable {max : ℕ} {fails : Bool} {line a b : List UInt8} {pieces : Pieces}

lemma idxOf?_of_notMem {l : List UInt8} (h : newline ∉ l) : l.idxOf? newline = none :=
  List.idxOf?_eq_none_iff.mpr h

lemma idxOf?_append_cons (h : newline ∉ a) :
    (a ++ newline :: b).idxOf? newline = some a.length := by
  rw [List.idxOf?_eq_some_iff]
  refine ⟨by simp, by simp, fun j hj => ?_⟩
  rw [List.getElem_append_left hj]
  exact fun heq => h (heq ▸ List.getElem_mem hj)

/-- A piece that goes past the limit without a newline before it. -/
lemma readLine_over {available : List UInt8} (ha : newline ∉ a) (hav : a <+: available)
    (hline : line.length ≤ max) (hover : max < line.length + a.length) :
    readLine max fails line (available :: pieces) = .oversized := by
  obtain ⟨c, rfl⟩ := hav
  have hlimit : min (max + 1 - line.length) (a ++ c).length = max + 1 - line.length := by
    rw [List.length_append]
    omega
  have htake : (a ++ c).take (max + 1 - line.length) = a.take (max + 1 - line.length) :=
    List.take_append_of_le_length (by omega)
  unfold readLine
  dsimp only
  rw [hlimit, htake, idxOf?_of_notMem fun hmem => ha (List.mem_of_mem_take hmem)]
  dsimp only
  rw [if_pos]
  rw [List.length_append, List.length_take]
  omega

/-- A piece without a newline that the line has room for. -/
lemma readLine_within (ha : newline ∉ a) (hroom : line.length + a.length ≤ max) :
    readLine max fails line (a :: pieces) = readLine max fails (line ++ a) pieces := by
  have hlimit : min (max + 1 - line.length) a.length = a.length := by omega
  rw [readLine]
  dsimp only
  rw [hlimit, List.take_length, idxOf?_of_notMem ha]
  dsimp only
  rw [if_neg]
  rw [List.length_append]
  omega

/-- A piece with a newline within the limit. -/
lemma readLine_newline (ha : newline ∉ a) (hroom : line.length + a.length ≤ max) :
    readLine max fails line ((a ++ newline :: b) :: pieces) =
      .terminated (line ++ a) (consume (a.length + 1) ((a ++ newline :: b) :: pieces)) := by
  have hpos : a.length < min (max + 1 - line.length) (a ++ newline :: b).length := by
    rw [List.length_append, List.length_cons]
    omega
  obtain ⟨k, hk⟩ := Nat.exists_eq_add_of_lt hpos
  have htake : (a ++ newline :: b).take (a.length + k + 1) = a ++ newline :: b.take k := by
    rw [Nat.add_assoc, List.take_length_add_append, List.take_succ_cons]
  unfold readLine
  dsimp only
  rw [hk, htake, idxOf?_append_cons ha]
  dsimp only
  rw [List.take_left]

/-- Two texts that are one have one first line. -/
lemma first_line {a' b' : List UInt8} (ha : newline ∉ a) (ha' : newline ∉ a')
    (h : a ++ newline :: b = a' ++ newline :: b') : a = a' ∧ b = b' := by
  have hidx := congrArg (List.idxOf? newline) h
  rw [idxOf?_append_cons ha, idxOf?_append_cons ha'] at hidx
  obtain ⟨rfl, htail⟩ := List.append_inj h (Option.some.inj hidx)
  exact ⟨rfl, (List.cons.inj htail).2⟩

/-- What a piece without a newline begins. -/
lemma begins {available rest : List UInt8} (hav : newline ∉ available)
    (h : available ++ rest = a ++ newline :: b) :
    ∃ c, a = available ++ c ∧ rest = c ++ newline :: b := by
  rcases List.append_eq_append_iff.mp h with ⟨c, rfl, hc⟩ | ⟨c, hc, hrest⟩
  · exact ⟨c, rfl, hc⟩
  · cases c with
    | nil => exact ⟨[], by simpa using hc.symm, by simpa using hrest.symm⟩
    | cons x c =>
      obtain ⟨rfl, -⟩ := List.cons.inj hrest
      exact absurd (hc ▸ List.mem_append_right _ List.mem_cons_self) hav

/-- The bytes up to a newline are a line, wherever the pieces begin and end. -/
lemma readLine_line (hfull : Full pieces) (h : pieces.flatten = a ++ newline :: b)
    (ha : newline ∉ a) (hline : line.length ≤ max) :
    if max < line.length + a.length then readLine max fails line pieces = .oversized
    else ∃ left, readLine max fails line pieces = .terminated (line ++ a) left ∧
      left.flatten = b ∧ Full left := by
  induction pieces generalizing line a with
  | nil => simp at h
  | cons available rest ih =>
    rw [List.flatten_cons] at h
    by_cases hmem : newline ∈ available
    · -- the newline is in this piece
      obtain ⟨a', b', rfl, ha'⟩ := List.eq_append_cons_of_mem hmem
      rw [List.append_assoc, List.cons_append] at h
      obtain ⟨rfl, hb⟩ := first_line ha' ha h
      split_ifs with hover
      · exact readLine_over ha (List.prefix_append _ _) hline hover
      · refine ⟨_, readLine_newline ha (not_lt.mp hover), ?_, hfull.consume⟩
        rw [flatten_consume, ← hb, List.drop_append, List.drop_of_length_le (by omega),
          List.nil_append, Nat.add_sub_cancel_left, List.drop_succ_cons, List.drop_zero]
    · -- the piece is the beginning of the line
      obtain ⟨c, rfl, hrest⟩ := begins hmem h
      have hc : newline ∉ c := fun hin => ha (List.mem_append_right _ hin)
      by_cases hroom : line.length + available.length ≤ max
      · have hsum : (line ++ available).length ≤ max := by rw [List.length_append]; exact hroom
        have hnext := ih (fun p hp => hfull p (List.mem_cons_of_mem _ hp)) hrest hc hsum
        rw [readLine_within hmem hroom, ← List.append_assoc]
        rw [List.length_append, Nat.add_assoc, ← List.length_append] at hnext
        exact hnext
      · rw [if_pos (by rw [List.length_append]; omega)]
        exact readLine_over hmem (List.prefix_refl _) hline (by omega)

/-- Bytes without a newline are the last line. -/
lemma readLine_last (h : newline ∉ pieces.flatten) (hline : line.length ≤ max) :
    readLine max fails line pieces =
      if max < line.length + pieces.flatten.length then .oversized
      else if fails then .failed else .unterminated (line ++ pieces.flatten) := by
  induction pieces generalizing line with
  | nil =>
    rw [if_neg (by simpa using hline)]
    simp [readLine]
  | cons available rest ih =>
    rw [List.flatten_cons, List.mem_append, not_or] at h
    rw [List.flatten_cons]
    by_cases hroom : line.length + available.length ≤ max
    · have hsum : (line ++ available).length ≤ max := by rw [List.length_append]; exact hroom
      rw [readLine_within h.1 hroom, ih h.2 hsum, ← List.append_assoc, List.length_append,
        List.length_append, Nat.add_assoc]
    · rw [if_pos (by rw [List.length_append]; omega)]
      exact readLine_over h.1 (List.prefix_refl _) hline (by omega)

end

/-! ### The values -/

lemma length_dropCr (line : List UInt8) : (dropCr line).length ≤ line.length := by
  unfold dropCr
  split_ifs
  · rw [List.length_dropLast]
    omega
  · exact le_rfl

/-- The check on a value never fails: the line was within the limit. -/
lemma value_of_length {max : ℕ} {line : List UInt8} (h : line.length ≤ max) :
    value max line = (Utf8.decode line).map String.ofList := by
  unfold value
  cases hcs : Utf8.decode line with
  | none => rfl
  | some cs =>
    have hlen : (Utf8.encode cs).length ≤ max := Utf8.decode_eq_some.mp hcs ▸ h
    dsimp only
    rw [if_pos hlen]
    rfl

/-- The values of lines, the first of which ends in a newline. -/
lemma expected_cons (max : ℕ) (fails : Bool) (line : List UInt8) {lines : List (List UInt8)}
    (h : lines ≠ []) :
    expected max fails (line :: lines) = if line.length > max then [oversizedMark]
      else match Utf8.decode (dropCr line) with
        | some cs => String.ofList cs :: expected max fails lines
        | none => [malformedMark] := by
  obtain ⟨next, lines, rfl⟩ := List.exists_cons_of_ne_nil h
  rfl

/-- **What the reader hands on is a matter of the bytes alone.** However the output of a worker is
cut into pieces, and for every limit, the values that are sent are those of its lines: each
without one carriage return at its end, up to the first that has more bytes before its newline
than the limit, which is marked as oversized, or the first that is not UTF-8, which is marked as
malformed; what follows the last newline is one more line, unless nothing is left of it. -/
theorem sent_eq_expected (max : ℕ) (fails : Bool) {pieces : Pieces} (h : Full pieces) :
    sent max fails pieces = expected max fails (pieces.flatten.splitOn newline) := by
  induction hn : pieces.flatten.length using Nat.strong_induction_on generalizing pieces with
  | _ n ih =>
  rw [sent_eq]
  by_cases hmem : newline ∈ pieces.flatten
  · obtain ⟨a, b, hab, ha⟩ := List.eq_append_cons_of_mem hmem
    have hsplit : pieces.flatten.splitOn newline = a :: b.splitOn newline := by
      rw [hab, List.splitOn_append_cons_self, List.splitOn_eq_singleton ha]
      rfl
    have hline := @readLine_line max fails [] a b pieces h hab ha (Nat.zero_le _)
    rw [hsplit, expected_cons _ _ _ (List.splitOn_ne_nil _ _)]
    rw [List.length_nil, Nat.zero_add] at hline
    split_ifs at hline with hover
    · rw [if_pos hover, hline]
    · rw [if_neg hover]
      obtain ⟨left, hleft, rfl, hfull⟩ := hline
      have hlen : left.flatten.length < n := by
        rw [← hn, hab, List.length_append, List.length_cons]
        omega
      have hvalue := @value_of_length max _ ((length_dropCr a).trans (not_lt.mp hover))
      rw [List.nil_append] at hleft
      rw [hleft]
      dsimp only
      rw [hvalue, ih _ hlen hfull rfl]
      cases Utf8.decode (dropCr a) <;> rfl
  · have hline := @readLine_last max fails [] pieces hmem (Nat.zero_le _)
    rw [List.length_nil, Nat.zero_add, List.nil_append] at hline
    rw [List.splitOn_eq_singleton hmem, expected]
    split_ifs at hline with hover hfails
    · rw [if_pos hover, hline]
    · rw [if_neg hover, if_pos (.inl hfails), hline]
    · have hvalue := @value_of_length max _
        ((length_dropCr pieces.flatten).trans (not_lt.mp hover))
      rw [if_neg hover, hline]
      dsimp only
      by_cases hnil : dropCr pieces.flatten = []
      · rw [if_pos hnil, if_pos (.inr hnil)]
      · rw [if_neg hnil, if_neg (not_or.mpr ⟨hfails, hnil⟩), hvalue]
        cases Utf8.decode (dropCr pieces.flatten) <;> rfl

/-- Two lines, cut between the first and its end. -/
theorem sent_eq_expected_sample :
    sent 2 false [[97], [13, 10, 98]] = ["a", "b"] :=
  (sent_eq_expected 2 false (by simp [Full])).trans (by decide)

/-- A line that is as long as the limit without its carriage return is marked as oversized. -/
theorem oversized_by_carriage_return :
    sent 1 false [[97, 13, 10]] = [oversizedMark] ∧ [[97, 13, 10]].flatten.splitOn newline =
      [[97, 13], []] ∧ dropCr [97, 13] = [97] ∧ Utf8.decode [97] = some ['a'] := by
  have hline : readLine 1 false [] [[97, 13, 10]] = .oversized := by decide
  refine ⟨?_, by decide, by decide, by decide⟩
  rw [sent_eq, hline]

end Bimo.LineReader
