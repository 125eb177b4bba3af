import Mathlib.Tactic.Common
import Bimo.Prog

/-!
The head of a request to the tenant proxy's front.

The front reads from a client until there is a blank line in what it has. It gives up when that
is more than a limit, and what it measures is all that has come, with the bytes behind the blank
line that happened to come with it. So a head that ends close below the limit is taken or not,
depending on how the client's bytes were cut on the way.
-/

namespace Bimo.Front

/-- The end of a head. -/
def blank : List UInt8 := [13, 10, 13, 10]

def maxHead : ℕ := 64 * 1024

/-- The most that is received at a time. -/
def recvSize : ℕ := 8192

/-- What comes before and after the first blank line. -/
def splitHead : List UInt8 → Option (List UInt8 × List UInt8)
  | [] => none
  | b :: bs =>
    if blank.isPrefixOf (b :: bs) then some ([], (b :: bs).drop 4)
    else (splitHead bs).map fun (head, rest) => (b :: head, rest)

/-- The head and what came with it, if there is a head, and what is still to be received. -/
def readHead (data : List UInt8) (chunks : List (List UInt8)) :
    Option (List UInt8 × List UInt8) × List (List UInt8) :=
  match splitHead data with
  | some split => (some split, chunks)
  | none =>
    match chunks with
    | [] => (none, [])
    | chunk :: chunks =>
      if chunk = [] then (none, chunks)
      else if (data ++ chunk).length > maxHead then (none, chunks)
      else readHead (data ++ chunk) chunks

/-! ### The first blank line -/

lemma eq_of_splitHead {data head rest : List UInt8} (h : splitHead data = some (head, rest)) :
    data = head ++ blank ++ rest := by
  induction data generalizing head with
  | nil => cases h
  | cons b bs ih =>
    rw [splitHead] at h
    split_ifs at h with hblank
    · obtain ⟨rfl, rfl⟩ := Prod.mk.inj (Option.some.inj h)
      obtain ⟨t, ht⟩ := List.isPrefixOf_iff_prefix.mp hblank
      rw [← ht]
      rfl
    · obtain ⟨⟨head', rest'⟩, hsplit, heq⟩ := Option.map_eq_some_iff.mp h
      obtain ⟨rfl, rfl⟩ := Prod.mk.inj heq
      rw [ih hsplit]
      rfl

lemma length_of_splitHead {data head rest : List UInt8}
    (h : splitHead data = some (head, rest)) : head.length + 4 ≤ data.length := by
  rw [eq_of_splitHead h, List.length_append, List.length_append]
  exact Nat.le_add_right _ _

/-- A part of a text has the blank line as soon as it goes that far. -/
lemma splitHead_part {d x head rest : List UInt8} (h : splitHead (d ++ x) = some (head, rest)) :
    splitHead d = if head.length + 4 ≤ d.length then some (head, d.drop (head.length + 4))
      else none := by
  induction d generalizing head with
  | nil => rfl
  | cons b d ih =>
    rw [List.cons_append, splitHead] at h
    by_cases hblank : blank.isPrefixOf (b :: (d ++ x)) = true
    · rw [if_pos hblank] at h
      obtain ⟨rfl, -⟩ := Prod.mk.inj (Option.some.inj h)
      have hpre : blank <+: (b :: d) ++ x := List.isPrefixOf_iff_prefix.mp hblank
      split_ifs with hlen
      · have hd : blank <+: b :: d := List.prefix_of_prefix_length_le hpre
          (List.prefix_append _ _) hlen
        rw [splitHead, if_pos (List.isPrefixOf_iff_prefix.mpr hd)]
        rfl
      · cases hd : splitHead (b :: d) with
        | none => rfl
        | some split =>
          have := length_of_splitHead hd
          simp only [List.length_nil] at hlen
          omega
    · rw [if_neg hblank] at h
      obtain ⟨⟨head', rest'⟩, hsplit, heq⟩ := Option.map_eq_some_iff.mp h
      obtain ⟨rfl, rfl⟩ := Prod.mk.inj heq
      have hd : ¬blank.isPrefixOf (b :: d) = true := fun hd => hblank
        (List.isPrefixOf_iff_prefix.mpr
          ((List.isPrefixOf_iff_prefix.mp hd).trans (List.prefix_append (b :: d) x)))
      rw [splitHead, if_neg hd, ih hsplit]
      simp only [List.length_cons, Nat.add_right_comm _ 1 4, Nat.add_le_add_iff_right]
      split_ifs
      · rfl
      · rfl

lemma splitHead_append {d head rest : List UInt8} (h : splitHead d = some (head, rest))
    (x : List UInt8) : splitHead (d ++ x) = some (head, rest ++ x) := by
  induction d generalizing head with
  | nil => cases h
  | cons b d ih =>
    rw [splitHead] at h
    rw [List.cons_append, splitHead]
    split_ifs at h with hblank
    · obtain ⟨rfl, rfl⟩ := Prod.mk.inj (Option.some.inj h)
      obtain ⟨t, ht⟩ := List.isPrefixOf_iff_prefix.mp hblank
      rw [if_pos]
      · rw [← List.cons_append, ← ht]
        rfl
      · rw [← List.cons_append, ← ht]
        exact List.isPrefixOf_iff_prefix.mpr ⟨t ++ x, by rw [List.append_assoc]⟩
    · obtain ⟨⟨head', rest'⟩, hsplit, heq⟩ := Option.map_eq_some_iff.mp h
      obtain ⟨rfl, rfl⟩ := Prod.mk.inj heq
      have hlen := length_of_splitHead hsplit
      rw [if_neg, ih hsplit]
      · rfl
      · intro hpre
        refine hblank (List.isPrefixOf_iff_prefix.mpr ?_)
        have hpre' : blank <+: (b :: d) ++ x := List.isPrefixOf_iff_prefix.mp hpre
        refine List.prefix_of_prefix_length_le hpre' (List.prefix_append _ _) ?_
        have hblanks : blank.length = 4 := rfl
        rw [List.length_cons]
        omega

lemma splitHead_none_of_append {d x : List UInt8} (h : splitHead (d ++ x) = none) :
    splitHead d = none := by
  cases hd : splitHead d with
  | none => rfl
  | some split =>
    obtain ⟨head, rest⟩ := split
    rw [splitHead_append hd] at h
    cases h

/-! ### Reading -/

/-- Nothing that was read is lost. -/
lemma readHead_reassembles {data head rest : List UInt8} {chunks left : List (List UInt8)}
    (h : readHead data chunks = (some (head, rest), left)) :
    head ++ blank ++ rest ++ left.flatten = data ++ chunks.flatten := by
  induction chunks generalizing data with
  | nil =>
    unfold readHead at h
    cases hsplit : splitHead data with
    | none =>
      rw [hsplit] at h
      cases h
    | some split =>
      rw [hsplit] at h
      obtain ⟨hs, rfl⟩ := Prod.mk.inj h
      rw [eq_of_splitHead (hsplit.trans hs)]
  | cons chunk chunks ih =>
    unfold readHead at h
    cases hsplit : splitHead data with
    | none =>
      rw [hsplit] at h
      dsimp only at h
      split_ifs at h
      · cases h
      · cases h
      · rw [ih h, List.flatten_cons, List.append_assoc]
    | some split =>
      rw [hsplit] at h
      obtain ⟨hs, rfl⟩ := Prod.mk.inj h
      rw [eq_of_splitHead (hsplit.trans hs)]

/-- Chunks without a blank line in them that stay below the limit are all read. -/
lemma readHead_skip {data : List UInt8} {before after : List (List UInt8)}
    (hnone : splitHead (data ++ before.flatten) = none)
    (hlen : (data ++ before.flatten).length ≤ maxHead) (hne : ∀ c ∈ before, c ≠ []) :
    readHead data (before ++ after) = readHead (data ++ before.flatten) after := by
  induction before generalizing data with
  | nil => rw [List.nil_append, List.flatten_nil, List.append_nil]
  | cons chunk before ih =>
    rw [List.flatten_cons, ← List.append_assoc] at hnone hlen ⊢
    have hdata : splitHead data = none := by
      rw [List.append_assoc] at hnone
      exact splitHead_none_of_append hnone
    have hwithin : ¬(data ++ chunk).length > maxHead := by
      rw [@List.length_append _ (data ++ chunk)] at hlen
      omega
    rw [List.cons_append, readHead, hdata]
    dsimp only
    rw [if_neg (hne chunk List.mem_cons_self), if_neg hwithin]
    exact ih hnone hlen fun c hc => hne c (List.mem_cons_of_mem _ hc)

/-- A stream without a blank line has no head. -/
lemma readHead_none {data : List UInt8} {chunks : List (List UInt8)}
    (h : splitHead (data ++ chunks.flatten) = none) : (readHead data chunks).1 = none := by
  induction chunks generalizing data with
  | nil =>
    rw [readHead, splitHead_none_of_append h]
  | cons chunk chunks ih =>
    rw [readHead, splitHead_none_of_append h]
    dsimp only
    split_ifs
    · rfl
    · rfl
    · refine ih ?_
      rw [List.append_assoc]
      exact h

/-- What the chunk that ends the head makes of it. -/
lemma readHead_chunk {data chunk x head rest : List UInt8} {chunks : List (List UInt8)}
    (h : splitHead (data ++ chunk ++ x) = some (head, rest))
    (hbefore : data.length < head.length + 4) (hafter : head.length + 4 ≤ (data ++ chunk).length) :
    ((readHead data (chunk :: chunks)).1.map Prod.fst) =
      if (data ++ chunk).length > maxHead then none else some head := by
  have hdata : splitHead data = none := by
    rw [List.append_assoc] at h
    rw [splitHead_part h, if_neg (Nat.not_le.mpr hbefore)]
  have hsplit := splitHead_part h
  rw [if_pos hafter] at hsplit
  have hne : chunk ≠ [] := by
    rintro rfl
    rw [List.append_nil] at hafter
    omega
  rw [readHead, hdata]
  dsimp only
  rw [if_neg hne]
  split_ifs
  · rfl
  · rw [readHead.eq_def, hsplit]
    rfl

/-- A head that is sure to be taken: whatever comes with its end is within the limit. -/
lemma readHead_safe {data head rest : List UInt8} {chunks : List (List UInt8)}
    (h : splitHead (data ++ chunks.flatten) = some (head, rest))
    (hbefore : data.length < head.length + 4) (hmax : head.length + 4 ≤ maxHead)
    (hsizes : ∀ c ∈ chunks, 1 ≤ c.length ∧ c.length ≤ recvSize)
    (hsafe : head.length + 4 + (recvSize - 1) ≤ maxHead ∨
      (data ++ chunks.flatten).length ≤ maxHead) :
    (readHead data chunks).1.map Prod.fst = some head := by
  induction chunks generalizing data with
  | nil =>
    have := length_of_splitHead h
    rw [List.flatten_nil, List.append_nil] at this
    omega
  | cons chunk chunks ih =>
    rw [List.flatten_cons, ← List.append_assoc] at h hsafe
    obtain ⟨hpos, hle⟩ := hsizes chunk List.mem_cons_self
    have hlen : (data ++ chunk).length = data.length + chunk.length := List.length_append
    by_cases hend : head.length + 4 ≤ (data ++ chunk).length
    · rw [readHead_chunk h hbefore hend, if_neg]
      rcases hsafe with hsafe | hsafe
      · omega
      · rw [List.length_append] at hsafe
        omega
    · have hdata : splitHead (data ++ chunk) = none := by
        rw [splitHead_part h, if_neg hend]
      have hskip := @readHead_skip data [chunk] chunks
        (by simpa using hdata) (by rw [List.flatten_singleton]; omega)
        (by simpa using List.ne_nil_of_length_pos hpos)
      rw [List.singleton_append, List.flatten_singleton] at hskip
      rw [hskip]
      exact ih h (Nat.not_le.mp hend) (fun c hc => hsizes c (List.mem_cons_of_mem _ hc)) hsafe

/-- A head whose end is past the limit is refused, however it comes. -/
lemma readHead_long {data head rest : List UInt8} {chunks : List (List UInt8)}
    (h : splitHead (data ++ chunks.flatten) = some (head, rest))
    (hdata : data.length ≤ maxHead) (hmax : maxHead < head.length + 4) :
    (readHead data chunks).1 = none := by
  induction chunks generalizing data with
  | nil =>
    have := length_of_splitHead h
    rw [List.flatten_nil, List.append_nil] at this
    omega
  | cons chunk chunks ih =>
    have hnone : splitHead data = none := by
      rw [splitHead_part h, if_neg (by omega)]
    rw [readHead, hnone]
    dsimp only
    split_ifs with hempty hlimit
    · rfl
    · rfl
    · refine ih ?_ (Nat.not_lt.mp hlimit)
      rw [List.append_assoc]
      exact h

/-! ### Two ways to cut a stream -/

/-- The stream, as it may be received. -/
structure Segments (stream : List UInt8) (chunks : List (List UInt8)) : Prop where
  flatten : chunks.flatten = stream
  sizes : ∀ c ∈ chunks, 1 ≤ c.length ∧ c.length ≤ recvSize

lemma exists_segments (stream : List UInt8) : ∃ chunks, Segments stream chunks := by
  induction stream with
  | nil => exact ⟨[], rfl, fun c hc => absurd hc List.not_mem_nil⟩
  | cons b bs ih =>
    obtain ⟨chunks, hflat, hsizes⟩ := ih
    refine ⟨[b] :: chunks, by rw [List.flatten_cons, hflat]; rfl, ?_⟩
    rintro c (- | ⟨_, hc⟩)
    · exact ⟨Nat.le_refl 1, Nat.succ_le_succ (Nat.zero_le _)⟩
    · exact hsizes c hc

lemma Segments.append {a b : List UInt8} {as bs : List (List UInt8)} (ha : Segments a as)
    (hb : Segments b bs) : Segments (a ++ b) (as ++ bs) where
  flatten := by rw [List.flatten_append, ha.flatten, hb.flatten]
  sizes c hc := (List.mem_append.mp hc).elim (ha.sizes c) (hb.sizes c)

/-- The head that is read, if any. -/
def headOf (chunks : List (List UInt8)) : Option (List UInt8) := (readHead [] chunks).1.map Prod.fst

/-- The head, its end, what came with it and what is still to come are the stream. -/
def Reassembles (stream : List UInt8) (chunks : List (List UInt8)) : Prop :=
  ∀ head rest left, readHead [] chunks = (some (head, rest), left) →
    head ++ blank ++ rest ++ left.flatten = stream

/-- The head ends within the limit, so close to it that one chunk may reach past both, and the
stream goes on past the limit. -/
def Near (stream : List UInt8) : Prop :=
  ∃ head rest, splitHead stream = some (head, rest) ∧ head.length + 4 ≤ maxHead ∧
    maxHead < head.length + 4 + (recvSize - 1) ∧ maxHead < stream.length

variable {stream : List UInt8}

lemma reassembles_of_segments {chunks : List (List UInt8)} (h : Segments stream chunks) :
    Reassembles stream chunks := fun _ _ _ hread => by
  rw [readHead_reassembles hread, List.nil_append, h.flatten]

/-- Bytes that are cut at `k`, with one more chunk of the next `n` bytes there. -/
lemma exists_cut {k n : ℕ} (hn : 1 ≤ n) (hsize : n ≤ recvSize) (hk : k + n ≤ stream.length) :
    ∃ before after : List (List UInt8), Segments (stream.take k) before ∧
      Segments stream (before ++ (stream.drop k).take n :: after) := by
  obtain ⟨before, hbefore⟩ := exists_segments (stream.take k)
  obtain ⟨after, hafter⟩ := exists_segments ((stream.drop k).drop n)
  have hlen : ((stream.drop k).take n).length = n := by
    rw [List.length_take, List.length_drop]
    omega
  have hmid : Segments ((stream.drop k).take n) [(stream.drop k).take n] :=
    ⟨List.flatten_singleton, fun c hc => by rw [List.mem_singleton.mp hc, hlen]; exact ⟨hn, hsize⟩⟩
  refine ⟨before, after, hbefore, ?_⟩
  have hall := hbefore.append (hmid.append hafter)
  rw [List.take_append_drop, List.take_append_drop] at hall
  exact hall

/-- What is read of a stream that is cut at `k` before the end of its head, with the end in the
next chunk. -/
lemma headOf_cut {k n : ℕ} {head rest : List UInt8} {before after : List (List UInt8)}
    (hsplit : splitHead stream = some (head, rest)) (hbefore : Segments (stream.take k) before)
    (hk : k < head.length + 4) (hmax : k ≤ maxHead) (hend : head.length + 4 ≤ k + n)
    (hlen : k + n ≤ stream.length) :
    headOf (before ++ (stream.drop k).take n :: after) =
      if k + n > maxHead then none else some head := by
  have htake : (stream.take k).length = k := by
    rw [List.length_take]
    omega
  have hwhole : stream.take k ++ (stream.drop k).take n ++ (stream.drop k).drop n = stream := by
    rw [List.append_assoc, List.take_append_drop, List.take_append_drop]
  have hsum : (stream.take k ++ (stream.drop k).take n).length = k + n := by
    rw [List.length_append, htake, List.length_take, List.length_drop]
    omega
  have hnone : splitHead (stream.take k) = none := by
    have hpart := @splitHead_part (stream.take k) (stream.drop k) head rest
      (by rw [List.take_append_drop]; exact hsplit)
    rw [hpart, if_neg (by omega)]
  have hskip := @readHead_skip [] before ((stream.drop k).take n :: after)
    (by rw [List.nil_append, hbefore.flatten]; exact hnone)
    (by rw [List.nil_append, hbefore.flatten]; omega)
    fun c hc => List.ne_nil_of_length_pos (hbefore.sizes c hc).1
  rw [List.nil_append, hbefore.flatten] at hskip
  unfold headOf
  rw [hskip, @readHead_chunk _ _ ((stream.drop k).drop n) head rest _
    (by rw [hwhole]; exact hsplit) (by omega) (by omega), hsum]

/-- Near the limit the cut decides. -/
lemma exists_differ (h : Near stream) : ∃ c c', Segments stream c ∧ Segments stream c' ∧
    headOf c = (splitHead stream).map Prod.fst ∧ headOf c ≠ none ∧ headOf c' = none := by
  obtain ⟨head, rest, hsplit, hmax, hnear, hlong⟩ := h
  have hend := length_of_splitHead hsplit
  have hlimit : maxHead = 65536 := rfl
  have hrecv : recvSize = 8192 := rfl
  -- cut right behind the head, and as far before it as one chunk may reach past the limit
  obtain ⟨before, after, hbefore, hfull⟩ := @exists_cut stream (head.length + 3) 1
    (by omega) (by omega) (by omega)
  obtain ⟨before', after', hbefore', hfull'⟩ := @exists_cut stream
    (maxHead + 1 - recvSize) recvSize (by omega) (by omega) (by omega)
  have hhead := @headOf_cut stream _ 1 _ _ _ after hsplit hbefore (by omega) (by omega)
    (by omega) (by omega)
  have hnone := @headOf_cut stream _ recvSize _ _ _ after' hsplit hbefore' (by omega)
    (by omega) (by omega) (by omega)
  rw [if_neg (by omega)] at hhead
  rw [if_pos (by omega)] at hnone
  refine ⟨_, _, hfull, hfull', ?_, ?_, hnone⟩
  · rw [hhead, hsplit]
    rfl
  · rw [hhead]
    exact nofun

/-- Away from the limit the head is what the stream says. -/
lemma headOf_of_not_near (h : ¬Near stream) {chunks : List (List UInt8)}
    (hseg : Segments stream chunks) :
    headOf chunks = match splitHead stream with
      | some (head, _) => if head.length + 4 ≤ maxHead then some head else none
      | none => none := by
  have hflat : ([] : List UInt8) ++ chunks.flatten = stream := hseg.flatten
  cases hsplit : splitHead stream with
  | none =>
    unfold headOf
    rw [readHead_none (by rw [hflat]; exact hsplit)]
    rfl
  | some split =>
    obtain ⟨head, rest⟩ := split
    dsimp only
    split_ifs with hmax
    · refine readHead_safe (by rw [hflat]; exact hsplit) (Nat.zero_lt_succ _) hmax hseg.sizes ?_
      rw [hflat]
      by_contra hcon
      exact h ⟨head, rest, hsplit, hmax, by omega, by omega⟩
    · unfold headOf
      rw [readHead_long (by rw [hflat]; exact hsplit) (Nat.zero_le _) (by omega)]
      rfl

/-- **The cut of a stream decides the head exactly near the limit.** Whatever is read reassembles
to the stream, and all ways to cut it give one head or one refusal, if and only if the head's end
is not so near the limit that a chunk of the stream may reach past both. -/
theorem headOf_cut_iff (stream : List UInt8) :
    (∀ c c', Segments stream c → Segments stream c' →
      Reassembles stream c ∧ headOf c = headOf c') ↔ ¬Near stream := by
  constructor
  · intro h hnear
    obtain ⟨c, c', hc, hc', -, hsome, hnone⟩ := exists_differ hnear
    exact hsome ((h c c' hc hc').2.trans hnone)
  · intro h c c' hc hc'
    exact ⟨reassembles_of_segments hc, by rw [headOf_of_not_near h hc, headOf_of_not_near h hc']⟩

/-! ### A head at the limit -/

lemma splitHead_plain {head : List UInt8} (h : (13 : UInt8) ∉ head) (rest : List UInt8) :
    splitHead (head ++ blank ++ rest) = some (head, rest) := by
  induction head with
  | nil => rfl
  | cons b head ih =>
    have hb : ¬blank.isPrefixOf (b :: (head ++ blank ++ rest)) = true := by
      intro hpre
      obtain ⟨t, ht⟩ := List.isPrefixOf_iff_prefix.mp hpre
      injection ht with hb
      exact h (hb ▸ List.mem_cons_self)
    rw [List.cons_append, List.cons_append, splitHead, if_neg hb,
      ih fun hmem => h (List.mem_cons_of_mem _ hmem)]
    rfl

/-- A head that ends exactly at the limit, and one byte behind it. -/
def atLimit : List UInt8 := List.replicate 65532 0 ++ blank ++ [0]

/-- Cut before its last byte the head at the limit is taken, cut so that the byte comes with the
head's end it is refused. -/
theorem limit_head_depends_on_cut : ∃ c c', Segments atLimit c ∧ Segments atLimit c' ∧
    headOf c = some (List.replicate 65532 0) ∧ headOf c' = none := by
  have hhead : (13 : UInt8) ∉ List.replicate 65532 (0 : UInt8) := fun hmem =>
    absurd (List.eq_of_mem_replicate hmem) (by decide)
  have hsplit : splitHead atLimit = some (List.replicate 65532 0, [0]) := splitHead_plain hhead [0]
  have hlength : (List.replicate 65532 (0 : UInt8)).length = 65532 := List.length_replicate
  have hlong : atLimit.length = 65537 := by
    rw [atLimit, List.length_append, List.length_append, hlength]
    rfl
  have hlimit : maxHead = 65536 := rfl
  have hrecv : recvSize = 8192 := rfl
  obtain ⟨c, c', hc, hc', hsome, -, hnone⟩ := exists_differ
    ⟨_, _, hsplit, by omega, by omega, by omega⟩
  refine ⟨c, c', hc, hc', ?_, hnone⟩
  rw [hsome, hsplit]
  rfl

end Bimo.Front
