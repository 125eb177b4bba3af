import Mathlib

/-!
The end of a tar archive.

An archive is blocks of 512 bytes: for every entry a header and its data, filled up to a whole
block, and then a block of zeros. A bundle is two archives one after the other, the first without
its end, so the packer looks for the place where that end begins. The walk goes by the sizes in the
headers alone; what the data holds does not matter.
-/

namespace Bimo.Tar

abbrev Bytes := List UInt8

/-! ### The format -/

def zeroBlock : Bytes := List.replicate 512 0

/-- Where the size of the data stands in a header. -/
def sizeField (header : Bytes) : Bytes := (header.drop 124).take 12

def isBlank (b : UInt8) : Bool := b = 0x20 || b = 0

def isOctal (b : UInt8) : Bool := 0x30 ≤ b && b ≤ 0x37

/-- The number of a text of octal digits. -/
def octal (digits : Bytes) : ℕ := digits.foldl (fun n b => 8 * n + (b.toNat - 0x30)) 0

/-- The number of bytes, the first of which weighs most. -/
def base256 (bytes : Bytes) : ℕ := bytes.foldl (fun n b => 256 * n + b.toNat) 0

/-- A field gives a number: octal text between blanks, or bytes of which the first has its high
bit set. -/
inductive Says : Bytes → ℕ → Prop
  | text {front digits back : Bytes} (hfront : ∀ b ∈ front, isBlank b = true)
      (hdigits : ∀ b ∈ digits, isOctal b = true) (hback : ∀ b ∈ back, isBlank b = true) :
      Says (front ++ (digits ++ back)) (octal digits)
  | binary {b : UInt8} {bytes : Bytes} (hb : 0x80 ≤ b) :
      Says (b :: bytes) (base256 ((b - 0x80) :: bytes))

/-- What fills the data up to a whole block. -/
def padding (size : ℕ) : ℕ := (512 - size % 512) % 512

/-- The entries of an archive, each with its header and its data. -/
inductive Lists : Bytes → List (Bytes × Bytes) → Prop
  | ends (rest : Bytes) : Lists (zeroBlock ++ rest) []
  | entry {header data pad rest : Bytes} {es : List (Bytes × Bytes)}
      (hlength : header.length = 512) (hheader : header ≠ zeroBlock)
      (hsize : Says (sizeField header) data.length) (hpad : pad.length = padding data.length)
      (hrest : Lists rest es) : Lists (header ++ (data ++ (pad ++ rest))) ((header, data) :: es)

/-- The blocks of some entries. -/
def extent (es : List (Bytes × Bytes)) : ℕ :=
  (es.map fun e => 512 + (e.2.length + padding e.2.length)).sum

/-! ### The walk -/

/-- Bytes in memory. -/
structure Slice where
  bytes : Bytes
  fits : bytes.length < 2 ^ 63

/-- A number in base eight, as it is read from a string. -/
def fromStrRadix8 (text : Bytes) : Except String ℕ :=
  text.foldlM (fun n b =>
    if isOctal b then
      if 8 * n + (b.toNat - 0x30) < 2 ^ 64 then pure (8 * n + (b.toNat - 0x30))
      else .error "number too large to fit in target type"
    else .error "invalid digit found in string") 0

def isDigit (b : UInt8) : Bool := 0x30 ≤ b && b ≤ 0x39

/-- The size in a header. -/
def headerSize (field : Bytes) : Except String ℕ :=
  if field.headD 0 &&& 0x80 ≠ 0 then
    pure (field.tail.foldl (fun acc b => (acc <<< 8) % 2 ^ 64 ||| b.toNat) 0)
  else
    let text := field.filter isDigit
    (fromStrRadix8 (if text.isEmpty then [0x30] else text)).mapError
      ("bad tar header size: " ++ ·)

def divCeil (size : ℕ) : ℕ := (size + 511) / 512

/-- The loop, for as many rounds as given. Positions are 64 bits wide and wrap around; a slice that
begins after its end is a panic. Neither comes back with a value. -/
def walk (data : Slice) : ℕ → ℕ → Option (Except String ℕ)
  | 0, _ => none
  | rounds + 1, position =>
    let stop := (position + 512) % 2 ^ 64
    if stop ≤ data.bytes.length then
      if stop < position then none
      else
        let header := (data.bytes.drop position).take 512
        if header.all (· == 0) then some (.ok position)
        else
          match headerSize (sizeField header) with
          | .error e => some (.error e)
          | .ok size =>
            walk data rounds ((position + (512 + divCeil size * 512) % 2 ^ 64) % 2 ^ 64)
    else some (.error "the packed files have no end-of-archive marker")

def tarContentLen (data : Slice) : Option (Except String ℕ) :=
  walk data (data.bytes.length + 1) 0

/-! ### Sizes -/

lemma and_high (b : UInt8) : b &&& 0x80 ≠ 0 ↔ 0x80 ≤ b := by
  have hall : ∀ x : Fin 256, UInt8.ofFin x &&& 0x80 ≠ 0 ↔ 0x80 ≤ UInt8.ofFin x := by
    decide +kernel
  exact hall b.toFin

lemma isDigit_of_isOctal {b : UInt8} (h : isOctal b = true) : isDigit b = true := by
  simp only [isOctal, isDigit, Bool.and_eq_true, decide_eq_true_eq, UInt8.le_iff_toNat_le] at *
  exact ⟨h.1, h.2.trans (by decide)⟩

lemma isDigit_of_isBlank {b : UInt8} (h : isBlank b = true) : isDigit b = false := by
  simp only [isBlank, Bool.or_eq_true, decide_eq_true_eq] at h
  rcases h with rfl | rfl <;> rfl

lemma lt_of_text {b : UInt8} (h : isBlank b = true ∨ isOctal b = true) : ¬0x80 ≤ b := by
  rw [UInt8.le_iff_toNat_le]
  rcases h with h | h
  · simp only [isBlank, Bool.or_eq_true, decide_eq_true_eq] at h
    rcases h with rfl | rfl <;> decide
  · simp only [isOctal, Bool.and_eq_true, decide_eq_true_eq, UInt8.le_iff_toNat_le] at h
    have hhigh := h.2
    exact fun hb => absurd (hb.trans hhigh) (by decide)

/-- Digits only add to a number. -/
lemma le_foldl_digits {m : ℕ} (hm : 0 < m) {f : UInt8 → ℕ} (bs : Bytes) (n : ℕ) :
    n ≤ bs.foldl (fun n b => m * n + f b) n := by
  induction bs generalizing n with
  | nil => exact le_rfl
  | cons b bs ih => exact (Nat.le_add_right_of_le (Nat.le_mul_of_pos_left n hm)).trans (ih _)

lemma fromStrRadix8_fold {digits : Bytes} (hdigits : ∀ b ∈ digits, isOctal b = true) {n : ℕ}
    (h : digits.foldl (fun n b => 8 * n + (b.toNat - 0x30)) n < 2 ^ 64) :
    digits.foldlM (fun n b =>
      if isOctal b then
        if 8 * n + (b.toNat - 0x30) < 2 ^ 64 then
          (pure (8 * n + (b.toNat - 0x30)) : Except String ℕ)
        else .error "number too large to fit in target type"
      else .error "invalid digit found in string") n =
        .ok (digits.foldl (fun n b => 8 * n + (b.toNat - 0x30)) n) := by
  induction digits generalizing n with
  | nil => rfl
  | cons b digits ih =>
    obtain ⟨hb, hrest⟩ := List.forall_mem_cons.mp hdigits
    rw [List.foldl_cons] at h
    have hlt : 8 * n + (b.toNat - 0x30) < 2 ^ 64 :=
      (le_foldl_digits (by decide) digits _).trans_lt h
    rw [List.foldlM_cons, if_pos hb, if_pos hlt, List.foldl_cons]
    exact ih hrest h

lemma fromStrRadix8_eq {digits : Bytes} (hdigits : ∀ b ∈ digits, isOctal b = true)
    (h : octal digits < 2 ^ 64) :
    fromStrRadix8 (if digits.isEmpty then [0x30] else digits) = .ok (octal digits) := by
  cases digits with
  | nil => rfl
  | cons b digits => exact fromStrRadix8_fold hdigits h

lemma filter_text {front digits back : Bytes} (hfront : ∀ b ∈ front, isBlank b = true)
    (hdigits : ∀ b ∈ digits, isOctal b = true) (hback : ∀ b ∈ back, isBlank b = true) :
    (front ++ (digits ++ back)).filter isDigit = digits := by
  have hblank : ∀ {l : Bytes}, (∀ b ∈ l, isBlank b = true) → l.filter isDigit = [] :=
    fun hl => List.filter_eq_nil_iff.mpr fun b hb => by simp [isDigit_of_isBlank (hl b hb)]
  rw [List.filter_append, List.filter_append, hblank hfront, hblank hback, List.nil_append,
    List.append_nil]
  exact List.filter_eq_self.mpr fun b hb => isDigit_of_isOctal (hdigits b hb)

/-- The first byte of a text is below 128. -/
lemma head_text {front digits back : Bytes} {b : UInt8} {l : Bytes}
    (hfront : ∀ b ∈ front, isBlank b = true) (hdigits : ∀ b ∈ digits, isOctal b = true)
    (hback : ∀ b ∈ back, isBlank b = true) (h : front ++ (digits ++ back) = b :: l) :
    ¬0x80 ≤ b := by
  have hmem : b ∈ front ++ (digits ++ back) := by simp [h]
  refine lt_of_text ?_
  rcases List.mem_append.mp hmem with hb | hb
  · exact .inl (hfront b hb)
  · rcases List.mem_append.mp hb with hb | hb
    · exact .inr (hdigits b hb)
    · exact .inl (hback b hb)

lemma shift_fold {bytes : Bytes} {n : ℕ}
    (h : bytes.foldl (fun n b => 256 * n + b.toNat) n < 2 ^ 64) :
    bytes.foldl (fun acc b => (acc <<< 8) % 2 ^ 64 ||| b.toNat) n =
      bytes.foldl (fun n b => 256 * n + b.toNat) n := by
  induction bytes generalizing n with
  | nil => rfl
  | cons b bytes ih =>
    rw [List.foldl_cons] at h
    have hlt : 256 * n + b.toNat < 2 ^ 64 := (le_foldl_digits (by decide) bytes _).trans_lt h
    have hor : (n <<< 8) % 2 ^ 64 ||| b.toNat = 256 * n + b.toNat := by
      rw [Nat.shiftLeft_eq, Nat.mod_eq_of_lt (by omega), ← Nat.shiftLeft_eq,
        ← Nat.shiftLeft_add_eq_or_of_lt b.toNat_lt, Nat.shiftLeft_eq]
      omega
    rw [List.foldl_cons, List.foldl_cons, hor]
    exact ih h

/-- Where the first byte is not zero, the number is large. -/
lemma pow_le_base256 {b : UInt8} (hb : b ≠ 0) (bytes : Bytes) :
    256 ^ bytes.length ≤ base256 (b :: bytes) := by
  have key : ∀ (bytes : Bytes) (n : ℕ),
      n * 256 ^ bytes.length ≤ bytes.foldl (fun n b => 256 * n + b.toNat) n := by
    intro bytes
    induction bytes with
    | nil => exact fun n => by simp
    | cons c bytes ih =>
      intro n
      rw [List.foldl_cons, List.length_cons]
      refine le_trans ?_ (ih _)
      rw [pow_succ']
      calc n * (256 * 256 ^ bytes.length) = 256 * n * 256 ^ bytes.length := by
            rw [← Nat.mul_assoc, Nat.mul_comm n 256]
        _ ≤ (256 * n + c.toNat) * 256 ^ bytes.length :=
            Nat.mul_le_mul_right _ (Nat.le_add_right _ _)
  have hpos : 0 < b.toNat := Nat.pos_of_ne_zero fun h => hb (UInt8.toNat_inj.mp h)
  calc 256 ^ bytes.length ≤ (256 * 0 + b.toNat) * 256 ^ bytes.length :=
        Nat.le_mul_of_pos_left _ (by omega)
    _ ≤ base256 (b :: bytes) := key bytes _

/-- **The size in a header**, where it fits 64 bits, is the one that the field gives. -/
lemma headerSize_of_says {field : Bytes} {n : ℕ} (h : Says field n) (hlen : field.length = 12)
    (hn : n < 2 ^ 64) : headerSize field = .ok n := by
  cases h with
  | @text front digits back hfront hdigits hback =>
    have hhead : ¬ (front ++ (digits ++ back)).headD 0 &&& 0x80 ≠ 0 := by
      rw [and_high]
      cases hfield : front ++ (digits ++ back) with
      | nil => decide
      | cons b l => exact head_text hfront hdigits hback hfield
    rw [headerSize, if_neg hhead, filter_text hfront hdigits hback]
    show (fromStrRadix8 _).mapError _ = _
    rw [fromStrRadix8_eq hdigits hn]
    rfl
  | @binary b bytes hb =>
    have hlength : bytes.length = 11 := Nat.succ.inj hlen
    have hfirst : b - 0x80 = 0 := by
      by_contra hne
      have hle := pow_le_base256 hne bytes
      rw [hlength] at hle
      exact absurd hn (not_lt.mpr (le_trans (by decide) hle))
    have hhead : (b :: bytes).headD 0 &&& 0x80 ≠ 0 := (and_high b).mpr hb
    rw [headerSize, if_pos hhead]
    show Except.ok _ = _
    rw [hfirst] at hn ⊢
    exact congrArg Except.ok (shift_fold hn)

/-! ### Entries -/

lemma length_zeroBlock : zeroBlock.length = 512 := List.length_replicate

lemma all_zero_iff {header : Bytes} (hlength : header.length = 512) :
    header.all (· == 0) = true ↔ header = zeroBlock := by
  rw [zeroBlock, ← hlength, List.eq_replicate_iff]
  simp

lemma length_sizeField {header : Bytes} (hlength : header.length = 512) :
    (sizeField header).length = 12 := by
  rw [sizeField, List.length_take, List.length_drop, hlength]
  rfl

/-- A size and its padding are the blocks of it. -/
lemma add_padding (size : ℕ) : size + padding size = divCeil size * 512 := by
  unfold padding divCeil
  omega

lemma extent_cons (header data : Bytes) (es : List (Bytes × Bytes)) :
    extent ((header, data) :: es) = 512 + (data.length + padding data.length) + extent es := rfl

/-- The bytes of an entry, and what follows them. -/
lemma extent_split {header content pad : Bytes} {es : List (Bytes × Bytes)}
    (hlength : header.length = 512) (hpad : pad.length = padding content.length) :
    extent ((header, content) :: es) = (header ++ (content ++ pad)).length + extent es := by
  simp only [extent_cons, List.length_append, hlength, hpad]

/-- An archive has its entries and a block after them. -/
lemma length_lists {bytes : Bytes} {es : List (Bytes × Bytes)} (h : Lists bytes es) :
    extent es + 512 ≤ bytes.length := by
  induction h with
  | ends rest =>
    rw [List.length_append, length_zeroBlock]
    exact Nat.le_add_right _ _
  | entry hlength _ _ hpad _ ih =>
    rw [extent_cons, List.length_append, List.length_append, List.length_append, hlength, hpad]
    omega

/-- **The walk over an archive** comes to where its entries end. -/
lemma walk_lists {data : Slice} {bytes : Bytes} {es : List (Bytes × Bytes)} (h : Lists bytes es)
    {before : Bytes} (hdata : data.bytes = before ++ bytes) {rounds : ℕ}
    (hrounds : es.length < rounds) :
    walk data rounds before.length = some (.ok (before.length + extent es)) := by
  have hfits := data.fits
  induction h generalizing before rounds with
  | ends rest =>
    obtain ⟨rounds, rfl⟩ := Nat.exists_eq_succ_of_ne_zero (Nat.ne_zero_of_lt hrounds)
    have hlen : before.length + 512 ≤ data.bytes.length := by
      rw [hdata, List.length_append, List.length_append, length_zeroBlock]
      omega
    have hheader : (data.bytes.drop before.length).take 512 = zeroBlock := by
      rw [hdata, List.drop_left, List.take_left' length_zeroBlock]
    have hstop : (before.length + 512) % 2 ^ 64 = before.length + 512 :=
      Nat.mod_eq_of_lt (by omega)
    unfold walk
    simp only [hstop, if_pos hlen, hheader]
    rw [if_neg (by omega), if_pos ((all_zero_iff length_zeroBlock).mpr rfl)]
    rfl
  | @entry header content pad rest es hlength hheader hsize hpad hrest ih =>
    obtain ⟨rounds, rfl⟩ := Nat.exists_eq_succ_of_ne_zero (Nat.ne_zero_of_lt hrounds)
    have hblocks := add_padding content.length
    have htotal : data.bytes.length = before.length + (512 + divCeil content.length * 512) +
        rest.length := by
      rw [hdata]
      simp only [List.length_append, hlength, hpad]
      omega
    have htake : (data.bytes.drop before.length).take 512 = header := by
      rw [hdata, List.drop_left, List.take_left' hlength]
    have hstop : (before.length + 512) % 2 ^ 64 = before.length + 512 :=
      Nat.mod_eq_of_lt (by omega)
    have hsize' : headerSize (sizeField header) = .ok content.length :=
      headerSize_of_says hsize (length_sizeField hlength) (by omega)
    have hnext : (before.length + (512 + divCeil content.length * 512) % 2 ^ 64) % 2 ^ 64 =
        (before ++ (header ++ (content ++ pad))).length := by
      simp only [List.length_append, hlength, hpad]
      rw [Nat.mod_eq_of_lt (by omega), Nat.mod_eq_of_lt (by omega)]
      omega
    have hsplit : data.bytes = before ++ (header ++ (content ++ pad)) ++ rest := by
      simp only [hdata, List.append_assoc]
    have hstep := ih hsplit (Nat.lt_of_succ_lt_succ hrounds)
    unfold walk
    simp only [hstop, if_pos (show before.length + 512 ≤ data.bytes.length by omega), htake]
    rw [if_neg (by omega), if_neg (fun h => hheader ((all_zero_iff hlength).mp h)), hsize']
    dsimp only
    rw [hnext, hstep, @extent_split header content pad es hlength hpad, List.length_append,
      Nat.add_assoc]

/-- Every entry has a header of its own. -/
lemma length_le_extent (es : List (Bytes × Bytes)) : es.length ≤ extent es := by
  induction es with
  | nil => exact le_rfl
  | cons e es ih =>
    rw [extent_cons, List.length_cons]
    omega

/-- What stands before the end of an archive can stand before another. -/
lemma lists_append {a b : Bytes} {es fs : List (Bytes × Bytes)} (ha : Lists a es)
    (hb : Lists b fs) : Lists (a.take (extent es) ++ b) (es ++ fs) := by
  induction ha with
  | ends rest => exact hb
  | @entry header content pad rest es hlength hheader hsize hpad _ ih =>
    have htake : (header ++ (content ++ (pad ++ rest))).take (extent ((header, content) :: es)) =
        header ++ (content ++ (pad ++ rest.take (extent es))) := by
      rw [@extent_split header content pad es hlength hpad]
      have hassoc : header ++ (content ++ (pad ++ rest)) = header ++ (content ++ pad) ++ rest := by
        simp only [List.append_assoc]
      rw [hassoc, List.take_length_add_append]
      simp only [List.append_assoc]
    rw [htake]
    rw [List.append_assoc, List.append_assoc, List.append_assoc]
    exact .entry hlength hheader hsize hpad ih

/-- What follows the entries of an archive is a block of zeros. -/
lemma lists_drop {a : Bytes} {es : List (Bytes × Bytes)} (ha : Lists a es) :
    (a.drop (extent es)).take 512 = zeroBlock := by
  induction ha with
  | ends rest => exact List.take_left' length_zeroBlock
  | @entry header content pad rest es hlength hheader hsize hpad _ ih =>
    rw [@extent_split header content pad es hlength hpad]
    have hassoc : header ++ (content ++ (pad ++ rest)) = header ++ (content ++ pad) ++ rest := by
      simp only [List.append_assoc]
    rw [hassoc, List.drop_length_add_append]
    exact ih

/-- A field gives one number. -/
lemma says_unique {field : Bytes} {m n : ℕ} (hm : Says field m) (hn : Says field n) : m = n := by
  generalize hfield : field = field' at hn
  cases hm with
  | @text front digits back hfront hdigits hback =>
    cases hn with
    | @text front' digits' back' hfront' hdigits' hback' =>
      have hfilter := congrArg (List.filter isDigit) hfield
      rw [filter_text hfront hdigits hback, filter_text hfront' hdigits' hback'] at hfilter
      rw [hfilter]
    | binary hb => exact absurd hb (head_text hfront hdigits hback hfield)
  | binary hb =>
    cases hn with
    | text hfront hdigits hback => exact absurd hb (head_text hfront hdigits hback hfield.symm)
    | binary _ =>
      obtain ⟨rfl, rfl⟩ := List.cons.inj hfield
      rfl

/-- An archive has no other entries. -/
lemma lists_unique {a : Bytes} {es fs : List (Bytes × Bytes)} (ha : Lists a es)
    (hb : Lists a fs) : es = fs := by
  induction ha generalizing fs with
  | ends rest =>
    generalize hbytes : zeroBlock ++ rest = bytes at hb
    cases hb with
    | ends => rfl
    | entry hlength hheader =>
      obtain ⟨hzero, -⟩ := List.append_inj hbytes (length_zeroBlock.trans hlength.symm)
      exact absurd hzero.symm hheader
  | @entry header content pad rest es hlength hheader hsize hpad _ ih =>
    generalize hbytes : header ++ (content ++ (pad ++ rest)) = bytes at hb
    cases hb with
    | ends =>
      obtain ⟨hzero, -⟩ := List.append_inj hbytes (hlength.trans length_zeroBlock.symm)
      exact absurd hzero hheader
    | @entry header' content' pad' rest' fs hlength' _ hsize' hpad' hrest' =>
      obtain ⟨rfl, hcontents⟩ := List.append_inj hbytes (hlength.trans hlength'.symm)
      obtain ⟨rfl, hpads⟩ := List.append_inj hcontents (says_unique hsize hsize')
      obtain ⟨-, rfl⟩ := List.append_inj hpads (hpad.trans hpad'.symm)
      rw [ih hrest']

/-- **The end of an archive.** For every archive in memory, whatever its entries hold, the walk
comes back with the place of the first block after them, which is a block of zeros; and what is cut
off there, before another archive, is an archive with the entries of both and no others. -/
theorem tarContentLen_lists {data : Slice} {es : List (Bytes × Bytes)}
    (h : Lists data.bytes es) : ∃ n, tarContentLen data = some (.ok n) ∧ n = extent es ∧
      (data.bytes.drop n).take 512 = zeroBlock ∧
      ∀ b fs, Lists b fs → ∀ gs, Lists (data.bytes.take n ++ b) gs ↔ gs = es ++ fs := by
  refine ⟨extent es, ?_, rfl, lists_drop h, fun b fs hb gs => ⟨fun hg => ?_, ?_⟩⟩
  · have hlen := length_lists h
    have hes := length_le_extent es
    have hwalk := @walk_lists data data.bytes es h [] rfl (data.bytes.length + 1) (by omega)
    rw [List.length_nil, Nat.zero_add] at hwalk
    exact hwalk
  · exact lists_unique hg (lists_append h hb)
  · rintro rfl
    exact lists_append h hb

/-! ### An archive with a block of zeros in its data -/

/-- A header that gives the size 512. -/
def plainHeader : Bytes :=
  List.replicate 124 0x61 ++ ([0x30, 0x30, 0x30, 0x30, 0x30, 0x30, 0x30, 0x31, 0x30, 0x30, 0x30] ++
    [0]) ++ List.replicate 376 0

def plainArchive : Bytes := plainHeader ++ (zeroBlock ++ ([] ++ (zeroBlock ++ [])))

lemma lists_plainArchive : Lists plainArchive [(plainHeader, zeroBlock)] := by
  refine .entry (by decide +kernel) (by decide +kernel) ?_ (by decide +kernel) (.ends [])
  have hfield : sizeField plainHeader = [] ++ ([0x30, 0x30, 0x30, 0x30, 0x30, 0x30, 0x30, 0x31,
      0x30, 0x30, 0x30] ++ [0]) := by decide +kernel
  rw [hfield, length_zeroBlock]
  exact .text nofun (List.all_eq_true.mp rfl) (List.all_eq_true.mp rfl)

theorem tarContentLen_plain :
    ∃ n, tarContentLen ⟨plainArchive, by decide +kernel⟩ = some (.ok n) ∧
      n = extent [(plainHeader, zeroBlock)] ∧ (plainArchive.drop n).take 512 = zeroBlock ∧
      ∀ b fs, Lists b fs → ∀ gs, Lists (plainArchive.take n ++ b) gs ↔
        gs = [(plainHeader, zeroBlock)] ++ fs :=
  @tarContentLen_lists ⟨plainArchive, _⟩ _ lists_plainArchive

end Bimo.Tar
