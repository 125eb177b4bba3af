import Mathlib.Data.List.Forall2
import Mathlib.Data.List.Sort
import Bimo.Double
import Bimo.Js

/-!
The text that two values are compared by.

A checker's receipt answers for the slice of the inbox that its writer was given, and the two are
compared as texts in which the fields of every object are in the order of their names. The texts
are one exactly where the values are, up to the order of fields and the sign of zero. A number
that is too large for 64 bits is no value of JSON, but a text may be read to one; it is written
like `null`.
-/

namespace Bimo.CanonicalJson

open Js (Text units lit isHigh isLow)

inductive Value
  | null
  | bool (b : Bool)
  | num (x : Double)
  /-- What a number is read to that is too large. -/
  | infinite (negative : Bool)
  | str (s : Text)
  | arr (l : List Value)
  | obj (l : List (Text × Value))

abbrev Fields := List (Text × Value)

/-- Values are equal up to the order of fields and the sign of zero. -/
inductive Same : Value → Value → Prop
  | null : Same .null .null
  | bool (b : Bool) : Same (.bool b) (.bool b)
  | num {x y : Double} (h : x.value = y.value) : Same (.num x) (.num y)
  | infinite (negative : Bool) : Same (.infinite negative) (.infinite negative)
  | str (s : Text) : Same (.str s) (.str s)
  | arr {l m : List Value} (h : List.Forall₂ Same l m) : Same (.arr l) (.arr m)
  | obj {l l' m m' : Fields} (left : l.Perm l') (right : m.Perm m')
      (keys : l'.map (·.1) = m'.map (·.1))
      (values : List.Forall₂ Same (l'.map (·.2)) (m'.map (·.2))) : Same (.obj l) (.obj m)

/-- A value is the other or stands in it. -/
inductive Within : Value → Value → Prop
  | refl (v : Value) : Within v v
  | arr {u v : Value} {l : List Value} (hmem : v ∈ l) (h : Within u v) : Within u (.arr l)
  | obj {u : Value} {p : Text × Value} {l : Fields} (hmem : p ∈ l) (h : Within u p.2) :
      Within u (.obj l)

/-- No object has two fields of one name. -/
def Value.Parsed (v : Value) : Prop := ∀ l, Within (.obj l) v → (l.map (·.1)).Nodup

/-- No number is too large. -/
def Value.Finite (v : Value) : Prop := ∀ b, ¬ Within (.infinite b) v

/-- Nothing is `null`. -/
def Value.Full (v : Value) : Prop := ¬ Within .null v

/-! ### The text -/

def unit (c : Char) : UInt16 := c.toNat.toUInt16

def hexUnit (n : ℕ) : UInt16 := unit (Nat.digitChar n)

/-- A unit that does not stand for itself in a string. -/
def escapeUnit (u : UInt16) : Text :=
  if u = unit '"' then [unit '\\', unit '"']
  else if u = unit '\\' then [unit '\\', unit '\\']
  else if u = 8 then [unit '\\', unit 'b']
  else if u = 9 then [unit '\\', unit 't']
  else if u = 10 then [unit '\\', unit 'n']
  else if u = 12 then [unit '\\', unit 'f']
  else if u = 13 then [unit '\\', unit 'r']
  else if u.toNat < 32 ∨ isHigh u ∨ isLow u then
    [unit '\\', unit 'u', hexUnit (u.toNat / 4096), hexUnit (u.toNat / 256 % 16),
      hexUnit (u.toNat / 16 % 16), hexUnit (u.toNat % 16)]
  else [u]

/-- The units with an escape of two, and the second of these. -/
def shortEscapes : List (UInt16 × UInt16) :=
  [(unit '"', unit '"'), (unit '\\', unit '\\'), (8, unit 'b'), (9, unit 't'), (10, unit 'n'),
    (12, unit 'f'), (13, unit 'r')]

/-- The three ways of a unit that does not stand for itself by being in a pair. -/
lemma escapeUnit_cases (u : UInt16) :
    (∃ e, (u, e) ∈ shortEscapes ∧ escapeUnit u = [unit '\\', e]) ∨
    u ∉ shortEscapes.map Prod.fst ∧
      (escapeUnit u = [unit '\\', unit 'u', hexUnit (u.toNat / 4096),
          hexUnit (u.toNat / 256 % 16), hexUnit (u.toNat / 16 % 16), hexUnit (u.toNat % 16)] ∨
      escapeUnit u = [u]) := by
  by_cases hu : u ∈ shortEscapes.map Prod.fst
  · left
    have hall : (shortEscapes.all fun p => escapeUnit p.1 = [unit '\\', p.2]) = true := by decide
    obtain ⟨⟨u, e⟩, hp, rfl⟩ := List.mem_map.mp hu
    exact ⟨e, hp, of_decide_eq_true (List.all_eq_true.mp hall _ hp)⟩
  · refine .inr ⟨hu, ?_⟩
    simp only [shortEscapes, List.map_cons, List.map_nil, List.mem_cons, List.not_mem_nil,
      or_false, not_or] at hu
    obtain ⟨h1, h2, h3, h4, h5, h6, h7⟩ := hu
    rw [escapeUnit, if_neg h1, if_neg h2, if_neg h3, if_neg h4, if_neg h5, if_neg h6, if_neg h7]
    split_ifs
    · exact .inl rfl
    · exact .inr rfl

/-- The units of a string, where the one before the first may have been the first half of a pair.
The halves of a pair stand for themselves. -/
def quoteFrom : Bool → Text → Text
  | _, [] => []
  | paired, u :: l =>
    let pair := isHigh u && l.head?.any isLow
    (if paired || pair then [u] else escapeUnit u) ++ quoteFrom pair l

/-- `JSON.stringify` of a string. -/
def quote (s : Text) : Text := unit '"' :: (quoteFrom false s ++ [unit '"'])

/-- Keys are in the order of their units. -/
def keyLe (p q : Text × Text) : Prop := p.1.map UInt16.toNat ≤ q.1.map UInt16.toNat

instance : DecidableRel keyLe := fun p q =>
  inferInstanceAs (Decidable (p.1.map UInt16.toNat ≤ q.1.map UInt16.toNat))

def join (l : List Text) : Text := [unit ','].intercalate l

mutual

/-- `canonicalJson` -/
def canonicalJson : Value → Text
  | .null => lit "null"
  | .bool b => lit (if b then "true" else "false")
  | .num x => x.toText.flatMap units
  | .infinite _ => lit "null"
  | .str s => quote s
  | .arr l => unit '[' :: (join (canonicalList l) ++ [unit ']'])
  | .obj l =>
    let fields := (canonicalFields l).insertionSort keyLe
    unit '{' :: (join (fields.map fun p => quote p.1 ++ unit ':' :: p.2) ++ [unit '}'])

def canonicalList : List Value → List Text
  | [] => []
  | v :: l => canonicalJson v :: canonicalList l

def canonicalFields : Fields → List (Text × Text)
  | [] => []
  | (k, v) :: l => (k, canonicalJson v) :: canonicalFields l

end

lemma canonicalList_eq (l : List Value) : canonicalList l = l.map canonicalJson := by
  induction l with
  | nil => rfl
  | cons v l ih => rw [canonicalList, ih, List.map_cons]

lemma canonicalFields_eq (l : Fields) :
    canonicalFields l = l.map fun p => (p.1, canonicalJson p.2) := by
  induction l with
  | nil => rfl
  | cons p l ih => rw [canonicalFields, ih, List.map_cons]

/-! ### Strings -/

def hexValue (u : UInt16) : ℕ := if u.toNat < 58 then u.toNat - 48 else u.toNat - 87

/-- The unit behind a backslash. -/
def unescaped (u : UInt16) : UInt16 :=
  if u = unit 'b' then 8
  else if u = unit 't' then 9
  else if u = unit 'n' then 10
  else if u = unit 'f' then 12
  else if u = unit 'r' then 13
  else u

/-- The unit that a piece of a string stands for. -/
def unescape : Text → Option (UInt16 × Text)
  | [] => none
  | u :: l =>
    if u = unit '\\' then
      match l with
      | [] => none
      | e :: l =>
        if e = unit 'u' then
          match l with
          | a :: b :: c :: d :: rest =>
            some
              (.ofNat (hexValue a * 4096 + hexValue b * 256 + hexValue c * 16 + hexValue d), rest)
          | _ => none
        else some (unescaped e, l)
    else some (u, l)

lemma hexValue_hexUnit : ∀ n < 16, hexValue (hexUnit n) = n := by decide

lemma unescape_self {u : UInt16} (h : u ≠ unit '\\') (r : Text) : unescape (u :: r) = some (u, r) :=
  if_neg h

lemma unescape_escapeUnit (u : UInt16) (r : Text) :
    unescape (escapeUnit u ++ r) = some (u, r) := by
  obtain ⟨e, he, h⟩ | ⟨hu, h | h⟩ := escapeUnit_cases u
  · have hall : (shortEscapes.all fun p => p.2 ≠ unit 'u' ∧ unescaped p.2 = p.1) = true := by
      decide
    obtain ⟨hne, hback⟩ := of_decide_eq_true (List.all_eq_true.mp hall _ he)
    have hstep : unescape ([unit '\\', e] ++ r) =
        if e = unit 'u' then unescape (unit '\\' :: e :: r) else some (unescaped e, r) := by
      split_ifs with hu
      · rfl
      · unfold unescape
        exact (if_pos rfl).trans (if_neg hu)
    rw [h, hstep, if_neg hne, hback]
  · have hlt : u.toNat < 65536 := u.toNat_lt
    have hhex : ∀ n < 16, hexValue (hexUnit n) = n := hexValue_hexUnit
    have hsum : u.toNat / 4096 * 4096 + u.toNat / 256 % 16 * 256 + u.toNat / 16 % 16 * 16 +
        u.toNat % 16 = u.toNat := by omega
    rw [h]
    change some (UInt16.ofNat _, r) = _
    rw [hhex _ (by omega), hhex _ (by omega), hhex _ (by omega), hhex _ (by omega), hsum,
      UInt16.ofNat_toNat]
  · rw [h]
    exact unescape_self (fun heq => hu (by rw [heq]; decide)) r

/-- The first unit is the second half of a pair, where the one before was the first. -/
def Fitting (paired : Bool) (s : Text) : Prop := paired = true → ∀ u ∈ s.head?, isLow u = true

/-- What stands for itself by being in a pair. -/
lemma half_of_raw {paired : Bool} {u : UInt16} {l : Text} (h : Fitting paired (u :: l))
    (hraw : (paired || isHigh u && l.head?.any isLow) = true) :
    isHigh u = true ∨ isLow u = true := by
  rw [Bool.or_eq_true, Bool.and_eq_true] at hraw
  exact hraw.elim (fun hp => .inr (h hp u rfl)) fun hp => .inl hp.1

lemma unescape_quoteFrom {paired : Bool} {u : UInt16} {l : Text} (h : Fitting paired (u :: l))
    (r : Text) :
    ∃ paired', Fitting paired' l ∧
      unescape (quoteFrom paired (u :: l) ++ r) = some (u, quoteFrom paired' l ++ r) := by
  refine ⟨isHigh u && l.head?.any isLow, ?_, ?_⟩
  · intro hpair v hv
    rw [Bool.and_eq_true] at hpair
    simpa [Option.mem_def.mp hv] using hpair.2
  · rw [quoteFrom, List.append_assoc]
    split_ifs with hraw
    · have hne : u ≠ unit '\\' := by
        rintro rfl
        exact absurd (half_of_raw h hraw) (by decide)
      exact unescape_self hne _
    · exact unescape_escapeUnit u _

lemma quoteFrom_ne_quote {paired : Bool} {u : UInt16} {l : Text} (h : Fitting paired (u :: l))
    (r s : Text) : quoteFrom paired (u :: l) ++ r ≠ unit '"' :: s := by
  have hslash : unit '\\' ≠ unit '"' := by decide
  intro heq
  rw [quoteFrom, List.append_assoc] at heq
  split_ifs at heq with hraw
  · obtain ⟨rfl, -⟩ := List.cons.inj heq
    exact absurd (half_of_raw h hraw) (by decide)
  · obtain ⟨e, -, hu⟩ | ⟨hu, hlong | hself⟩ := escapeUnit_cases u
    · rw [hu] at heq
      exact hslash (List.cons.inj heq).1
    · rw [hlong] at heq
      exact hslash (List.cons.inj heq).1
    · rw [hself] at heq
      obtain rfl : u = unit '"' := (List.cons.inj heq).1
      exact hu (by decide)

lemma quoteFrom_cancel {p q : Bool} {s t r r' : Text} (hs : Fitting p s) (ht : Fitting q t)
    (h : quoteFrom p s ++ unit '"' :: r = quoteFrom q t ++ unit '"' :: r') : s = t ∧ r = r' := by
  induction s generalizing p q t with
  | nil =>
    cases t with
    | nil => exact ⟨rfl, (List.cons.inj h).2⟩
    | cons v t => exact absurd h.symm (quoteFrom_ne_quote ht _ _)
  | cons u s ih =>
    cases t with
    | nil => exact absurd h (quoteFrom_ne_quote hs _ _)
    | cons v t =>
      obtain ⟨p', hp', hu⟩ := unescape_quoteFrom hs (unit '"' :: r)
      obtain ⟨q', hq', hv⟩ := unescape_quoteFrom ht (unit '"' :: r')
      have hsome := hu.symm.trans ((congrArg unescape h).trans hv)
      rw [Option.some.injEq, Prod.mk.injEq] at hsome
      obtain ⟨rfl, hr⟩ := ih hp' hq' hsome.2
      exact ⟨congrArg (· :: s) hsome.1, hr⟩

/-- A string's text determines it, and where it ends. -/
lemma quote_cancel {s t r r' : Text} (h : quote s ++ r = quote t ++ r') : s = t ∧ r = r' := by
  have hbody : quoteFrom false s ++ unit '"' :: r = quoteFrom false t ++ unit '"' :: r' := by
    simpa [quote] using h
  have hfits : ∀ l, Fitting false l := fun _ hpaired => nomatch hpaired
  exact quoteFrom_cancel (hfits s) (hfits t) hbody

/-! ### Numbers -/

/-- The units of numbers. -/
def isNumeric (u : UInt16) : Bool :=
  Js.isDigit u || [unit '.', unit 'e', unit '+', unit '-'].contains u

/-- A number does not go on here. -/
def Ends (r : Text) : Prop := ∀ u ∈ r.head?, isNumeric u = false

lemma ends_cons {u : UInt16} (h : isNumeric u = false) (r : Text) : Ends (u :: r) := by
  intro v hv
  rwa [← Option.some.inj hv]

lemma toNat_of_isDigit {c : Char} (h : c.isDigit = true) : 48 ≤ c.toNat ∧ c.toNat ≤ 57 := by
  simpa using Char.isDigit_iff_toNat.mp h

lemma toNat_lt_of_mem_toText {x : Double} {c : Char} (h : c ∈ x.toText) : c.toNat < 128 := by
  rcases Double.mem_toText h with h | h
  · have := toNat_of_isDigit h
    omega
  · simp only [List.mem_cons, List.not_mem_nil, or_false] at h
    rcases h with rfl | rfl | rfl | rfl <;> decide

lemma toNat_unit {c : Char} (h : c.toNat < 128) : (unit c).toNat = c.toNat :=
  UInt16.toNat_ofNat'.trans (Nat.mod_eq_of_lt (by omega))

lemma isNumeric_unit {x : Double} {c : Char} (h : c ∈ x.toText) : isNumeric (unit c) = true := by
  have hlt := toNat_lt_of_mem_toText h
  rcases Double.mem_toText h with h | h
  · have hdigit : Js.isDigit (unit c) = true := by
      simp only [Js.isDigit, toNat_unit hlt, decide_eq_true_eq]
      exact toNat_of_isDigit h
    simp [isNumeric, hdigit]
  · simp only [List.mem_cons, List.not_mem_nil, or_false] at h
    rcases h with rfl | rfl | rfl | rfl <;> decide

lemma flatMap_units {x : Double} : x.toText.flatMap units = x.toText.map unit := by
  have hunits : ∀ c ∈ x.toText, units c = [unit c] := fun c hc =>
    if_pos ((toNat_lt_of_mem_toText hc).trans (by decide))
  generalize x.toText = l at hunits
  induction l with
  | nil => rfl
  | cons c l ih =>
    rw [List.flatMap_cons, List.map_cons, hunits c List.mem_cons_self,
      ih fun d hd => hunits d (List.mem_cons_of_mem c hd)]
    rfl

lemma num_cancel {x y : Double} {r s : Text} (hr : Ends r) (hs : Ends s)
    (h : canonicalJson (.num x) ++ r = canonicalJson (.num y) ++ s) :
    x.value = y.value ∧ r = s := by
  simp only [canonicalJson, flatMap_units] at h
  have htake : ∀ {x : Double} {r : Text}, Ends r →
      (x.toText.map unit ++ r).takeWhile isNumeric = x.toText.map unit := by
    intro x r hr
    have hall : ∀ u ∈ x.toText.map unit, isNumeric u = true := fun u hu => by
      obtain ⟨c, hc, rfl⟩ := List.mem_map.mp hu
      exact isNumeric_unit hc
    rw [List.takeWhile_append_of_pos hall]
    cases r with
    | nil => simp
    | cons u r => simp [hr u rfl]
  have hunits : x.toText.map unit = y.toText.map unit := by
    rw [← htake hr, h, htake hs]
  have hback : ∀ x : Double, (x.toText.map unit).map (fun u => Char.ofNat u.toNat) = x.toText := by
    intro x
    rw [List.map_map]
    refine (List.map_congr_left fun c hc => ?_).trans (List.map_id _)
    rw [Function.comp_apply, toNat_unit (toNat_lt_of_mem_toText hc), Char.ofNat_toNat]
    rfl
  have htext : x.toText = y.toText := by rw [← hback x, hunits, hback y]
  refine ⟨Double.toText_eq_iff.mp htext, ?_⟩
  rw [htext] at h
  exact List.append_cancel_left h

/-! ### Induction -/

/-- The values that a value is made of. -/
def Value.parts : Value → List Value
  | .arr l => l
  | .obj l => l.map (·.2)
  | _ => []

lemma sizeOf_parts {u v : Value} (h : u ∈ v.parts) : sizeOf u < sizeOf v := by
  cases v with
  | arr l =>
    have := List.sizeOf_lt_of_mem (show u ∈ l from h)
    simp only [Value.arr.sizeOf_spec]
    omega
  | obj l =>
    obtain ⟨⟨k, w⟩, hmem, rfl⟩ := List.mem_map.mp h
    have := List.sizeOf_lt_of_mem hmem
    simp only [Value.obj.sizeOf_spec, Prod.mk.sizeOf_spec] at this ⊢
    omega
  | _ => cases h

theorem Value.induct {P : Value → Prop} (h : ∀ v : Value, (∀ u ∈ v.parts, P u) → P v)
    (v : Value) : P v :=
  h v fun u _ => Value.induct h u
  termination_by sizeOf v
  decreasing_by exact sizeOf_parts (by assumption)

/-- What the first unit of a text says. -/
def kindOf (u : UInt16) : ℕ :=
  if u = unit 'n' then 0 else if u = unit 't' then 1 else if u = unit 'f' then 2
  else if isNumeric u then 3 else if u = unit '"' then 4 else if u = unit '[' then 5
  else if u = unit '{' then 6 else 7

def Value.kind : Value → ℕ
  | .null | .infinite _ => 0
  | .bool b => if b then 1 else 2
  | .num _ => 3
  | .str _ => 4
  | .arr _ => 5
  | .obj _ => 6

lemma head_canonicalJson (v : Value) :
    ∃ u rest, canonicalJson v = u :: rest ∧ kindOf u = v.kind := by
  cases v with
  | null => exact ⟨unit 'n', _, rfl, by decide⟩
  | bool b => cases b <;> exact ⟨_, _, rfl, by decide⟩
  | num x =>
    obtain ⟨c, rest, hc⟩ := List.exists_cons_of_ne_nil (Double.toText_ne_nil x)
    have hnum : isNumeric (unit c) = true := isNumeric_unit (hc ▸ List.mem_cons_self)
    refine ⟨unit c, rest.map unit, by rw [canonicalJson, flatMap_units, hc, List.map_cons], ?_⟩
    have hne : ∀ d ∈ ['n', 't', 'f'], unit c ≠ unit d := by
      intro d hd heq
      rw [heq] at hnum
      revert hnum
      simp only [List.mem_cons, List.not_mem_nil, or_false] at hd
      rcases hd with rfl | rfl | rfl <;> decide
    simp only [List.mem_cons, List.not_mem_nil, or_false, forall_eq_or_imp, forall_eq] at hne
    simp only [kindOf, hne, hnum, if_true, if_false, Value.kind]
  | infinite b => exact ⟨unit 'n', _, rfl, rfl⟩
  | str s => exact ⟨unit '"', _, rfl, rfl⟩
  | arr l => exact ⟨unit '[', _, rfl, rfl⟩
  | obj l => exact ⟨unit '{', _, rfl, rfl⟩

lemma kind_eq {v w : Value} {r s : Text} (h : canonicalJson v ++ r = canonicalJson w ++ s) :
    v.kind = w.kind := by
  obtain ⟨a, rest, ha, hva⟩ := head_canonicalJson v
  obtain ⟨b, rest', hb, hwb⟩ := head_canonicalJson w
  rw [ha, hb] at h
  obtain ⟨rfl, -⟩ := List.cons.inj h
  exact hva.symm.trans hwb

/-- No value begins with a bracket that closes. -/
lemma canonicalJson_ne {v : Value} {u : UInt16} (hu : kindOf u = 7) (r s : Text) :
    canonicalJson v ++ r ≠ u :: s := by
  intro h
  obtain ⟨a, rest, ha, hva⟩ := head_canonicalJson v
  rw [ha] at h
  obtain ⟨rfl, -⟩ := List.cons.inj h
  rw [hu] at hva
  cases v with
  | bool b => cases b <;> cases hva
  | _ => cases hva

/-! ### Lists of texts -/

/-- What stands behind the first text. -/
def tail (l : List Text) : Text := l.flatMap (unit ',' :: ·)

lemma join_cons (t : Text) (l : List Text) : join (t :: l) = t ++ tail l := by
  rw [join]
  induction l generalizing t with
  | nil => simp [tail]
  | cons u l ih =>
    rw [List.intercalate_cons_cons, ih u]
    simp [tail]

section Join

variable {α : Type} {f : α → Text} {R : α → α → Prop} {close : UInt16} {l m : List α} {r s : Text}

lemma ends_tail (hclose : isNumeric close = false) (l : List Text) (r : Text) :
    Ends (tail l ++ close :: r) := by
  cases l with
  | nil => exact ends_cons hclose _
  | cons t l => exact ends_cons (by decide) _

lemma tail_cancel (hnum : isNumeric close = false) (hcomma : close ≠ unit ',')
    (hf : ∀ a ∈ l, ∀ b ∈ m, ∀ r s, Ends r → Ends s → f a ++ r = f b ++ s → R a b ∧ r = s)
    (h : tail (l.map f) ++ close :: r = tail (m.map f) ++ close :: s) :
    List.Forall₂ R l m ∧ r = s := by
  induction l generalizing m with
  | nil =>
    cases m with
    | nil => exact ⟨.nil, (List.cons.inj h).2⟩
    | cons b m => exact absurd (List.cons.inj h).1 hcomma
  | cons a l ih =>
    cases m with
    | nil => exact absurd (List.cons.inj h).1.symm hcomma
    | cons b m =>
      have hitem : f a ++ (tail (l.map f) ++ close :: r) =
          f b ++ (tail (m.map f) ++ close :: s) := by
        simpa [tail] using h
      obtain ⟨hab, hrest⟩ := hf a List.mem_cons_self b List.mem_cons_self _ _
        (ends_tail hnum _ _) (ends_tail hnum _ _) hitem
      obtain ⟨hlm, hrs⟩ := ih (fun x hx y hy =>
        hf x (List.mem_cons_of_mem _ hx) y (List.mem_cons_of_mem _ hy)) hrest
      exact ⟨.cons hab hlm, hrs⟩

/-- A list of texts in brackets is told apart as its texts are. -/
lemma join_cancel (hnum : isNumeric close = false) (hcomma : close ≠ unit ',')
    (hne : ∀ a r s, f a ++ r ≠ close :: s)
    (hf : ∀ a ∈ l, ∀ b ∈ m, ∀ r s, Ends r → Ends s → f a ++ r = f b ++ s → R a b ∧ r = s)
    (h : join (l.map f) ++ close :: r = join (m.map f) ++ close :: s) :
    List.Forall₂ R l m ∧ r = s := by
  cases l with
  | nil =>
    cases m with
    | nil => exact ⟨.nil, (List.cons.inj h).2⟩
    | cons b m =>
      rw [List.map_cons, join_cons, List.append_assoc] at h
      exact absurd h.symm (hne b _ _)
  | cons a l =>
    cases m with
    | nil =>
      rw [List.map_cons, join_cons, List.append_assoc] at h
      exact absurd h (hne a _ _)
    | cons b m =>
      refine tail_cancel hnum hcomma hf ?_
      rw [List.map_cons, join_cons, List.map_cons, join_cons] at h
      rw [List.map_cons, List.map_cons]
      simp only [tail, List.flatMap_cons, List.cons_append] at h ⊢
      exact congrArg (unit ',' :: ·) h

end Join

/-! ### Values -/

lemma Within.of_part {x u v : Value} (hu : u ∈ v.parts) (h : Within x u) : Within x v := by
  cases v with
  | arr l => exact .arr hu h
  | obj l =>
    obtain ⟨p, hp, rfl⟩ := List.mem_map.mp hu
    exact .obj hp h
  | _ => cases hu

lemma Value.Finite.part {u v : Value} (h : v.Finite) (hu : u ∈ v.parts) : u.Finite :=
  fun b hb => h b (hb.of_part hu)

lemma Value.Full.part {u v : Value} (h : v.Full) (hu : u ∈ v.parts) : u.Full :=
  fun hn => h (hn.of_part hu)

lemma Value.Parsed.part {u v : Value} (h : v.Parsed) (hu : u ∈ v.parts) : u.Parsed :=
  fun l hl => h l (hl.of_part hu)

/-- The order of keys, for the fields themselves. -/
def fieldLe (p q : Text × Value) : Prop := p.1.map UInt16.toNat ≤ q.1.map UInt16.toNat

instance : DecidableRel fieldLe := fun p q =>
  inferInstanceAs (Decidable (p.1.map UInt16.toNat ≤ q.1.map UInt16.toNat))

def fieldText (p : Text × Value) : Text := quote p.1 ++ unit ':' :: canonicalJson p.2

lemma canonicalJson_obj (l : Fields) : canonicalJson (.obj l) =
    unit '{' :: (join ((l.insertionSort fieldLe).map fieldText) ++ [unit '}']) := by
  have hsort : (canonicalFields l).insertionSort keyLe =
      (l.insertionSort fieldLe).map fun p => (p.1, canonicalJson p.2) := by
    rw [canonicalFields_eq]
    exact (List.map_insertionSort fieldLe keyLe (fun p => (p.1, canonicalJson p.2)) l
      fun _ _ _ _ => Iff.rfl).symm
  rw [canonicalJson, hsort, List.map_map]
  rfl

lemma fieldText_ne (p : Text × Value) (r s : Text) : fieldText p ++ r ≠ unit '}' :: s := by
  intro h
  exact absurd (List.cons.inj h).1 (by decide)

/-- **A text determines its value**, up to the order of fields, and where it ends. -/
theorem canonical_cancel (v : Value) : ∀ w r s, w.Finite → v.Finite ∨ w.Full → Ends r → Ends s →
    canonicalJson v ++ r = canonicalJson w ++ s → Same v w ∧ r = s := by
  induction v using Value.induct with
  | h v ih =>
  intro w r s hw hv hr hs h
  have hkind := kind_eq h
  have hparts : ∀ a ∈ v.parts, ∀ b ∈ w.parts, ∀ r s, Ends r → Ends s →
      canonicalJson a ++ r = canonicalJson b ++ s → Same a b ∧ r = s := fun a ha b hb r s hr hs h =>
    ih a ha b r s (hw.part hb) (hv.imp (·.part ha) (·.part hb)) hr hs h
  cases v with
  | null =>
    cases w with
    | null => exact ⟨.null, List.append_cancel_left h⟩
    | infinite b => exact absurd (.refl _) (hw b)
    | bool b => cases b <;> cases hkind
    | _ => cases hkind
  | infinite a =>
    cases w with
    | null => exact hv.elim (fun hv => absurd (.refl _) (hv a)) fun hw => absurd (.refl _) hw
    | infinite b => exact absurd (.refl _) (hw b)
    | bool b => cases b <;> cases hkind
    | _ => cases hkind
  | bool a =>
    cases w with
    | bool b =>
      obtain rfl : a = b := by cases a <;> cases b <;> first | rfl | cases hkind
      exact ⟨.bool a, List.append_cancel_left h⟩
    | _ => cases a <;> cases hkind
  | num x =>
    cases w with
    | num y =>
      obtain ⟨hxy, hrs⟩ := num_cancel hr hs h
      exact ⟨.num hxy, hrs⟩
    | bool b => cases b <;> cases hkind
    | _ => cases hkind
  | str a =>
    cases w with
    | str b =>
      obtain ⟨rfl, hrs⟩ := quote_cancel h
      exact ⟨.str a, hrs⟩
    | bool b => cases b <;> cases hkind
    | _ => cases hkind
  | arr l =>
    cases w with
    | arr m =>
      have hlist : join (l.map canonicalJson) ++ unit ']' :: r =
          join (m.map canonicalJson) ++ unit ']' :: s := by
        simpa [canonicalJson, canonicalList_eq] using h
      obtain ⟨hlm, hrs⟩ := join_cancel (by decide) (by decide)
        (fun a => canonicalJson_ne (by decide)) hparts hlist
      exact ⟨.arr hlm, hrs⟩
    | bool b => cases b <;> cases hkind
    | _ => cases hkind
  | obj l =>
    cases w with
    | obj m =>
      have hlist : join ((l.insertionSort fieldLe).map fieldText) ++ unit '}' :: r =
          join ((m.insertionSort fieldLe).map fieldText) ++ unit '}' :: s := by
        simpa [canonicalJson_obj] using h
      have hl := List.perm_insertionSort fieldLe l
      have hm := List.perm_insertionSort fieldLe m
      obtain ⟨hlm, hrs⟩ := join_cancel (R := fun p q => p.1 = q.1 ∧ Same p.2 q.2) (by decide)
        (by decide) fieldText_ne (fun p hp q hq r s hr hs h => by
          simp only [fieldText, List.append_assoc, List.cons_append] at h
          obtain ⟨hkey, hrest⟩ := quote_cancel h
          obtain ⟨hsame, hrs⟩ := hparts p.2 (List.mem_map_of_mem (hl.mem_iff.mp hp)) q.2
            (List.mem_map_of_mem (hm.mem_iff.mp hq)) r s hr hs (List.cons.inj hrest).2
          exact ⟨⟨hkey, hsame⟩, hrs⟩) hlist
      refine ⟨.obj hl.symm hm.symm ?_ ?_, hrs⟩
      · exact List.forall₂_eq_eq_eq ▸ List.forall₂_map_left_iff.mpr
          (List.forall₂_map_right_iff.mpr (hlm.imp fun _ _ h => h.1))
      · exact List.forall₂_map_left_iff.mpr
          (List.forall₂_map_right_iff.mpr (hlm.imp fun _ _ h => h.2))
    | bool b => cases b <;> cases hkind
    | _ => cases hkind

/-! ### Values that are the same -/

instance : Std.Total keyLe := ⟨fun p q => le_total (p.1.map UInt16.toNat) (q.1.map UInt16.toNat)⟩

instance : IsTrans (Text × Text) keyLe :=
  ⟨fun p q _ (h : p.1.map UInt16.toNat ≤ q.1.map UInt16.toNat) h' => le_trans h h'⟩

lemma key_eq {p q : Text × Text} (h : keyLe p q) (h' : keyLe q p) : p.1 = q.1 :=
  List.map_injective_iff.mpr (fun _ _ => UInt16.toNat.inj) (le_antisymm h h')

lemma map_eq_of_forall₂ {α β γ : Type} {R : α → β → Prop} {f : α → γ} {g : β → γ} {l : List α}
    {m : List β} (h : List.Forall₂ R l m) (hf : ∀ a ∈ l, ∀ b ∈ m, R a b → f a = g b) :
    l.map f = m.map g := by
  induction h with
  | nil => rfl
  | cons hab _ ih =>
    rw [List.map_cons, List.map_cons, hf _ List.mem_cons_self _ List.mem_cons_self hab,
      ih fun a ha b hb => hf a (List.mem_cons_of_mem _ ha) b (List.mem_cons_of_mem _ hb)]

/-- The fields of an object have one order, when no two are of one name. -/
lemma sort_eq_of_perm {l m : List (Text × Text)} (h : l.Perm m) (hl : (l.map (·.1)).Nodup) :
    l.insertionSort keyLe = m.insertionSort keyLe := by
  have hpl := List.perm_insertionSort keyLe l
  have hpm := List.perm_insertionSort keyLe m
  refine List.Perm.eq_of_pairwise (fun p q hp hq h1 h2 => ?_)
    (List.pairwise_insertionSort keyLe l) (List.pairwise_insertionSort keyLe m)
    (hpl.trans (h.trans hpm.symm))
  exact List.inj_on_of_nodup_map hl (hpl.mem_iff.mp hp)
    (h.mem_iff.mpr (hpm.mem_iff.mp hq)) (key_eq h1 h2)

theorem canonicalJson_of_same (v : Value) : ∀ w, v.Parsed → w.Parsed → Same v w →
    canonicalJson v = canonicalJson w := by
  induction v using Value.induct with
  | h v ih =>
  intro w hv hw h
  have hparts : ∀ a ∈ v.parts, ∀ b ∈ w.parts, Same a b → canonicalJson a = canonicalJson b :=
    fun a ha b hb hab => ih a ha b (hv.part ha) (hw.part hb) hab
  cases h with
  | null | bool b | str s | infinite b => rfl
  | num hxy => rw [canonicalJson, canonicalJson, Double.toText_eq_iff.mpr hxy]
  | @arr l m hlm =>
    rw [canonicalJson, canonicalJson, canonicalList_eq, canonicalList_eq,
      map_eq_of_forall₂ hlm hparts]
  | @obj l l' m m' left right keys values =>
    have htexts : (l'.map (·.2)).map canonicalJson = (m'.map (·.2)).map canonicalJson :=
      map_eq_of_forall₂ values fun a ha b hb =>
        hparts a ((left.map _).mem_iff.mpr ha) b ((right.map _).mem_iff.mpr hb)
    have hzip : ∀ l : Fields, canonicalFields l =
        (l.map (·.1)).zip ((l.map (·.2)).map canonicalJson) := by
      intro l
      rw [canonicalFields_eq, List.map_map, List.zip_map']
      rfl
    have hfields : canonicalFields l' = canonicalFields m' := by
      rw [hzip, hzip, keys, htexts]
    have hperm : (canonicalFields l).Perm (canonicalFields m) := by
      have hl : (canonicalFields l).Perm (canonicalFields l') := by
        rw [canonicalFields_eq, canonicalFields_eq]
        exact left.map _
      have hm : (canonicalFields m).Perm (canonicalFields m') := by
        rw [canonicalFields_eq, canonicalFields_eq]
        exact right.map _
      exact hl.trans (hfields ▸ hm.symm)
    have hkeys : ((canonicalFields l).map (·.1)).Nodup := by
      rw [canonicalFields_eq, List.map_map]
      exact hv l (.refl _)
    rw [canonicalJson, canonicalJson, sort_eq_of_perm hperm hkeys]

theorem canonicalJson_eq_iff {v w : Value} (hv : v.Parsed) (hw : w.Parsed) (hfull : w.Finite)
    (h : v.Finite ∨ w.Full) : canonicalJson v = canonicalJson w ↔ Same v w := by
  refine ⟨fun heq => ?_, canonicalJson_of_same v w hv hw⟩
  have hends : Ends [] := nofun
  exact (canonical_cancel v w [] [] hfull h hends hends (by rw [heq])).1

/-! ### The inbox that a checker answers for -/

/-- What `validateDeliveredInbox` leaves of an entry's kind: fields of different names, each with
a number, a text or a list of texts. -/
def Entry (v : Value) : Prop :=
  ∃ l : Fields, v = .obj l ∧ (l.map (·.1)).Nodup ∧ ∀ p ∈ l,
    (∃ x, p.2 = .num x) ∨ (∃ s, p.2 = .str s) ∨ ∃ texts : List Text, p.2 = .arr (texts.map .str)

def Value.get (key : String) : Value → Option Value
  | .obj l => l.lookup (lit key)
  | _ => none

/-- The comparison of `validateCheckerReceipt`. -/
def matchDelivered (receipt : Value) (deliveredInbox : List Value) : Except String Unit :=
  if (receipt.get "deliveredInbox").map canonicalJson = some (canonicalJson (.arr deliveredInbox))
  then .ok ()
  else .error "checker receipt deliveredInbox must exactly match the controller-delivered slice"

/-- What stands in a list of entries. -/
lemma within_entries {u : Value} {entries : List Value} (h : ∀ e ∈ entries, Entry e)
    (hu : Within u (.arr entries)) :
    u ∈ entries ∨ (∃ x, u = .num x) ∨ (∃ s, u = .str s) ∨ ∃ l, u = .arr l := by
  cases hu with
  | refl => exact .inr (.inr (.inr ⟨_, rfl⟩))
  | arr hmem hin =>
    obtain ⟨l, rfl, -, hl⟩ := h _ hmem
    cases hin with
    | refl => exact .inl hmem
    | obj hp hin =>
      right
      rcases hl _ hp with ⟨x, hx⟩ | ⟨s, hs⟩ | ⟨texts, ht⟩
      · rw [hx] at hin
        cases hin
        exact .inl ⟨x, rfl⟩
      · rw [hs] at hin
        cases hin
        exact .inr (.inl ⟨s, rfl⟩)
      · rw [ht] at hin
        cases hin with
        | refl => exact .inr (.inr ⟨_, rfl⟩)
        | arr hmem hin =>
          obtain ⟨s, -, rfl⟩ := List.mem_map.mp hmem
          cases hin
          exact .inr (.inl ⟨s, rfl⟩)

lemma entries_plain {entries : List Value} (h : ∀ e ∈ entries, Entry e) :
    (Value.arr entries).Parsed ∧ (Value.arr entries).Finite ∧ (Value.arr entries).Full := by
  refine ⟨fun l hl => ?_, fun b hb => ?_, fun hn => ?_⟩
  · rcases within_entries h hl with hmem | ⟨_, hx⟩ | ⟨_, hs⟩ | ⟨_, ht⟩
    · obtain ⟨m, heq, hnodup, -⟩ := h _ hmem
      cases heq
      exact hnodup
    all_goals contradiction
  · rcases within_entries h hb with hmem | ⟨_, hx⟩ | ⟨_, hs⟩ | ⟨_, ht⟩
    · obtain ⟨m, heq, -⟩ := h _ hmem
      cases heq
    all_goals contradiction
  · rcases within_entries h hn with hmem | ⟨_, hx⟩ | ⟨_, hs⟩ | ⟨_, ht⟩
    · obtain ⟨m, heq, -⟩ := h _ hmem
      cases heq
    all_goals contradiction

lemma parsed_of_get {key : String} {v w : Value} (hv : v.Parsed) (h : v.get key = some w) :
    w.Parsed := by
  cases v with
  | obj l =>
    obtain ⟨before, after, rfl, -⟩ := List.lookup_eq_some_iff.mp h
    have hmem : (lit key, w) ∈ before ++ (lit key, w) :: after := by simp
    exact hv.part (List.mem_map_of_mem (f := (·.2)) hmem)
  | _ => cases h

/-- **A canonical text is faithful.** Two values of JSON have one canonical text exactly where they
are the same up to the order of fields and the sign of zero. So a checker's receipt passes the
comparison exactly where its inbox is the slice that was delivered, also where a number in the
receipt is too large to be one. -/
theorem canonicalJson_faithful :
    (∀ v w : Value, v.Parsed → w.Parsed → v.Finite → w.Finite →
      (canonicalJson v = canonicalJson w ↔ Same v w)) ∧
    ∀ (receipt : Value) (deliveredInbox : List Value), receipt.Parsed →
      (∀ e ∈ deliveredInbox, Entry e) →
      (matchDelivered receipt deliveredInbox = .ok () ↔
        ∃ inbox, receipt.get "deliveredInbox" = some inbox ∧ Same inbox (.arr deliveredInbox)) := by
  refine ⟨fun v w hv hw hfv hfw => canonicalJson_eq_iff hv hw hfw (.inl hfv),
    fun receipt deliveredInbox hr hentries => ?_⟩
  obtain ⟨hparsed, hfinite, hfull⟩ := entries_plain hentries
  rw [matchDelivered]
  cases hget : receipt.get "deliveredInbox" with
  | none => simp
  | some inbox =>
    have hiff := canonicalJson_eq_iff (parsed_of_get hr hget) hparsed hfinite (.inr hfull)
    simp only [Option.map_some, Option.some.injEq, exists_eq_left', ← hiff]
    split_ifs with heq
    · simp [heq]
    · simp [heq]

/-- What stands in an object of two fields that hold no others. -/
lemma within_pair {u a b : Value} {k k' : Text} (ha : a.parts = []) (hb : b.parts = [])
    (h : Within u (.obj [(k, a), (k', b)])) : u = .obj [(k, a), (k', b)] ∨ u = a ∨ u = b := by
  have hleaf : ∀ {v : Value}, v.parts = [] → Within u v → u = v := by
    intro v hv hin
    cases hin with
    | refl => rfl
    | arr hmem _ =>
      obtain rfl := hv
      cases hmem
    | obj hmem _ =>
      obtain rfl := List.map_eq_nil_iff.mp hv
      cases hmem
  cases h with
  | refl => exact .inl rfl
  | obj hmem hin =>
    simp only [List.mem_cons, List.not_mem_nil, or_false] at hmem
    rcases hmem with rfl | rfl
    · exact .inr (.inl (hleaf ha hin))
    · exact .inr (.inr (hleaf hb hin))

/-- Two fields in either order, and an empty slice. -/
theorem canonicalJson_faithful_fields :
    Same (.obj [(lit "a", .null), (lit "b", .bool true)])
      (.obj [(lit "b", .bool true), (lit "a", .null)]) ∧
    ∃ inbox, (Value.obj [(lit "deliveredInbox", .arr []), (lit "what", .null)]).get
      "deliveredInbox" = some inbox ∧ Same inbox (.arr []) := by
  refine ⟨(canonicalJson_faithful.1 _ _ ?_ ?_ ?_ ?_).mp (by decide),
    (canonicalJson_faithful.2 _ [] ?_ nofun).mp (by decide)⟩
  all_goals
    intro x hx
    rcases within_pair rfl rfl hx with h | h | h <;> first
      | (injection h with h; subst h; decide)
      | cases h

end Bimo.CanonicalJson
