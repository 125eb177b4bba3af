import Mathlib.Data.List.Induction
import Bimo.Handle
import Bimo.Prog

/-!
The spec of an agent and its validation.

A spec is a TOML document: runtime and source, secrets by handle, an egress allowlist, a tenant
and a placement. `parseAndValidate` reads every field, collects every problem in one list, in
the order in which it meets them, and makes a spec when the list is empty. The functions here
return the problems they would push.

What `toml` makes of a text and what the outside world knows are parameters (`Host`).
-/

namespace Bimo.EngineSpec

/-! ### The spec -/

inductive SourceKind
  | config
  | git
  deriving DecidableEq, Repr

def SourceKind.toText : SourceKind → String
  | .config => "config"
  | .git => "git"

inductive Source
  | config (path : String)
  | git (repo rev : String)
  deriving DecidableEq, Repr

def Source.kind : Source → SourceKind
  | .config _ => .config
  | .git _ _ => .git

structure SecretRef where
  /-- The environment variable the runtime reads. -/
  env : String
  /-- `<tenant>/<name>`. -/
  handle : String
  /-- The hosts the real value may be injected for. -/
  hosts : List String
  deriving DecidableEq, Repr

structure Egress where
  allow : List String
  deriving DecidableEq, Repr

structure Placement where
  substrate : String
  deriving DecidableEq, Repr

structure AgentSpec where
  schemaVersion : ℕ
  name : String
  tenantId : String
  runtime : String
  source : Source
  secrets : List SecretRef
  egress : Egress
  placement : Placement
  deriving DecidableEq, Repr

structure SpecError where
  field : String
  message : String
  deriving DecidableEq, Repr

structure LoadedSpec where
  spec : AgentSpec
  path : String
  sourceDir : Option String
  fingerprint : String
  deriving DecidableEq, Repr

/-! ### The document -/

inductive Toml
  | string (s : String)
  | integer (n : Int)
  | float (text : String)
  | boolean (b : Bool)
  | datetime (text : String)
  | array (l : List Toml)
  | table (l : List (String × Toml))

/-- The entries of a table, by key. -/
abbrev Table := List (String × Toml)

structure RawSpec where
  schemaVersion : Option Int := none
  name : Option String := none
  tenantId : Option String := none
  runtime : Option String := none
  source : Option Table := none
  secrets : Option (List Table) := none
  egress : Option Table := none
  placement : Option Table := none
  extra : Table := []

/-- A target's secret source: what a handle resolves to. -/
abbrev SecretSource := Handle → Except String String

structure Host where
  fromStr : String → Except String RawSpec
  secretSource : String → Except String SecretSource
  /-- `base.join(relative)`, shown. -/
  join : String → String → String
  /-- The canonical path, where it is one of a directory. -/
  canonicalDir : String → Option String
  fingerprint : AgentSpec → Option String → Except String String

/-! ### Problems -/

/-- A value and the problems that were met. -/
structure Checked (α : Type) where
  value : α
  errors : List SpecError

namespace Checked

instance : Monad Checked where
  pure a := ⟨a, []⟩
  bind m f := ⟨(f m.value).value, m.errors ++ (f m.value).errors⟩

variable {α β : Type}

@[simp] lemma value_pure (a : α) : (pure a : Checked α).value = a := rfl

@[simp] lemma errors_pure (a : α) : (pure a : Checked α).errors = [] := rfl

@[simp] lemma value_bind (m : Checked α) (f : α → Checked β) :
    (m >>= f).value = (f m.value).value := rfl

@[simp] lemma errors_bind (m : Checked α) (f : α → Checked β) :
    (m >>= f).errors = [] ↔ m.errors = [] ∧ (f m.value).errors = [] :=
  List.append_eq_nil_iff

end Checked

def report (field message : String) : Checked Unit := ⟨(), [⟨field, message⟩]⟩

@[simp] lemma errors_report (field message : String) : (report field message).errors ≠ [] :=
  List.cons_ne_nil _ _

/-- A problem where the condition fails. -/
def demand (p : Prop) [Decidable p] (field message : String) : Checked Unit :=
  if p then pure () else report field message

@[simp] lemma errors_demand (p : Prop) [Decidable p] (field message : String) :
    (demand p field message).errors = [] ↔ p := by
  unfold demand
  split_ifs with h <;> simp [h]

/-- Each element in turn, with its position. -/
def forEach {α : Type} (f : ℕ → α → Checked Unit) : ℕ → List α → Checked Unit
  | _, [] => pure ()
  | i, a :: l => do
    f i a
    forEach f (i + 1) l

lemma errors_forEach {α : Type} {f : ℕ → α → Checked Unit} {i : ℕ} {l : List α}
    (h : (forEach f i l).errors = []) : ∀ a ∈ l, ∃ j, (f j a).errors = [] := by
  induction l generalizing i with
  | nil => simp
  | cons a l ih =>
    obtain ⟨ha, hl⟩ := (Checked.errors_bind _ _).mp h
    rintro b (- | ⟨_, hb⟩)
    · exact ⟨i, ha⟩
    · exact ih hl b hb

/-! ### Texts -/

def toAsciiLowercase (s : String) : String := String.ofList (s.toList.map Char.toLower)

@[simp] lemma toList_toAsciiLowercase (s : String) :
    (toAsciiLowercase s).toList = s.toList.map Char.toLower := by
  simp [toAsciiLowercase]

/-- A character is in small letters already, or it is a capital. -/
lemma toLower_cases (c : Char) :
    c.toLower = c ∨ 65 ≤ c.toNat ∧ c.toNat ≤ 90 ∧ c.toLower.toNat = c.toNat + 32 := by
  by_cases h : c.val ≥ 'A'.val ∧ c.val ≤ 'Z'.val
  · have hlow : c.toLower.val = c.val + ('a'.val - 'A'.val) := by
      rw [Char.toLower, dif_pos h]
    have hge : 65 ≤ c.toNat := UInt32.le_iff_toNat_le.mp h.1
    have hle : c.toNat ≤ 90 := UInt32.le_iff_toNat_le.mp h.2
    have hval : c.toLower.toNat = (c.toNat + 32) % 2 ^ 32 := by
      rw [Char.toNat, hlow, UInt32.toNat_add]
      rfl
    exact .inr ⟨hge, hle, by omega⟩
  · exact .inl (dif_neg h)

lemma toLower_toLower (c : Char) : c.toLower.toLower = c.toLower := by
  obtain h | ⟨hge, hle, h⟩ := toLower_cases c
  · rw [h, h]
  · obtain h' | h' := toLower_cases c.toLower
    · exact h'
    · omega

/-- Only a small letter is written for another character. -/
lemma eq_of_toLower {c : Char} (h : c.toLower.toNat < 97) : c.toLower = c := by
  obtain h' | h' := toLower_cases c
  · exact h'
  · omega

@[simp] lemma toAsciiLowercase_idem (s : String) :
    toAsciiLowercase (toAsciiLowercase s) = toAsciiLowercase s := by
  have hmap : (s.toList.map Char.toLower).map Char.toLower = s.toList.map Char.toLower := by
    rw [List.map_map]
    exact List.map_congr_left fun c _ => toLower_toLower c
  simp [toAsciiLowercase, hmap]

/-- The characters that `trim` takes off. -/
def isWhitespace (c : Char) : Bool :=
  let n := c.toNat
  (9 ≤ n && n ≤ 13) || n = 32 || n = 133 || n = 160 || n = 5760 || (8192 ≤ n && n ≤ 8202) ||
    n = 8232 || n = 8233 || n = 8239 || n = 8287 || n = 12288

def isBlank (s : String) : Bool := s.toList.all isWhitespace

def isHexDigit (c : Char) : Bool :=
  c.isDigit || ('a' ≤ c && c ≤ 'f') || ('A' ≤ c && c ≤ 'F')

def octet (cs : List Char) : Option ℕ :=
  if cs ≠ [] ∧ cs.length ≤ 3 ∧ cs.all Char.isDigit ∧ (cs.length = 1 ∨ cs.head? ≠ some '0') then
    (some (Nat.ofDigitChars 10 cs 0)).filter (· ≤ 255)
  else none

structure Ipv4Addr where
  a : ℕ
  b : ℕ
  c : ℕ
  d : ℕ
  deriving DecidableEq, Repr

/-- Four numbers of up to three digits, none with a zero in front. -/
def parseIpv4 (s : String) : Option Ipv4Addr :=
  match s.toList.splitOn '.' with
  | [a, b, c, d] => do
    let a ← octet a
    let b ← octet b
    let c ← octet c
    let d ← octet d
    pure ⟨a, b, c, d⟩
  | _ => none

lemma digitChar_of_isDigit {c : Char} (h : c.isDigit = true) :
    c.toNat - 48 < 10 ∧ Nat.digitChar (c.toNat - 48) = c := by
  obtain ⟨hlow, hhigh⟩ := Char.isDigit_iff_toNat.mp h
  have hlow : 48 ≤ c.toNat := hlow
  have hhigh : c.toNat ≤ 57 := hhigh
  have key : ∀ n < 10, (Nat.digitChar n).toNat = 48 + n := by decide
  refine ⟨by omega, Char.toNat_inj.mp ?_⟩
  rw [key _ (by omega)]
  omega

/-- A number says how it is written, where no zero stands in front. -/
lemma toDigits_ofDigitChars {cs : List Char} (hne : cs ≠ []) (hall : ∀ c ∈ cs, c.isDigit = true)
    (hhead : cs.length = 1 ∨ cs.head? ≠ some '0') :
    Nat.toDigits 10 (Nat.ofDigitChars 10 cs 0) = cs := by
  induction cs using List.reverseRecOn with
  | nil => exact absurd rfl hne
  | append_singleton cs c ih =>
    obtain ⟨hlt, hchar⟩ := digitChar_of_isDigit (hall c (by simp))
    rw [Nat.ofDigitChars_append, Nat.ofDigitChars_cons, Nat.ofDigitChars_nil]
    change Nat.toDigits 10 (10 * Nat.ofDigitChars 10 cs 0 + (c.toNat - 48)) = _
    obtain rfl | hcs := eq_or_ne cs []
    · rw [Nat.ofDigitChars_nil, Nat.mul_zero, Nat.zero_add, Nat.toDigits_of_lt_base hlt, hchar]
      rfl
    · have hhead' : cs.head? ≠ some '0' := by
        obtain h | h := hhead
        · simp at h
          exact absurd h hcs
        · rwa [List.head?_append_of_ne_nil _ hcs] at h
      have hprev := ih hcs (fun c hc => hall c (by simp [hc])) (.inr hhead')
      have hpos : 0 < Nat.ofDigitChars 10 cs 0 := by
        refine Nat.pos_of_ne_zero fun hzero => hhead' ?_
        rw [← hprev, hzero]
        rfl
      rw [← Nat.toDigits_append_toDigits (by decide) hpos hlt, hprev,
        Nat.toDigits_of_lt_base hlt, hchar]

lemma le_of_octet {cs : List Char} {n : ℕ} (h : octet cs = some n) : n ≤ 255 := by
  unfold octet at h
  split_ifs at h
  simpa using (Option.filter_eq_some_iff.mp h).2

lemma octet_toDigits {n : ℕ} (h : n ≤ 255) : octet (Nat.toDigits 10 n) = some n := by
  have key : ∀ n < 256, octet (Nat.toDigits 10 n) = some n := by decide +kernel
  exact key n (Nat.lt_succ_of_le h)

lemma toDigits_of_octet {cs : List Char} {n : ℕ} (h : octet cs = some n) :
    cs = Nat.toDigits 10 n := by
  unfold octet at h
  split_ifs at h with hcs
  obtain ⟨hne, -, hall, hhead⟩ := hcs
  obtain ⟨hn, -⟩ := Option.filter_eq_some_iff.mp h
  obtain rfl := Option.some.inj hn
  exact (toDigits_ofDigitChars hne (List.all_eq_true.mp hall) hhead).symm

def isIpv4 (host : String) : Bool := (parseIpv4 host).isSome

lemma parts_of_parseIpv4 {s : String} {ip : Ipv4Addr} (h : parseIpv4 s = some ip) :
    s.toList.splitOn '.' =
      [Nat.toDigits 10 ip.a, Nat.toDigits 10 ip.b, Nat.toDigits 10 ip.c, Nat.toDigits 10 ip.d] := by
  unfold parseIpv4 at h
  split at h
  · rename_i a b c d hsplit
    simp only [Option.bind_eq_bind, Option.bind_eq_some_iff] at h
    obtain ⟨a', ha, b', hb, c', hc, d', hd, h⟩ := h
    obtain rfl := Option.some.inj h
    rw [hsplit, toDigits_of_octet ha, toDigits_of_octet hb, toDigits_of_octet hc,
      toDigits_of_octet hd]
  · cases h

lemma le_of_parseIpv4 {s : String} {ip : Ipv4Addr} (h : parseIpv4 s = some ip) :
    ip.a ≤ 255 ∧ ip.b ≤ 255 ∧ ip.c ≤ 255 ∧ ip.d ≤ 255 := by
  unfold parseIpv4 at h
  split at h
  · simp only [Option.bind_eq_bind, Option.bind_eq_some_iff] at h
    obtain ⟨a, ha, b, hb, c, hc, d, hd, h⟩ := h
    obtain rfl := Option.some.inj h
    exact ⟨le_of_octet ha, le_of_octet hb, le_of_octet hc, le_of_octet hd⟩
  · cases h

lemma parseIpv4_intercalate {a b c d : ℕ} (ha : a ≤ 255) (hb : b ≤ 255) (hc : c ≤ 255)
    (hd : d ≤ 255) : parseIpv4 (String.ofList (['.'].intercalate
      [Nat.toDigits 10 a, Nat.toDigits 10 b, Nat.toDigits 10 c, Nat.toDigits 10 d])) =
        some ⟨a, b, c, d⟩ := by
  have hdot : ∀ n, '.' ∉ Nat.toDigits 10 n := fun n hmem =>
    absurd (Nat.isDigit_of_mem_toDigits (by decide) (by decide) hmem) (by decide)
  rw [parseIpv4, String.toList_ofList, List.splitOn_intercalate _ (by simp [hdot]) (by simp)]
  simp [octet_toDigits ha, octet_toDigits hb, octet_toDigits hc, octet_toDigits hd]

lemma toList_of_parseIpv4 {s : String} {ip : Ipv4Addr} (h : parseIpv4 s = some ip) :
    s.toList = ['.'].intercalate
      [Nat.toDigits 10 ip.a, Nat.toDigits 10 ip.b, Nat.toDigits 10 ip.c, Nat.toDigits 10 ip.d] := by
  rw [← parts_of_parseIpv4 h, List.intercalate_splitOn]

/-- An address is written in one way. -/
theorem parseIpv4_injective {s t : String} {ip : Ipv4Addr} (hs : parseIpv4 s = some ip)
    (ht : parseIpv4 t = some ip) : s = t :=
  String.toList_inj.mp ((toList_of_parseIpv4 hs).trans (toList_of_parseIpv4 ht).symm)

lemma chars_of_parseIpv4 {s : String} {ip : Ipv4Addr} (h : parseIpv4 s = some ip) :
    ∀ c ∈ s.toList, c = '.' ∨ c.isDigit = true := by
  intro c hc
  have hdigit : ∀ n, c ∈ Nat.toDigits 10 n → c.isDigit = true := fun n =>
    Nat.isDigit_of_mem_toDigits (by decide) (by decide)
  rw [toList_of_parseIpv4 h] at hc
  simp only [List.intercalate, List.intersperse, List.flatten_cons, List.flatten_nil,
    List.mem_append, List.mem_singleton, List.append_nil] at hc
  obtain h | h | h | h | h | h | h := hc
  all_goals first | exact .inl h | exact .inr (hdigit _ h)

/-- What follows `*.`. -/
def stripStar (s : String) : Option String :=
  match s.toList with
  | '*' :: '.' :: rest => some (String.ofList rest)
  | _ => none

lemma stripStar_eq_some {s t : String} :
    stripStar s = some t ↔ s.toList = '*' :: '.' :: t.toList := by
  unfold stripStar
  split
  · rename_i rest heq
    rw [heq, Option.some_inj]
    constructor
    · rintro rfl
      rw [String.toList_ofList]
    · intro h
      simp only [List.cons.injEq, true_and] at h
      rw [h, String.ofList_toList]
  · rename_i hne
    constructor
    · intro h
      cases h
    · exact fun h => absurd h (hne t.toList)

lemma stripStar_toAsciiLowercase (s : String) :
    stripStar (toAsciiLowercase s) = (stripStar s).map toAsciiLowercase := by
  cases hs : stripStar s with
  | some u =>
    refine stripStar_eq_some.mpr ?_
    rw [toList_toAsciiLowercase, toList_toAsciiLowercase, stripStar_eq_some.mp hs]
    rfl
  | none =>
    cases ht : stripStar (toAsciiLowercase s) with
    | none => rfl
    | some t =>
      rw [stripStar_eq_some, toList_toAsciiLowercase] at ht
      obtain ⟨c, cs, hcs, hc, ht⟩ := List.map_eq_cons_iff.mp ht
      obtain ⟨d, ds, rfl, hd, -⟩ := List.map_eq_cons_iff.mp ht
      have hstar : c = '*' := (eq_of_toLower (by rw [hc]; decide)).symm.trans hc
      have hdot : d = '.' := (eq_of_toLower (by rw [hd]; decide)).symm.trans hd
      have hsome : stripStar s = some (String.ofList ds) :=
        stripStar_eq_some.mpr (by rw [hcs, hstar, hdot, String.toList_ofList])
      cases hs.symm.trans hsome

/-- A pattern is no address. -/
lemma parseIpv4_of_stripStar {s t : String} (h : stripStar s = some t) : parseIpv4 s = none := by
  cases hip : parseIpv4 s with
  | none => rfl
  | some ip =>
    have hstar := chars_of_parseIpv4 hip '*' (by rw [stripStar_eq_some.mp h]; exact .head _)
    exact absurd hstar (by decide)

def validLabel (label : List Char) : Bool :=
  label ≠ [] && label.length ≤ 63 && label.all (fun c => c.isAlphanum || c = '-') &&
    label.head? ≠ some '-' && label.getLast? ≠ some '-'

def validHostPattern (value : String) : Bool :=
  let host := (stripStar value).getD value
  if (parseIpv4 host).isSome then (stripStar value).isNone
  else host ≠ "" && host.utf8ByteSize ≤ 253 && (host.toList.splitOn '.').all validLabel

lemma mem_intersperse {α : Type} {a x : α} {l : List α} (h : x ∈ l.intersperse a) :
    x = a ∨ x ∈ l := by
  induction l with
  | nil => cases h
  | cons b l ih =>
    cases l with
    | nil => exact .inr h
    | cons c l =>
      rw [List.intersperse_cons_cons] at h
      rcases h with - | ⟨_, - | ⟨_, h⟩⟩
      · exact .inr (.head _)
      · exact .inl rfl
      · exact (ih h).imp_right (List.mem_cons_of_mem _)

/-- What a text is made of, when it is taken apart. -/
lemma mem_splitOn {α : Type} [DecidableEq α] {a x : α} {l : List α} (h : x ∈ l) :
    x = a ∨ ∃ part ∈ l.splitOn a, x ∈ part := by
  have hl : [a].intercalate (l.splitOn a) = l := List.intercalate_splitOn a
  rw [← hl, List.intercalate] at h
  obtain ⟨part, hpart, hx⟩ := List.mem_flatten.mp h
  obtain rfl | hpart := mem_intersperse hpart
  · exact .inl (List.mem_singleton.mp hx)
  · exact .inr ⟨part, hpart, hx⟩

def isHostChar (c : Char) : Bool := c.isAlphanum || c = '-' || c = '.'

/-- The host of a pattern is made of letters, digits, hyphens and dots, and is no address behind
a star. -/
lemma of_validHostPattern {value : String} (h : validHostPattern value = true) :
    (∀ c ∈ ((stripStar value).getD value).toList, isHostChar c = true) ∧
      ∀ t, stripStar value = some t → isIpv4 t = false := by
  unfold validHostPattern at h
  dsimp only at h
  split_ifs at h with hip
  · obtain ⟨ip, hip⟩ := Option.isSome_iff_exists.mp hip
    refine ⟨fun c hc => ?_, fun t ht => by simp [ht] at h⟩
    obtain rfl | hdigit := chars_of_parseIpv4 hip c hc
    · rfl
    · simp [isHostChar, Char.isAlphanum, hdigit]
  · refine ⟨fun c hc => ?_, fun t ht => ?_⟩
    · simp only [Bool.and_eq_true, List.all_eq_true] at h
      obtain rfl | ⟨label, hlabel, hmem⟩ := mem_splitOn (a := '.') hc
      · rfl
      · have hvalid := h.2 label hlabel
        simp only [validLabel, Bool.and_eq_true, List.all_eq_true] at hvalid
        have hchar := hvalid.1.1.2 c hmem
        simp only [isHostChar, hchar, Bool.true_or]
    · rw [ht] at hip
      simpa [isIpv4] using hip

lemma isHostChar_toLower {c : Char} (h : isHostChar c = true) : isHostChar c.toLower = true := by
  obtain hc | ⟨hge, hle, hc⟩ := toLower_cases c
  · rwa [hc]
  · have hlower : c.toLower.isLower = true := by
      simp only [Char.isLower, Bool.and_eq_true, decide_eq_true_eq, ge_iff_le,
        UInt32.le_iff_toNat_le]
      exact ⟨show 97 ≤ c.toLower.toNat by omega, show c.toLower.toNat ≤ 122 by omega⟩
    simp [isHostChar, Char.isAlphanum, Char.isAlpha, hlower]

/-- An address has no letters. -/
lemma isIpv4_of_toAsciiLowercase {s : String} (h : isIpv4 (toAsciiLowercase s) = true) :
    isIpv4 s = true := by
  obtain ⟨ip, hip⟩ := Option.isSome_iff_exists.mp h
  have hlow : ∀ c ∈ s.toList, c.toLower = c := by
    intro c hc
    have hmem : c.toLower ∈ (toAsciiLowercase s).toList := by
      rw [toList_toAsciiLowercase]
      exact List.mem_map_of_mem hc
    refine eq_of_toLower ?_
    obtain hdot | hdigit := chars_of_parseIpv4 hip _ hmem
    · rw [hdot]
      decide
    · exact Nat.lt_of_le_of_lt (Char.isDigit_iff_toNat.mp hdigit).2 (by decide)
  have hs : toAsciiLowercase s = s := by
    refine String.toList_inj.mp ?_
    rw [toList_toAsciiLowercase, List.map_congr_left hlow, List.map_id']
  rwa [hs] at h

/-- Whether an entry of the allowlist matches. `*.example.com` matches subdomains of it. -/
def hostAllowed (host : String) (allow : List String) : Bool :=
  let host := toAsciiLowercase host
  allow.any fun entry =>
    match stripStar entry with
    | some suffix => ("." ++ suffix).toList.isSuffixOf host.toList
    | none => entry = host

/-! ### The fields -/

def substrateFields : List String :=
  ["node", "nodes", "vmid", "guest_id", "guest_type", "template", "storage", "pool", "cluster",
    "api_url", "bridge", "vlan", "address", "ip", "instance_type", "region", "zone", "namespace",
    "image", "cores", "memory", "disk", "substrate", "target"]

/-- What follows the last dot. -/
def leafOf (path : String) : String :=
  String.ofList ((path.toList.splitOn '.').getLast?.getD path.toList)

def unexpectedField (path : String) (inPlacement : Bool) : Checked Unit :=
  if leafOf path ∈ substrateFields then
    report path ("substrate-specific field '" ++ path ++
      if inPlacement then
        "' is not allowed; placement holds only the substrate name, and substrate settings " ++
          "belong in the target config"
      else
        "' is not allowed outside placement; name the substrate with placement.substrate and " ++
          "put its settings in the target config")
  else report path ("unknown field '" ++ path ++ "'")

def requiredIdentifier (field : String) : Option String → Checked (Option String)
  | none => do
    report field "required"
    pure none
  | some value =>
    if isIdentifier value then pure (some value)
    else do
      report field ("'" ++ value ++ "' is not valid; use 1-63 lowercase letters, digits or '-', " ++
        "not starting or ending with '-'")
      pure none

/-- The entry of a key is taken out of the table. -/
def remove (table : Table) (key : String) : Option Toml × Table :=
  (table.lookup key, table.filter (·.1 ≠ key))

/-- The string of a value that is one and is not blank. -/
def asText : Toml → Option String
  | .string s => if isBlank s then none else some s
  | _ => none

def takeString (table : Table) (field key : String) : Checked (Option String × Table) :=
  match remove table key with
  | (none, rest) => do
    report (field ++ "." ++ key) "required"
    pure (none, rest)
  | (some value, rest) =>
    match asText value with
    | some s => pure (some s, rest)
    | none => do
      report (field ++ "." ++ key) "must be a non-empty string"
      pure (none, rest)

def takeStringList (table : Table) (field key : String) (required : Bool) :
    Checked (Option (List String) × Table) :=
  match remove table key with
  | (none, rest) =>
    if required then do
      report (field ++ "." ++ key) "required"
      pure (none, rest)
    else pure (some [], rest)
  | (some (.array values), rest) =>
    match values.mapM asText with
    | some out => pure (some out, rest)
    | none => do
      report (field ++ "." ++ key) "must be a list of non-empty strings"
      pure (none, rest)
  | (some _, rest) => do
    report (field ++ "." ++ key) "must be a list of strings"
    pure (none, rest)

def reportLeftovers (table : Table) (field : String) (inPlacement : Bool) : Checked Unit :=
  forEach (fun _ entry => unexpectedField (field ++ "." ++ entry.1) inPlacement) 0 table

def parseSource : Option Table → Checked (Option Source)
  | none => do
    report "source" "required; a [source] table with kind = \"config\" or kind = \"git\""
    pure none
  | some table => do
    let (kind, table) ← takeString table "source" "kind"
    let (source, table) ← match kind with
      | some "config" => do
        let (path, table) ← takeString table "source" "path"
        pure (path.map Source.config, table)
      | some "git" => do
        let (repo, table) ← takeString table "source" "repo"
        let (rev, table) ← takeString table "source" "rev"
        rev.forM fun rev =>
          demand (rev.utf8ByteSize = 40 ∧ rev.toList.all isHexDigit) "source.rev"
            ("'" ++ rev ++ "' must be a full 40-character commit id so the source is immutable")
        match repo, rev with
        | some repo, some rev => pure (some (.git repo (toAsciiLowercase rev)), table)
        | _, _ => pure (none, table)
      | some other => do
        report "source.kind" ("unknown source kind '" ++ other ++ "'; use \"config\" or \"git\"")
        pure (none, table)
      | none => pure (none, table)
    reportLeftovers table "source" false
    pure source

/-- Every host of the allowlist, with those that were seen. -/
def checkAllow : List String → List String → Checked Unit
  | _, [] => pure ()
  | seen, host :: hosts => do
    demand (validHostPattern host) "egress.allow"
      ("'" ++ host ++ "' is not a hostname, '*.domain' pattern or IPv4 address")
    demand (toAsciiLowercase host ∉ seen) "egress.allow" ("'" ++ host ++ "' is listed twice")
    checkAllow (toAsciiLowercase host :: seen) hosts

def parseEgress (raw : Option Table) : Checked (Option Egress) := do
  let (allow, table) ← takeStringList (raw.getD []) "egress" "allow" false
  reportLeftovers table "egress" false
  match allow with
  | none => pure none
  | some allow => do
    checkAllow [] allow
    pure (some ⟨allow.map toAsciiLowercase⟩)

def parsePlacement : Option Table → Checked (Option Placement)
  | none => do
    report "placement"
      ("required; a [placement] table naming the substrate, for example substrate = \"local\"")
    pure none
  | some table => do
    let (substrate, table) ← takeString table "placement" "substrate"
    reportLeftovers table "placement" true
    pure (substrate.map Placement.mk)

def isEnvName (env : String) : Bool :=
  env.toList.all (fun c => c = '_' || c.isUpper || c.isDigit) && !env.toList.head?.any Char.isDigit

def parseSecret (index : ℕ) (table : Table) : Checked (Option SecretRef) := do
  let field := "secrets[" ++ toString index ++ "]"
  let (env, table) ← takeString table field "env"
  let (handle, table) ← takeString table field "handle"
  let (hosts, table) ← takeStringList table field "hosts" true
  reportLeftovers table field false
  env.forM fun env =>
    demand (isEnvName env) (field ++ ".env")
      ("'" ++ env ++ "' is not an uppercase environment variable name")
  demand (hosts ≠ some []) (field ++ ".hosts") "must name at least one destination host"
  match env, handle, hosts with
  | some env, some handle, some hosts => pure (some ⟨env, handle, hosts.map toAsciiLowercase⟩)
  | _, _, _ => pure none

def parseSecrets : ℕ → List Table → Checked (List SecretRef)
  | _, [] => pure []
  | index, table :: raw => do
    let secret ← parseSecret index table
    let secrets ← parseSecrets (index + 1) raw
    pure (secret.toList ++ secrets)

/-! ### The runtimes -/

structure Adapter where
  name : String
  sourceKinds : List SourceKind
  deriving DecidableEq, Repr

def hermes : Adapter := ⟨"hermes", [.config]⟩

def eve : Adapter := ⟨"eve", [.git]⟩

def adapters : List Adapter := [hermes, eve]

def lookup (name : String) : Option Adapter := adapters.find? (·.name = name)

def names : List String := adapters.map (·.name)

/-! ### The checks across fields -/

/-- One secret, with the variables of those before it. -/
def checkSecret (allow : List String) (tenantId : Option String) (source : Option SecretSource)
    (seenEnv : List String) (index : ℕ) (secret : SecretRef) : Checked Unit := do
  let field := "secrets[" ++ toString index ++ "]"
  demand (secret.env ∉ seenEnv) (field ++ ".env")
    ("environment variable " ++ secret.env ++ " is declared twice")
  forEach (fun _ host => demand (hostAllowed host allow) (field ++ ".hosts") ("host '" ++ host ++
    "' is not in egress.allow; a secret may only be injected for allowlisted hosts")) 0 secret.hosts
  match Handle.parse secret.handle, tenantId with
  | .error message, _ => report (field ++ ".handle") message
  | .ok _, none => pure ()
  | .ok handle, some tenant =>
    if handle.tenant ≠ tenant then
      report (field ++ ".handle") ("handle '" ++ handle.toText ++ "' belongs to tenant '" ++
        handle.tenant ++ "', but this spec's tenant_id is '" ++ tenant ++
        "'; a spec may only name its own tenant's secrets")
    else match source with
      | none => pure ()
      | some resolve =>
        match resolve handle with
        | .error message => report (field ++ ".handle") message
        | .ok _ => pure ()

def checkSecrets (allow : List String) (tenantId : Option String) (source : Option SecretSource) :
    List String → ℕ → List SecretRef → Checked Unit
  | _, _, [] => pure ()
  | seenEnv, index, secret :: secrets => do
    checkSecret allow tenantId source seenEnv index secret
    checkSecrets allow tenantId source (secret.env :: seenEnv) (index + 1) secrets

def checkSchemaVersion : Option Int → Checked Unit
  | some value => demand (value = 1) "schema_version"
      ("unsupported schema version " ++ toString value ++ "; expected 1")
  | none => report "schema_version" "required; set schema_version = 1"

def checkRuntime : Option String → Checked (Option Adapter)
  | none => do
    report "runtime" ("required; one of: " ++ ", ".intercalate names)
    pure none
  | some value =>
    match lookup value with
    | some adapter => pure (some adapter)
    | none => do
      report "runtime" ("unknown runtime '" ++ value ++ "'; one of: " ++ ", ".intercalate names)
      pure none

def checkSourceKind : Option Adapter → Option Source → Checked Unit
  | some adapter, some source => demand (source.kind ∈ adapter.sourceKinds) "source.kind"
      ("runtime '" ++ adapter.name ++ "' takes a " ++
        " or ".intercalate (adapter.sourceKinds.map SourceKind.toText) ++ " source, not " ++
        source.kind.toText)
  | _, _ => pure ()

def checkSourceDir (host : Host) (base : String) : Option Source → Checked (Option String)
  | some (.config relative) =>
    match host.canonicalDir (host.join base relative) with
    | some dir => pure (some dir)
    | none => do
      report "source.path" ("config directory '" ++ host.join base relative ++ "' does not exist")
      pure none
  | _ => pure none

def checkSubstrate (host : Host) : Option Placement → Checked (Option SecretSource)
  | none => pure none
  | some placement =>
    match host.secretSource placement.substrate with
    | .ok source => pure (some source)
    | .error message => do
      report "placement.substrate" message
      pure none

/-- The fields of a spec, each where it could be read. -/
structure Fields where
  name : Option String
  tenantId : Option String
  runtime : Option Adapter
  source : Option Source
  sourceDir : Option String
  egress : Option Egress
  placement : Option Placement
  secrets : List SecretRef

def checkFields (host : Host) (base : String) (raw : RawSpec) : Checked Fields := do
  forEach (fun _ entry => unexpectedField entry.1 false) 0 raw.extra
  checkSchemaVersion raw.schemaVersion
  let name ← requiredIdentifier "name" raw.name
  let tenantId ← requiredIdentifier "tenant_id" raw.tenantId
  let runtime ← checkRuntime raw.runtime
  let source ← parseSource raw.source
  checkSourceKind runtime source
  let sourceDir ← checkSourceDir host base source
  let egress ← parseEgress raw.egress
  let placement ← parsePlacement raw.placement
  let secrets ← parseSecrets 0 (raw.secrets.getD [])
  let secretSource ← checkSubstrate host placement
  checkSecrets ((egress.map Egress.allow).getD []) tenantId secretSource [] 0 secrets
  pure { name, tenantId, runtime, source, sourceDir, egress, placement, secrets }

/-- How a validation ends without a spec. -/
inductive Stop
  | invalid (errors : List SpecError)
  /-- A field that was expected to be there is not. -/
  | panicked
  deriving DecidableEq, Repr

def Fields.spec (f : Fields) : Except Stop AgentSpec :=
  match f.name, f.tenantId, f.runtime, f.source, f.egress, f.placement with
  | some name, some tenantId, some runtime, some source, some egress, some placement =>
    .ok { schemaVersion := 1, name, tenantId, runtime := runtime.name, source
          secrets := f.secrets, egress, placement }
  | _, _, _, _, _, _ => .error .panicked

def parseAndValidate (host : Host) (text path base : String) : Except Stop LoadedSpec := do
  let raw ← (host.fromStr text).mapError fun e => .invalid [⟨"spec", "not valid TOML: " ++ e⟩]
  let checked := checkFields host base raw
  if checked.errors ≠ [] then .error (.invalid checked.errors)
  else do
    let spec ← checked.value.spec
    let fingerprint ← (host.fingerprint spec checked.value.sourceDir).mapError fun e =>
      .invalid [⟨"source.path", "could not read config source: " ++ e⟩]
    pure { spec, path, sourceDir := checked.value.sourceDir, fingerprint }

/-! ### What an accepted spec is like -/

lemma errors_checkAllow {seen hosts : List String} (h : (checkAllow seen hosts).errors = []) :
    (∀ host ∈ hosts, validHostPattern host = true ∧ toAsciiLowercase host ∉ seen) ∧
      (hosts.map toAsciiLowercase).Nodup := by
  induction hosts generalizing seen with
  | nil => simp
  | cons host hosts ih =>
    simp only [checkAllow, Checked.errors_bind, errors_demand] at h
    obtain ⟨hvalid, hseen, hrest⟩ := h
    obtain ⟨hall, hnodup⟩ := ih hrest
    refine ⟨?_, List.nodup_cons.mpr ⟨fun hmem => ?_, hnodup⟩⟩
    · rintro b (- | ⟨_, hb⟩)
      · exact ⟨hvalid, hseen⟩
      · exact ⟨(hall b hb).1, fun hin => (hall b hb).2 (List.mem_cons_of_mem _ hin)⟩
    · obtain ⟨b, hb, heq⟩ := List.mem_map.mp hmem
      exact (hall b hb).2 (heq ▸ List.mem_cons_self)

lemma errors_parseEgress {raw : Option Table} {egress : Egress}
    (h : (parseEgress raw).errors = []) (hvalue : (parseEgress raw).value = some egress) :
    ∃ hosts : List String, egress.allow = hosts.map toAsciiLowercase ∧
      (∀ host ∈ hosts, validHostPattern host = true) ∧ (hosts.map toAsciiLowercase).Nodup := by
  unfold parseEgress at h hvalue
  rw [Checked.errors_bind] at h
  rw [Checked.value_bind] at hvalue
  generalize (takeStringList (raw.getD []) "egress" "allow" false).value = taken at h hvalue
  obtain ⟨- | hosts, table⟩ := taken
  · cases hvalue
  · simp only [Checked.errors_bind, Checked.errors_pure, and_true] at h
    obtain ⟨-, -, h⟩ := h
    obtain ⟨hall, hnodup⟩ := errors_checkAllow h
    obtain rfl := Option.some.inj hvalue
    exact ⟨hosts, rfl, fun host hhost => (hall host hhost).1, hnodup⟩

section Secrets

variable {allow : List String} {tenantId : Option String} {source : Option SecretSource}

lemma errors_checkSecret {seenEnv : List String} {index : ℕ} {secret : SecretRef}
    (h : (checkSecret allow tenantId source seenEnv index secret).errors = []) :
    secret.env ∉ seenEnv ∧ ∀ host ∈ secret.hosts, hostAllowed host allow = true := by
  unfold checkSecret at h
  simp only [Checked.errors_bind, errors_demand] at h
  obtain ⟨henv, hhosts, -⟩ := h
  refine ⟨henv, fun host hhost => ?_⟩
  obtain ⟨_, hallowed⟩ := errors_forEach hhosts host hhost
  exact (errors_demand _ _ _).mp hallowed

lemma errors_checkSecrets {seenEnv : List String} {index : ℕ} {secrets : List SecretRef}
    (h : (checkSecrets allow tenantId source seenEnv index secrets).errors = []) :
    ∀ secret ∈ secrets, ∀ host ∈ secret.hosts, hostAllowed host allow = true := by
  induction secrets generalizing seenEnv index with
  | nil => simp
  | cons secret secrets ih =>
    obtain ⟨hfirst, hrest⟩ := (Checked.errors_bind _ _).mp h
    rintro s (- | ⟨_, hs⟩)
    · exact (errors_checkSecret hfirst).2
    · exact ih hrest s hs

/-- Secrets are read with their hosts in small letters. -/
lemma hosts_parseSecret {index : ℕ} {table : Table} {secret : SecretRef}
    (h : (parseSecret index table).value = some secret) :
    ∃ hosts : List String, secret.hosts = hosts.map toAsciiLowercase := by
  unfold parseSecret at h
  simp only [Checked.value_bind] at h
  split at h
  · obtain rfl := Option.some.inj h
    exact ⟨_, rfl⟩
  · cases h

lemma hosts_parseSecrets {index : ℕ} {raw : List Table} :
    ∀ secret ∈ (parseSecrets index raw).value,
      ∃ hosts : List String, secret.hosts = hosts.map toAsciiLowercase := by
  induction raw generalizing index with
  | nil => exact fun secret h => by cases h
  | cons table raw ih =>
    intro secret h
    obtain h | h := List.mem_append.mp h
    · exact hosts_parseSecret (Option.mem_toList.mp h)
    · exact ih secret h

end Secrets

/-- What the hosts of an accepted spec are like. -/
structure HostsChecked (spec : AgentSpec) : Prop where
  allow : ∃ hosts : List String, spec.egress.allow = hosts.map toAsciiLowercase ∧
    ∀ host ∈ hosts, validHostPattern host = true
  nodup : spec.egress.allow.Nodup
  secrets : ∀ secret ∈ spec.secrets, (∃ hosts : List String,
      secret.hosts = hosts.map toAsciiLowercase) ∧
    ∀ host ∈ secret.hosts, hostAllowed host spec.egress.allow = true

lemma spec_of_fields {f : Fields} {spec : AgentSpec} (h : f.spec = .ok spec) :
    f.egress = some spec.egress ∧ f.secrets = spec.secrets := by
  unfold Fields.spec at h
  split at h
  · rename_i hegress _
    obtain rfl := Except.ok.inj h
    exact ⟨hegress, rfl⟩
  · cases h

lemma hostsChecked_of_parse {host : Host} {text path base : String} {loaded : LoadedSpec}
    (h : parseAndValidate host text path base = .ok loaded) : HostsChecked loaded.spec := by
  unfold parseAndValidate at h
  obtain ⟨raw, -, h⟩ := bind_eq_ok.mp h
  dsimp only at h
  split_ifs at h with herrors
  obtain ⟨spec, hspec, h⟩ := bind_eq_ok.mp h
  obtain ⟨fingerprint, -, h⟩ := bind_eq_ok.mp h
  obtain rfl := Except.ok.inj h
  obtain ⟨hegress, hsecrets⟩ := spec_of_fields hspec
  rw [not_not] at herrors
  unfold checkFields at herrors
  simp only [Checked.errors_bind, Checked.errors_pure, and_true] at herrors
  obtain ⟨-, -, -, -, -, -, -, -, hallow, -, -, -, hhosts⟩ := herrors
  obtain ⟨hosts, heq, hvalid, hnodup⟩ := errors_parseEgress hallow hegress
  refine ⟨⟨hosts, heq, hvalid⟩, heq ▸ hnodup, fun secret hsecret => ?_⟩
  rw [← hsecrets] at hsecret
  refine ⟨hosts_parseSecrets secret hsecret, fun h hh => ?_⟩
  have hchecked := errors_checkSecrets hhosts secret hsecret h hh
  have hget : (Option.map Egress.allow (parseEgress raw.egress).value).getD [] =
      spec.egress.allow := by
    rw [show (parseEgress raw.egress).value = some spec.egress from hegress]
    rfl
  rwa [hget] at hchecked

end Bimo.EngineSpec
