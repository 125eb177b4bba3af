import Mathlib

/-!
Secret handles and the env secret source.

A handle is `<tenant>/<name>`. The env source reads one variable and its alias, both spelled
from the handle by `envSuffixFor`: every character that is not alphanumeric becomes `_`, and
tenant and name are joined by `__`. Two handles are `Confusable` when that spelling cannot tell
them apart, and the main result says that they are exactly the ones that share a variable.
-/

namespace Bimo

structure Handle where
  tenant : String
  name : String
  deriving DecidableEq, Repr

/-- The characters of an identifier. -/
def identChar (c : Char) : Bool := c.isLower || c.isDigit || c == '-'

/-- The characters that all become `_`. -/
def sepChar (c : Char) : Bool := c == '-' || c == '_' || c == '.'

/-- The characters of a handle's name part. -/
def nameChar (c : Char) : Bool := c.isLower || c.isDigit || sepChar c

/-- A lowercase DNS-label style identifier, used for agent names and tenants. -/
def isIdentifier (value : String) : Bool :=
  value != "" && decide (value.utf8ByteSize ≤ 63) && value.toList.all identChar &&
    value.toList.head? != some '-' && value.toList.getLast? != some '-'

/-- The text before and after the first `/`. -/
def splitOnce (value : String) : Option (String × String) :=
  match value.toList.span (· != '/') with
  | (_, []) => none
  | (tenant, _ :: name) => some (String.ofList tenant, String.ofList name)

/-- The check on the name part of a handle. -/
def isHandleName (name : String) : Bool :=
  name != "" && decide (name.utf8ByteSize ≤ 128) && name.toList.all nameChar &&
    !name.toList.head?.any sepChar

namespace Handle

def parse (value : String) : Except String Handle :=
  match splitOnce value with
  | none => .error ("secret handle '" ++ value ++ "' must have the form '<tenant>/<name>'")
  | some (tenant, name) =>
    if !isIdentifier tenant then
      .error ("secret handle '" ++ value ++ "' has an invalid tenant part '" ++ tenant ++ "'")
    else if !isHandleName name then
      .error ("secret handle '" ++ value ++ "' has an invalid name part '" ++ name ++
        "' (use lowercase letters, digits, '-', '_', '.')")
    else .ok { tenant, name }

def toText (h : Handle) : String := h.tenant ++ "/" ++ h.name

/-- What `parse` has checked of a handle it accepts. -/
structure Accepted (h : Handle) : Prop where
  tenant : isIdentifier h.tenant = true
  name : isHandleName h.name = true

lemma accepted_of_parse {value : String} {h : Handle} (hp : parse value = .ok h) :
    h.Accepted := by
  unfold parse at hp
  split at hp
  · simp at hp
  · split_ifs at hp with ht hn
    obtain rfl := Except.ok.inj hp
    exact ⟨by simpa using ht, by simpa using hn⟩

end Handle

/-! ### The env source -/

def envChar (c : Char) : Char := if c.isAlphanum then c.toUpper else '_'

def envPart (value : String) : List Char := value.toList.map envChar

def envSuffixFor (h : Handle) : String :=
  "SECRET_" ++ String.ofList (envPart h.tenant ++ ['_', '_'] ++ envPart h.name)

def envVariableFor (h : Handle) : String := "BIMO_" ++ envSuffixFor h

/-- `BIMO_<suffix>`, else `MONOLITH_<suffix>`. -/
def var (env : String → Option String) (suffix : String) : Option String :=
  match env ("BIMO_" ++ suffix) with
  | some value => some value
  | none => env ("MONOLITH_" ++ suffix)

/-- Resolve a handle in the control plane's own environment. -/
def resolveEnv (env : String → Option String) (h : Handle) : Except String String :=
  match var env (envSuffixFor h) with
  | some value => if value ≠ "" then .ok value else .error (missing h)
  | none => .error (missing h)
where
  missing (h : Handle) : String :=
    "secret handle '" ++ h.toText ++ "' does not resolve: environment variable " ++
      envVariableFor h ++ " is not set"

/-- The variables the env source reads for a handle. -/
def envVariables (h : Handle) : List String :=
  ["BIMO_" ++ envSuffixFor h, "MONOLITH_" ++ envSuffixFor h]

/-- The value a handle resolves to depends on its variables alone. -/
theorem resolveEnv_congr {env env' : String → Option String} {h : Handle}
    (he : ∀ v ∈ envVariables h, env v = env' v) : resolveEnv env h = resolveEnv env' h := by
  have h1 := he ("BIMO_" ++ envSuffixFor h) (by simp [envVariables])
  have h2 := he ("MONOLITH_" ++ envSuffixFor h) (by simp [envVariables])
  simp [resolveEnv, var, h1, h2]

/-! ### Which handles share a variable -/

/-- Equal, up to which separator stands where one stands. -/
def SameName : List Char → List Char → Prop :=
  List.Forall₂ fun c d => c = d ∨ (sepChar c ∧ sepChar d)

/-- The other's tenant starts with this tenant and `--`, and the rest of it opens this name. -/
def Overlaps (h₁ h₂ : Handle) : Prop :=
  ∃ u, h₂.tenant.toList = h₁.tenant.toList ++ ['-', '-'] ++ u ∧
    SameName h₁.name.toList (u ++ ['-', '-'] ++ h₂.name.toList)

def Confusable (h₁ h₂ : Handle) : Prop :=
  (h₁.tenant = h₂.tenant ∧ SameName h₁.name.toList h₂.name.toList) ∨
    Overlaps h₁ h₂ ∨ Overlaps h₂ h₁

/-- The name characters, listed. -/
def nameChars : List Char := "abcdefghijklmnopqrstuvwxyz0123456789-_.".toList

lemma mem_nameChars {c : Char} (h : nameChar c) : c ∈ nameChars := by
  have hv : c = Char.ofNat c.toNat := (Char.ofNat_toNat c).symm
  have hlt : c.toNat < 123 := by
    simp only [nameChar, sepChar, Char.isLower, Char.isDigit, Bool.or_eq_true, Bool.and_eq_true,
      decide_eq_true_eq, beq_iff_eq] at h
    rcases h with (⟨-, h⟩ | ⟨-, h⟩) | (rfl | rfl) | rfl
    · exact Nat.lt_succ_of_le h
    · exact Nat.lt_of_le_of_lt h (by decide)
    all_goals decide
  have key : (List.range 123).all (fun n =>
      !nameChar (Char.ofNat n) || nameChars.contains (Char.ofNat n)) = true := by decide +kernel
  have hc := List.all_eq_true.mp key c.toNat (List.mem_range.mpr hlt)
  rw [← hv] at hc
  simpa [h] using hc

lemma envChar_eq_iff {c d : Char} (hc : nameChar c) (hd : nameChar d) :
    envChar c = envChar d ↔ c = d ∨ (sepChar c ∧ sepChar d) := by
  have key : nameChars.all (fun c => nameChars.all fun d =>
      (envChar c == envChar d) == (c == d || sepChar c && sepChar d)) = true := by decide +kernel
  have hcd := List.all_eq_true.mp (List.all_eq_true.mp key c (mem_nameChars hc)) d (mem_nameChars hd)
  rw [beq_iff_eq, Bool.eq_iff_iff] at hcd
  simpa using hcd

lemma nameChar_of_identChar {c : Char} (h : identChar c) : nameChar c := by
  simp only [identChar, nameChar, sepChar, Bool.or_eq_true] at h ⊢
  tauto

/-- Two spellings agree exactly when the texts do up to separators. -/
lemma map_envChar_eq_iff {l m : List Char} (hl : ∀ c ∈ l, nameChar c)
    (hm : ∀ c ∈ m, nameChar c) : l.map envChar = m.map envChar ↔ SameName l m := by
  induction l generalizing m with
  | nil => cases m <;> simp [SameName]
  | cons c l ih =>
      cases m with
      | nil => simp [SameName]
      | cons d m =>
          have hcd := envChar_eq_iff (hl c (by simp)) (hm d (by simp))
          have htl := ih (m := m) (fun x hx => hl x (by simp [hx])) fun x hx => hm x (by simp [hx])
          simp only [List.map_cons, List.cons.injEq, SameName, List.forall₂_cons]
          exact and_congr hcd htl

/-- Among identifiers only one character is a separator, so the spelling loses nothing. -/
lemma eq_of_sameName {l m : List Char} (hl : ∀ c ∈ l, identChar c) (hm : ∀ c ∈ m, identChar c)
    (h : SameName l m) : l = m := by
  induction h with
  | nil => rfl
  | @cons c d l m hcd _ ih =>
      have hdash : ∀ {x : Char}, identChar x → sepChar x → x = '-' := by
        intro x hi hs
        simp only [sepChar, Bool.or_eq_true, beq_iff_eq] at hs
        rcases hs with (h | rfl) | rfl
        · exact h
        · exact absurd hi (by decide)
        · exact absurd hi (by decide)
      have htl := ih (fun x hx => hl x (by simp [hx])) fun x hx => hm x (by simp [hx])
      rcases hcd with rfl | ⟨hc, hd⟩
      · rw [htl]
      · rw [htl, hdash (hl c (by simp)) hc, hdash (hm d (by simp)) hd]

namespace Handle.Accepted

variable {h : Handle}

lemma tenant_chars (ha : h.Accepted) : ∀ c ∈ h.tenant.toList, identChar c := by
  have := ha.tenant
  simp only [isIdentifier, Bool.and_eq_true, List.all_eq_true] at this
  exact this.1.1.2

lemma tenant_last (ha : h.Accepted) (l : List Char) : h.tenant.toList ≠ l ++ ['-'] := by
  have := ha.tenant
  simp only [isIdentifier, Bool.and_eq_true] at this
  intro heq
  simp [heq] at this

lemma name_chars (ha : h.Accepted) : ∀ c ∈ h.name.toList, nameChar c := by
  have := ha.name
  simp only [isHandleName, Bool.and_eq_true, List.all_eq_true] at this
  exact this.1.2

end Handle.Accepted

/-- One half of reading two joined spellings back: the first tenant is the shorter one. -/
lemma confusable_of_longer {h₁ h₂ : Handle} (ha₁ : h₁.Accepted) (ha₂ : h₂.Accepted)
    {a : List Char} (ht : envPart h₂.tenant = envPart h₁.tenant ++ a)
    (hn : ['_', '_'] ++ envPart h₁.name = a ++ (['_', '_'] ++ envPart h₂.name)) :
    Confusable h₁ h₂ := by
  have hdash : ∀ {c : Char}, identChar c → envChar c = '_' → c = '-' := by
    intro c hc he
    have hs := (envChar_eq_iff (nameChar_of_identChar hc) (by decide : nameChar '-')).mp
      (he.trans (by decide))
    simpa using eq_of_sameName (l := [c]) (m := ['-']) (by simpa using hc)
      (by simp [identChar]) (.cons hs .nil)
  obtain ⟨l, m, hlm, hl, hm⟩ := List.map_eq_append_iff.mp ht
  have hl₂ : ∀ c ∈ l, identChar c := fun c hc => ha₂.tenant_chars c (by simp [hlm, hc])
  have hm₂ : ∀ c ∈ m, identChar c := fun c hc => ha₂.tenant_chars c (by simp [hlm, hc])
  have hl₁ : l = h₁.tenant.toList := eq_of_sameName hl₂ ha₁.tenant_chars
    ((map_envChar_eq_iff (fun c hc => nameChar_of_identChar (hl₂ c hc))
      fun c hc => nameChar_of_identChar (ha₁.tenant_chars c hc)).mp hl)
  subst hl₁
  match m, hm with
  | [], hm =>
      -- the tenants are equal, so the names' spellings are
      obtain rfl : a = [] := by simpa using hm.symm
      refine Or.inl ⟨String.toList_inj.mp (by simpa using hlm.symm), ?_⟩
      exact (map_envChar_eq_iff ha₁.name_chars ha₂.name_chars).mp (by simpa [envPart] using hn)
  | [c], hm =>
      -- the longer tenant would end in a dash
      obtain rfl : a = [envChar c] := by simpa using hm.symm
      have hc : envChar c = '_' := by simp at hn; exact hn.1.symm
      rw [hdash (hm₂ c (by simp)) hc] at hlm
      exact absurd hlm (ha₂.tenant_last _)
  | c :: d :: u, hm =>
      obtain rfl : a = envChar c :: envChar d :: u.map envChar := by simpa using hm.symm
      simp only [List.cons_append, List.nil_append, List.cons.injEq] at hn
      obtain ⟨hc, hd, hn⟩ := hn
      obtain rfl := hdash (hm₂ c (by simp)) hc.symm
      obtain rfl := hdash (hm₂ d (by simp)) hd.symm
      refine Or.inr (Or.inl ⟨u, by simpa using hlm, ?_⟩)
      refine (map_envChar_eq_iff ha₁.name_chars fun x hx => ?_).mp ?_
      · simp only [List.mem_append, List.mem_cons, List.not_mem_nil, or_false] at hx
        rcases hx with (hx | rfl | rfl) | hx
        · exact nameChar_of_identChar (hm₂ x (by simp [hx]))
        · decide
        · decide
        · exact ha₂.name_chars x hx
      · have hsep : envChar '-' = '_' := by decide
        simpa [envPart, hsep] using hn

lemma Confusable.symm {h₁ h₂ : Handle} (h : Confusable h₁ h₂) : Confusable h₂ h₁ := by
  have flip : ∀ {l m : List Char}, SameName l m → SameName m l := fun h =>
    List.Forall₂.flip (h.imp fun _ _ hcd => hcd.imp Eq.symm And.symm)
  rcases h with ⟨ht, hn⟩ | h | h
  · exact Or.inl ⟨ht.symm, flip hn⟩
  · exact Or.inr (Or.inr h)
  · exact Or.inr (Or.inl h)

/-- The spelling tells two accepted handles apart unless they are confusable. -/
lemma envSuffixFor_eq_iff {h₁ h₂ : Handle} (ha₁ : h₁.Accepted) (ha₂ : h₂.Accepted) :
    envSuffixFor h₁ = envSuffixFor h₂ ↔ Confusable h₁ h₂ := by
  have hread : envSuffixFor h₁ = envSuffixFor h₂ ↔
      envPart h₁.tenant ++ (['_', '_'] ++ envPart h₁.name) =
        envPart h₂.tenant ++ (['_', '_'] ++ envPart h₂.name) := by
    unfold envSuffixFor
    rw [← String.toList_inj]
    simp
  rw [hread]
  constructor
  · intro h
    rcases List.append_eq_append_iff.mp h with ⟨a, ht, hn⟩ | ⟨a, ht, hn⟩
    · exact confusable_of_longer ha₁ ha₂ ht hn
    · exact (confusable_of_longer ha₂ ha₁ ht hn).symm
  · have overlap : ∀ {h₁ h₂ : Handle}, h₁.Accepted → h₂.Accepted → Overlaps h₁ h₂ →
        envPart h₁.tenant ++ (['_', '_'] ++ envPart h₁.name) =
          envPart h₂.tenant ++ (['_', '_'] ++ envPart h₂.name) := by
      intro h₁ h₂ ha₁ ha₂ ⟨u, ht, hn⟩
      have hu : ∀ c ∈ u, nameChar c := fun c hc =>
        nameChar_of_identChar (ha₂.tenant_chars c (by simp [ht, hc]))
      have hname := (map_envChar_eq_iff ha₁.name_chars fun x hx => by
        simp only [List.mem_append, List.mem_cons, List.not_mem_nil, or_false] at hx
        rcases hx with (hx | rfl | rfl) | hx
        · exact hu x hx
        · decide
        · decide
        · exact ha₂.name_chars x hx).mpr hn
      have hsep : envChar '-' = '_' := by decide
      simp only [envPart, ht, hname]
      simp [hsep]
    rintro (⟨ht, hn⟩ | h | h)
    · have := (map_envChar_eq_iff ha₁.name_chars ha₂.name_chars).mpr hn
      simp only [envPart, ht, this]
    · exact overlap ha₁ ha₂ h
    · exact (overlap ha₂ ha₁ h).symm

/-- **The env source separates two handles exactly when they are not confusable.** Handles of
one tenant are confusable when their names differ in separators only; handles of two tenants
when one tenant is the other followed by `--` and text that opens the other's name. -/
theorem envVariables_disjoint_iff {v₁ v₂ : String} {h₁ h₂ : Handle}
    (hp₁ : Handle.parse v₁ = .ok h₁) (hp₂ : Handle.parse v₂ = .ok h₂) :
    List.Disjoint (envVariables h₁) (envVariables h₂) ↔ ¬ Confusable h₁ h₂ := by
  rw [← envSuffixFor_eq_iff (Handle.accepted_of_parse hp₁) (Handle.accepted_of_parse hp₂)]
  have hne : ∀ s t : String, "BIMO_" ++ s ≠ "MONOLITH_" ++ t := by
    intro s t h
    have := congrArg (fun s => s.toList.head?) h
    simp at this
  simp only [envVariables, List.Disjoint, List.mem_cons, List.not_mem_nil, or_false]
  constructor
  · intro h heq
    exact h (Or.inl rfl) (Or.inl (by rw [heq]))
  · rintro h x (rfl | rfl) (hx | hx)
    · exact h (String.append_right_inj _ |>.mp hx)
    · exact hne _ _ hx
    · exact hne _ _ hx.symm
    · exact h (String.append_right_inj _ |>.mp hx)

/-- Two tenants of the same secret name are told apart. -/
theorem envVariables_disjoint_acme :
    Handle.parse "acme/token" = .ok ⟨"acme", "token"⟩ ∧
      Handle.parse "globex/token" = .ok ⟨"globex", "token"⟩ ∧
      ¬ Confusable ⟨"acme", "token"⟩ ⟨"globex", "token"⟩ := by
  have hp₁ : Handle.parse "acme/token" = .ok ⟨"acme", "token"⟩ := by decide
  have hp₂ : Handle.parse "globex/token" = .ok ⟨"globex", "token"⟩ := by decide
  refine ⟨hp₁, hp₂, (envVariables_disjoint_iff hp₁ hp₂).mp ?_⟩
  simp only [List.Disjoint]
  decide

/-- Two tenants, one variable. -/
theorem envVariables_shared :
    Handle.parse "a/b--c" = .ok ⟨"a", "b--c"⟩ ∧ Handle.parse "a--b/c" = .ok ⟨"a--b", "c"⟩ ∧
      (⟨"a", "b--c"⟩ : Handle) ≠ ⟨"a--b", "c"⟩ ∧
      ¬ List.Disjoint (envVariables ⟨"a", "b--c"⟩) (envVariables ⟨"a--b", "c"⟩) := by
  refine ⟨by decide, by decide, by decide, fun h => ?_⟩
  have heq : envVariables ⟨"a", "b--c"⟩ = envVariables ⟨"a--b", "c"⟩ := by decide
  rw [← heq] at h
  exact h List.mem_cons_self List.mem_cons_self

end Bimo
