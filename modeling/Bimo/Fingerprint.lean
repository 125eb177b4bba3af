import Mathlib.Data.List.Lex
import Bimo.EngineSpec
import Bimo.JsonScan
import Bimo.JsonText
import Bimo.Lossy

/-!
The fingerprint of a spec and its configuration directory.

The bytes that are hashed are the JSON of the spec and then, for every file in the order of the
paths, the path as a text, a zero, the content and a zero. The spec can be told from them. The
files cannot: a content may hold the zeros that end it and begin another file, and a path that
is no text is written with replacement characters.
-/

namespace Bimo.EngineSpec

open Wire (Json text)
open Utf8 (encode lossy replacement)

abbrev Bytes := List UInt8

abbrev Name := Bytes

/-- A path below the directory, name by name. -/
abbrev Path := List Name

structure File where
  path : Path
  content : Bytes
  deriving DecidableEq, Repr

/-! ### The directory -/

inductive Entry
  | file (content : Bytes)
  | dir (entries : List (Name × Entry))
  | symlink
  | other

def slash : UInt8 := 0x2F

structure IsName (n : Name) : Prop where
  ne_nil : n ≠ []
  zero : 0 ∉ n
  slash : slash ∉ n
  dot : n ≠ [0x2E]
  dots : n ≠ [0x2E, 0x2E]

mutual

def Entry.WellFormed : Entry → Prop
  | .dir entries => wellFormedList entries
  | _ => True

/-- Names are names, and no two entries have the same. -/
def wellFormedList : List (Name × Entry) → Prop
  | [] => True
  | (n, e) :: es => IsName n ∧ n ∉ es.map Prod.fst ∧ e.WellFormed ∧ wellFormedList es

end

structure ConfigDir where
  /-- Where it is, as it is shown. -/
  root : String
  /-- In the order in which they are listed. -/
  entries : List (Name × Entry)
  wellFormed : wellFormedList entries

/-- A path as its bytes. -/
def pathBytes (p : Path) : Bytes := [slash].intercalate p

/-- A path as a text. -/
def lossyPath (p : Path) : List Char := lossy (pathBytes p)

mutual

def collectEntry (root : String) (path : Path) : Entry → Except String (List File)
  | .symlink => .error ("config source must not contain symlinks: " ++ root ++ "/" ++
      String.ofList (lossyPath path))
  | .dir entries => collectFiles root path entries
  | .file content => pure [⟨path, content⟩]
  | .other => pure []

/-- The files below a directory, with what is read of them later. -/
def collectFiles (root : String) (dir : Path) : List (Name × Entry) → Except String (List File)
  | [] => pure []
  | (n, e) :: es => do
    let here ← collectEntry root (dir ++ [n]) e
    let rest ← collectFiles root dir es
    pure (here ++ rest)

end

/-- Paths are compared name by name, and names byte by byte. -/
def pathLe (p q : Path) : Bool :=
  decide (p.map (·.map UInt8.toNat) ≤ q.map (·.map UInt8.toNat))

def sortFiles (files : List File) : List File := files.mergeSort fun f g => pathLe f.path g.path

/-- The files of a directory in the order of their paths. -/
def filesOf : Option ConfigDir → Except String (List File)
  | none => pure []
  | some dir => (collectFiles dir.root [] dir.entries).map sortFiles

/-! ### The bytes -/

def sourceJson : Source → Json
  | .config path => .obj [("kind", .str "config"), ("path", .str path)]
  | .git repo rev => .obj [("kind", .str "git"), ("repo", .str repo), ("rev", .str rev)]

def secretJson (secret : SecretRef) : Json :=
  .obj [("env", .str secret.env), ("handle", .str secret.handle),
    ("hosts", .arr (secret.hosts.map .str))]

def specJson (spec : AgentSpec) : Json :=
  .obj [("schema_version", Wire.ofNat spec.schemaVersion), ("name", .str spec.name),
    ("tenant_id", .str spec.tenantId), ("runtime", .str spec.runtime),
    ("source", sourceJson spec.source), ("secrets", .arr (spec.secrets.map secretJson)),
    ("egress", .obj [("allow", .arr (spec.egress.allow.map .str))]),
    ("placement", .obj [("substrate", .str spec.placement.substrate)])]

def record (f : File) : Bytes := encode (lossyPath f.path) ++ 0 :: (f.content ++ [0])

/-- What is hashed. -/
def fingerprintBytes (spec : AgentSpec) (dir : Option ConfigDir) : Except String Bytes := do
  let files ← filesOf dir
  pure (encode (text (specJson spec)) ++ files.flatMap record)

def fingerprint (sha256 : Bytes → String) (spec : AgentSpec) (dir : Option ConfigDir) :
    Except String String :=
  (fingerprintBytes spec dir).map sha256

/-! ### The spec can be told -/

lemma str_injective : Function.Injective Json.str := fun _ _ h => Json.str.inj h

lemma sourceJson_injective : Function.Injective sourceJson := by
  intro a b h
  cases a <;> cases b <;> simp_all [sourceJson]

lemma secretJson_injective : Function.Injective secretJson := by
  intro a b h
  simp only [secretJson, Json.obj.injEq, List.cons.injEq, Prod.mk.injEq, Json.str.injEq,
    Json.arr.injEq, true_and, and_true] at h
  obtain ⟨henv, hhandle, hhosts⟩ := h
  cases a
  cases b
  congr
  exact List.map_injective_iff.mpr str_injective hhosts

lemma toString_injective {m n : ℕ} (h : toString m = toString n) : m = n := by
  have hdigits := congrArg String.toList h
  rw [Nat.toString_eq_repr, Nat.toString_eq_repr, Nat.toList_repr, Nat.toList_repr] at hdigits
  rw [← Nat.ofDigitChars_ten_toDigits (n := m), hdigits, Nat.ofDigitChars_ten_toDigits]

lemma specJson_injective : Function.Injective specJson := by
  intro a b h
  simp only [specJson, Json.obj.injEq, List.cons.injEq, Prod.mk.injEq, Json.str.injEq,
    Json.arr.injEq, Wire.ofNat, Json.num.injEq, true_and, and_true] at h
  obtain ⟨hversion, hname, htenant, hruntime, hsource, hsecrets, hallow, hplace⟩ := h
  obtain ⟨version, name, tenant, runtime, source, secrets, ⟨allow⟩, ⟨substrate⟩⟩ := a
  obtain ⟨version', name', tenant', runtime', source', secrets', ⟨allow'⟩, ⟨substrate'⟩⟩ := b
  have hv : version = version' := toString_injective hversion
  have hs := sourceJson_injective hsource
  have hl := List.map_injective_iff.mpr secretJson_injective hsecrets
  have ha := List.map_injective_iff.mpr str_injective hallow
  simp_all

lemma numericList_map {α : Type} {f : α → Json} (h : ∀ a, (f a).Numeric) (l : List α) :
    Wire.numericList (l.map f) := by
  induction l with
  | nil => trivial
  | cons a l ih => exact ⟨h a, ih⟩

lemma numeric_ofNat (n : ℕ) : (Wire.ofNat n).Numeric := by
  refine ⟨?_, fun c hc => ?_⟩
  · rw [Nat.toString_eq_repr, Nat.toList_repr]
    exact Nat.toDigits_ne_nil
  · simp [Wire.isNumeric, Wire.isDigit_of_mem_toString hc]

lemma numericList_str (l : List String) : Wire.numericList (l.map .str) :=
  numericList_map (f := Json.str) (fun _ => trivial) l

lemma numeric_specJson (spec : AgentSpec) : (specJson spec).Numeric := by
  have hsource : (sourceJson spec.source).Numeric := by
    cases spec.source <;> simp [sourceJson, Json.Numeric, Wire.numericFields]
  have hsecrets : Wire.numericList (spec.secrets.map secretJson) :=
    numericList_map (fun secret => by
      simp only [secretJson, Json.Numeric, Wire.numericFields, true_and, and_true]
      exact numericList_str _) _
  simp [specJson, Json.Numeric, Wire.numericFields, numeric_ofNat, hsource, hsecrets,
    numericList_str]

/-- **The spec can be told** from what is hashed, and so can what is behind it. -/
theorem spec_cancel {spec spec' : AgentSpec} {r s : Bytes}
    (h : encode (text (specJson spec)) ++ r = encode (text (specJson spec')) ++ s) :
    spec = spec' ∧ r = s := by
  have key : ∀ {a b : AgentSpec} {m : Bytes},
      encode (text (specJson b)) = encode (text (specJson a)) ++ m → a = b ∧ m = [] := by
    intro a b m h
    obtain ⟨cs, htext, rfl⟩ := Utf8.encode_of_append h.symm
    have hobj : text (specJson a) ++ cs = text (specJson b) ++ [] := by rw [htext, List.append_nil]
    obtain ⟨hjson, rfl⟩ := Wire.obj_cancel (numeric_specJson a) (numeric_specJson b) hobj
    exact ⟨specJson_injective (congrArg Json.obj hjson), rfl⟩
  obtain ⟨m, hm, hr⟩ | ⟨m, hm, hs⟩ := List.append_eq_append_iff.mp h
  · obtain ⟨rfl, rfl⟩ := key hm
    exact ⟨rfl, hr⟩
  · obtain ⟨rfl, rfl⟩ := key hm
    exact ⟨rfl, hs.symm⟩

end Bimo.EngineSpec
