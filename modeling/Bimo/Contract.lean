import Mathlib.Data.List.Sort
import Bimo.PodStore

/-!
What a pod accepts: its template, the plan of an attempt and the receipts of its agents.

Each check reads a JSON value and gives back the record that the value stands for, or the
message of the first thing that is wrong with it. SHA-256 and the lower case of a text that has
characters outside of ASCII come from the library.
-/

namespace Bimo.Contract

open Wire (Json len)
open PodStore (Fields field plainObject require require_eq)

/-- The part of the standard library that is taken as it is. -/
structure Lib where
  sha256 : String → String
  lowerUnicode : String → String

inductive Slot
  | engineeringA | engineeringB | qaTests
  deriving DecidableEq, Repr

def Slot.name : Slot → String
  | .engineeringA => "engineering-a"
  | .engineeringB => "engineering-b"
  | .qaTests => "qa-tests"

def writerIds : List Slot := [.engineeringA, .engineeringB, .qaTests]

/-! ### Texts -/

def isAscii (s : String) : Bool := s.toList.all fun c => decide (c.toNat < 128)

def toLowerCase (lib : Lib) (s : String) : String :=
  if isAscii s then String.ofList (s.toList.map Char.toLower) else lib.lowerUnicode s

/-- The characters that trimming takes away. -/
def isBlank (c : Char) : Bool :=
  c.toNat ∈ [9, 10, 11, 12, 13, 32, 160, 5760, 8232, 8233, 8239, 8287, 12288, 65279] ||
    (decide (8192 ≤ c.toNat) && decide (c.toNat ≤ 8202))

def isUnsafe (c : Char) : Bool :=
  decide (c.toNat ≤ 8) || c.toNat == 11 || c.toNat == 12 ||
    (decide (14 ≤ c.toNat) && decide (c.toNat ≤ 31)) || c.toNat == 127

def assertText (v : Json) (label : String) (maximum : ℕ := 2000) : Except String String := do
  let message := s!"{label} must be a non-empty string no larger than {maximum} bytes"
  match v with
  | .str s =>
    require (s.toList.all isBlank = false ∧ len s ≤ maximum) message
    require (s.toList.any isUnsafe = false) s!"{label} contains unsafe control characters"
    pure s
  | _ => .error message

/-- A number that is a natural one. -/
def natOf : Json → Option ℕ
  | .num t =>
    if t.toList ≠ [] ∧ t.toList.all Char.isDigit then some (Timestamp.number t.toList) else none
  | _ => none

lemma number_toDigits (n : ℕ) : Timestamp.number (Nat.toDigits 10 n) = n :=
  Nat.ofDigitChars_ten_toDigits

lemma natOf_ofNat (n : ℕ) : natOf (Wire.ofNat n) = some n := by
  have hall : (Nat.toDigits 10 n).all Char.isDigit = true := List.all_eq_true.mpr
    fun c hc => Nat.isDigit_of_mem_toDigits (by decide) (by decide) hc
  simp [natOf, Wire.ofNat, hall, Nat.toDigits_ne_nil, number_toDigits]

def assertInteger (v : Json) (minimum maximum : ℕ) (label : String) : Except String ℕ :=
  match (natOf v).filter fun n => decide (minimum ≤ n ∧ n ≤ maximum) with
  | some n => .ok n
  | none => .error s!"{label} must be an integer from {minimum} to {maximum}"

def maxSafeInteger : ℕ := 9007199254740991

def assertArray (v : Json) (minimum maximum : ℕ) (message : String) :
    Except String (List Json) :=
  match v with
  | .arr l => do
    require (minimum ≤ l.length ∧ l.length ≤ maximum) message
    pure l
  | _ => .error message

/-- Nothing was found; else the message about it. -/
def noneFound {α : Type} (message : α → String) : Option α → Except String Unit
  | some a => .error (message a)
  | none => .ok ()

lemma noneFound_eq {α : Type} {message : α → String} {found : Option α} :
    noneFound message found = .ok () ↔ found = none := by
  cases found <;> simp [noneFound]

/-- The keys are those that are allowed, and all of them. -/
def assertExactFields (l : Fields) (allowed : List String) (label : String) :
    Except String Unit := do
  noneFound (fun p => s!"unknown {label} field: " ++ p.1)
    (l.find? fun p => !allowed.contains p.1)
  noneFound (fun key => s!"{label} requires {key}")
    (allowed.find? fun key => (l.lookup key).isNone)

def assertFixedKeys (l : Fields) (expected : List String) (label : String) : Except String Unit :=
  require (l.length = expected.length ∧ expected.all (fun key => (l.lookup key).isSome) = true)
    (label ++ " must contain exactly " ++ ", ".intercalate expected)

/-- An object with these keys and no others. -/
def exactObject (v : Json) (allowed : List String) (label : String) : Except String Fields := do
  let l ← plainObject v label
  assertExactFields l allowed label
  pure l

def isName (s : String) : Bool :=
  match s.toList with
  | [] => false
  | c :: cs => c.isLower && cs.all (fun c => c.isLower || c.isDigit || c == '-')
      && decide (cs.length ≤ 31)

mutual

/-- What a value prints as. -/
def printed : Json → String
  | .null => "null"
  | .bool b => if b then "true" else "false"
  | .num t => t
  | .str s => s
  | .arr l => printedList l
  | .obj _ => "[object Object]"

/-- The elements of an array with commas between them; `null` prints as nothing there. -/
def printedList : List Json → String
  | [] => ""
  | [.null] => ""
  | [v] => printed v
  | .null :: l => "," ++ printedList l
  | v :: l => printed v ++ "," ++ printedList l

end

def isTraceId (s : String) : Bool :=
  match s.toList with
  | [] => false
  | c :: cs => c.isUpper && cs.all (fun c => c.isUpper || c.isDigit || c == '-')
      && decide (cs.length ≤ 63)

def isHex (c : Char) : Bool := c.isDigit || (decide ('a' ≤ c) && decide (c ≤ 'f'))

def isGitSha (s : String) : Bool :=
  s.toList.all isHex && (s.length == 40 || s.length == 64)

def isSha256 (s : String) : Bool := s.toList.all isHex && s.length == 64

/-- A text that has the form asked for. -/
def assertForm (form : String → Bool) (v : Json) (message : String) : Except String String :=
  match v with
  | .str s => do
    require (form s) message
    pure s
  | _ => .error message

lemma str_of_assertForm {form : String → Bool} {v : Json} {message s : String}
    (h : assertForm form v message = .ok s) : v = .str s ∧ form s = true := by
  cases v with
  | str t =>
      obtain ⟨_, hform, h⟩ := bind_eq_ok.mp h
      obtain rfl := Except.ok.inj h
      exact ⟨rfl, require_eq.mp hform⟩
  | _ => cases h

def assertTraceId (v : Json) (label : String) : Except String String :=
  assertForm isTraceId v s!"{label} must be a stable uppercase ID"

def assertGitSha (v : Json) (label : String) : Except String String :=
  assertForm isGitSha v s!"{label} must be a lowercase 40- or 64-character Git SHA"

/-! ### Paths -/

def segments (s : String) : List (List Char) := s.toList.splitOn '/'

def canonical (s : String) : Bool :=
  s.toList.all (· != '\\') && !(['/'].isPrefixOf s.toList) &&
    (segments s).all fun w => w != [] && w != ['.'] && w != ['.', '.']

def isPortable (c : Char) : Bool := c.isAlphanum || c == '.' || c == '_' || c == '-'

def portable (s : String) : Bool :=
  decide (len s ≤ 240) && (segments s).all fun w => w != [] && w.all isPortable

/-- The part of a path that a repository keeps for itself. -/
def controlPath (s : String) : Bool :=
  (segments s).any fun w =>
    w.map Char.toLower == ".git".toList || w.map Char.toLower == ".github".toList

/-- A path in a repository: a directory or a file, as the message says. -/
def assertRepositoryPath (what : String) (v : Json) (label : String) : Except String String := do
  let s ← assertText v label 512
  require (canonical s) s!"{label} must be a canonical relative {what}"
  require (portable s) s!"{label} must be a portable ASCII path no larger than 240 bytes"
  require (controlPath s = false) s!"{label} names a forbidden repository control path"
  pure s

def assertRepositoryDirectory : Json → String → Except String String :=
  assertRepositoryPath "directory"

def assertRepositoryFile : Json → String → Except String String :=
  assertRepositoryPath "file path"

def assertPromptPath (v : Json) (label : String) : Except String String := do
  let s ← assertText v label 512
  require (canonical s) s!"{label} must be a canonical relative path"
  pure s

/-- Something in this directory, by its name. -/
def inside (dir path : String) : Bool := (dir.toList ++ ['/']).isPrefixOf path.toList

def directoryContains (parent child : String) : Bool :=
  decide (parent = child) || inside parent child

def directoriesOverlap (lib : Lib) (left right : String) : Bool :=
  let l := toLowerCase lib left
  let r := toLowerCase lib right
  decide (l = r) || inside r l || inside l r

/-! ### Templates -/

structure TemplateWriter where
  prompt : String
  root : String
  deriving DecidableEq, Repr

inductive Profile
  | bimoRepo | piPalantir
  deriving DecidableEq, Repr

def Profile.name : Profile → String
  | .bimoRepo => "bimo-repo-v1"
  | .piPalantir => "pi-palantir-v1"

structure Template where
  name : Json
  maxAttempts : ℕ
  executionSeconds : ℕ
  attemptSeconds : ℕ
  workflowSeconds : ℕ
  maxFiles : ℕ
  maxBytes : ℕ
  writers : Slot → TemplateWriter
  verificationProfile : Profile

def templateFields : List String :=
  ["version", "name", "maxAttempts", "timeouts", "changes", "writers", "prompts",
    "verificationProfile"]

def slotNames : List String := writerIds.map Slot.name

def promptIds : List String := ["planner", "checker", "qa", "testing"]

/-- A writer of a template, whose root is apart from those before it. -/
def templateWriter (lib : Lib) (l : Fields) (before : List (Slot × String)) (slot : Slot) :
    Except String TemplateWriter := do
  let id := slot.name
  let w ← exactObject (field l id) ["prompt", "allowedWriteRoots"] s!"writer {id}"
  let prompt ← assertPromptPath (field w "prompt") s!"writer {id} prompt"
  let roots ← assertArray (field w "allowedWriteRoots") 1 1
    s!"writer {id} allowedWriteRoots must contain exactly one directory"
  let root ← assertRepositoryDirectory (roots.headD .null) s!"writer {id} allowedWriteRoots[0]"
  noneFound (fun p => "writer write roots overlap: " ++ p.1.name ++ ":" ++ p.2 ++ s!" and {id}:{root}")
    (before.find? fun p => directoriesOverlap lib p.2 root)
  pure { prompt := prompt, root := root }

def profileOf (v : Json) : Except String Profile :=
  match v with
  | .str "bimo-repo-v1" => .ok .bimoRepo
  | .str "pi-palantir-v1" => .ok .piPalantir
  | .str s => .error s!"unsupported verificationProfile: {s}"
  | _ => .error "verificationProfile must be a string"

def assertPrompts (l : Fields) : List String → Except String Unit
  | [] => pure ()
  | id :: ids => do
    let _ ← assertPromptPath (field l id) s!"prompt {id}"
    assertPrompts l ids

def validatePodTemplate (lib : Lib) (v : Json) : Except String Template := do
  let l ← exactObject v templateFields "pod template"
  require (PodStore.isNum (l.lookup "version") 1) "pod template version must be 1"
  let name := field l "name"
  -- the name is matched as it prints
  require (isName (printed name))
    "pod template name must use lowercase letters, numbers, and dashes"
  let maxAttempts ← assertInteger (field l "maxAttempts") 1 10 "maxAttempts"
  let t ← exactObject (field l "timeouts") ["executionSeconds", "attemptSeconds", "workflowSeconds"]
    "timeouts"
  let execution ← assertInteger (field t "executionSeconds") 10 1800 "timeouts.executionSeconds"
  let attempt ← assertInteger (field t "attemptSeconds") execution 7200 "timeouts.attemptSeconds"
  let workflow ← assertInteger (field t "workflowSeconds") attempt 43200 "timeouts.workflowSeconds"
  let c ← exactObject (field l "changes") ["maxFiles", "maxBytes"] "changes"
  let maxFiles ← assertInteger (field c "maxFiles") 1 5000 "changes.maxFiles"
  let maxBytes ← assertInteger (field c "maxBytes") 1024 104857600 "changes.maxBytes"
  let ws ← plainObject (field l "writers") "writers"
  assertFixedKeys ws slotNames "writers"
  let a ← templateWriter lib ws [] .engineeringA
  let b ← templateWriter lib ws [(.engineeringA, a.root)] .engineeringB
  let q ← templateWriter lib ws [(.engineeringA, a.root), (.engineeringB, b.root)] .qaTests
  let ps ← plainObject (field l "prompts") "prompts"
  assertFixedKeys ps promptIds "prompts"
  assertPrompts ps promptIds
  let profile ← profileOf (field l "verificationProfile")
  pure
    { name := name, maxAttempts := maxAttempts, executionSeconds := execution
      attemptSeconds := attempt, workflowSeconds := workflow, maxFiles := maxFiles
      maxBytes := maxBytes, verificationProfile := profile
      writers := fun
        | .engineeringA => a
        | .engineeringB => b
        | .qaTests => q }

/-- The limits of an accepted template. -/
structure Template.Bounds (t : Template) : Prop where
  attempts : 1 ≤ t.maxAttempts ∧ t.maxAttempts ≤ 10
  execution : 10 ≤ t.executionSeconds ∧ t.executionSeconds ≤ 1800
  attempt : t.executionSeconds ≤ t.attemptSeconds ∧ t.attemptSeconds ≤ 7200
  workflow : t.attemptSeconds ≤ t.workflowSeconds ∧ t.workflowSeconds ≤ 43200
  files : 1 ≤ t.maxFiles ∧ t.maxFiles ≤ 5000
  bytes : 1024 ≤ t.maxBytes ∧ t.maxBytes ≤ 104857600

lemma assertInteger_eq {v : Json} {minimum maximum n : ℕ} {label : String}
    (h : assertInteger v minimum maximum label = .ok n) : minimum ≤ n ∧ n ≤ maximum := by
  unfold assertInteger at h
  split at h
  · rename_i m hm
    obtain rfl := Except.ok.inj h
    exact of_decide_eq_true (Option.filter_eq_some_iff.mp hm).2
  · cases h

lemma bounds_of_validatePodTemplate {lib : Lib} {v : Json} {t : Template}
    (h : validatePodTemplate lib v = .ok t) : t.Bounds := by
  obtain ⟨_, -, h⟩ := bind_eq_ok.mp h
  obtain ⟨_, -, h⟩ := bind_eq_ok.mp h
  obtain ⟨_, -, h⟩ := bind_eq_ok.mp h
  obtain ⟨_, hattempts, h⟩ := bind_eq_ok.mp h
  obtain ⟨_, -, h⟩ := bind_eq_ok.mp h
  obtain ⟨_, hexecution, h⟩ := bind_eq_ok.mp h
  obtain ⟨_, hattempt, h⟩ := bind_eq_ok.mp h
  obtain ⟨_, hworkflow, h⟩ := bind_eq_ok.mp h
  obtain ⟨_, -, h⟩ := bind_eq_ok.mp h
  obtain ⟨_, hfiles, h⟩ := bind_eq_ok.mp h
  obtain ⟨_, hbytes, h⟩ := bind_eq_ok.mp h
  obtain ⟨_, -, h⟩ := bind_eq_ok.mp h
  obtain ⟨_, -, h⟩ := bind_eq_ok.mp h
  obtain ⟨_, -, h⟩ := bind_eq_ok.mp h
  obtain ⟨_, -, h⟩ := bind_eq_ok.mp h
  obtain ⟨_, -, h⟩ := bind_eq_ok.mp h
  obtain ⟨_, -, h⟩ := bind_eq_ok.mp h
  obtain ⟨_, -, h⟩ := bind_eq_ok.mp h
  obtain ⟨_, -, h⟩ := bind_eq_ok.mp h
  obtain ⟨_, -, h⟩ := bind_eq_ok.mp h
  obtain rfl := Except.ok.inj h
  exact ⟨assertInteger_eq hattempts, assertInteger_eq hexecution, assertInteger_eq hattempt,
    assertInteger_eq hworkflow, assertInteger_eq hfiles, assertInteger_eq hbytes⟩

/-! ### Plans -/

structure Requirement where
  id : String
  text : String
  deriving DecidableEq, Repr

structure Criterion where
  id : String
  requirementIds : List String
  text : String
  deriving DecidableEq, Repr

structure PlanWriter where
  brief : String
  requirementIds : List String
  acceptanceIds : List String
  writePaths : List String
  deriving DecidableEq, Repr

/-- A plan, with the value it was read from. -/
structure Plan where
  attempt : ℕ
  baseSha : String
  requirements : List Requirement
  acceptanceCriteria : List Criterion
  writers : Slot → PlanWriter
  json : Json

/-- The IDs of a list, each new and each known where there is something to know. -/
def idsFrom (known : Option (List String)) (label : String) :
    ℕ → List String → List Json → Except String (List String)
  | _, seen, [] => .ok seen
  | i, seen, v :: l => do
    let id ← assertTraceId v s!"{label}[{i}]"
    require (id ∉ seen) s!"{label} contains duplicate ID: {id}"
    require (known.all (id ∈ ·)) s!"{label} references unknown ID: {id}"
    idsFrom known label (i + 1) (seen ++ [id]) l

def validateIdArray (v : Json) (known : List String) (label : String) (maximum : ℕ := 100) :
    Except String (List String) := do
  let l ← assertArray v 1 maximum s!"{label} must contain 1 to {maximum} stable IDs"
  idsFrom (some known) label 0 [] l

/-- The directories of the base tree, no two of which differ by case alone. -/
def directoriesFrom (lib : Lib) :
    ℕ → List String → List Json → Except String (List String)
  | _, seen, [] => .ok seen
  | i, seen, v :: l => do
    let s ← assertText v s!"existingDirectories[{i}]" 512
    require (canonical s) s!"existingDirectories[{i}] must be a canonical relative directory"
    -- the spelling that was kept last for this lower case, if it is another one
    noneFound (fun t => s!"repository contains a case-colliding directory: {t} and {s}")
      ((seen.reverse.find? fun t => toLowerCase lib t = toLowerCase lib s).filter (· != s))
    directoriesFrom lib (i + 1) (seen ++ [s]) l

def validateExistingDirectories (lib : Lib) (v : Json) : Except String (List String) := do
  let l ← assertArray v 1 100000 "existingDirectories must be a non-empty array"
  directoriesFrom lib 0 [] l

def requirementsFrom : ℕ → List Requirement → List Json → Except String (List Requirement)
  | _, done, [] => .ok done
  | i, done, v :: l => do
    let r ← exactObject v ["id", "text"] s!"requirements[{i}]"
    let id ← assertTraceId (field r "id") s!"requirements[{i}].id"
    require (id ∉ done.map (·.id)) s!"duplicate requirement ID: {id}"
    let text ← assertText (field r "text") s!"requirements[{i}].text" 4000
    requirementsFrom (i + 1) (done ++ [{ id := id, text := text }]) l

def criteriaFrom (requirementIds : List String) :
    ℕ → List Criterion → List Json → Except String (List Criterion)
  | _, done, [] => .ok done
  | i, done, v :: l => do
    let r ← exactObject v ["id", "requirementIds", "text"] s!"acceptanceCriteria[{i}]"
    let id ← assertTraceId (field r "id") s!"acceptanceCriteria[{i}].id"
    require (id ∉ done.map (·.id)) s!"duplicate acceptance ID: {id}"
    let linked ← validateIdArray (field r "requirementIds") requirementIds
      s!"acceptanceCriteria[{i}].requirementIds" 50
    let text ← assertText (field r "text") s!"acceptanceCriteria[{i}].text" 4000
    criteriaFrom requirementIds (i + 1)
      (done ++ [{ id := id, requirementIds := linked, text := text }]) l

/-- The requirements that a criterion depends on. -/
def linkedTo (criteria : List Criterion) (id : String) : List String :=
  ((criteria.find? (·.id = id)).map (·.requirementIds)).getD []

/-- A requirement that a writer needs for one of its criteria and does not have. -/
def missing (criteria : List Criterion) (requirementIds acceptanceIds : List String) :
    Option (String × String) :=
  (acceptanceIds.flatMap fun a => (linkedTo criteria a).map fun r => (a, r)).find?
    fun p => !requirementIds.contains p.2

/-- The write paths of a writer, each a directory of its own in the writer's root. -/
def writePathsFrom (lib : Lib) (directories : List String) (root : String) (slot : Slot)
    (claimed : List (Slot × String)) :
    ℕ → List String → List Json → Except String (List String)
  | _, done, [] => .ok done
  | i, done, v :: l => do
    let id := slot.name
    let path ← assertRepositoryDirectory v s!"attempt writer {id} writePaths[{i}]"
    require (path ∈ directories)
      s!"attempt writer {id} writePath is not an existing directory: {path}"
    require (directoryContains root path)
      s!"attempt writer {id} writePath is outside its template-owned root: {path}"
    noneFound
      (fun p => "attempt writePaths overlap: " ++ p.1.name ++ ":" ++ p.2 ++ s!" and {id}:{path}")
      ((claimed ++ done.map (slot, ·)).find? fun p => directoriesOverlap lib p.2 path)
    writePathsFrom lib directories root slot claimed (i + 1) (done ++ [path]) l

/-- A writer of a plan. -/
def planWriter (lib : Lib) (template : Template) (directories : List String)
    (requirementIds : List String) (criteria : List Criterion) (l : Fields)
    (claimed : List (Slot × String)) (slot : Slot) : Except String PlanWriter := do
  let id := slot.name
  let w ← exactObject (field l id) ["brief", "requirementIds", "acceptanceIds", "writePaths"]
    s!"attempt writer {id}"
  let brief ← assertText (field w "brief") s!"attempt writer {id} brief" 8000
  let reqs ← validateIdArray (field w "requirementIds") requirementIds
    s!"attempt writer {id} requirementIds" 50
  let accs ← validateIdArray (field w "acceptanceIds") (criteria.map (·.id))
    s!"attempt writer {id} acceptanceIds"
  noneFound (fun p => s!"attempt writer {id} acceptance " ++ p.1 ++ " requires " ++ p.2)
    (missing criteria reqs accs)
  let paths ← assertArray (field w "writePaths") 1 20
    s!"attempt writer {id} writePaths must contain 1 to 20 directories"
  let root := (template.writers slot).root
  require (root ∈ directories) s!"template write root does not exist: {id}:{root}"
  let writePaths ← writePathsFrom lib directories root slot claimed 0 [] paths
  pure { brief := brief, requirementIds := reqs, acceptanceIds := accs, writePaths := writePaths }

def claims (slot : Slot) (w : PlanWriter) : List (Slot × String) := w.writePaths.map (slot, ·)

def planFields : List String :=
  ["version", "attempt", "baseSha", "requirements", "acceptanceCriteria", "writers"]

/-- The first requirement that nothing checks or nobody does. -/
def uncoveredRequirement (criteria : List Criterion) (writers : List PlanWriter) :
    List Requirement → Except String Unit
  | [] => .ok ()
  | r :: l => do
    let id := r.id
    require (criteria.any fun c => c.requirementIds.contains r.id)
      s!"requirement has no acceptance criterion: {id}"
    require (writers.any fun w => w.requirementIds.contains r.id)
      s!"requirement is not assigned to a writer: {id}"
    uncoveredRequirement criteria writers l

def uncoveredCriterion (writers : List PlanWriter) : List Criterion → Except String Unit
  | [] => .ok ()
  | c :: l => do
    let id := c.id
    require (writers.any fun w => w.acceptanceIds.contains c.id)
      s!"acceptance criterion is not assigned to a writer: {id}"
    uncoveredCriterion writers l

def validateAttemptPlan (lib : Lib) (v templateJson : Json) (runBaseSha : Json)
    (existingDirectories : Json) : Except String Plan := do
  let template ← validatePodTemplate lib templateJson
  let base ← assertGitSha runBaseSha "runBaseSha"
  let directories ← validateExistingDirectories lib existingDirectories
  let l ← exactObject v planFields "attempt plan"
  require (PodStore.isNum (l.lookup "version") 1) "attempt plan version must be 1"
  let attempt ← assertInteger (field l "attempt") 1 template.maxAttempts "attempt"
  let baseSha ← assertGitSha (field l "baseSha") "attempt plan baseSha"
  require (baseSha = base) "attempt plan baseSha must equal the immutable run base"
  let rs ← assertArray (field l "requirements") 1 50 "requirements must contain 1 to 50 records"
  let requirements ← requirementsFrom 0 [] rs
  let cs ← assertArray (field l "acceptanceCriteria") 1 100
    "acceptanceCriteria must contain 1 to 100 records"
  let requirementIds := requirements.map (·.id)
  let criteria ← criteriaFrom requirementIds 0 [] cs
  let ws ← plainObject (field l "writers") "attempt writers"
  assertFixedKeys ws slotNames "attempt writers"
  let a ← planWriter lib template directories requirementIds criteria ws [] .engineeringA
  let b ← planWriter lib template directories requirementIds criteria ws
    (claims .engineeringA a) .engineeringB
  let q ← planWriter lib template directories requirementIds criteria ws
    (claims .engineeringA a ++ claims .engineeringB b) .qaTests
  uncoveredRequirement criteria [a, b, q] requirements
  uncoveredCriterion [a, b, q] criteria
  pure
    { attempt := attempt, baseSha := baseSha, requirements := requirements
      acceptanceCriteria := criteria, json := v
      writers := fun
        | .engineeringA => a
        | .engineeringB => b
        | .qaTests => q }

/-! ### Receipts -/

def maxReceiptBytes : ℕ := 60 * 1024

def receiptFits (v : Json) (label : String) : Except String Unit :=
  require (Wire.bytes (Wire.text v) ≤ maxReceiptBytes)
    s!"{label} must serialize to at most {maxReceiptBytes} bytes"

def slotOf (s : String) : Option Slot := writerIds.find? (·.name = s)

/-- The strings of an array that has no other values. -/
def stringsOf : Json → Option (List String)
  | .arr l => l.mapM Json.asStr
  | _ => none

def assertExactStringArray (v : Json) (expected : List String) (label : String) :
    Except String Unit :=
  require (stringsOf v = some expected) s!"{label} must exactly match the attempt plan"

def evidenceFrom (label : String) : ℕ → List Json → Except String Unit
  | _, [] => .ok ()
  | i, v :: l => do
    let _ ← assertText v s!"{label}[{i}]" 2000
    evidenceFrom label (i + 1) l

def validateEvidence (v : Json) (label : String) : Except String Unit := do
  let l ← assertArray v 1 20 s!"{label} must contain 1 to 20 strings"
  evidenceFrom label 0 l

def coveredFrom (requester owner : List String) (label : String) :
    ℕ → List String → List Json → Except String (List String)
  | _, seen, [] => .ok seen
  | i, seen, v :: l => do
    let id ← assertTraceId v s!"{label}[{i}]"
    require (id ∉ seen) s!"{label} contains duplicate ID: {id}"
    require (id ∈ requester ∧ id ∈ owner) s!"{label} must be covered by both writer items: {id}"
    coveredFrom requester owner label (i + 1) (seen ++ [id]) l

def assertIdsCovered (v : Json) (requester owner : List String) (label : String) :
    Except String (List String) :=
  match v with
  | .arr l => do
    require (l ≠ []) s!"{label} must be a non-empty array"
    coveredFrom requester owner label 0 [] l
  | _ => .error s!"{label} must be a non-empty array"

/-- What one engineer asks of the other. -/
structure Request where
  owner : Slot
  path : String
  requirementIds : List String
  acceptanceIds : List String
  ownerBriefSha256 : String
  need : String
  why : String
  deriving DecidableEq, Repr

def requestFields : List String :=
  ["owner", "path", "requirementIds", "acceptanceIds", "ownerBriefSha256", "need", "why"]

def validateDependencyRequest (lib : Lib) (plan : Plan) (writerId : String) (v : Json) :
    Except String Request := do
  require ("engineering-".toList.isPrefixOf writerId.toList)
    "only Engineering writers may return a same-owner dependency request"
  let l ← exactObject v requestFields "dependency request"
  let owner := if writerId = "engineering-a" then Slot.engineeringB else Slot.engineeringA
  require (PodStore.isStr (l.lookup "owner") owner.name)
    "dependency owner must be the other Engineering slot"
  let requester ← (slotOf writerId).elim (.error "requester is undefined") .ok
  let path ← assertRepositoryFile (field l "path") "dependency path"
  let ownerName := owner.name
  require ((plan.writers owner).writePaths.any fun p => directoryContains p path)
    s!"dependency path must be inside {ownerName} writePaths"
  let reqs ← assertIdsCovered (field l "requirementIds") (plan.writers requester).requirementIds
    (plan.writers owner).requirementIds "dependency requirementIds"
  let accs ← assertIdsCovered (field l "acceptanceIds") (plan.writers requester).acceptanceIds
    (plan.writers owner).acceptanceIds "dependency acceptanceIds"
  noneFound (fun p => "dependency acceptance " ++ p.1 ++ " requires " ++ p.2)
    (missing plan.acceptanceCriteria reqs accs)
  let digest ← assertForm (fun s => isSha256 s && s == lib.sha256 (plan.writers owner).brief)
    (field l "ownerBriefSha256")
    "dependency owner brief does not match the immutable attempt plan"
  let need ← assertText (field l "need") "dependency need"
  let why ← assertText (field l "why") "dependency why"
  pure
    { owner := owner, path := path, requirementIds := reqs, acceptanceIds := accs
      ownerBriefSha256 := digest, need := need, why := why }

def entryFields : List String :=
  ["sequence", "requester", "owner", "path", "requirementIds", "acceptanceIds",
    "ownerBriefSha256", "need", "why", "requesterCheckpointSha"]

/-- `cursor + 1` as a sum of doubles, for cursors up to 2^53: what follows that one is rounded
back to it. -/
def nextSequence (cursor : ℕ) : ℕ := if cursor < 2 ^ 53 then cursor + 1 else cursor

/-- The entries of an inbox that were delivered, one after the other. -/
def deliveredFrom (lib : Lib) (plan : Plan) (owner : Slot) :
    ℕ → ℕ → List Json → Except String ℕ
  | _, cursor, [] => .ok cursor
  | i, cursor, v :: l => do
    let label := s!"deliveredInbox[{i}]"
    let e ← exactObject v entryFields label
    let next := nextSequence cursor
    let sequence ← assertInteger (field e "sequence") next next s!"{label}.sequence"
    let ownerName := owner.name
    require (PodStore.isStr (e.lookup "owner") owner.name) s!"{label} owner must be {ownerName}"
    let requester ← (Json.asStr (field e "requester")).elim (.error "writerId is undefined") .ok
    let _ ← validateDependencyRequest lib plan requester
      (.obj (requestFields.map fun key => (key, field e key)))
    let _ ← assertGitSha (field e "requesterCheckpointSha") s!"{label}.requesterCheckpointSha"
    deliveredFrom lib plan owner (i + 1) sequence l

def validateDeliveredInbox (lib : Lib) (plan : Plan) (owner : Slot) (previousInboxCursor : ℕ)
    (entries : List Json) : Except String ℕ := do
  require (entries.length ≤ 20) "deliveredInbox must be an array of at most 20 entries"
  deliveredFrom lib plan owner 0 previousInboxCursor entries

/-- `assertInteger(previousInboxCursor, 0, Number.MAX_SAFE_INTEGER, "previousInboxCursor")` -/
def assertCursor (previousInboxCursor : ℕ) : Except String Unit :=
  require (previousInboxCursor ≤ maxSafeInteger)
    s!"previousInboxCursor must be an integer from 0 to {maxSafeInteger}"

inductive WriterOutcome
  | completed | blocked | failed
  deriving DecidableEq, Repr

def writerOutcomeOf (v : Json) : Except String WriterOutcome :=
  match v with
  | .str "completed" => .ok .completed
  | .str "blocked" => .ok .blocked
  | .str "failed" => .ok .failed
  | _ => .error "writer receipt outcome must be completed, blocked, or failed"

structure WriterReceipt where
  outcome : WriterOutcome
  baseSha : String
  why : String
  inboxCursor : ℕ
  dependencyRequest : Option Request
  json : Fields

def writerReceiptFields : List String :=
  ["outcome", "baseSha", "what", "why", "evidence", "requirementIds", "acceptanceIds",
    "inboxCursor", "dependencyRequest"]

def validateWriterReceipt (lib : Lib) (templateJson : Json) (plan : Plan) (slot : Slot)
    (executionBaseSha : String) (deliveredInbox : List Json) (previousInboxCursor : ℕ)
    (v : Json) : Except String WriterReceipt := do
  let _ ← validatePodTemplate lib templateJson
  let base ← assertGitSha (.str executionBaseSha) "executionBaseSha"
  assertCursor previousInboxCursor
  let l ← exactObject v writerReceiptFields "writer receipt"
  let outcome ← writerOutcomeOf (field l "outcome")
  let baseSha ← assertGitSha (field l "baseSha") "writer receipt baseSha"
  require (baseSha = base) "writer receipt baseSha must equal the execution base"
  let _ ← assertText (field l "what") "writer receipt what"
  let why ← assertText (field l "why") "writer receipt why"
  validateEvidence (field l "evidence") "writer receipt evidence"
  let writer := plan.writers slot
  assertExactStringArray (field l "requirementIds") writer.requirementIds
    "writer receipt requirementIds"
  assertExactStringArray (field l "acceptanceIds") writer.acceptanceIds
    "writer receipt acceptanceIds"
  let expected ← validateDeliveredInbox lib plan slot previousInboxCursor deliveredInbox
  let cursor ← assertInteger (field l "inboxCursor") 0 maxSafeInteger "writer receipt inboxCursor"
  require (cursor = expected) s!"writer receipt inboxCursor must equal delivered cursor {expected}"
  let request ←
    if outcome = .blocked then do
      require ((field l "dependencyRequest").isObject)
        "blocked writer receipt requires dependencyRequest"
      let r ← validateDependencyRequest lib plan slot.name (field l "dependencyRequest")
      pure (some r)
    else do
      require (PodStore.isNull (l.lookup "dependencyRequest"))
        "non-blocked writer receipt dependencyRequest must be null"
      pure none
  receiptFits v "writer receipt"
  pure
    { outcome := outcome, baseSha := baseSha, why := why, inboxCursor := cursor
      dependencyRequest := request, json := l }

mutual

/-- The text of a value, for comparing: the fields of an object are in order of their names. -/
def canonicalJson : Json → List Char
  | .arr l => '[' :: (",".toList.intercalate (canonicalList l) ++ [']'])
  | .obj l =>
    let fields := (canonicalFields l).insertionSort fun p q => p.1 ≤ q.1
    '{' :: (",".toList.intercalate (fields.map fun p => Wire.quote p.1 ++ ':' :: p.2) ++ ['}'])
  | v => Wire.text v

def canonicalList : List Json → List (List Char)
  | [] => []
  | v :: l => canonicalJson v :: canonicalList l

def canonicalFields : List (String × Json) → List (String × List Char)
  | [] => []
  | (k, v) :: l => (k, canonicalJson v) :: canonicalFields l

end

structure CheckerReceipt where
  passed : Bool
  baseSha : String
  resultSha : String
  diffSha256 : String
  why : String
  json : Fields

def checkerReceiptFields : List String :=
  ["outcome", "baseSha", "resultSha", "diffSha256", "what", "why", "evidence", "requirementIds",
    "acceptanceIds", "files", "deliveredInbox"]

def passedOrFailed (v : Json) (message : String) : Except String Bool :=
  match v with
  | .str "passed" => .ok true
  | .str "failed" => .ok false
  | _ => .error message

def filesEmpty (v : Json) (label : String) : Except String Unit :=
  match v with
  | .arr [] => .ok ()
  | _ => .error s!"{label} files must be empty"

def validateCheckerReceipt (lib : Lib) (plan : Plan) (slot : Slot)
    (baseSha resultSha diffSha256 : String) (deliveredInbox : List Json)
    (previousInboxCursor : ℕ) (v : Json) : Except String CheckerReceipt := do
  let base ← assertGitSha (.str baseSha) "checker baseSha"
  let result ← assertGitSha (.str resultSha) "checker resultSha"
  require (isSha256 diffSha256) "checker diffSha256 must be a lowercase SHA-256 digest"
  assertCursor previousInboxCursor
  let _ ← validateDeliveredInbox lib plan slot previousInboxCursor deliveredInbox
  let l ← exactObject v checkerReceiptFields "checker receipt"
  let passed ← passedOrFailed (field l "outcome") "checker receipt outcome must be passed or failed"
  let receiptBase ← assertGitSha (field l "baseSha") "checker receipt baseSha"
  require (receiptBase = base) "checker receipt baseSha must equal the checked base"
  let receiptResult ← assertGitSha (field l "resultSha") "checker receipt resultSha"
  require (receiptResult = result) "checker receipt resultSha must equal the checked result"
  let diff ← assertForm (· == diffSha256) (field l "diffSha256")
    "checker receipt diffSha256 must equal the checked diff"
  let _ ← assertText (field l "what") "checker receipt what"
  let why ← assertText (field l "why") "checker receipt why"
  validateEvidence (field l "evidence") "checker receipt evidence"
  let writer := plan.writers slot
  assertExactStringArray (field l "requirementIds") writer.requirementIds
    "checker receipt requirementIds"
  assertExactStringArray (field l "acceptanceIds") writer.acceptanceIds
    "checker receipt acceptanceIds"
  filesEmpty (field l "files") "checker receipt"
  require (canonicalJson (field l "deliveredInbox") = canonicalJson (.arr deliveredInbox))
    "checker receipt deliveredInbox must exactly match the controller-delivered slice"
  receiptFits v "checker receipt"
  pure
    { passed := passed, baseSha := receiptBase, resultSha := receiptResult, diffSha256 := diff
      why := why, json := l }

inductive Gate
  | qa | testing
  deriving DecidableEq, Repr

def Gate.name : Gate → String
  | .qa => "qa"
  | .testing => "testing"

def Gate.outcome : Gate → Json → Except String Bool
  | .qa, .str "passed" => .ok true
  | .qa, .str "test_defect" => .ok false
  | .qa, .str "product_nonconformance" => .ok false
  | .qa, _ => .error "QA outcome must be passed, test_defect, or product_nonconformance"
  | .testing, v => passedOrFailed v "Testing outcome must be passed or failed"

structure ConformanceReceipt where
  passed : Bool
  candidateSha : String
  why : String
  json : Fields

def conformanceReceiptFields : List String :=
  ["gate", "outcome", "candidateSha", "what", "why", "evidence", "requirementIds",
    "acceptanceIds", "files"]

def validateConformanceReceipt (plan : Plan) (gate : Gate) (candidateSha : String) (v : Json) :
    Except String ConformanceReceipt := do
  let candidate ← assertGitSha (.str candidateSha) "conformance candidateSha"
  let l ← exactObject v conformanceReceiptFields "conformance receipt"
  let name := gate.name
  require (PodStore.isStr (l.lookup "gate") gate.name)
    s!"conformance receipt gate must equal {name}"
  let passed ← gate.outcome (field l "outcome")
  let sha ← assertGitSha (field l "candidateSha") "conformance receipt candidateSha"
  require (sha = candidate) "conformance receipt candidateSha must equal the checked candidate"
  let _ ← assertText (field l "what") "conformance receipt what"
  let why ← assertText (field l "why") "conformance receipt why"
  validateEvidence (field l "evidence") "conformance receipt evidence"
  assertExactStringArray (field l "requirementIds") (plan.requirements.map (·.id))
    "conformance receipt requirementIds"
  assertExactStringArray (field l "acceptanceIds") (plan.acceptanceCriteria.map (·.id))
    "conformance receipt acceptanceIds"
  filesEmpty (field l "files") "conformance receipt"
  receiptFits v "conformance receipt"
  pure { passed := passed, candidateSha := sha, why := why, json := l }

end Bimo.Contract
