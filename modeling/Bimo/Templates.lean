import Bimo.JsonFile
import Bimo.Lossy
import Bimo.Ownership
import Bimo.WorkflowRuns

/-!
The templates of workflows and of pods, and what they are told apart by.

A template is a directory with a manifest and prompts. It is loaded by a program over the file
system, which may answer anything: every file is read as it is at that moment. What the digest is
taken of is the text of the manifest and, behind it, the path and the text of each prompt, with a
NUL in front of each part. No part has a NUL in it, so the parts can be told apart again.
-/

namespace Bimo.Templates

open Wire (Json nul parseFile)
open Contract (Template isName slotNames promptIds printed)
open PodStore (require_eq)
open Utf8 (encode lossy)

/-! ### The file system -/

inductive Kind
  | file | directory | symbolicLink | other
  deriving DecidableEq

inductive Call
  | realpath (path : String)
  | lstat (path : String)
  | readFile (path : String)

/-- A failure comes with its message, but for `lstat`, where it is caught. -/
def Call.Ret : Call → Type
  | .realpath _ => Except String String
  | .lstat _ => Option Kind
  | .readFile _ => Except String (List UInt8)

abbrev Io (α : Type) := Prog Call Call.Ret String α

def ask (c : Call) : Io c.Ret := Prog.ask c

def check (p : Prop) [Decidable p] (message : String) : Io Unit :=
  Prog.ofExcept (PodStore.require p message)

def realpath (path : String) : Io String := do
  let r : Except String String ← ask (.realpath path)
  Prog.ofExcept r

def readFile (path : String) : Io (List UInt8) := do
  let r : Except String (List UInt8) ← ask (.readFile path)
  Prog.ofExcept r

/-- The path is there and of this kind, as it stands: a link is not followed. -/
def checkKind (kind : Kind) (path message : String) : Io Unit := do
  let found : Option Kind ← ask (.lstat path)
  check (found = some kind) message

/-- A path in a directory, both without parts that could be left out. -/
def join (dir path : String) : String := if dir = "/" then "/" ++ path else dir ++ "/" ++ path

def descendant (root target : String) : Bool :=
  decide (target = root) || (root ++ "/").toList.isPrefixOf target.toList

/-! ### Manifests -/

/-- The part of the engine that reads numbers and words complaints. -/
structure Engine where
  -- the number that a numeral is read as, in its shortest text
  number : String → String
  -- the message for a text that is not one of JSON
  complaint : List Char → String

/-- What the messages about a kind of template say. -/
structure Wording where
  what : String
  file : String
  label : String

structure Manifest where
  root : String
  dir : String
  raw : List Char
  value : Json

def parseManifest (e : Engine) (label : String) (raw : List Char) : Except String Json :=
  match parseFile e.number raw with
  | some v => .ok v
  | none => .error (s!"invalid {label} JSON: " ++ e.complaint raw)

/-- The directory of a template and its manifest, as far as it is the same for both kinds. -/
def readManifest (e : Engine) (w : Wording) (name templateRoot : String) : Io Manifest := do
  check (isName name) "template name must use lowercase letters, numbers, and dashes"
  check (templateRoot ≠ "") "templateRoot is required"
  let what := w.what
  let file := w.file
  let root ← realpath templateRoot
  checkKind .directory (join root name) s!"unknown {what}: {name}"
  let dir ← realpath (join root name)
  check (descendant root dir) s!"{what} escapes template root: {name}"
  checkKind .file (join dir file) s!"{what} {name} requires {file}"
  let bytes ← readFile (join dir file)
  let raw := lossy bytes
  check (Wire.bytes raw ≤ 64 * 1024) s!"{file} exceeds 64 KiB"
  let value ← Prog.ofExcept (parseManifest e w.label raw)
  pure { root := root, dir := dir, raw := raw, value := value }

/-! ### Prompts -/

structure Prompt where
  id : String
  relative : String
  text : String
  deriving DecidableEq

def readPrompt (promptRoot label relative : String) : Io String := do
  let path := join promptRoot relative
  checkKind .file path s!"{label} must be a regular file"
  let realPrompt ← realpath path
  check (descendant promptRoot realPrompt) s!"{label} escapes template"
  let bytes ← readFile realPrompt
  Prog.ofExcept (Contract.assertText (.str (String.ofList (lossy bytes))) label (32 * 1024))

/-- The prompts with these names and paths. -/
def readPrompts (promptRoot : String) (label : String → String) :
    List (String × String) → Io (List Prompt)
  | [] => pure []
  | (id, relative) :: entries => do
    let text ← readPrompt promptRoot (label id) relative
    let prompts ← readPrompts promptRoot label entries
    pure ({ id := id, relative := relative, text := text } :: prompts)

/-- The bytes that the hash is updated with: the manifest, then this of each prompt. -/
def hashed (piece : Prompt → List Char) (raw : List Char) (prompts : List Prompt) : List UInt8 :=
  prompts.foldl (fun bytes p => bytes ++ encode (piece p)) (encode raw)

/-- A template that was loaded, with what its digest was taken of. -/
structure Loaded (α : Type) where
  template : α
  templateDir : String
  raw : List Char
  prompts : List Prompt
  hashed : List UInt8

/-! ### Workflows -/

def workflowWording : Wording := ⟨"template", "workflow.json", "workflow"⟩

/-- `\0${role.prompt}\0${prompt}` -/
def rolePiece (p : Prompt) : List Char := nul :: p.relative.toList ++ nul :: p.text.toList

def loadWorkflow (e : Engine) (name templateRoot : String) : Io (Loaded Flow.Workflow) := do
  let m ← readManifest e workflowWording name templateRoot
  let workflow ← Prog.ofExcept (Flow.validateWorkflow m.value)
  check (workflow.name.plain = true ∧ workflow.name.key = name)
    (s!"template directory {name} does not match workflow name " ++ workflow.name.key)
  let prompts ← readPrompts m.dir (fun roleName => s!"role {roleName} prompt")
    (workflow.roles.map fun p => (p.1, p.2.prompt))
  pure
    { template := workflow, templateDir := m.dir, raw := m.raw, prompts := prompts
      hashed := hashed rolePiece m.raw prompts }

/-! ### Pods -/

def podWording : Wording := ⟨"pod template", "pod.json", "pod"⟩

/-- `\0${promptId}\0${relative}\0${prompt}` -/
def podPiece (p : Prompt) : List Char :=
  nul :: p.id.toList ++ nul :: p.relative.toList ++ nul :: p.text.toList

/-- `template.prompts[promptId]`, of a manifest that was validated -/
def promptPath (manifest : Json) (promptId : String) : String :=
  (((manifest.get "prompts").bind (·.get promptId)).bind Json.asStr).getD ""

def promptEntries (manifest : Json) (t : Template) : List (String × String) :=
  Contract.writerIds.map (fun slot => (slot.name, (t.writers slot).prompt)) ++
    promptIds.map fun promptId => (promptId, promptPath manifest promptId)

/-- Where the prompts are: one of the two built-in pods has those of the other. -/
def findPromptRoot (name root dir : String) : Io String :=
  if name = "pi-palantir-pod" then do
    let shared := join root "parallel-engineering-pod"
    checkKind .directory shared "Pi pod requires the built-in engineering prompts"
    let promptRoot ← realpath shared
    check (descendant root promptRoot) "shared engineering prompts escape template root"
    pure promptRoot
  else pure dir

def loadPodTemplate (e : Engine) (lib : Contract.Lib) (name templateRoot : String) :
    Io (Loaded Template) := do
  let m ← readManifest e podWording name templateRoot
  let template ← Prog.ofExcept (Contract.validatePodTemplate lib m.value)
  check (template.name.asStr = some name)
    (s!"template directory {name} does not match pod template name " ++ printed template.name)
  let promptRoot ← findPromptRoot name m.root m.dir
  let prompts ← readPrompts promptRoot (fun promptId => s!"pod prompt {promptId}")
    (promptEntries m.value template)
  pure
    { template := template, templateDir := m.dir, raw := m.raw, prompts := prompts
      hashed := hashed podPiece m.raw prompts }

/-! ### Parts without a NUL -/

/-- Parts with a NUL in front of each but the first are known from the whole. -/
lemma parts_of_joined {a b : List Char} {l m : List (List Char)} (ha : nul ∉ a) (hb : nul ∉ b)
    (hl : ∀ s ∈ l, nul ∉ s) (hm : ∀ s ∈ m, nul ∉ s)
    (h : a ++ l.flatMap (nul :: ·) = b ++ m.flatMap (nul :: ·)) : a = b ∧ l = m := by
  have hjoin : ∀ (c : List Char) (k : List (List Char)),
      c ++ k.flatMap (nul :: ·) = [nul].intercalate (c :: k) := by
    intro c k
    induction k generalizing c with
    | nil => simp
    | cons s k ih =>
        rw [List.intercalate_cons_cons, ← ih s, List.flatMap_cons]
        simp
  have hsplit : ∀ (c : List Char) (k : List (List Char)), nul ∉ c → (∀ s ∈ k, nul ∉ s) →
      (c ++ k.flatMap (nul :: ·)).splitOn nul = c :: k := by
    intro c k hc hk
    rw [hjoin c k]
    exact List.splitOn_intercalate nul (List.forall_mem_cons.mpr ⟨hc, hk⟩) (List.cons_ne_nil _ _)
  have heq : a :: l = b :: m := by
    rw [← hsplit a l ha hl, h, hsplit b m hb hm]
  exact List.cons.inj heq

/-- Lists of one length each are known from their concatenation. -/
lemma map_of_flatMap {α β : Type} {f : α → List β} {n : ℕ} (hlength : ∀ a, (f a).length = n + 1)
    {l m : List α} (h : l.flatMap f = m.flatMap f) : l.map f = m.map f := by
  induction l generalizing m with
  | nil =>
      cases m with
      | nil => rfl
      | cons b m =>
          have hb := hlength b
          rw [List.flatMap_nil, List.flatMap_cons, eq_comm, List.append_eq_nil_iff] at h
          rw [h.1] at hb
          cases hb
  | cons a l ih =>
      cases m with
      | nil =>
          have ha := hlength a
          rw [List.flatMap_nil, List.flatMap_cons, List.append_eq_nil_iff] at h
          rw [h.1] at ha
          cases ha
      | cons b m =>
          rw [List.flatMap_cons, List.flatMap_cons] at h
          obtain ⟨hab, hrest⟩ := List.append_inj h ((hlength a).trans (hlength b).symm)
          rw [List.map_cons, List.map_cons, hab, ih hrest]

lemma nul_not_mem_of_assertText {v : Json} {label s : String} {maximum : ℕ}
    (h : Contract.assertText v label maximum = .ok s) : nul ∉ s.toList := by
  cases v with
  | str t =>
      obtain ⟨_, -, h⟩ := bind_eq_ok.mp h
      obtain ⟨_, hsafe, h⟩ := bind_eq_ok.mp h
      obtain rfl := Except.ok.inj h
      have hsafe := List.any_eq_false.mp (require_eq.mp hsafe)
      exact fun hmem => hsafe nul hmem (by decide)
  | _ => cases h

/-! ### What is known of a template that was loaded -/

def partsOf (a : List Char) (l : List (List Char)) : List Char := a ++ l.flatMap (nul :: ·)

/-- The manifest says what the template is and where its prompts are, and what was hashed has parts
without a NUL. -/
structure Sealed {α : Type} (read : List Char → Except String (α × List (String × String)))
    (parts : Prompt → List (List Char)) (a : Loaded α) : Prop where
  manifest : read a.raw = .ok (a.template, a.prompts.map fun p => (p.id, p.relative))
  clear : nul ∉ a.raw
  clears : ∀ p ∈ a.prompts, ∀ s ∈ parts p, nul ∉ s
  hashed : a.hashed = encode (partsOf a.raw (a.prompts.flatMap parts))

lemma hashed_eq {piece : Prompt → List Char} {parts : Prompt → List (List Char)}
    (h : ∀ p, piece p = (parts p).flatMap (nul :: ·)) (raw : List Char) (prompts : List Prompt) :
    hashed piece raw prompts = encode (partsOf raw (prompts.flatMap parts)) := by
  unfold hashed partsOf
  induction prompts generalizing raw with
  | nil => simp
  | cons p prompts ih =>
      have hfirst : encode raw ++ encode (piece p) = encode (raw ++ piece p) :=
        List.flatMap_append.symm
      rw [List.foldl_cons, hfirst, ih, List.flatMap_cons, List.flatMap_append, h p,
        List.append_assoc]

lemma prompts_ext {l m : List Prompt}
    (hpaths : l.map (fun p => (p.id, p.relative)) = m.map fun p => (p.id, p.relative))
    (htexts : l.map Prompt.text = m.map Prompt.text) : l = m := by
  induction l generalizing m with
  | nil =>
      rw [List.map_nil, eq_comm, List.map_eq_nil_iff] at htexts
      exact htexts.symm
  | cons p l ih =>
      cases m with
      | nil => cases htexts
      | cons q m =>
          obtain ⟨hpath, hpaths⟩ := List.cons.inj hpaths
          obtain ⟨htext, htexts⟩ := List.cons.inj htexts
          obtain ⟨hid, hrelative⟩ := Prod.mk.inj hpath
          rw [ih hpaths htexts]
          cases p
          cases q
          simp_all

/-- What is hashed says which template it is. -/
lemma Sealed.eq {α : Type} {read : List Char → Except String (α × List (String × String))}
    {parts : Prompt → List (List Char)} {a b : Loaded α} {n : ℕ} (ha : Sealed read parts a)
    (hb : Sealed read parts b) (hlength : ∀ p, (parts p).length = n + 1)
    (htext : ∀ p, (parts p).getLast? = some p.text.toList) (h : a.hashed = b.hashed) :
    a.raw = b.raw ∧ a.template = b.template ∧ a.prompts = b.prompts := by
  have hparts : ∀ {c : Loaded α}, Sealed read parts c →
      ∀ s ∈ c.prompts.flatMap parts, nul ∉ s := by
    intro c hc s hs
    obtain ⟨p, hp, hs⟩ := List.mem_flatMap.mp hs
    exact hc.clears p hp s hs
  rw [ha.hashed, hb.hashed] at h
  obtain ⟨hraw, hflat⟩ := parts_of_joined ha.clear hb.clear (hparts ha) (hparts hb)
    (Utf8.encode_injective h)
  have hread := ha.manifest
  rw [hraw, hb.manifest] at hread
  obtain ⟨htemplate, hpaths⟩ := Prod.mk.inj (Except.ok.inj hread)
  have hmap := congrArg (List.map List.getLast?) (map_of_flatMap hlength hflat)
  have htexts : a.prompts.map Prompt.text = b.prompts.map Prompt.text := by
    simp only [List.map_map, Function.comp_def, htext] at hmap
    have hstrings := congrArg (List.map fun o => String.ofList (o.getD [])) hmap
    simpa [Function.comp_def] using hstrings
  exact ⟨hraw, htemplate.symm, prompts_ext hpaths.symm htexts⟩

/-! ### Loading -/

def anyCall : Call → Prop := fun _ => True

section Loading

variable {α β : Type} {R : α → Prop} {S : β → Prop}

lemma does_of {x : Except String α} (h : ∀ a, x = .ok a → R a) :
    (Prog.ofExcept x : Io α).Does anyCall R := by
  cases x with
  | ok a => exact h a rfl
  | error e => exact trivial

lemma does_any (p : Io α) : p.Does anyCall fun _ => True := by
  induction p with
  | ret a => exact trivial
  | fail e => exact trivial
  | call o k ih => exact ⟨trivial, ih⟩

/-- A part of a program of which nothing is to be known. -/
lemma does_skip {p : Io α} {f : α → Io β} (h : ∀ a, (f a).Does anyCall S) :
    (p >>= f).Does anyCall S :=
  (does_any p).bind fun a _ => h a

lemma does_readManifest (e : Engine) (w : Wording) (name templateRoot : String) :
    (readManifest e w name templateRoot).Does anyCall fun m =>
      parseFile e.number m.raw = some m.value := by
  refine does_skip fun _ => does_skip fun _ => does_skip fun _ => does_skip fun _ => ?_
  refine does_skip fun _ => does_skip fun _ => does_skip fun _ => does_skip fun bytes => ?_
  refine does_skip fun _ => (does_of fun v h => h).bind fun v hv => ?_
  show parseFile e.number (lossy bytes) = some v
  unfold parseManifest at hv
  split at hv
  · rename_i v' hparse
    obtain rfl := Except.ok.inj hv
    exact hparse
  · cases hv

lemma does_readPrompts (promptRoot : String) (label : String → String)
    (entries : List (String × String)) :
    (readPrompts promptRoot label entries).Does anyCall fun prompts =>
      prompts.map (fun p => (p.id, p.relative)) = entries ∧ ∀ p ∈ prompts, nul ∉ p.text.toList := by
  induction entries with
  | nil => exact ⟨rfl, nofun⟩
  | cons entry entries ih =>
      have htext : (readPrompt promptRoot (label entry.1) entry.2).Does anyCall
          fun text => nul ∉ text.toList := by
        refine does_skip fun _ => does_skip fun _ => does_skip fun _ => does_skip fun _ => ?_
        exact does_of fun _ => nul_not_mem_of_assertText
      refine htext.bind fun text hclear => ih.bind fun prompts hprompts => ⟨?_, ?_⟩
      · rw [List.map_cons, hprompts.1]
      · exact List.forall_mem_cons.mpr ⟨hclear, hprompts.2⟩

end Loading

/-! #### Workflows -/

def readWorkflow (e : Engine) (raw : List Char) :
    Except String (Flow.Workflow × List (String × String)) := do
  let v ← parseManifest e "workflow" raw
  let w ← Flow.validateWorkflow v
  pure (w, w.roles.map fun p => (p.1, p.2.prompt))

def roleParts (p : Prompt) : List (List Char) := [p.relative.toList, p.text.toList]

lemma clear_of_checkRoles {roles l : PodStore.Fields} {checked : List (String × Flow.Role)}
    (h : Flow.checkRoles roles l = .ok checked) : ∀ p ∈ checked, nul ∉ p.2.prompt.toList := by
  induction l generalizing checked with
  | nil =>
      obtain rfl := Except.ok.inj h
      exact nofun
  | cons q l ih =>
      obtain ⟨role, hrole, h⟩ := bind_eq_ok.mp h
      obtain ⟨rest, hrest, h⟩ := bind_eq_ok.mp h
      obtain rfl := Except.ok.inj h
      refine List.forall_mem_cons.mpr ⟨?_, ih hrest⟩
      obtain ⟨_, -, hrole⟩ := bind_eq_ok.mp hrole
      obtain ⟨_, -, hrole⟩ := bind_eq_ok.mp hrole
      obtain ⟨_, -, hrole⟩ := bind_eq_ok.mp hrole
      obtain ⟨prompt, hprompt, hrole⟩ := bind_eq_ok.mp hrole
      obtain ⟨_, -, hrole⟩ := bind_eq_ok.mp hrole
      obtain ⟨_, -, hrole⟩ := bind_eq_ok.mp hrole
      obtain ⟨_, -, hrole⟩ := bind_eq_ok.mp hrole
      obtain ⟨_, -, hrole⟩ := bind_eq_ok.mp hrole
      obtain rfl := Except.ok.inj hrole
      obtain ⟨_, htext, hprompt⟩ := bind_eq_ok.mp hprompt
      obtain ⟨_, -, hprompt⟩ := bind_eq_ok.mp hprompt
      obtain rfl := Except.ok.inj hprompt
      exact nul_not_mem_of_assertText htext

lemma clear_of_validateWorkflow {v : Json} {w : Flow.Workflow}
    (h : Flow.validateWorkflow v = .ok w) : ∀ p ∈ w.roles, nul ∉ p.2.prompt.toList := by
  obtain ⟨l, -, h⟩ := bind_eq_ok.mp h
  obtain ⟨_, -, h⟩ := bind_eq_ok.mp h
  obtain ⟨_, -, h⟩ := bind_eq_ok.mp h
  obtain ⟨name, -, h⟩ := bind_eq_ok.mp h
  obtain ⟨start, -, h⟩ := bind_eq_ok.mp h
  obtain ⟨maxSteps, -, h⟩ := bind_eq_ok.mp h
  obtain ⟨timeouts, -, h⟩ := bind_eq_ok.mp h
  obtain ⟨_, -, h⟩ := bind_eq_ok.mp h
  obtain ⟨stepSeconds, -, h⟩ := bind_eq_ok.mp h
  obtain ⟨workflowSeconds, -, h⟩ := bind_eq_ok.mp h
  obtain ⟨raw, -, h⟩ := bind_eq_ok.mp h
  obtain ⟨_, -, h⟩ := bind_eq_ok.mp h
  obtain ⟨_, -, h⟩ := bind_eq_ok.mp h
  obtain ⟨roles, hroles, h⟩ := bind_eq_ok.mp h
  obtain ⟨_, -, h⟩ := bind_eq_ok.mp h
  obtain ⟨_, -, h⟩ := bind_eq_ok.mp h
  obtain ⟨output, -, h⟩ := bind_eq_ok.mp h
  obtain rfl := Except.ok.inj h
  exact clear_of_checkRoles hroles

lemma parseManifest_of_parseFile {e : Engine} {label : String} {raw : List Char} {v : Json}
    (h : parseFile e.number raw = some v) : parseManifest e label raw = .ok v := by
  rw [parseManifest, h]

lemma does_loadWorkflow (e : Engine) (name templateRoot : String) :
    (loadWorkflow e name templateRoot).Does anyCall (Sealed (readWorkflow e) roleParts) := by
  refine (does_readManifest e _ _ _).bind fun m hm => ?_
  refine (does_of fun w h => h).bind fun w hw => does_skip fun _ => ?_
  refine (does_readPrompts _ _ _).bind fun prompts hprompts => ?_
  obtain ⟨hpaths, htexts⟩ := hprompts
  have hclear := clear_of_validateWorkflow hw
  refine ⟨?_, Wire.nul_not_mem_of_parseFile hm, ?_, ?_⟩
  · rw [hpaths]
    refine bind_eq_ok.mpr ⟨m.value, parseManifest_of_parseFile hm, ?_⟩
    exact bind_eq_ok.mpr ⟨w, hw, rfl⟩
  · intro p hp s hs
    have hmem : (p.id, p.relative) ∈ w.roles.map fun q => (q.1, q.2.prompt) :=
      hpaths ▸ List.mem_map_of_mem hp
    obtain ⟨q, hq, heq⟩ := List.mem_map.mp hmem
    obtain ⟨-, hrelative⟩ := Prod.mk.inj heq
    rcases List.mem_pair.mp hs with rfl | rfl
    · rw [← hrelative]
      exact hclear q hq
    · exact htexts p hp
  · exact hashed_eq (fun p => by simp [rolePiece, roleParts]) _ _

/-! #### Pods -/

def readPod (e : Engine) (lib : Contract.Lib) (raw : List Char) :
    Except String (Template × List (String × String)) := do
  let v ← parseManifest e "pod" raw
  let t ← Contract.validatePodTemplate lib v
  pure (t, promptEntries v t)

def podParts (p : Prompt) : List (List Char) := [p.id.toList, p.relative.toList, p.text.toList]

lemma nul_not_mem_of_assertPromptPath {v : Json} {label path : String}
    (h : Contract.assertPromptPath v label = .ok path) : nul ∉ path.toList := by
  obtain ⟨_, htext, h⟩ := bind_eq_ok.mp h
  obtain ⟨_, -, h⟩ := bind_eq_ok.mp h
  obtain rfl := Except.ok.inj h
  exact nul_not_mem_of_assertText htext

lemma clear_of_templateWriter {lib : Contract.Lib} {l : PodStore.Fields}
    {before : List (Contract.Slot × String)} {slot : Contract.Slot} {w : Contract.TemplateWriter}
    (h : Contract.templateWriter lib l before slot = .ok w) : nul ∉ w.prompt.toList := by
  obtain ⟨_, -, h⟩ := bind_eq_ok.mp h
  obtain ⟨prompt, hprompt, h⟩ := bind_eq_ok.mp h
  obtain ⟨_, -, h⟩ := bind_eq_ok.mp h
  obtain ⟨_, -, h⟩ := bind_eq_ok.mp h
  obtain ⟨_, -, h⟩ := bind_eq_ok.mp h
  obtain rfl := Except.ok.inj h
  exact nul_not_mem_of_assertPromptPath hprompt

/-- A prompt of the manifest has a path, and nothing in it is a NUL. -/
lemma clear_of_assertPrompts {ps : PodStore.Fields} {ids : List String}
    (h : Contract.assertPrompts ps ids = .ok ()) :
    ∀ id ∈ ids, ∃ path, ps.lookup id = some (.str path) ∧ nul ∉ path.toList := by
  induction ids with
  | nil => exact nofun
  | cons id ids ih =>
      obtain ⟨path, hpath, h⟩ := bind_eq_ok.mp h
      refine List.forall_mem_cons.mpr ⟨⟨path, ?_, nul_not_mem_of_assertPromptPath hpath⟩, ih h⟩
      obtain ⟨t, htext, hpath⟩ := bind_eq_ok.mp hpath
      obtain ⟨_, -, hpath⟩ := bind_eq_ok.mp hpath
      obtain rfl := Except.ok.inj hpath
      unfold PodStore.field at htext
      cases hfound : ps.lookup id with
      | none =>
          rw [hfound] at htext
          cases htext
      | some v =>
          rw [hfound] at htext
          cases v with
          | str s =>
              obtain ⟨_, -, htext⟩ := bind_eq_ok.mp htext
              obtain ⟨_, -, htext⟩ := bind_eq_ok.mp htext
              rw [Except.ok.inj htext]
          | _ => cases htext

lemma clear_of_validatePodTemplate {lib : Contract.Lib} {v : Json} {t : Template}
    (h : Contract.validatePodTemplate lib v = .ok t) :
    ∀ q ∈ promptEntries v t, nul ∉ q.1.toList ∧ nul ∉ q.2.toList := by
  obtain ⟨l, hl, h⟩ := bind_eq_ok.mp h
  obtain ⟨_, -, h⟩ := bind_eq_ok.mp h
  obtain ⟨_, -, h⟩ := bind_eq_ok.mp h
  obtain ⟨_, -, h⟩ := bind_eq_ok.mp h
  obtain ⟨_, -, h⟩ := bind_eq_ok.mp h
  obtain ⟨_, -, h⟩ := bind_eq_ok.mp h
  obtain ⟨_, -, h⟩ := bind_eq_ok.mp h
  obtain ⟨_, -, h⟩ := bind_eq_ok.mp h
  obtain ⟨_, -, h⟩ := bind_eq_ok.mp h
  obtain ⟨_, -, h⟩ := bind_eq_ok.mp h
  obtain ⟨_, -, h⟩ := bind_eq_ok.mp h
  obtain ⟨_, -, h⟩ := bind_eq_ok.mp h
  obtain ⟨_, -, h⟩ := bind_eq_ok.mp h
  obtain ⟨a, ha, h⟩ := bind_eq_ok.mp h
  obtain ⟨b, hb, h⟩ := bind_eq_ok.mp h
  obtain ⟨q, hq, h⟩ := bind_eq_ok.mp h
  obtain ⟨ps, hps, h⟩ := bind_eq_ok.mp h
  obtain ⟨_, -, h⟩ := bind_eq_ok.mp h
  obtain ⟨_, hprompts, h⟩ := bind_eq_ok.mp h
  obtain ⟨_, -, h⟩ := bind_eq_ok.mp h
  obtain rfl := Except.ok.inj h
  obtain ⟨l', hl', hl⟩ := bind_eq_ok.mp hl
  obtain ⟨_, -, hl⟩ := bind_eq_ok.mp hl
  obtain rfl := Except.ok.inj hl
  have hv : v = .obj l' := PodStore.plainObject_eq hl'
  have hslot : ∀ slot : Contract.Slot, nul ∉ slot.name.toList := by
    rintro (_ | _ | _) <;> decide
  have hid : ∀ id ∈ promptIds, nul ∉ id.toList := by decide
  intro entry hentry
  rcases List.mem_append.mp hentry with hentry | hentry
  · obtain ⟨slot, -, rfl⟩ := List.mem_map.mp hentry
    refine ⟨hslot slot, ?_⟩
    cases slot with
    | engineeringA => exact clear_of_templateWriter ha
    | engineeringB => exact clear_of_templateWriter hb
    | qaTests => exact clear_of_templateWriter hq
  · obtain ⟨id, hmem, rfl⟩ := List.mem_map.mp hentry
    refine ⟨hid id hmem, ?_⟩
    obtain ⟨path, hpath, hclear⟩ := clear_of_assertPrompts hprompts id hmem
    have hfield : (l'.lookup "prompts").getD .null = .obj ps := PodStore.plainObject_eq hps
    have hget : (Json.obj l').get "prompts" = some (.obj ps) := by
      cases hfound : l'.lookup "prompts" with
      | none =>
          rw [hfound] at hfield
          cases hfield
      | some w =>
          rw [hfound] at hfield
          exact hfound.trans (congrArg some hfield)
    have hinner : (Json.obj ps).get id = some (.str path) := hpath
    have hvalue : promptPath v id = path := by
      rw [promptPath, hv, hget, Option.bind_some, hinner]
      rfl
    show nul ∉ (promptPath v id).toList
    rwa [hvalue]

lemma does_loadPodTemplate (e : Engine) (lib : Contract.Lib) (name templateRoot : String) :
    (loadPodTemplate e lib name templateRoot).Does anyCall (Sealed (readPod e lib) podParts) := by
  refine (does_readManifest e _ _ _).bind fun m hm => ?_
  refine (does_of fun t h => h).bind fun t ht => does_skip fun _ => does_skip fun promptRoot => ?_
  refine (does_readPrompts _ _ _).bind fun prompts hprompts => ?_
  obtain ⟨hpaths, htexts⟩ := hprompts
  have hclear := clear_of_validatePodTemplate ht
  refine ⟨?_, Wire.nul_not_mem_of_parseFile hm, ?_, ?_⟩
  · rw [hpaths]
    refine bind_eq_ok.mpr ⟨m.value, parseManifest_of_parseFile hm, ?_⟩
    exact bind_eq_ok.mpr ⟨t, ht, rfl⟩
  · intro p hp s hs
    have hmem : (p.id, p.relative) ∈ promptEntries m.value t := hpaths ▸ List.mem_map_of_mem hp
    obtain ⟨hid, hrelative⟩ := hclear _ hmem
    rcases List.mem_cons.mp hs with rfl | hs
    · exact hid
    · rcases List.mem_pair.mp hs with rfl | rfl
      · exact hrelative
      · exact htexts p hp
  · exact hashed_eq (fun p => by simp [podPiece, podParts]) _ _

/-! ### Templates and digests -/

/-- The file system answers as it likes, so also one that is changed meanwhile. -/
def env : Env Call Call.Ret Unit where
  step _ _ _ _ := True

lemma of_does {α : Type} {R : α → Prop} {p : Io α} (h : p.Does anyCall R) {a : α}
    (hx : Exec env p () (.ret a) ()) : R a := by
  have hsafe : Safe env (fun _ _ => True) p () fun r _ => ∀ a, r = .ok a → R a :=
    safe_of_does (fun _ _ => trivial) (fun _ _ _ _ _ => rfl) h fun _ hr => hr
  exact hsafe.exec hx a rfl

/-- **The digest says which template it is.** Whatever the file systems hold that two workflows or
two pods are loaded from: where the bytes that the two digests are taken of are the same, so are
the texts of the manifests, and the prompts with their names, paths and texts. -/
theorem digest_identifies (e : Engine) (lib : Contract.Lib) :
    (∀ name name' templateRoot templateRoot' a b,
      Exec env (loadWorkflow e name templateRoot) () (.ret a) () →
        Exec env (loadWorkflow e name' templateRoot') () (.ret b) () → a.hashed = b.hashed →
          a.raw = b.raw ∧ a.template = b.template ∧ a.prompts = b.prompts) ∧
      ∀ name name' templateRoot templateRoot' a b,
        Exec env (loadPodTemplate e lib name templateRoot) () (.ret a) () →
          Exec env (loadPodTemplate e lib name' templateRoot') () (.ret b) () →
            a.hashed = b.hashed →
              a.raw = b.raw ∧ a.template = b.template ∧ a.prompts = b.prompts := by
  refine ⟨fun name name' root root' a b ha hb h => ?_, fun name name' root root' a b ha hb h => ?_⟩
  · exact (of_does (does_loadWorkflow _ _ _) ha).eq (n := 1) (of_does (does_loadWorkflow _ _ _) hb)
      (fun _ => rfl) (fun _ => rfl) h
  · exact (of_does (does_loadPodTemplate _ _ _ _) ha).eq (n := 2)
      (of_does (does_loadPodTemplate _ _ _ _) hb) (fun _ => rfl) (fun _ => rfl) h

/-! ### A directory of templates -/

/-- Files with their texts, and the directories that they are in. -/
def answer (files : List (String × List Char)) : (c : Call) → c.Ret
  | .realpath path => .ok path
  | .lstat path =>
    if (files.lookup path).isSome then some .file
    else if files.any (fun f => (path ++ "/").toList.isPrefixOf f.1.toList) then some .directory
    else none
  | .readFile path => ((files.lookup path).map encode).elim (.error "ENOENT") .ok

/-- What comes of loading from these files. -/
def loaded {α : Type} (files : List (String × List Char)) (p : Io α) : Option α :=
  match p.run (fun _ => answer files) (fun s _ _ => s) () with
  | (.ok a, _) => some a
  | (.error _, _) => none

lemma exec_of_loaded {α : Type} {files : List (String × List Char)} {p : Io α} {a : α}
    (h : loaded files p = some a) : Exec env p () (.ret a) () := by
  unfold loaded at h
  split at h
  · rename_i b s hrun
    obtain rfl := Option.some.inj h
    exact exec_of_run (fun _ _ => trivial) hrun
  · cases h

def sampleEngine : Engine := ⟨id, fun _ => "Unexpected token"⟩

def sampleFiles (root : String) : List (String × List Char) :=
  [(root ++ "/solo/workflow.json", Wire.text Flow.sampleWorkflow),
    (root ++ "/solo/build.md", "Build it.\n".toList),
    (root ++ "/pod/pod.json", Wire.text Contract.sampleTemplate),
    (root ++ "/pod/writer.md", "Write it.\n".toList),
    (root ++ "/pod/prompt.md", "Check it.\n".toList)]

/-- Both programs get through, and what they hash is the same. -/
def alike {α : Type} (a b : Option (Loaded α)) : Bool :=
  match a, b with
  | some a, some b => decide (a.hashed = b.hashed)
  | _, _ => false

lemma of_alike {α : Type} {a b : Option (Loaded α)} (h : alike a b = true) :
    ∃ x y, a = some x ∧ b = some y ∧ x.hashed = y.hashed := by
  unfold alike at h
  split at h
  · exact ⟨_, _, rfl, rfl, of_decide_eq_true h⟩
  · cases h

/-- A workflow and a pod, each loaded from two places. -/
theorem digest_identifies_sample :
    (∃ a b, Exec env (loadWorkflow sampleEngine "solo" "/cli") () (.ret a) () ∧
      Exec env (loadWorkflow sampleEngine "solo" "/image") () (.ret b) () ∧
      a.raw = b.raw ∧ a.template = b.template ∧ a.prompts = b.prompts) ∧
    ∃ a b, Exec env (loadPodTemplate sampleEngine Contract.plainLib "pod" "/cli") () (.ret a) () ∧
      Exec env (loadPodTemplate sampleEngine Contract.plainLib "pod" "/image") () (.ret b) () ∧
      a.raw = b.raw ∧ a.template = b.template ∧ a.prompts = b.prompts := by
  have hworkflow : alike (loaded (sampleFiles "/cli") (loadWorkflow sampleEngine "solo" "/cli"))
      (loaded (sampleFiles "/image") (loadWorkflow sampleEngine "solo" "/image")) = true := by
    decide +kernel
  have hpod : alike
      (loaded (sampleFiles "/cli") (loadPodTemplate sampleEngine Contract.plainLib "pod" "/cli"))
      (loaded (sampleFiles "/image")
        (loadPodTemplate sampleEngine Contract.plainLib "pod" "/image")) = true := by
    decide +kernel
  obtain ⟨a, b, ha, hb, hab⟩ := of_alike hworkflow
  obtain ⟨c, d, hc, hd, hcd⟩ := of_alike hpod
  obtain ⟨ofWorkflow, ofPod⟩ := digest_identifies sampleEngine Contract.plainLib
  exact ⟨⟨a, b, exec_of_loaded ha, exec_of_loaded hb,
      ofWorkflow _ _ _ _ a b (exec_of_loaded ha) (exec_of_loaded hb) hab⟩,
    c, d, exec_of_loaded hc, exec_of_loaded hd,
      ofPod _ _ _ _ c d (exec_of_loaded hc) (exec_of_loaded hd) hcd⟩

end Bimo.Templates
