import Bimo.Ownership

/-!
What the container runtime asks of an agent execution before it creates anything.

The ids, the role, the access, the prompt and the timeout are checked, then the directories that
are mounted to be written, and last the source of every mount. The state of the file system is
looked at in between, which is no question of the arguments and is left out.

A path is the list of its components, from the root on.
-/

namespace Bimo.Docker

open Wire (Json bytes)
open PodStore (require require_eq isRunId)
open Contract (isName isBlank segments isPortable controlPath inside)

/-- The letters, digits and dashes of an id. -/
def isIdChar (c : Char) : Bool := c.isLower || c.isDigit || c == '-'

def isExecutionId (s : String) : Bool :=
  match s.toList with
  | [] => false
  | c :: cs => (c.isLower || c.isDigit) && cs.all isIdChar && decide (cs.length ≤ 63)

/-! ### Paths -/

abbrev Path := List String

/-- One more component: an empty one or a dot changes nothing, two dots take one away. -/
def step (p : Path) (part : String) : Path :=
  if part = "" ∨ part = "." then p else if part = ".." then p.dropLast else p ++ [part]

def join (p : Path) (parts : List String) : Path := parts.foldl step p

def resolve (p : Path) : Path := join [] p

def basename (p : Path) : String := p.getLastD ""

def isUnsafeChar (c : Char) : Bool := c == ',' || c == '\n'

def isUnsafe (p : Path) : Bool := p.any fun part => part.toList.any isUnsafeChar

/-- The components that a relative path is split into. -/
def partsOf (relative : String) : List String := (segments relative).map String.ofList

/-- The check of the source of a mount. -/
def bind (source : Path) : Except String Unit :=
  require (isUnsafe source = false) "unsafe bind mount source"

/-! ### Mounts -/

structure Mount where
  source : Path
  target : String

structure WorkspaceMounts where
  rootReadOnly : Bool
  maskGit : Bool
  mounts : List Mount

/-- The directories that are mounted to be written, after those that were already taken. -/
def mountsFrom (workspaceHost : Path) :
    List String → List (Json × Path) → Except String (List Mount)
  | _, [] => .ok []
  | relatives, (v, source) :: l =>
    match v with
    | .str relative => do
      require (1 ≤ relative.length ∧ relative.length ≤ 240 ∧
        (segments relative).all (fun w => w != [] && w.all isPortable) = true)
        "invalid writable workspace directory"
      require ("." ∉ partsOf relative ∧ ".." ∉ partsOf relative ∧ controlPath relative = false)
        "invalid writable workspace directory"
      let expectedSource := join workspaceHost (partsOf relative)
      require (resolve source = expectedSource) "invalid writable workspace directory"
      require (∀ existing ∈ relatives, relative ≠ existing ∧ inside existing relative = false ∧
        inside relative existing = false) "overlapping writable workspace directories"
      let mounts ← mountsFrom workspaceHost (relatives ++ [relative]) l
      pure ({ source := expectedSource, target := "/workspace/" ++ relative } :: mounts)
    | _ => .error "invalid writable workspace directory"

def writableWorkspaceMounts (workspaceHost : Path) (access : String)
    (writeMounts : Option (List (Json × Path))) : Except String WorkspaceMounts :=
  match writeMounts with
  | none => .ok { rootReadOnly := decide (access ≠ "write"), maskGit := false, mounts := [] }
  | some l => do
    require (l.length ≤ 32) "invalid writable workspace directories"
    require (access = "write" ↔ 0 < l.length)
      "writable workspace directories do not match access"
    let mounts ← mountsFrom workspaceHost [] l
    pure { rootReadOnly := true, maskGit := true, mounts := mounts }

/-! ### The root of a deployment -/

def pathText (p : Path) : String := "/" ++ "/".intercalate p

/-- An absolute path by its components. -/
def pathOf (s : String) : Path := resolve (partsOf s)

def isAbsolute (s : String) : Bool := ['/'].isPrefixOf s.toList

/-- An absolute path with its dots taken out: a slash at its end stays. -/
def normalize (s : String) : String :=
  pathText (pathOf s) ++ if pathOf s ≠ [] ∧ ['/'].isSuffixOf s.toList = true then "/" else ""

def isLineChar (c : Char) : Bool := c == '\x00' || c == '\r' || c == '\n'

/-- What is asked of a home and of the root of a deployment alike. -/
def isCanonical (s : String) : Bool :=
  decide (Wire.utf16Length s ≤ 4096) && isAbsolute s && normalize s == s &&
    !s.toList.any isLineChar

def remoteRoot : String := "/var/lib/bimo/deployments"

def localRootParts : List String := [".local", "share", "bimo", "deployments"]

def validateLocalHome (home : String) : Except String String := do
  require (isCanonical home) "local home directory must be canonical and absolute"
  pure home

/-- The root of a deployment below a home. -/
def deploymentRootForTarget (home deployment : String) : Except String String := do
  let home ← validateLocalHome home
  pure (pathText (join (pathOf home) (localRootParts ++ [deployment])))

def isDeploymentHostRoot (hostRoot deployment : String) (localHome : Option String) : Bool :=
  isName deployment && isCanonical hostRoot &&
    (hostRoot == remoteRoot ++ "/" ++ deployment || localHome.any fun home =>
      match deploymentRootForTarget home deployment with
      | .ok root => hostRoot == root
      | .error _ => false)

/-! ### Executions -/

/-- Where a runtime keeps its files. The root of the deployment is the text that was accepted when
the runtime was made. -/
structure Host where
  deployment : String
  localHome : Option String
  root : String
  stateRoot : Path
  accepted : isDeploymentHostRoot root deployment localHome = true
  state_canonical : resolve stateRoot = stateRoot

def Host.hostRoot (h : Host) : Path := pathOf h.root

/-- The arguments of an execution. -/
structure Execution where
  executionId : String
  role : String
  attempt : ℕ
  access : String
  prompt : List Char
  timeoutSeconds : ℕ
  runId : String
  workspaceId : Json
  writeDirectories : Json

/-- The sources of all that is mounted. -/
def agentCreateArgs (nameSuffix access : String) (workspaceHost handoffHost promptHost : Path)
    (writeMounts : List (Json × Path)) : Except String (List Path) := do
  require (isExecutionId nameSuffix) "invalid agent execution name"
  let m ← writableWorkspaceMounts workspaceHost access (some writeMounts)
  pure (workspaceHost :: (if m.maskGit then [["dev", "null"]] else []) ++
    m.mounts.map (·.source) ++ [handoffHost, promptHost])

def directoriesOf : Json → Except String (List Json)
  | .arr l => .ok l
  | _ => .error "invalid writable workspace directories"

/-- The directories as they are handed on, each with the source it is mounted from. -/
def writeMountsOf (workspaceHost : Path) (directories : List Json) : List (Json × Path) :=
  directories.map fun v => (v, match v with
    | .str relative => join workspaceHost (partsOf relative)
    | _ => [])

/-- The checks of an execution, up to the sources of its mounts. -/
def runAgentExecution (h : Host) (e : Execution) : Except String (List Path) := do
  require (isExecutionId e.executionId) "invalid agent execution ID"
  require (1 ≤ e.attempt ∧ e.attempt ≤ 999) "invalid agent execution attempt"
  require (isRunId e.runId) "invalid agent run ID"
  let workspaceId ← Contract.assertForm isExecutionId e.workspaceId "invalid agent workspace ID"
  let directories ← directoriesOf e.writeDirectories
  let workspaceHost := join h.hostRoot ["worktrees", e.runId, workspaceId]
  require (isName e.role) "invalid agent role"
  require (e.access = "read" ∨ e.access = "write") "invalid agent workspace access"
  require (e.prompt.all isBlank = false ∧ bytes e.prompt ≤ 256 * 1024) "invalid agent prompt"
  require (10 ≤ e.timeoutSeconds ∧ e.timeoutSeconds ≤ 1800) "invalid agent timeout"
  let runDir := join h.stateRoot [e.runId]
  let runName := basename runDir
  require (isRunId runName) "invalid agent run directory"
  require (resolve runDir = join h.stateRoot [runName]) "agent run directory must match state root"
  let attemptName := e.executionId ++ "-" ++ toString e.attempt
  let hostAttempt := join h.hostRoot ["runs", runName, "attempts", attemptName]
  agentCreateArgs e.executionId e.access workspaceHost (join hostAttempt ["handoff"])
    (join hostAttempt ["instructions.md"]) (writeMountsOf workspaceHost directories)

/-- The mounts are rendered: the checks pass, and no source is refused. -/
def renders (h : Host) (e : Execution) : Except String Unit := do
  let sources ← runAgentExecution h e
  sources.forM bind

/-! ### Components -/

/-- A component that is kept where it stands. -/
def IsPart (s : String) : Prop := s ≠ "" ∧ s ≠ "." ∧ s ≠ ".."

instance (s : String) : Decidable (IsPart s) := inferInstanceAs (Decidable (_ ∧ _))

def IsSafe (s : String) : Prop := s.toList.any isUnsafeChar = false

instance (s : String) : Decidable (IsSafe s) := inferInstanceAs (Decidable (_ = _))

lemma join_eq {p parts : Path} (h : ∀ s ∈ parts, IsPart s) : join p parts = p ++ parts := by
  induction parts generalizing p with
  | nil => simp [join]
  | cons s parts ih =>
      obtain ⟨hempty, hdot, hdots⟩ := h s List.mem_cons_self
      have hstep : step p s = p ++ [s] := by
        rw [step, if_neg (by simp [hempty, hdot]), if_neg hdots]
      rw [join, List.foldl_cons, hstep]
      have hrest := ih (p := p ++ [s]) fun s hs => h s (List.mem_cons_of_mem _ hs)
      rw [join] at hrest
      rw [hrest, List.append_assoc, List.singleton_append]

/-- A canonical path and components that are kept make a canonical path. -/
lemma resolve_append {p parts : Path} (hp : resolve p = p) (h : ∀ s ∈ parts, IsPart s) :
    resolve (p ++ parts) = p ++ parts := by
  have hfold : resolve (p ++ parts) = join (resolve p) parts := List.foldl_append ..
  rw [hfold, hp, join_eq h]

/-- What dots and empty components leave is kept where it stands. -/
lemma isPart_of_mem_join {p parts : Path} (hp : ∀ s ∈ p, IsPart s) :
    ∀ s ∈ join p parts, IsPart s := by
  induction parts generalizing p with
  | nil => exact hp
  | cons part parts ih =>
      refine ih fun s hs => ?_
      unfold step at hs
      split_ifs at hs with hsame hup
      · exact hp s hs
      · exact hp s (List.mem_of_mem_dropLast hs)
      · rcases List.mem_append.mp hs with hs | hs
        · exact hp s hs
        · rw [List.mem_singleton.mp hs]
          exact ⟨fun h => hsame (.inl h), fun h => hsame (.inr h), hup⟩

lemma Host.host_canonical (h : Host) : resolve h.hostRoot = h.hostRoot :=
  join_eq (isPart_of_mem_join (fun _ hs => absurd hs List.not_mem_nil))

lemma isUnsafe_append {p parts : Path} (h : ∀ s ∈ parts, IsSafe s) :
    isUnsafe (p ++ parts) = isUnsafe p := by
  have hparts : parts.any (fun part => part.toList.any isUnsafeChar) = false :=
    List.any_eq_false.mpr fun s hs => Bool.not_eq_true _ ▸ h s hs
  rw [isUnsafe, List.any_append, hparts, Bool.or_false, isUnsafe]

/-- A component all of whose characters are of a kind that has no separators of mounts. -/
lemma isSafe_of_all {s : String} {P : Char → Bool} (h : s.toList.all P = true)
    (hcomma : P ',' = false) (hline : P '\n' = false) : IsSafe s := by
  refine List.any_eq_false.mpr fun c hc => ?_
  have hP := List.all_eq_true.mp h c hc
  simp only [isUnsafeChar, Bool.or_eq_true, beq_iff_eq, not_or]
  refine ⟨?_, ?_⟩
  · rintro rfl
    rw [hcomma] at hP
    cases hP
  · rintro rfl
    rw [hline] at hP
    cases hP

/-- A name that starts with a letter or a digit is a component that is kept. -/
lemma isPart_of_cons {s : String} {c : Char} {cs : List Char} (h : s.toList = c :: cs)
    (hc : c ≠ '.') : IsPart s := by
  refine ⟨?_, ?_, ?_⟩
  · rintro rfl
    cases h
  · rintro rfl
    exact hc (List.cons.inj h).1.symm
  · rintro rfl
    exact hc (List.cons.inj h).1.symm

lemma of_isExecutionId {s : String} (h : isExecutionId s = true) : IsPart s ∧ IsSafe s := by
  unfold isExecutionId at h
  split at h
  · cases h
  · rename_i c cs hs
    simp only [Bool.and_eq_true] at h
    refine ⟨isPart_of_cons hs ?_, isSafe_of_all (P := isIdChar) ?_ (by decide) (by decide)⟩
    · rintro rfl
      exact absurd h.1.1 (by decide)
    · rw [hs, List.all_cons, h.1.2, Bool.and_true, isIdChar, h.1.1, Bool.true_or]

lemma of_isRunId {s : String} (h : isRunId s = true) : IsPart s ∧ IsSafe s := by
  unfold isRunId at h
  split at h
  · cases h
  · rename_i c cs hs
    simp only [Bool.and_eq_true] at h
    refine ⟨isPart_of_cons hs ?_, isSafe_of_all (P := isPortable) ?_ (by decide) (by decide)⟩
    · rintro rfl
      exact absurd h.1.1 (by decide)
    · rw [hs, List.all_cons, Bool.and_eq_true]
      refine ⟨?_, h.1.2⟩
      simp only [isPortable, h.1.1, Bool.true_or]

lemma all_digits (n : ℕ) : (toString n).toList.all Char.isDigit = true := by
  rw [List.all_eq_true]
  intro c hc
  rw [Nat.toString_eq_repr, Nat.toList_repr] at hc
  exact Nat.isDigit_of_mem_toDigits (by decide) (by decide) hc

/-- The name of an attempt of an execution. -/
lemma of_attemptName {s : String} (h : isExecutionId s = true) (n : ℕ) :
    IsPart (s ++ "-" ++ toString n) ∧ IsSafe (s ++ "-" ++ toString n) := by
  have hsafe := (of_isExecutionId h).2
  unfold isExecutionId at h
  split at h
  · cases h
  · rename_i c cs hs
    simp only [Bool.and_eq_true] at h
    have hlist : (s ++ "-" ++ toString n).toList = s.toList ++ '-' :: (toString n).toList := by
      simp [String.toList_append]
    have hcons : (s ++ "-" ++ toString n).toList = c :: (cs ++ '-' :: (toString n).toList) := by
      rw [hlist, hs, List.cons_append]
    refine ⟨isPart_of_cons hcons ?_, ?_⟩
    · rintro rfl
      exact absurd h.1.1 (by decide)
    · rw [IsSafe, hlist, List.any_append, hsafe, List.any_cons]
      have hdigits : IsSafe (toString n) :=
        isSafe_of_all (P := Char.isDigit) (all_digits n) (by decide) (by decide)
      rw [hdigits]
      decide

/-! ### Ids -/

lemma length_digits {n k : ℕ} (hk : 0 < k) (h : n < 10 ^ k) : (toString n).length ≤ k := by
  rw [← String.length_toList, Nat.toString_eq_repr, Nat.toList_repr]
  exact (Nat.length_toDigits_le_iff (by decide) hk).mpr h

lemma all_isIdChar_of_digits {cs : List Char} (h : cs.all Char.isDigit = true) :
    cs.all isIdChar = true := by
  rw [List.all_eq_true] at h ⊢
  intro c hc
  simp only [isIdChar, h c hc, Bool.or_true, Bool.true_or]

/-- An id that is made longer is one, as long as it is not too long. -/
lemma isExecutionId_append {a b : String} (ha : isExecutionId a = true)
    (hb : b.toList.all isIdChar = true) (hlen : a.length + b.length ≤ 64) :
    isExecutionId (a ++ b) = true := by
  unfold isExecutionId at ha ⊢
  split at ha
  · cases ha
  · rename_i c cs hcs
    simp only [Bool.and_eq_true, decide_eq_true_eq] at ha
    rw [← String.length_toList, ← String.length_toList, hcs, List.length_cons] at hlen
    rw [String.toList_append, hcs, List.cons_append]
    simp only [Bool.and_eq_true, decide_eq_true_eq, List.all_append, List.length_append]
    exact ⟨⟨ha.1.1, ha.1.2, hb⟩, by omega⟩

/-- An id that has the number of an attempt in it. -/
lemma isExecutionId_attempt {head tail : String} {n : ℕ} (hn : n ≤ 10)
    (hhead : isExecutionId head = true) (htail : tail.toList.all isIdChar = true)
    (hlen : head.length + tail.length ≤ 62) :
    isExecutionId (head ++ toString n ++ tail) = true := by
  have hdigits : (toString n).length ≤ 2 := length_digits (by decide) (by omega)
  refine isExecutionId_append (isExecutionId_append hhead
    (all_isIdChar_of_digits (all_digits n)) (by omega)) htail ?_
  rw [String.length_append]
  omega

/-! ### Directories -/

/-- A directory of a repository, as plans have them. -/
structure IsDirectory (d : String) : Prop where
  canonical : Contract.canonical d = true
  portable : Contract.portable d = true
  free : controlPath d = false

lemma length_le_bytes (cs : List Char) : cs.length ≤ bytes cs := by
  induction cs with
  | nil => simp
  | cons c cs ih =>
      have := Char.utf8Size_pos c
      rw [List.length_cons, Wire.bytes_cons]
      omega

lemma IsDirectory.part {d : String} (h : IsDirectory d) :
    ∀ s ∈ partsOf d, IsPart s ∧ IsSafe s := by
  intro s hs
  obtain ⟨w, hw, rfl⟩ := List.mem_map.mp hs
  have hcanonical := h.canonical
  have hportable := h.portable
  simp only [Contract.canonical, Bool.and_eq_true, List.all_eq_true, bne_iff_ne] at hcanonical
  simp only [Contract.portable, Bool.and_eq_true, List.all_eq_true (l := segments d)] at hportable
  obtain ⟨⟨hempty, hdot⟩, hdots⟩ := hcanonical.2 w hw
  have hne (t : String) (ht : w ≠ t.toList) : String.ofList w ≠ t := by
    rintro rfl
    exact ht String.toList_ofList.symm
  refine ⟨⟨hne "" hempty, hne "." hdot, hne ".." hdots⟩, ?_⟩
  refine isSafe_of_all (P := isPortable) ?_ (by decide) (by decide)
  rw [String.toList_ofList]
  exact (hportable.2 w hw).2

lemma IsDirectory.length {d : String} (h : IsDirectory d) : 1 ≤ d.length ∧ d.length ≤ 240 := by
  have hportable := h.portable
  simp only [Contract.portable, Bool.and_eq_true, decide_eq_true_eq] at hportable
  refine ⟨?_, ?_⟩
  · rcases Nat.eq_zero_or_pos d.length with hzero | hpos
    · have hnil : d.toList = [] := by
        rw [← List.length_eq_zero_iff, String.length_toList, hzero]
      have hcanonical := h.canonical
      simp [Contract.canonical, segments, hnil] at hcanonical
    · exact hpos
  · rw [← String.length_toList]
    exact (length_le_bytes _).trans hportable.1

/-- The directories of an execution are mounted, each from its own place. -/
lemma mountsFrom_eq {workspaceHost : Path} (hhost : resolve workspaceHost = workspaceHost)
    {dirs : List String} (relatives : List String) (hform : ∀ d ∈ dirs, IsDirectory d)
    (hapart : (relatives ++ dirs).Pairwise fun a b =>
      a ≠ b ∧ inside a b = false ∧ inside b a = false) :
    ∃ mounts, mountsFrom workspaceHost relatives (writeMountsOf workspaceHost (dirs.map .str)) =
        .ok mounts ∧
      mounts.map (·.source) = dirs.map fun d => workspaceHost ++ partsOf d := by
  induction dirs generalizing relatives with
  | nil => exact ⟨[], rfl, rfl⟩
  | cons d dirs ih =>
      have hd := hform d List.mem_cons_self
      have hparts : ∀ s ∈ partsOf d, IsPart s := fun s hs => (hd.part s hs).1
      have hmiddle : relatives ++ d :: dirs = relatives ++ [d] ++ dirs := by simp
      rw [hmiddle] at hapart
      obtain ⟨mounts, hmounts, hsources⟩ := ih (relatives ++ [d])
        (fun d hd => hform d (List.mem_cons_of_mem _ hd)) hapart
      have hsource : join workspaceHost (partsOf d) = workspaceHost ++ partsOf d := join_eq hparts
      have hresolved :
          resolve (join workspaceHost (partsOf d)) = join workspaceHost (partsOf d) := by
        rw [hsource, resolve_append hhost hparts]
      refine ⟨⟨join workspaceHost (partsOf d), "/workspace/" ++ d⟩ :: mounts, ?_,
        by simp [hsources, hsource]⟩
      have hportable := hd.portable
      simp only [Contract.portable, Bool.and_eq_true, decide_eq_true_eq] at hportable
      have hnone : "." ∉ partsOf d ∧ ".." ∉ partsOf d ∧ controlPath d = false :=
        ⟨fun hmem => (hparts _ hmem).2.1 rfl, fun hmem => (hparts _ hmem).2.2 rfl, hd.free⟩
      have hfree : ∀ existing ∈ relatives, d ≠ existing ∧ inside existing d = false ∧
          inside d existing = false := by
        intro existing hmem
        rw [List.append_assoc, List.pairwise_append] at hapart
        obtain ⟨hne, hin, hout⟩ := hapart.2.2 existing hmem d (by simp)
        exact ⟨hne.symm, hin, hout⟩
      rw [List.map_cons, writeMountsOf, List.map_cons, mountsFrom]
      dsimp only
      refine bind_eq_ok.mpr ⟨(), require_eq.mpr ⟨hd.length.1, hd.length.2, hportable.2⟩, ?_⟩
      refine bind_eq_ok.mpr ⟨(), require_eq.mpr hnone, ?_⟩
      refine bind_eq_ok.mpr ⟨(), require_eq.mpr hresolved, ?_⟩
      refine bind_eq_ok.mpr ⟨(), require_eq.mpr hfree, ?_⟩
      exact bind_eq_ok.mpr ⟨mounts, hmounts, rfl⟩

/-! ### Executions that are taken -/

/-- What an execution has to be like, for this workspace and these directories. -/
structure Proper (e : Execution) (workspace : String) (dirs : List String) : Prop where
  id : isExecutionId e.executionId = true
  attempt : 1 ≤ e.attempt ∧ e.attempt ≤ 999
  run : isRunId e.runId = true
  workspaceId : e.workspaceId = .str workspace
  workspace : isExecutionId workspace = true
  role : isName e.role = true
  access : e.access = "write" ∧ dirs ≠ [] ∨ e.access = "read" ∧ dirs = []
  prompt : e.prompt.all isBlank = false ∧ bytes e.prompt ≤ 256 * 1024
  timeout : 10 ≤ e.timeoutSeconds ∧ e.timeoutSeconds ≤ 1800
  directories : e.writeDirectories = .arr (dirs.map .str)
  few : dirs.length ≤ 32
  form : ∀ d ∈ dirs, IsDirectory d
  apart : dirs.Pairwise fun a b => a ≠ b ∧ inside a b = false ∧ inside b a = false

/-- The places of an execution on the host. -/
def placesOf (h : Host) (e : Execution) (workspace : String) (dirs : List String) : List Path :=
  let workspaceHost := h.hostRoot ++ ["worktrees", e.runId, workspace]
  let attempt := h.hostRoot ++
    ["runs", e.runId, "attempts", e.executionId ++ "-" ++ toString e.attempt]
  workspaceHost :: ["dev", "null"] :: dirs.map (workspaceHost ++ partsOf ·) ++
    [attempt ++ ["handoff"], attempt ++ ["instructions.md"]]

/-- Such an execution passes every check. -/
lemma Proper.taken {e : Execution} {workspace : String} {dirs : List String}
    (he : Proper e workspace dirs) (h : Host) :
    runAgentExecution h e = .ok (placesOf h e workspace dirs) := by
  have hrun := (of_isRunId he.run).1
  have hwork : ∀ s ∈ ["worktrees", e.runId, workspace], IsPart s := by
    simp only [List.forall_mem_cons, List.not_mem_nil, false_imp_iff, implies_true, and_true]
    exact ⟨by decide, hrun, (of_isExecutionId he.workspace).1⟩
  have hattempt : ∀ s ∈ ["runs", e.runId, "attempts", e.executionId ++ "-" ++ toString e.attempt],
      IsPart s := by
    simp only [List.forall_mem_cons, List.not_mem_nil, false_imp_iff, implies_true, and_true]
    exact ⟨by decide, hrun, by decide,
      (of_attemptName he.id e.attempt).1⟩
  have hstate : ∀ s ∈ [e.runId], IsPart s := by simpa using hrun
  have hbase : basename (h.stateRoot ++ [e.runId]) = e.runId := by simp [basename]
  have hhandoff : ∀ s ∈ ["handoff"], IsPart s := by decide
  have hprompt : ∀ s ∈ ["instructions.md"], IsPart s := by decide
  obtain ⟨mounts, hmounts, hsources⟩ := mountsFrom_eq (resolve_append h.host_canonical hwork) []
    he.form he.apart
  have hcount : e.access = "write" ↔ 0 < (dirs.map Json.str).length := by
    rcases he.access with ⟨ha, hd⟩ | ⟨ha, rfl⟩
    · simp [ha, List.length_pos_iff, hd]
    · simp [ha]
  unfold runAgentExecution
  refine bind_eq_ok.mpr ⟨(), require_eq.mpr he.id, ?_⟩
  refine bind_eq_ok.mpr ⟨(), require_eq.mpr he.attempt, ?_⟩
  refine bind_eq_ok.mpr ⟨(), require_eq.mpr he.run, ?_⟩
  refine bind_eq_ok.mpr ⟨workspace, ?_, ?_⟩
  · rw [he.workspaceId]
    exact bind_eq_ok.mpr ⟨(), require_eq.mpr he.workspace, rfl⟩
  refine bind_eq_ok.mpr ⟨dirs.map Json.str, by rw [he.directories, directoriesOf], ?_⟩
  refine bind_eq_ok.mpr ⟨(), require_eq.mpr he.role, ?_⟩
  refine bind_eq_ok.mpr ⟨(), require_eq.mpr ?_, ?_⟩
  · exact he.access.elim (fun ha => .inr ha.1) fun ha => .inl ha.1
  refine bind_eq_ok.mpr ⟨(), require_eq.mpr he.prompt, ?_⟩
  refine bind_eq_ok.mpr ⟨(), require_eq.mpr he.timeout, ?_⟩
  simp only [join_eq hwork, join_eq hstate, hbase, join_eq hattempt, join_eq hhandoff,
    join_eq hprompt]
  refine bind_eq_ok.mpr ⟨(), require_eq.mpr he.run, ?_⟩
  refine bind_eq_ok.mpr ⟨(), require_eq.mpr (resolve_append h.state_canonical hstate), ?_⟩
  refine bind_eq_ok.mpr ⟨(), require_eq.mpr he.id, ?_⟩
  refine bind_eq_ok.mpr ⟨⟨true, true, mounts⟩, ?_, ?_⟩
  · refine bind_eq_ok.mpr ⟨(), require_eq.mpr ?_, ?_⟩
    · simpa [writeMountsOf] using he.few
    refine bind_eq_ok.mpr ⟨(), require_eq.mpr (by simpa [writeMountsOf] using hcount), ?_⟩
    exact bind_eq_ok.mpr ⟨mounts, hmounts, rfl⟩
  · rw [placesOf, ← hsources]
    rfl

lemma forM_bind {l : List Path} (h : ∀ p ∈ l, isUnsafe p = false) : l.forM bind = .ok () := by
  induction l with
  | nil => rfl
  | cons p l ih =>
      refine bind_eq_ok.mpr ⟨(), require_eq.mpr (h p List.mem_cons_self), ?_⟩
      exact ih fun p hp => h p (List.mem_cons_of_mem _ hp)

lemma bind_of_isUnsafe {p : Path} (h : isUnsafe p = true) :
    bind p = .error "unsafe bind mount source" := by
  rw [bind, h]
  rfl

/-- The sources of the mounts are refused when the root of the deployment is, and only then. -/
lemma Proper.renders {e : Execution} {workspace : String} {dirs : List String}
    (he : Proper e workspace dirs) (h : Host) : renders h e = bind h.hostRoot := by
  have hrun := (of_isRunId he.run).2
  have hwork : ∀ s ∈ ["worktrees", e.runId, workspace], IsSafe s := by
    simp only [List.forall_mem_cons, List.not_mem_nil, false_imp_iff, implies_true, and_true]
    exact ⟨by decide, hrun, (of_isExecutionId he.workspace).2⟩
  have hattempt (last : String) (hlast : IsSafe last) : ∀ s ∈ ["runs", e.runId, "attempts",
      e.executionId ++ "-" ++ toString e.attempt] ++ [last], IsSafe s := by
    simp only [List.cons_append, List.nil_append, List.forall_mem_cons, List.not_mem_nil,
      false_imp_iff, implies_true, and_true]
    exact ⟨by decide, hrun, by decide, (of_attemptName he.id e.attempt).2, hlast⟩
  cases hroot : isUnsafe h.hostRoot with
  | true =>
      -- the workspace is mounted first
      obtain ⟨rest, hplaces⟩ : ∃ rest, placesOf h e workspace dirs =
        (h.hostRoot ++ ["worktrees", e.runId, workspace]) :: rest := ⟨_, rfl⟩
      rw [Docker.renders, he.taken h, hplaces, bind_of_isUnsafe hroot]
      change (bind _ >>= fun _ => rest.forM bind) = _
      rw [bind_of_isUnsafe ((isUnsafe_append hwork).trans hroot)]
      rfl
  | false =>
      have hok : bind h.hostRoot = .ok () := require_eq.mpr hroot
      rw [hok]
      refine bind_eq_ok.mpr ⟨_, he.taken h, forM_bind fun p hp => ?_⟩
      simp only [placesOf, List.cons_append, List.mem_cons, List.mem_append, List.mem_map,
        List.not_mem_nil, or_false] at hp
      rcases hp with rfl | rfl | ⟨d, hd, rfl⟩ | rfl | rfl
      · rw [isUnsafe_append hwork, hroot]
      · decide
      · rw [isUnsafe_append fun s hs => ((he.form d hd).part s hs).2, isUnsafe_append hwork, hroot]
      · rw [List.append_assoc, isUnsafe_append (hattempt "handoff" (by decide)), hroot]
      · rw [List.append_assoc, isUnsafe_append (hattempt "instructions.md" (by decide)), hroot]

/-! ### Roots that can be mounted -/

lemma mem_pathText {p : Path} {c : Char} (hc : c ≠ '/') :
    c ∈ (pathText p).toList ↔ ∃ s ∈ p, c ∈ s.toList := by
  have hsep : "/".toList = ['/'] := rfl
  rw [pathText, String.toList_append, String.toList_intercalate, hsep, List.mem_append,
    List.mem_singleton, or_iff_right hc]
  induction p with
  | nil => simp
  | cons s p ih =>
      cases p with
      | nil => simp
      | cons s' p =>
          rw [List.map_cons, List.map_cons, List.intercalate_cons_cons, List.mem_append,
            List.mem_append, List.mem_singleton, or_iff_left hc]
          exact (or_congr_right ih).trans
            (List.exists_mem_cons_iff (c ∈ ·.toList) s (s' :: p)).symm

lemma mem_normalize {s : String} {c : Char} (hc : c ≠ '/') :
    c ∈ (normalize s).toList ↔ ∃ part ∈ pathOf s, c ∈ part.toList := by
  rw [← mem_pathText hc, normalize, String.toList_append, List.mem_append, or_iff_left]
  split_ifs
  · exact fun h => hc (List.mem_singleton.mp h)
  · exact fun h => absurd h List.not_mem_nil

/-- Of the roots that are accepted, those without a comma can be mounted. -/
lemma bind_hostRoot (h : Host) : bind h.hostRoot = .ok () ↔ ',' ∉ h.root.toList := by
  have haccepted := h.accepted
  simp only [isDeploymentHostRoot, isCanonical, Bool.and_eq_true, beq_iff_eq,
    Bool.not_eq_true'] at haccepted
  obtain ⟨⟨-, ⟨-, hnormal⟩, hline⟩, -⟩ := haccepted
  have hmem (c : Char) (hc : c ≠ '/') : c ∈ h.root.toList ↔ ∃ s ∈ h.hostRoot, c ∈ s.toList := by
    rw [← hnormal, mem_normalize hc]
    rfl
  have hnoLine : '\n' ∉ h.root.toList := fun hmem =>
    List.any_eq_false.mp hline _ hmem (by decide)
  rw [hmem _ (by decide)] at hnoLine
  rw [bind, require_eq, hmem _ (by decide), isUnsafe, List.any_eq_false]
  refine ⟨fun hsafe hcomma => ?_, fun hcomma s hs hbad => ?_⟩
  · obtain ⟨s, hs, hin⟩ := hcomma
    exact hsafe s hs (List.any_eq_true.mpr ⟨_, hin, by decide⟩)
  · obtain ⟨c, hin, hc⟩ := List.any_eq_true.mp hbad
    rcases Bool.or_eq_true_iff.mp hc with hc | hc
    · exact hcomma ⟨s, hs, beq_iff_eq.mp hc ▸ hin⟩
    · exact hnoLine ⟨s, hs, beq_iff_eq.mp hc ▸ hin⟩

end Bimo.Docker
