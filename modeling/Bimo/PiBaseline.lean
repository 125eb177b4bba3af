import Bimo.AgentExecution
import Bimo.Lossy

/-!
The baseline of Pi: which files are found, and which can be mounted.

The trusted tests and tooling of a base snapshot are looked for in fixed places, and each of them
is then mounted over the file of the candidate that has its name. Discovery and the renderer of
mounts have grammars of their own. What is discovered is told apart and lies where a baseline may
lie; the renderer takes less: no at sign, and no more than 240 characters.
-/

namespace Bimo.Pi

open Docker (isExecutionId isUnsafe)
open PodStore (require require_eq)
open Utf8 (lossy)

/-! ### Paths -/

/-- A path below the root, as a text. -/
abbrev Name := List Char

/-- `ROOT_FILES` -/
def rootFiles : List Name :=
  ["package.json".toList, "package-lock.json".toList, "tsconfig.json".toList,
    "eslint.config.mjs".toList, "quality-baseline.json".toList]

/-- `TREES` -/
def trees : List Name :=
  ["scripts".toList, "test".toList, "omp/test".toList, "extensions/otel-exporter/test".toList]

/-- `MIXED` -/
def mixed : List Name :=
  ["extensions/foundry-context".toList, "extensions/foundry-role".toList]

def isWordChar (c : Char) : Bool :=
  c.isLower || c.isUpper || c.isDigit || c == '_' || c == '.' || c == '-'

/-- `SAFE_PATH` -/
def isSafePath (name : Name) : Bool :=
  name != [] && name.all fun c => isWordChar c || c == '@' || c == '/'

def isSafePart (part : List Char) : Bool :=
  part != [] && part != ['.'] && part != ['.', '.'] && part != "node_modules".toList

def safeRelative (name : Name) : Bool :=
  isSafePath name && name.head? != some '/' && (name.splitOn '/').all isSafePart

def isBelow (directory name : Name) : Bool := (directory ++ ['/']).isPrefixOf name

def isTest (name : List Char) : Bool := ".test.ts".toList.isSuffixOf name

def isPiBaselinePath (name : Name) : Bool :=
  safeRelative name && (rootFiles.contains name || trees.any (isBelow · name) ||
    mixed.any fun directory => isBelow directory name &&
      !(name.drop (directory.length + 1)).contains '/' && isTest name)

/-! ### Discovery -/

inductive Kind
  | file
  | directory
  | symlink
  | other
  deriving DecidableEq

structure Stat where
  kind : Kind
  mode : ℕ
  nlink : ℕ
  size : ℕ

/-- A base snapshot, as it answers; the names that a directory is listed with are its own. -/
structure Base where
  lstat : Name → Option Stat
  readdir : Name → Option (List (List UInt8 × Kind))
  readFile : Name → Option (List UInt8)
  distinct : ∀ p l, readdir p = some l → (l.map Prod.fst).Nodup
  component : ∀ p l, readdir p = some l → ∀ e ∈ l, (47 : UInt8) ∉ e.1

/-- What the system answers, or its error. -/
def answered {α : Type} (x : Option α) : Except String α :=
  match x with
  | some a => .ok a
  | none => .error "ENOENT: no such file or directory"

/-- The paths that lead to a file, itself the last. -/
def pathsTo (name : Name) : List Name :=
  (List.range (name.splitOn '/').length).map fun k =>
    ['/'].intercalate ((name.splitOn '/').take (k + 1))

def checkedFile (base : Base) (name : Name) : Except String (List UInt8) := do
  require (safeRelative name) "Pi verifier contains an unsafe path"
  (pathsTo name).forM fun current => do
    let stat ← answered (base.lstat current)
    require (stat.kind ≠ .symlink ∧ stat.mode &&& 0o022 = 0)
      "Pi verifier contains unsafe filesystem metadata"
  let stat ← answered (base.lstat name)
  require (stat.kind = .file ∧ stat.nlink = 1 ∧ stat.size ≤ 10 * 1024 * 1024)
    "Pi verifier file is invalid"
  let content ← answered (base.readFile name)
  require (content.length = stat.size) "Pi verifier file changed during read"
  pure content

structure Found where
  files : List Name
  entriesSeen : ℕ

def entryName (relative : Name) (entry : List UInt8 × Kind) : Name :=
  relative ++ '/' :: lossy entry.1

/-- What an entry is taken for; `descend` visits a directory. -/
def takeEntry (descend : Name → Found → Except String Found) (name : Name) (kind : Kind)
    (s : Found) : Except String Found :=
  match kind with
  | .directory => descend name s
  | .file => .ok { s with files := s.files ++ [name] }
  | _ => .error "Pi verifier contains a non-regular entry"

def visitEntry (descend : Name → Found → Except String Found) (relative : Name) (s : Found)
    (entry : List UInt8 × Kind) : Except String Found := do
  require (s.entriesSeen + 1 ≤ 100000) "Pi verifier entry limit exceeded"
  let s := { s with entriesSeen := s.entriesSeen + 1 }
  let name := entryName relative entry
  require (safeRelative name ∧ entry.2 ≠ .symlink) "Pi verifier contains an unsafe path"
  let s ← takeEntry descend name entry.2 s
  require (s.files.length ≤ 500) "Pi verifier baseline file limit exceeded"
  pure s

/-- A directory, so many levels above the first that is too deep. -/
def visit (base : Base) : ℕ → Name → Found → Except String Found
  | 0, _, _ => .error "Pi verifier directory depth exceeded"
  | left + 1, relative, s => do
    let stat ← answered (base.lstat relative)
    require (stat.kind = .directory) "Pi verifier directory is invalid"
    let entries ← answered (base.readdir relative)
    entries.foldlM (visitEntry (visit base left) relative) s

def levels : ℕ := 65

/-- The tests of a directory that holds more than tests. -/
def visitMixed (base : Base) (s : Found) (directory : Name) : Except String Found := do
  let entries ← answered (base.readdir directory)
  require (entries.length ≤ 10000) "Pi verifier entry limit exceeded"
  pure { s with
    files := s.files ++ (entries.filter fun e => isTest (lossy e.1)).map (entryName directory) }

def sorted (files : List Name) : List Name :=
  files.insertionSort fun a b => a.map Char.toNat ≤ b.map Char.toNat

def discoverPiBaselineFiles (base : Base) : Except String (List Name) := do
  let s ← trees.foldlM (fun s directory => visit base levels directory s) ⟨rootFiles, 0⟩
  let s ← mixed.foldlM (visitMixed base) s
  require (s.files.length ≤ 500) "Pi verifier baseline file limit exceeded"
  s.files.forM fun name => do
    let _ ← checkedFile base name
    pure ()
  pure (sorted s.files)

/-! ### Mounts -/

/-- `/^[A-Za-z0-9._-]+(?:\/[A-Za-z0-9._-]+)*$/` -/
def isOverlayPath (relative : Name) : Bool :=
  (relative.splitOn '/').all fun part => part != [] && part.all isWordChar

/-- The parameters of the mounts, as far as they were given. -/
structure MountOptions where
  profile : String
  suite : String
  snapshotHost : Docker.Path
  baselineTestHost : Option Docker.Path := none
  baselineSnapshotHost : Option Docker.Path := none
  baselinePaths : Option (List Name) := none

/-- `bind(path.join(baselineSnapshotHost, relative), ...)` -/
def overlay (baselineSnapshotHost : Docker.Path) (relative : Name) : Docker.Mount where
  source := Docker.join baselineSnapshotHost ((relative.splitOn '/').map String.ofList)
  target := "/workspace/" ++ String.ofList relative

def overlayMount (snapshotHost baselineSnapshotHost : Docker.Path) (relative : Name) :
    Except String (List Docker.Mount) := do
  require (relative.length ≤ 240 ∧ isOverlayPath relative = true ∧
    (relative.splitOn '/').all (fun part => part != ['.'] && part != ['.', '.']) = true ∧
    isPiBaselinePath relative = true) "invalid Pi baseline overlay path"
  if baselineSnapshotHost = snapshotHost then pure []
  else
    Docker.bind (overlay baselineSnapshotHost relative).source
    pure [overlay baselineSnapshotHost relative]

def sourceBaselineMounts (o : MountOptions) : Except String (List Docker.Mount) :=
  if o.profile = "bimo-repo-v1" then do
    require (o.baselineSnapshotHost = none ∧ o.baselinePaths = none)
      "Bimo verification cannot accept Pi baseline mounts"
    if o.suite = "baseline" then
      match o.baselineTestHost with
      | none => .error "The \"paths[0]\" argument must be of type string"
      | some host =>
        Docker.bind (Docker.resolve host)
        pure [⟨Docker.resolve host, "/workspace/test"⟩]
    else pure []
  else if o.suite = "candidate" then pure []
  else do
    require (o.baselineTestHost = none) "Pi verification cannot mount a test directory"
    match o.baselineSnapshotHost with
    | none => .error "invalid Pi baseline snapshot path"
    | some host =>
      require (host.dropLast = o.snapshotHost.dropLast ∧ isExecutionId (Docker.basename host))
        "invalid Pi baseline snapshot path"
      match o.baselinePaths with
      | none => .error "invalid Pi baseline paths"
      | some paths =>
        require (1 ≤ paths.length ∧ paths.length ≤ 600 ∧ paths.Nodup)
          "invalid Pi baseline paths"
        let mounts ← paths.mapM (overlayMount o.snapshotHost host)
        pure mounts.flatten

/-- The directory of a source snapshot. -/
def snapshotHost (hostRoot : Docker.Path) (runId id : String) : Docker.Path :=
  Docker.join hostRoot ["snapshots", runId, id]

/-- What `verifySource` asks for when the baseline suite is run. -/
def baselineOptions (hostRoot : Docker.Path) (runId candidateId baseId : String)
    (paths : List Name) : MountOptions where
  profile := "pi-palantir-v1"
  suite := "baseline"
  snapshotHost := snapshotHost hostRoot runId candidateId
  baselineSnapshotHost := some (snapshotHost hostRoot runId baseId)
  baselinePaths := some paths

/-! ### What is found -/

/-- At a path or below it. -/
def Under (p f : Name) : Prop := p ++ ['/'] <+: f ++ ['/']

lemma under_refl (f : Name) : Under f f := List.prefix_refl _

lemma under_of_below {p f : Name} (h : p ++ ['/'] <+: f) : Under p f :=
  h.trans (List.prefix_append _ _)

/-- What is under an entry of a directory is below the directory. -/
lemma below_of_under {relative a f : Name} (h : Under (relative ++ '/' :: a) f) :
    relative ++ ['/'] <+: f := by
  have hpre : relative ++ ['/'] <+: f ++ ['/'] := by
    refine List.IsPrefix.trans ⟨a ++ ['/'], ?_⟩ h
    simp
  have hlen := h.length_le
  refine List.prefix_of_prefix_length_le hpre (List.prefix_append _ _) ?_
  simp only [List.length_append, List.length_cons, List.length_nil] at hlen ⊢
  omega

/-- Entries of one directory that something is under are one. -/
lemma component_of_under {relative a b f : Name} (ha : '/' ∉ a) (hb : '/' ∉ b)
    (hfa : Under (relative ++ '/' :: a) f) (hfb : Under (relative ++ '/' :: b) f) : a = b := by
  obtain ⟨r, hr⟩ := hfa
  obtain ⟨r', hr'⟩ := hfb
  have h : a ++ '/' :: r = b ++ '/' :: r' := by
    have := hr.trans hr'.symm
    simpa using this
  have hhead := congrArg (fun cs => (cs.splitOn '/').head?) h
  simpa [List.splitOn_append_cons_self_of_not_mem, ha, hb] using hhead

lemma slash_not_mem_lossy {n : List UInt8} (h : (47 : UInt8) ∉ n) : '/' ∉ lossy n := fun hmem =>
  h (Utf8.mem_of_mem_lossy (c := '/') (by decide) hmem)

lemma all_of_safeRelative {name : Name} (h : safeRelative name = true) :
    ∀ c ∈ name, isWordChar c = true ∨ c = '@' ∨ c = '/' := by
  intro c hc
  simp only [safeRelative, isSafePath, Bool.and_eq_true, List.all_eq_true, Bool.or_eq_true,
    beq_iff_eq] at h
  have := h.1.1.2 c hc
  tauto

/-- A name that is safe is a text. -/
lemma eq_encode_of_safe {relative : Name} {e : List UInt8 × Kind}
    (h : safeRelative (entryName relative e) = true) : e.1 = Utf8.encode (lossy e.1) := by
  refine Utf8.eq_encode_of_lossy fun hmem => ?_
  have hc := all_of_safeRelative h Utf8.replacement
    (List.mem_append_right _ (List.mem_cons_of_mem _ hmem))
  revert hc
  decide

lemma answered_eq_ok {α : Type} {x : Option α} {a : α} : answered x = .ok a ↔ x = some a := by
  cases x with
  | none => exact ⟨nofun, nofun⟩
  | some b =>
      exact ⟨fun h => congrArg some (Except.ok.inj h), fun h => congrArg _ (Option.some.inj h)⟩

/-- Files that were added, each once and each below one of the directories. -/
def Added (ds : List Name) (old new : List Name) : Prop :=
  ∃ added, new = old ++ added ∧ added.Nodup ∧ ∀ f ∈ added, ∃ d ∈ ds, d ++ ['/'] <+: f

/-- The files of the entries of one directory. -/
lemma visitEntries_added {descend : Name → Found → Except String Found} {relative : Name}
    (hdescend : ∀ p s s', descend p s = .ok s' → Added [p] s.files s'.files)
    {es : List (List UInt8 × Kind)} (hnodup : (es.map Prod.fst).Nodup)
    (hcomponent : ∀ e ∈ es, (47 : UInt8) ∉ e.1) {s s' : Found}
    (h : es.foldlM (visitEntry descend relative) s = .ok s') :
    ∃ added, s'.files = s.files ++ added ∧ added.Nodup ∧ ∀ f ∈ added, ∃ e ∈ es,
      safeRelative (entryName relative e) = true ∧ Under (entryName relative e) f := by
  induction es generalizing s with
  | nil =>
      obtain rfl := Except.ok.inj h
      exact ⟨[], by simp, List.nodup_nil, nofun⟩
  | cons e es ih =>
      rw [List.foldlM_cons] at h
      obtain ⟨s₁, hstep, hrest⟩ := bind_eq_ok.mp h
      rw [List.map_cons, List.nodup_cons] at hnodup
      obtain ⟨he, hcomponent⟩ := List.forall_mem_cons.mp hcomponent
      obtain ⟨-, -, hstep⟩ := bind_eq_ok.mp hstep
      obtain ⟨_, hsafe, hstep⟩ := bind_eq_ok.mp hstep
      obtain ⟨s₂, hvisit, hstep⟩ := bind_eq_ok.mp hstep
      obtain ⟨-, -, hstep⟩ := bind_eq_ok.mp hstep
      obtain rfl := Except.ok.inj hstep
      have hsafe := (require_eq.mp hsafe).1
      -- what this entry adds is under it
      obtain ⟨here, hhere, hnodup₁, hunder⟩ : ∃ here, s₂.files = s.files ++ here ∧ here.Nodup ∧
          ∀ f ∈ here, Under (entryName relative e) f := by
        unfold takeEntry at hvisit
        split at hvisit
        · obtain ⟨added, hadded, hnd, hbelow⟩ := hdescend _ _ _ hvisit
          refine ⟨added, hadded, hnd, fun f hf => ?_⟩
          obtain ⟨d, hd, hpre⟩ := hbelow f hf
          obtain rfl := List.mem_singleton.mp hd
          exact under_of_below hpre
        · obtain rfl := Except.ok.inj hvisit
          exact ⟨[entryName relative e], rfl, List.nodup_singleton _,
            fun f hf => List.mem_singleton.mp hf ▸ under_refl _⟩
        · cases hvisit
      obtain ⟨added, hadded, hnodup₂, hfiles⟩ := ih hnodup.2 hcomponent hrest
      refine ⟨here ++ added, by rw [hadded, hhere, List.append_assoc],
        List.nodup_append.mpr ⟨hnodup₁, hnodup₂, ?_⟩, fun f hf => ?_⟩
      · rintro f hf g hg rfl
        obtain ⟨e', he', hsafe', hunder'⟩ := hfiles f hg
        have hlossy := component_of_under (slash_not_mem_lossy he)
          (slash_not_mem_lossy (hcomponent e' he')) (hunder f hf) hunder'
        refine hnodup.1 (List.mem_map.mpr ⟨e', he', ?_⟩)
        rw [eq_encode_of_safe hsafe', eq_encode_of_safe hsafe, hlossy]
      · rcases List.mem_append.mp hf with hf | hf
        · exact ⟨e, List.mem_cons_self, hsafe, hunder f hf⟩
        · obtain ⟨e', he', hsafe', hunder'⟩ := hfiles f hf
          exact ⟨e', List.mem_cons_of_mem _ he', hsafe', hunder'⟩

/-- **A directory adds files below it, each once.** -/
lemma visit_added {base : Base} {left : ℕ} {relative : Name} {s s' : Found}
    (h : visit base left relative s = .ok s') : Added [relative] s.files s'.files := by
  induction left generalizing relative s s' with
  | zero => cases h
  | succ left ih =>
      obtain ⟨stat, -, h⟩ := bind_eq_ok.mp h
      obtain ⟨-, -, h⟩ := bind_eq_ok.mp h
      obtain ⟨entries, hentries, h⟩ := bind_eq_ok.mp h
      have hread := answered_eq_ok.mp hentries
      obtain ⟨added, hadded, hnodup, hfiles⟩ := visitEntries_added (fun _ _ _ h => ih h)
        (base.distinct _ _ hread) (base.component _ _ hread) h
      refine ⟨added, hadded, hnodup, fun f hf => ⟨relative, List.mem_cons_self, ?_⟩⟩
      obtain ⟨e, -, -, hunder⟩ := hfiles f hf
      exact below_of_under hunder

/-- Directories none of which is below another, or is another. -/
def Asunder (ds : List Name) : Prop :=
  ds.Pairwise fun d d' => ¬ d ++ ['/'] <+: d' ++ ['/'] ∧ ¬ d' ++ ['/'] <+: d ++ ['/']

/-- One directory after the other. -/
lemma places_added {step : Found → Name → Except String Found} {ds : List Name}
    (hds : Asunder ds) {s s' : Found}
    (hstep : ∀ d ∈ ds, ∀ s t, step s d = .ok t → (∃ more, s'.files = t.files ++ more) →
      Added [d] s.files t.files)
    (h : ds.foldlM step s = .ok s') : Added ds s.files s'.files := by
  induction ds generalizing s with
  | nil =>
      obtain rfl := Except.ok.inj h
      exact ⟨[], by simp, List.nodup_nil, nofun⟩
  | cons d ds ih =>
      rw [List.foldlM_cons] at h
      obtain ⟨t, ht, hrest⟩ := bind_eq_ok.mp h
      obtain ⟨happart, hds⟩ := List.pairwise_cons.mp hds
      obtain ⟨added, hadded, hnodup, hbelow⟩ :=
        ih hds (fun d' hd' => hstep d' (List.mem_cons_of_mem _ hd')) hrest
      obtain ⟨here, hhere, hnodup', hbelow'⟩ := hstep d List.mem_cons_self s t ht ⟨added, hadded⟩
      refine ⟨here ++ added, by rw [hadded, hhere, List.append_assoc],
        List.nodup_append.mpr ⟨hnodup', hnodup, ?_⟩, fun f hf => ?_⟩
      · rintro f hf g hg rfl
        obtain ⟨x, hx, hfd⟩ := hbelow' f hf
        obtain rfl := List.mem_singleton.mp hx
        obtain ⟨d', hd', hfd'⟩ := hbelow f hg
        rcases Nat.le_total (x ++ ['/']).length (d' ++ ['/']).length with hle | hle
        · exact (happart d' hd').1 (List.prefix_of_prefix_length_le hfd hfd' hle)
        · exact (happart d' hd').2 (List.prefix_of_prefix_length_le hfd' hfd hle)
      · rcases List.mem_append.mp hf with hf | hf
        · obtain ⟨x, hx, hfd⟩ := hbelow' f hf
          exact ⟨x, List.mem_singleton.mp hx ▸ List.mem_cons_self, hfd⟩
        · obtain ⟨d', hd', hfd'⟩ := hbelow f hf
          exact ⟨d', List.mem_cons_of_mem _ hd', hfd'⟩

/-- The tests of a mixed directory stand in it themselves. -/
lemma visitMixed_added {base : Base} {s t : Found} {d : Name}
    (h : visitMixed base s d = .ok t) : ∃ entries, base.readdir d = some entries ∧
      t.files = s.files ++ (entries.filter fun e => isTest (lossy e.1)).map (entryName d) := by
  obtain ⟨entries, hentries, h⟩ := bind_eq_ok.mp h
  obtain ⟨-, -, h⟩ := bind_eq_ok.mp h
  obtain rfl := Except.ok.inj h
  exact ⟨entries, answered_eq_ok.mp hentries, rfl⟩

/-- The tests of the mixed directories. -/
lemma mixed_files {base : Base} {ds : List Name} {s s' : Found}
    (h : ds.foldlM (visitMixed base) s = .ok s') : ∀ f ∈ s'.files, f ∈ s.files ∨
      ∃ d ∈ ds, ∃ n, f = d ++ '/' :: n ∧ '/' ∉ n ∧ isTest n = true := by
  induction ds generalizing s with
  | nil =>
      obtain rfl := Except.ok.inj h
      exact fun f hf => .inl hf
  | cons d ds ih =>
      rw [List.foldlM_cons] at h
      obtain ⟨t, ht, hrest⟩ := bind_eq_ok.mp h
      obtain ⟨entries, hentries, hfiles⟩ := visitMixed_added ht
      intro f hf
      rcases ih hrest f hf with hf | ⟨d', hd', hn⟩
      · rw [hfiles, List.mem_append] at hf
        refine hf.imp_right fun hf => ⟨d, List.mem_cons_self, ?_⟩
        obtain ⟨e, he, rfl⟩ := List.mem_map.mp hf
        obtain ⟨he, htest⟩ := List.mem_filter.mp he
        exact ⟨lossy e.1, rfl, slash_not_mem_lossy (base.component _ _ hentries e he), htest⟩
      · exact .inr ⟨d', List.mem_cons_of_mem _ hd', hn⟩

/-- Where all names are safe, a mixed directory adds each test once. -/
lemma visitMixed_nodup {base : Base} {s t : Found} {d : Name} (h : visitMixed base s d = .ok t)
    (hsafe : ∀ f ∈ t.files, safeRelative f = true) : Added [d] s.files t.files := by
  obtain ⟨entries, hentries, hfiles⟩ := visitMixed_added h
  refine ⟨_, hfiles, ?_, fun f hf => ?_⟩
  · have hsafe' : ∀ e ∈ entries.filter fun e => isTest (lossy e.1),
        safeRelative (entryName d e) = true := fun e he =>
      hsafe _ (hfiles ▸ List.mem_append_right _ (List.mem_map_of_mem he))
    have hnames := base.distinct _ _ hentries
    refine List.Nodup.map_on (fun a ha b hb hab => ?_) (hnames.of_map.filter _)
    have hlossy : lossy a.1 = lossy b.1 := by simpa [entryName] using hab
    refine List.inj_on_of_nodup_map hnames (List.mem_of_mem_filter ha)
      (List.mem_of_mem_filter hb) ?_
    rw [eq_encode_of_safe (hsafe' a ha), eq_encode_of_safe (hsafe' b hb), hlossy]
  · obtain ⟨e, -, rfl⟩ := List.mem_map.mp hf
    exact ⟨d, List.mem_cons_self, lossy e.1, by simp [entryName]⟩

lemma forM_eq_ok {α : Type} {f : α → Except String Unit} {l : List α} (h : l.forM f = .ok ()) :
    ∀ a ∈ l, f a = .ok () := by
  induction l with
  | nil => exact nofun
  | cons a l ih =>
      obtain ⟨_, ha, hrest⟩ := bind_eq_ok.mp h
      exact List.forall_mem_cons.mpr ⟨ha, ih hrest⟩

/-- What a successful discovery went through. -/
lemma discover_eq_ok {base : Base} {files : List Name}
    (h : discoverPiBaselineFiles base = .ok files) : ∃ s t : Found,
      trees.foldlM (fun s directory => visit base levels directory s) ⟨rootFiles, 0⟩ = .ok s ∧
      mixed.foldlM (visitMixed base) s = .ok t ∧ t.files.length ≤ 500 ∧
      (∀ f ∈ t.files, safeRelative f = true) ∧ files = sorted t.files := by
  obtain ⟨s, hs, h⟩ := bind_eq_ok.mp h
  obtain ⟨t, ht, h⟩ := bind_eq_ok.mp h
  obtain ⟨_, hlen, h⟩ := bind_eq_ok.mp h
  obtain ⟨_, hchecked, h⟩ := bind_eq_ok.mp h
  refine ⟨s, t, hs, ht, require_eq.mp hlen, fun f hf => ?_, (Except.ok.inj h).symm⟩
  obtain ⟨_, hf, -⟩ := bind_eq_ok.mp (forM_eq_ok hchecked f hf)
  obtain ⟨_, hsafe, -⟩ := bind_eq_ok.mp hf
  exact require_eq.mp hsafe

lemma isTest_append {n : List Char} (h : isTest n = true) (d : Name) :
    isTest (d ++ '/' :: n) = true := by
  rw [isTest, List.isSuffixOf_iff_suffix] at h ⊢
  exact h.trans ⟨d ++ ['/'], by simp⟩

/-- **What is discovered is told apart and lies where a baseline may lie.** -/
lemma discovered_spec {base : Base} {files : List Name}
    (h : discoverPiBaselineFiles base = .ok files) : files.Nodup ∧
      (∀ f ∈ files, isPiBaselinePath f = true) ∧ 1 ≤ files.length ∧ files.length ≤ 500 := by
  obtain ⟨s, t, hs, ht, hlen, hsafe, rfl⟩ := discover_eq_ok h
  have hperm : (sorted t.files).Perm t.files := List.perm_insertionSort _ _
  obtain ⟨tf, htf, hnodup₁, hbelow₁⟩ := places_added (by unfold Asunder; decide)
    (fun d _ s t hd _ => visit_added hd) hs
  obtain ⟨mf, hmf, hnodup₂, hbelow₂⟩ := places_added (by unfold Asunder; decide)
    (fun d _ s' t' hd hmore => visitMixed_nodup hd fun f hf => by
      obtain ⟨more, hmore⟩ := hmore
      exact hsafe f (hmore ▸ List.mem_append_left _ hf)) ht
  -- files of the root are in no directory
  have hroot : ∀ f ∈ rootFiles, '/' ∉ f := by decide
  have hslash : ∀ {d f : Name}, d ++ ['/'] <+: f → '/' ∈ f := fun hpre =>
    hpre.subset (List.mem_append_right _ List.mem_cons_self)
  have hasunder : ∀ d ∈ trees, ∀ d' ∈ mixed,
      ¬ d ++ ['/'] <+: d' ++ ['/'] ∧ ¬ d' ++ ['/'] <+: d ++ ['/'] := by decide
  have hnodup : t.files.Nodup := by
    rw [hmf, htf]
    refine List.nodup_append.mpr ⟨List.nodup_append.mpr ⟨by decide, hnodup₁, ?_⟩, hnodup₂, ?_⟩
    · rintro f hf g hg rfl
      obtain ⟨d, -, hd⟩ := hbelow₁ f hg
      exact hroot f hf (hslash hd)
    · rintro f hf g hg rfl
      obtain ⟨d', hd', hpre'⟩ := hbelow₂ f hg
      rcases List.mem_append.mp hf with hf | hf
      · exact hroot f hf (hslash hpre')
      · obtain ⟨d, hd, hpre⟩ := hbelow₁ f hf
        rcases Nat.le_total (d ++ ['/']).length (d' ++ ['/']).length with hle | hle
        · exact (hasunder d hd d' hd').1 (List.prefix_of_prefix_length_le hpre hpre' hle)
        · exact (hasunder d hd d' hd').2 (List.prefix_of_prefix_length_le hpre' hpre hle)
  refine ⟨hperm.nodup_iff.mpr hnodup, fun f hf => ?_, ?_, hperm.length_eq.trans_le hlen⟩
  · have hf := hperm.mem_iff.mp hf
    rw [isPiBaselinePath, hsafe f hf, Bool.true_and, Bool.or_eq_true, Bool.or_eq_true]
    rcases mixed_files ht f hf with hf | ⟨d, hd, n, rfl, hn, htest⟩
    · rw [htf] at hf
      rcases List.mem_append.mp hf with hf | hf
      · exact .inl (.inl (List.contains_iff_mem.mpr hf))
      · obtain ⟨d, hd, hpre⟩ := hbelow₁ f hf
        exact .inl (.inr (List.any_eq_true.mpr ⟨d, hd, List.isPrefixOf_iff_prefix.mpr hpre⟩))
    · refine .inr (List.any_eq_true.mpr ⟨d, hd, ?_⟩)
      have hbelow : isBelow d (d ++ '/' :: n) = true :=
        List.isPrefixOf_iff_prefix.mpr ⟨n, by simp⟩
      have hdrop : (d ++ '/' :: n).drop (d.length + 1) = n := by
        rw [List.drop_append]
        simp
      rw [hbelow, hdrop, isTest_append htest, List.contains_eq_mem, decide_eq_false hn]
      rfl
  · rw [hperm.length_eq, hmf, htf, List.length_append, List.length_append]
    have hfive : rootFiles.length = 5 := rfl
    dsimp only
    omega

/-! ### What can be mounted -/

lemma mem_of_mem_part {name part : Name} (hpart : part ∈ name.splitOn '/') {c : Char}
    (hc : c ∈ part) : c ∈ name ∧ c ≠ '/' := by
  induction name generalizing part with
  | nil =>
      obtain rfl : part = [] := by simpa using hpart
      cases hc
  | cons d name ih =>
      rw [List.splitOn_cons_eq_if_modifyHead] at hpart
      split_ifs at hpart with hd
      · rcases List.mem_cons.mp hpart with rfl | hpart
        · cases hc
        · exact ⟨List.mem_cons_of_mem _ (ih hpart hc).1, (ih hpart hc).2⟩
      · obtain ⟨first, rest, hrest⟩ := List.exists_cons_of_ne_nil (List.splitOn_ne_nil '/' name)
        rw [hrest] at ih hpart
        have htail : ∀ {x}, x ∈ first :: rest → c ∈ x → c ∈ d :: name ∧ c ≠ '/' := fun hx hcx =>
          ⟨List.mem_cons_of_mem _ (ih hx hcx).1, (ih hx hcx).2⟩
        rcases List.mem_cons.mp hpart with rfl | hpart
        · rcases List.mem_cons.mp hc with rfl | hc
          · exact ⟨List.mem_cons_self, by simpa using hd⟩
          · exact htail List.mem_cons_self hc
        · exact htail (List.mem_cons_of_mem _ hpart) hc

/-- The parts of a safe path without an at sign. -/
lemma part_of_safe {name : Name} (h : safeRelative name = true) (hat : '@' ∉ name)
    {part : List Char} (hpart : part ∈ name.splitOn '/') :
    part ≠ [] ∧ part ≠ ['.'] ∧ part ≠ ['.', '.'] ∧ part.all isWordChar = true := by
  have hall := all_of_safeRelative h
  simp only [safeRelative, Bool.and_eq_true, List.all_eq_true] at h
  have hsafe := h.2 part hpart
  simp only [isSafePart, Bool.and_eq_true, bne_iff_ne] at hsafe
  refine ⟨hsafe.1.1.1, hsafe.1.1.2, hsafe.1.2, List.all_eq_true.mpr fun c hc => ?_⟩
  obtain ⟨hmem, hslash⟩ := mem_of_mem_part hpart hc
  rcases hall c hmem with hword | rfl | rfl
  · exact hword
  · exact absurd hmem hat
  · exact absurd rfl hslash

section

variable {host snapshot : Docker.Path} {relative : Name}

/-- **A path that is discovered is mounted unless it is too long**, or has an at sign. -/
lemma overlayMount_eq_ok (hhost : isUnsafe host = false) (hpath : isPiBaselinePath relative = true)
    (hat : '@' ∉ relative) {mounts : List Docker.Mount} :
    overlayMount snapshot host relative = .ok mounts ↔
      relative.length ≤ 240 ∧ mounts = if host = snapshot then [] else [overlay host relative] := by
  have hsafe : safeRelative relative = true := (Bool.and_eq_true_iff.mp hpath).1
  have hparts : ∀ part ∈ relative.splitOn '/', part ≠ [] ∧ part ≠ ['.'] ∧ part ≠ ['.', '.'] ∧
      part.all isWordChar = true := fun _ => part_of_safe hsafe hat
  have hoverlay : isOverlayPath relative = true := List.all_eq_true.mpr fun part hpart => by
    simp [(hparts part hpart).1, (hparts part hpart).2.2.2]
  have hdots : (relative.splitOn '/').all (fun part => part != ['.'] && part != ['.', '.']) =
      true := List.all_eq_true.mpr fun part hpart => by
    simp [(hparts part hpart).2.1, (hparts part hpart).2.2.1]
  have hcomponents : ∀ s ∈ (relative.splitOn '/').map String.ofList,
      Docker.IsPart s ∧ Docker.IsSafe s := by
    intro s hs
    obtain ⟨part, hpart, rfl⟩ := List.mem_map.mp hs
    obtain ⟨hnil, hdot, hdotdot, hword⟩ := hparts part hpart
    refine ⟨⟨fun h => hnil ?_, fun h => hdot ?_, fun h => hdotdot ?_⟩,
      Docker.isSafe_of_all (P := isWordChar) (by simpa using hword) (by decide) (by decide)⟩
    · simpa using congrArg String.toList h
    · simpa using congrArg String.toList h
    · simpa using congrArg String.toList h
  have hbind : Docker.bind (overlay host relative).source = .ok () := by
    refine require_eq.mpr ?_
    simp only [overlay]
    rw [Docker.join_eq fun s hs => (hcomponents s hs).1,
      Docker.isUnsafe_append fun s hs => (hcomponents s hs).2, hhost]
  rw [overlayMount, bind_eq_ok]
  constructor
  · rintro ⟨_, hlen, h⟩
    refine ⟨(require_eq.mp hlen).1, ?_⟩
    split_ifs at h ⊢
    · exact (Except.ok.inj h).symm
    · obtain ⟨_, -, h⟩ := bind_eq_ok.mp h
      exact (Except.ok.inj h).symm
  · rintro ⟨hlen, rfl⟩
    refine ⟨(), require_eq.mpr ⟨hlen, hoverlay, hdots, hpath⟩, ?_⟩
    split_ifs
    · rfl
    · exact bind_eq_ok.mpr ⟨(), hbind, rfl⟩

lemma mapM_overlayMount (hhost : isUnsafe host = false) {paths : List Name}
    (hpaths : ∀ f ∈ paths, isPiBaselinePath f = true) (hat : ∀ f ∈ paths, '@' ∉ f)
    {mounts : List (List Docker.Mount)} :
    paths.mapM (overlayMount snapshot host) = .ok mounts ↔
      (∀ f ∈ paths, f.length ≤ 240) ∧
        mounts = paths.map fun f => if host = snapshot then [] else [overlay host f] := by
  induction paths generalizing mounts with
  | nil =>
      rw [List.mapM_nil]
      exact ⟨fun h => ⟨nofun, (Except.ok.inj h).symm⟩, fun h => congrArg _ h.2.symm⟩
  | cons f paths ih =>
      obtain ⟨hf, hpaths⟩ := List.forall_mem_cons.mp hpaths
      obtain ⟨hatf, hat⟩ := List.forall_mem_cons.mp hat
      simp only [List.mapM_cons, bind_eq_ok, overlayMount_eq_ok hhost hf hatf, ih hpaths hat,
        List.forall_mem_cons]
      constructor
      · rintro ⟨m, ⟨hlen, rfl⟩, ms, ⟨hlens, rfl⟩, h⟩
        exact ⟨⟨hlen, hlens⟩, (Except.ok.inj h).symm⟩
      · rintro ⟨⟨hlen, hlens⟩, rfl⟩
        exact ⟨_, ⟨hlen, rfl⟩, _, ⟨hlens, rfl⟩, rfl⟩

end

section

variable {hostRoot : Docker.Path} {runId candidateId baseId : String}

lemma snapshotHost_eq (hrun : PodStore.isRunId runId = true) {id : String}
    (hid : isExecutionId id = true) :
    snapshotHost hostRoot runId id = hostRoot ++ ["snapshots", runId, id] := by
  refine Docker.join_eq fun s hs => ?_
  simp only [List.mem_cons, List.not_mem_nil, or_false] at hs
  rcases hs with rfl | rfl | rfl
  · decide
  · exact (Docker.of_isRunId hrun).1
  · exact (Docker.of_isExecutionId hid).1

lemma isUnsafe_snapshotHost (hrun : PodStore.isRunId runId = true) {id : String}
    (hid : isExecutionId id = true) :
    isUnsafe (snapshotHost hostRoot runId id) = isUnsafe hostRoot := by
  rw [snapshotHost_eq hrun hid]
  refine Docker.isUnsafe_append fun s hs => ?_
  simp only [List.mem_cons, List.not_mem_nil, or_false] at hs
  rcases hs with rfl | rfl | rfl
  · decide
  · exact (Docker.of_isRunId hrun).2
  · exact (Docker.of_isExecutionId hid).2

/-- **What is discovered can be mounted where no path is too long.** For every base snapshot on
which the discovery succeeds, the files are told apart and each lies where a baseline may lie.
When none of them has an at sign, the baseline suite is given mounts exactly when no path is longer
than 240 characters. Whenever it is given them, each of the files is mounted over the one of the
candidate that has its name, unless the candidate is the base itself. The candidate's own directory
was mounted before, so the renderer does not refuse the root of the host. -/
theorem baseline_mounts {base : Base} {files : List Name}
    (h : discoverPiBaselineFiles base = .ok files) (hrun : PodStore.isRunId runId = true)
    (hcandidate : isExecutionId candidateId = true) (hbase : isExecutionId baseId = true)
    (hbind : Docker.bind (snapshotHost hostRoot runId candidateId) = .ok ()) :
    files.Nodup ∧ (∀ f ∈ files, isPiBaselinePath f = true) ∧
      ((∀ f ∈ files, '@' ∉ f) →
        let given := sourceBaselineMounts (baselineOptions hostRoot runId candidateId baseId files)
        ((∃ mounts, given = .ok mounts) ↔ ∀ f ∈ files, f.length ≤ 240) ∧
          ∀ mounts, given = .ok mounts → mounts = if baseId = candidateId then []
            else files.map (overlay (snapshotHost hostRoot runId baseId))) := by
  obtain ⟨hnodup, hpaths, hpos, hlen⟩ := discovered_spec h
  refine ⟨hnodup, hpaths, fun hat => ?_⟩
  have hroot : isUnsafe hostRoot = false := by
    have hsafe := require_eq.mp hbind
    rwa [isUnsafe_snapshotHost hrun hcandidate] at hsafe
  have hunsafe : isUnsafe (snapshotHost hostRoot runId baseId) = false :=
    (isUnsafe_snapshotHost hrun hbase).trans hroot
  have hsame : snapshotHost hostRoot runId baseId = snapshotHost hostRoot runId candidateId ↔
      baseId = candidateId := by
    rw [snapshotHost_eq hrun hbase, snapshotHost_eq hrun hcandidate]
    simp
  have hdirname : (snapshotHost hostRoot runId baseId).dropLast =
      (snapshotHost hostRoot runId candidateId).dropLast ∧
      isExecutionId (Docker.basename (snapshotHost hostRoot runId baseId)) = true := by
    rw [snapshotHost_eq hrun hbase, snapshotHost_eq hrun hcandidate]
    refine ⟨by simp, ?_⟩
    rwa [Docker.basename, show hostRoot ++ ["snapshots", runId, baseId] =
      (hostRoot ++ ["snapshots", runId]) ++ [baseId] by simp, List.getLastD_concat]
  have hflat : (files.map fun f => if snapshotHost hostRoot runId baseId =
      snapshotHost hostRoot runId candidateId then []
      else [overlay (snapshotHost hostRoot runId baseId) f]).flatten =
      if baseId = candidateId then []
      else files.map (overlay (snapshotHost hostRoot runId baseId)) := by
    simp only [hsame]
    split_ifs
    · simp
    · rw [← List.flatMap_def, ← List.map_eq_flatMap]
  have hmounts : ∀ mounts,
      sourceBaselineMounts (baselineOptions hostRoot runId candidateId baseId files) = .ok mounts ↔
      ∃ m, files.mapM (overlayMount (snapshotHost hostRoot runId candidateId)
        (snapshotHost hostRoot runId baseId)) = .ok m ∧ mounts = m.flatten := by
    intro mounts
    rw [sourceBaselineMounts, baselineOptions, if_neg (by decide : ¬ "pi-palantir-v1" = _),
      if_neg (by decide : ¬ "baseline" = _), bind_eq_ok]
    constructor
    · rintro ⟨_, -, h⟩
      obtain ⟨_, -, h⟩ := bind_eq_ok.mp h
      obtain ⟨_, -, h⟩ := bind_eq_ok.mp h
      obtain ⟨m, hm, h⟩ := bind_eq_ok.mp h
      exact ⟨m, hm, (Except.ok.inj h).symm⟩
    · rintro ⟨m, hm, rfl⟩
      refine ⟨(), rfl, bind_eq_ok.mpr ⟨(), require_eq.mpr hdirname, ?_⟩⟩
      refine bind_eq_ok.mpr ⟨(), require_eq.mpr ⟨hpos, by omega, hnodup⟩, ?_⟩
      exact bind_eq_ok.mpr ⟨m, hm, rfl⟩
  intro given
  have hgiven : ∀ mounts, given = .ok mounts ↔ (∀ f ∈ files, f.length ≤ 240) ∧
      mounts = if baseId = candidateId then []
        else files.map (overlay (snapshotHost hostRoot runId baseId)) := by
    intro mounts
    rw [hmounts mounts, ← hflat]
    simp only [mapM_overlayMount hunsafe hpaths hat]
    constructor
    · rintro ⟨m, ⟨hlens, rfl⟩, rfl⟩
      exact ⟨hlens, rfl⟩
    · rintro ⟨hlens, rfl⟩
      exact ⟨_, ⟨hlens, rfl⟩, rfl⟩
  refine ⟨⟨?_, fun hlens => ⟨_, (hgiven _).mpr ⟨hlens, rfl⟩⟩⟩, fun mounts h => ((hgiven _).mp h).2⟩
  rintro ⟨mounts, h⟩
  exact ((hgiven mounts).mp h).1

end

deriving instance DecidableEq for Docker.Mount

/-! ### Snapshots with one test -/

section

local instance : LawfulBEq Name := inferInstance

/-- A snapshot whose only test has this name. -/
def baseWith (test : List UInt8) (h : (47 : UInt8) ∉ test) : Base where
  lstat p := some (if p ∈ ["omp".toList, "extensions".toList,
      "extensions/otel-exporter".toList] ++ trees ++ mixed then ⟨.directory, 0o755, 2, 4096⟩
    else ⟨.file, 0o644, 1, 0⟩)
  readdir p := if p = "test".toList then some [(test, .file)]
    else if p ∈ trees ++ mixed then some [] else none
  readFile _ := some []
  distinct p l hl := by
    split_ifs at hl
    · obtain rfl := Option.some.inj hl
      exact List.nodup_singleton _
    · obtain rfl := Option.some.inj hl
      exact List.nodup_nil
  component p l hl := by
    split_ifs at hl
    · obtain rfl := Option.some.inj hl
      exact fun e he => List.mem_singleton.mp he ▸ h
    · obtain rfl := Option.some.inj hl
      exact nofun

end

def foundWith (test : Name) : List Name :=
  ["eslint.config.mjs".toList, "package-lock.json".toList, "package.json".toList,
    "quality-baseline.json".toList, "test/".toList ++ test, "tsconfig.json".toList]

def plainTest : Name := "answer.test.mjs".toList

/-- A test of a name of its own. -/
def scopedTest : Name := "@scope.test.mjs".toList

def longTest : Name := List.replicate 236 'a'

lemma discover_plain : discoverPiBaselineFiles (baseWith (Utf8.encode plainTest) (by decide)) =
    .ok (foundWith plainTest) := by decide +kernel

theorem baseline_mounts_plain : sourceBaselineMounts (baselineOptions ["srv"] "run" "candidate"
    "base" (foundWith plainTest)) =
      .ok ((foundWith plainTest).map (overlay (snapshotHost ["srv"] "run" "base"))) := by
  have hbind : Docker.bind (snapshotHost ["srv"] "run" "candidate") = .ok () := by decide
  obtain ⟨-, -, hmounts⟩ := baseline_mounts discover_plain (by decide) (by decide)
    (by decide : isExecutionId "base" = true) hbind
  obtain ⟨hgiven, heach⟩ := hmounts (by decide)
  obtain ⟨mounts, h⟩ := hgiven.mpr (by decide)
  rw [h, heach mounts h]
  rfl

/-- A test with an at sign is discovered and not mounted, and so is one whose path has 241
characters. -/
theorem discovered_not_mounted :
    (discoverPiBaselineFiles (baseWith (Utf8.encode scopedTest) (by decide)) =
        .ok (foundWith scopedTest) ∧
      sourceBaselineMounts (baselineOptions ["srv"] "run" "candidate" "base"
        (foundWith scopedTest)) = .error "invalid Pi baseline overlay path") ∧
    discoverPiBaselineFiles (baseWith (Utf8.encode longTest) (by decide)) =
        .ok (foundWith longTest) ∧
      sourceBaselineMounts (baselineOptions ["srv"] "run" "candidate" "base"
        (foundWith longTest)) = .error "invalid Pi baseline overlay path" := by
  refine ⟨⟨?_, ?_⟩, ?_, ?_⟩
  · decide +kernel
  · decide +kernel
  · decide +kernel
  · decide +kernel

end Bimo.Pi
