import Bimo.Prog
import Bimo.PodInput
import Mathlib.Logic.Relation

/-!
The run that `latest` names.

Three kinds of runs start on the state root of a deployment, one after another, each by its own
program up to its first event. Logs, status, tail and publish read the file `latest` where they
are given no run. A workflow run writes it after its first event and an organizer run before it.
A run of a pod does not write it.

A start may be cut off after any call, and between two starts the runs go on and old runs of pods
are pruned.
-/

namespace Bimo.LatestRun

open Js (Text lit trim isSpace)
open PodInput (require isRunId)

/-! ### The state root -/

inductive Kind where
  | workflow
  | organizer
  | pod
  deriving DecidableEq, Repr

structure Root where
  /-- The run directories, with the kind of run each was made for. -/
  dirs : List (Text × Kind) := []
  /-- The content of the file `latest`. -/
  latest : Option Text := none
  /-- The runs that have recorded an event. -/
  recorded : List Text := []
  /-- The runs that have written `latest`. -/
  written : List Text := []

def Root.names (s : Root) : List Text := s.dirs.map Prod.fst

inductive Op where
  | mkdirState
  | mkdirWorkspace
  /-- The stats of the state root and of the worktrees. -/
  | privateRoots
  | previousHistory
  | prune
  | mkdirRun (kind : Kind) (runId : Text)
  | mkdirWorktrees (runId : Text) (agents : ℕ)
  | writeRun (runId : Text)
  | createEvents (runId : Text)
  | imageDigest
  | append (runId : Text) (type : String)
  | changelog (runId : Text)
  | writeLatest (runId : Text)
  | removeRun (runId : Text)
  | removeWorktrees (runId : Text)

abbrev Ret (_ : Op) : Type := Except String Unit

abbrev Io := Prog Op Ret String

def newline : Text := [10]

/-- The call, answered as given, leaves the state root so. -/
inductive Step (s : Root) : (o : Op) → Ret o → Root → Prop
  | pruned {r : Except String Unit} (keep : Text → Bool) : Step s .prune r
      { s with dirs := s.dirs.filter fun d => d.2 ≠ .pod || keep d.1 }
  | made {kind : Kind} {runId : Text} (hnew : runId ∉ s.names)
      (hfile : runId = lit "latest" → s.latest = none) :
      Step s (.mkdirRun kind runId) (.ok ()) { s with dirs := (runId, kind) :: s.dirs }
  | appended {runId : Text} {type : String} {r : Except String Unit} :
      Step s (.append runId type) r { s with recorded := runId :: s.recorded }
  | named {runId : Text} (hdir : lit "latest" ∉ s.names) :
      Step s (.writeLatest runId) (.ok ())
        { s with latest := some (runId ++ newline), written := runId :: s.written }
  | removed {runId : Text} : Step s (.removeRun runId) (.ok ())
      { s with dirs := s.dirs.filter fun d => d.1 ≠ runId }
  /-- What fails leaves the state root as it is, and so does what is not named above. -/
  | failed {o : Op} {e : String} : Step s o (.error e) s
  | other {o : Op} (h : ∀ kind runId type, o ≠ .mkdirRun kind runId ∧ o ≠ .append runId type ∧
      o ≠ .writeLatest runId ∧ o ≠ .removeRun runId) : Step s o (.ok ()) s

def env : Env Op Ret Root := ⟨Step⟩

/-! ### The starts -/

/-- A call, or its failure. -/
def tryAsk (o : Op) : Io Unit := do Prog.ofExcept (← Prog.ask o)

def runWorkflow (runId : Text) : Io Unit := do
  Prog.ofExcept (require (isRunId runId) "invalid run ID")
  tryAsk .mkdirState
  tryAsk .mkdirWorkspace
  let _ ← Prog.ask .previousHistory
  tryAsk (.mkdirRun .workflow runId)
  tryAsk (.createEvents runId)
  tryAsk (.append runId "run.started")
  tryAsk (.changelog runId)
  match ← Prog.ask (.writeLatest runId) with
  | .ok _ => pure ()
  | .error e =>
    let _ ← Prog.ask (.append runId "run.failed")
    let _ ← Prog.ask (.changelog runId)
    Prog.fail e

def runOrganizer (agents : ℕ) (runId : Text) : Io Unit := do
  Prog.ofExcept (require (isRunId runId) "organizer run ID is invalid")
  tryAsk .privateRoots
  tryAsk (.mkdirRun .organizer runId)
  match ← (do
    tryAsk (.mkdirWorktrees runId agents)
    tryAsk (.createEvents runId)
    tryAsk (.writeLatest runId) : Io Unit).attempt with
  | .error e =>
    let _ ← Prog.ask (.removeRun runId)
    let _ ← Prog.ask (.removeWorktrees runId)
    Prog.fail e
  | .ok _ =>
    tryAsk (.writeRun runId)
    tryAsk .imageDigest
    tryAsk (.append runId "run.started")
    tryAsk (.changelog runId)

def createPodRunStore (runId : Text) : Io Unit := do
  Prog.ofExcept (require (isRunId runId) "invalid run ID")
  tryAsk .mkdirState
  tryAsk (.mkdirRun .pod runId)
  match ← (do
    tryAsk (.writeRun runId)
    tryAsk (.createEvents runId) : Io Unit).attempt with
  | .error e =>
    let _ ← Prog.ask (.removeRun runId)
    Prog.fail e
  | .ok _ => pure ()

def runPod (runId : Text) : Io Unit := do
  tryAsk .prune
  createPodRunStore runId
  tryAsk (.append runId "run.started")

/-- A run up to its first event, and up to its writing of `latest`. -/
def start (agents : ℕ) (runId : Text) : Kind → Io Unit
  | .workflow => runWorkflow runId
  | .organizer => runOrganizer agents runId
  | .pod => runPod runId

/-- What happens between two starts. -/
inductive Later (s : Root) : Root → Prop
  | records (runId : Text) : Later s { s with recorded := runId :: s.recorded }
  | prunes (keep : Text → Bool) :
      Later s { s with dirs := s.dirs.filter fun d => d.2 ≠ .pod || keep d.1 }

/-- Runs started one after another, each as far as it gets. -/
inductive Reached : Root → Prop
  | empty : Reached {}
  | start {s t : Root} {agents : ℕ} {runId : Text} {kind : Kind} {p : Io Unit} (hs : Reached s)
      (h : Exec env (start agents runId kind) s p t) : Reached t
  | later {s t : Root} (hs : Reached s) (h : Later s t) : Reached t

/-! ### The readers -/

inductive Reader where
  | logs
  | status
  | tail
  | publish
  deriving DecidableEq, Repr

/-- The run that is read where none is given: none is recorded, or it is invalid. -/
def defaultRun (s : Root) : Reader → Except String (Option Text)
  | .logs | .status => do
    let runId := trim (s.latest.getD [])
    if runId = [] then return none
    require (isRunId runId) "invalid run ID"
    return some runId
  | .tail =>
    match s.latest with
    | none => .error "ENOENT: no such file or directory"
    | some content => do
      require (isRunId (trim content)) "invalid run ID"
      return some (trim content)
  | .publish => do
    let runId := trim (s.latest.getD [])
    require (isRunId runId) "no latest run is recorded"
    return some runId

/-! ### One call -/

/-- `latest` names the directory of a workflow or organizer run. -/
def Named (s : Root) : Prop := ∀ content, s.latest = some content → ∃ runId kind,
  content = runId ++ newline ∧ isRunId runId = true ∧ kind ≠ .pod ∧ (runId, kind) ∈ s.dirs

/-- The runs of a start from here that are read by default once they have recorded an event. -/
def Default (s : Root) (kind : Kind) (t : Root) : Prop :=
  kind = .organizer ∨ kind = .workflow ∧ t.written ≠ s.written

section Start

/-! A start from one state of the root, of a run of a kind. -/

variable (s₀ : Root) (kind : Kind) (runId : Text)

/-- The run's directory is there and `latest` does not name it yet. -/
structure Own (s : Root) : Prop where
  mem : (runId, kind) ∈ s.dirs
  elsewhere : s.latest ≠ some (runId ++ newline)
  unwritten : s.written = s₀.written

def pre (s : Root) : Op → Prop
  | .writeLatest x => x = runId ∧ isRunId runId = true ∧ kind ≠ .pod ∧ (runId, kind) ∈ s.dirs
  | .removeRun x => s.latest ≠ some (x ++ newline)
  | .append _ _ =>
    isRunId runId = true ∧ (s.latest = some (runId ++ newline) ↔ Default s₀ kind s)
  | _ => True

/-- What holds in every state of a start. -/
structure Held (s : Root) : Prop where
  named : Named s
  grown : s₀.written <:+ s.written
  told : s.recorded ≠ s₀.recorded →
    isRunId runId = true ∧ (s.latest = some (runId ++ newline) ↔ Default s₀ kind s)

end Start

/-- The call neither makes nor removes a directory, nor does it write `latest`. -/
def calm : Op → Bool
  | .prune | .mkdirRun _ _ | .writeLatest _ | .removeRun _ => false
  | _ => true

/-- Directories and `latest` are as before. -/
def Same (s t : Root) : Prop := t.dirs = s.dirs ∧ t.latest = s.latest ∧ t.written = s.written

variable {s₀ s t : Root} {runId : Text} {kind : Kind}

lemma calm_step {o : Op} {r : Except String Unit} (ho : calm o = true) (h : Step s o r t) :
    Same s t := by
  cases h with
  | pruned | made | named | removed => cases ho
  | appended | failed | other => exact ⟨rfl, rfl, rfl⟩

lemma error_step {o : Op} {e : String} (ho : o ≠ .prune) (h : Step s o (.error e) t) :
    Same s t := by
  cases h with
  | pruned => exact absurd rfl ho
  | appended | failed => exact ⟨rfl, rfl, rfl⟩

lemma named_of_same (h : Named s) (heq : Same s t) : Named t := by
  obtain ⟨hdirs, hlatest, -⟩ := heq
  unfold Named
  rw [hdirs, hlatest]
  exact h

/-- Pruning keeps what is no pod's. -/
lemma named_pruned (h : Named s) (keep : Text → Bool) :
    Named { s with dirs := s.dirs.filter fun d => d.2 ≠ .pod || keep d.1 } := by
  intro content hcontent
  obtain ⟨x, k, hx, hid, hk, hmem⟩ := h content hcontent
  exact ⟨x, k, hx, hid, hk, List.mem_filter.mpr ⟨hmem, by simp [hk]⟩⟩

lemma named_step {o : Op} {r : Except String Unit} (hpre : pre s₀ kind runId s o)
    (hstep : Step s o r t) (h : Named s) : Named t := by
  cases hstep with
  | pruned keep => exact named_pruned h keep
  | made =>
    intro content hcontent
    obtain ⟨x, k, hx, hid, hk, hmem⟩ := h content hcontent
    exact ⟨x, k, hx, hid, hk, List.mem_cons_of_mem _ hmem⟩
  | named =>
    intro content hcontent
    obtain ⟨rfl, hid, hk, hmem⟩ := hpre
    obtain rfl := Option.some.inj hcontent
    exact ⟨_, kind, rfl, hid, hk, hmem⟩
  | removed =>
    intro content hcontent
    obtain ⟨x, k, rfl, hid, hk, hmem⟩ := h content hcontent
    refine ⟨x, k, rfl, hid, hk, List.mem_filter.mpr ⟨hmem, decide_eq_true ?_⟩⟩
    rintro rfl
    exact hpre hcontent
  | appended | failed | other => exact h

lemma held_step {o : Op} {r : Except String Unit} (hpre : pre s₀ kind runId s o)
    (hstep : Step s o r t) (h : Held s₀ kind runId s) : Held s₀ kind runId t := by
  refine ⟨named_step hpre hstep h.named, ?_, ?_⟩
  · cases hstep with
    | named => exact h.grown.trans (List.suffix_cons _ _)
    | pruned | made | appended | removed | failed | other => exact h.grown
  · cases hstep with
    | appended => exact fun _ => hpre
    | named =>
      obtain ⟨rfl, hid, hk, -⟩ := hpre
      -- the write makes the list of those that have written longer than it was at the start
      have hwritten : ∀ x, x :: s.written ≠ s₀.written := by
        intro x heq
        have hlen := h.grown.length_le
        rw [← heq, List.length_cons] at hlen
        omega
      refine fun _ => ⟨hid, iff_of_true rfl ?_⟩
      cases kind with
      | workflow => exact .inr ⟨rfl, hwritten _⟩
      | organizer => exact .inl rfl
      | pod => exact absurd rfl hk
    | pruned | made | removed | failed | other => exact h.told

/-- A directory that could be made is not the one that `latest` names. -/
lemma own_of_made (h : Named s) (hwritten : s.written = s₀.written)
    (hstep : Step s (.mkdirRun kind runId) (.ok ()) t) : Own s₀ kind runId t := by
  cases hstep with
  | made hnew hfile =>
    refine ⟨List.mem_cons_self, fun hlatest => ?_, hwritten⟩
    obtain ⟨x, k, hx, -, -, hmem⟩ := h _ hlatest
    obtain rfl := List.append_cancel_right hx
    exact hnew (List.mem_map.mpr ⟨_, hmem, rfl⟩)
  | other hother => exact absurd rfl (hother kind runId "").1

lemma own_of_same (h : Own s₀ kind runId s) (heq : Same s t) : Own s₀ kind runId t :=
  ⟨heq.1 ▸ h.mem, heq.2.1 ▸ h.elsewhere, heq.2.2.trans h.unwritten⟩

/-- Before `latest` is written, only an organizer run could be told of too early. -/
lemma Own.told (h : Own s₀ kind runId s) (hk : kind ≠ .organizer) :
    s.latest = some (runId ++ newline) ↔ Default s₀ kind s := by
  refine iff_of_false h.elsewhere ?_
  rintro (rfl | ⟨-, hwritten⟩)
  · exact hk rfl
  · exact hwritten h.unwritten

lemma latest_of_written (hstep : Step s (.writeLatest runId) (.ok ()) t) :
    t.latest = some (runId ++ newline) := by
  cases hstep with
  | named => rfl
  | other hother => exact absurd rfl (hother .pod runId "").2.2.1

/-! ### The starts, call by call -/

section Starts

variable {α : Type} {Q : Except String α → Root → Prop}

lemma safe_tryAsk {o : Op} {f : Unit → Io α} (hpre : pre s₀ kind runId s o)
    (hok : ∀ t, Step s o (.ok ()) t → Safe env (pre s₀ kind runId) (f ()) t Q)
    (herr : ∀ e t, Step s o (.error e) t → Q (.error e) t) :
    Safe env (pre s₀ kind runId) (tryAsk o >>= f) s Q := by
  refine ⟨hpre, fun r t ht => ?_⟩
  cases r with
  | ok u => exact hok t ht
  | error e => exact herr e t ht

/-- A call that keeps what is known of the directories and of `latest`. -/
lemma safe_calm {o : Op} {f : Unit → Io α} (ho : calm o = true) (hpre : pre s₀ kind runId s o)
    (hok : ∀ t, Same s t → Safe env (pre s₀ kind runId) (f ()) t Q)
    (herr : ∀ e t, Same s t → Q (.error e) t) :
    Safe env (pre s₀ kind runId) (tryAsk o >>= f) s Q :=
  safe_tryAsk hpre (fun t ht => hok t (calm_step ho ht)) fun e t ht => herr e t (calm_step ho ht)

lemma safe_require {p : Bool} {message : String} {f : Unit → Io α}
    (hok : p = true → Safe env (pre s₀ kind runId) (f ()) s Q) (herr : Q (.error message) s) :
    Safe env (pre s₀ kind runId) (Prog.ofExcept (require p message) >>= f) s Q := by
  unfold require
  split_ifs with hp
  · exact hok hp
  · exact herr

end Starts

/-- In every state of the program, what is known of the start holds. -/
abbrev Starts (s₀ : Root) (kind : Kind) (runId : Text) (p : Io Unit) (s : Root) : Prop :=
  Safe env (pre s₀ kind runId) p s fun _ _ => True

lemma starts_runWorkflow (h : Named s₀) : Starts s₀ .workflow runId (runWorkflow runId) s₀ := by
  refine safe_require (fun hid => ?_) trivial
  refine safe_calm rfl trivial (fun s₁ h₁ => ?_) fun _ _ _ => trivial
  refine safe_calm rfl trivial (fun s₂ h₂ => ?_) fun _ _ _ => trivial
  refine ⟨trivial, fun _ s₃ h₃ => ?_⟩
  have h₃ : Same s₂ s₃ := calm_step rfl h₃
  refine safe_tryAsk trivial (fun s₄ h₄ => ?_) fun _ _ _ => trivial
  have hown₄ : Own s₀ .workflow runId s₄ := own_of_made
    (named_of_same (named_of_same (named_of_same h h₁) h₂) h₃)
    (h₃.2.2.trans (h₂.2.2.trans h₁.2.2)) h₄
  refine safe_calm rfl trivial (fun s₅ h₅ => ?_) fun _ _ _ => trivial
  have hown₅ := own_of_same hown₄ h₅
  refine safe_calm rfl ⟨hid, hown₅.told nofun⟩ (fun s₆ h₆ => ?_) fun _ _ _ => trivial
  refine safe_calm rfl trivial (fun s₇ h₇ => ?_) fun _ _ _ => trivial
  have hown₇ := own_of_same (own_of_same hown₅ h₆) h₇
  refine ⟨⟨rfl, hid, nofun, hown₇.mem⟩, fun r s₈ h₈ => ?_⟩
  cases r with
  | ok u => trivial
  | error e =>
    have hown₈ := own_of_same hown₇ (error_step (o := .writeLatest runId) nofun h₈)
    exact ⟨⟨hid, hown₈.told nofun⟩, fun _ _ _ => ⟨trivial, fun _ _ _ => trivial⟩⟩

/-- What a try that writes `latest` last leaves behind when it fails. -/
lemma safe_organizer_try (agents : ℕ) (hid : isRunId runId = true)
    (h : Own s₀ .organizer runId s) :
    Safe env (pre s₀ .organizer runId) (do
      tryAsk (.mkdirWorktrees runId agents)
      tryAsk (.createEvents runId)
      tryAsk (.writeLatest runId) : Io Unit) s fun r t =>
        if r.isOk then t.latest = some (runId ++ newline) else Own s₀ .organizer runId t := by
  refine safe_calm rfl trivial (fun s₁ h₁ => ?_) fun _ _ h₁ => own_of_same h h₁
  have hown₁ := own_of_same h h₁
  refine safe_calm rfl trivial (fun s₂ h₂ => ?_) fun _ _ h₂ => own_of_same hown₁ h₂
  have hown₂ := own_of_same hown₁ h₂
  refine ⟨⟨rfl, hid, nofun, hown₂.mem⟩, fun r s₃ h₃ => ?_⟩
  cases r with
  | ok u => exact latest_of_written h₃
  | error e => exact own_of_same hown₂ (error_step (o := .writeLatest runId) nofun h₃)

lemma starts_runOrganizer (agents : ℕ) (h : Named s₀) :
    Starts s₀ .organizer runId (runOrganizer agents runId) s₀ := by
  refine safe_require (fun hid => ?_) trivial
  refine safe_calm rfl trivial (fun s₁ h₁ => ?_) fun _ _ _ => trivial
  refine safe_tryAsk trivial (fun s₂ h₂ => ?_) fun _ _ _ => trivial
  have hown : Own s₀ .organizer runId s₂ := own_of_made (named_of_same h h₁) h₁.2.2 h₂
  refine (safe_bind _ _ _ _).mpr ((safe_attempt _ _ _).mpr
    ((safe_organizer_try agents hid hown).mono fun r s₃ h₃ => ?_))
  cases r with
  | error e => exact ⟨h₃.elsewhere, fun _ _ _ => ⟨trivial, fun _ _ _ => trivial⟩⟩
  | ok u =>
    refine safe_calm rfl trivial (fun s₄ h₄ => ?_) fun _ _ _ => trivial
    refine safe_calm rfl trivial (fun s₅ h₅ => ?_) fun _ _ _ => trivial
    have hlatest : s₅.latest = some (runId ++ newline) := by
      rw [h₅.2.1, h₄.2.1]
      exact h₃
    refine safe_calm rfl ⟨hid, iff_of_true hlatest (.inl rfl)⟩ (fun s₆ h₆ => ?_)
      fun _ _ _ => trivial
    exact ⟨trivial, fun r _ _ => by cases r <;> trivial⟩

lemma safe_createPodRunStore (h : Named s) (hwritten : s.written = s₀.written) :
    Safe env (pre s₀ .pod runId) (createPodRunStore runId) s fun r t =>
      r.isOk → isRunId runId = true ∧ Own s₀ .pod runId t := by
  refine safe_require (fun hid => ?_) nofun
  refine safe_calm rfl trivial (fun s₁ h₁ => ?_) fun _ _ _ => nofun
  refine safe_tryAsk trivial (fun s₂ h₂ => ?_) fun _ _ _ => nofun
  have hown : Own s₀ .pod runId s₂ :=
    own_of_made (named_of_same h h₁) (h₁.2.2.trans hwritten) h₂
  have htry : Safe env (pre s₀ .pod runId) (do
      tryAsk (.writeRun runId)
      tryAsk (.createEvents runId) : Io Unit) s₂ fun _ t => Own s₀ .pod runId t := by
    refine safe_calm rfl trivial (fun s₃ h₃ => ?_) fun _ _ h₃ => own_of_same hown h₃
    refine ⟨trivial, fun r s₄ h₄ => ?_⟩
    have hown₄ := own_of_same (own_of_same hown h₃) (calm_step rfl h₄)
    cases r with
    | ok u => exact hown₄
    | error e => exact hown₄
  refine (safe_bind _ _ _ _).mpr ((safe_attempt _ _ _).mpr (htry.mono fun r s₃ h₃ => ?_))
  cases r with
  | error e => exact ⟨h₃.elsewhere, fun _ _ _ => nofun⟩
  | ok u => exact fun _ => ⟨hid, h₃⟩

lemma starts_runPod (h : Named s₀) : Starts s₀ .pod runId (runPod runId) s₀ := by
  refine safe_tryAsk trivial (fun s₁ h₁ => ?_) fun _ _ _ => trivial
  have hnamed := @named_step s₀ _ _ runId .pod .prune _ trivial h₁ h
  have hwritten : s₁.written = s₀.written := by
    cases h₁ with
    | pruned | other => rfl
  refine (safe_bind _ _ _ _).mpr ((safe_createPodRunStore hnamed hwritten).mono fun r s₂ h₂ => ?_)
  cases r with
  | error e => trivial
  | ok u =>
    obtain ⟨hid, hown⟩ := h₂ rfl
    exact ⟨⟨hid, hown.told nofun⟩, fun r _ _ => by cases r <;> trivial⟩

lemma starts_start (agents : ℕ) (runId : Text) (kind : Kind) (h : Named s₀) :
    Starts s₀ kind runId (start agents runId kind) s₀ := by
  cases kind with
  | workflow => exact starts_runWorkflow h
  | organizer => exact starts_runOrganizer agents h
  | pod => exact starts_runPod h

/-- Wherever a start has got to. -/
lemma held_start {agents : ℕ} {p : Io Unit} (h : Named s₀)
    (hx : Exec env (start agents runId kind) s₀ p t) : Held s₀ kind runId t :=
  (starts_start agents runId kind h).inv (fun _ _ _ _ hpre hstep => held_step hpre hstep)
    ⟨h, List.suffix_refl _, fun hne => absurd rfl hne⟩ hx

/-! ### Runs one after another -/

lemma named_reached (h : Reached s) : Named s := by
  induction h with
  | empty => exact nofun
  | start _ hx ih => exact (held_start ih hx).named
  | later _ hlater ih =>
    cases hlater with
    | records => exact ih
    | prunes keep => exact named_pruned ih keep

lemma latest_later (h : Relation.ReflTransGen Later s t) : t.latest = s.latest := by
  induction h with
  | refl => rfl
  | tail _ hlater ih =>
    cases hlater with
    | records | prunes => exact ih

lemma isNameUnit_of_mem (hid : isRunId runId = true) {u : UInt16} (hu : u ∈ runId) :
    PodInput.isNameUnit u = true :=
  List.all_eq_true.mp (PodInput.of_isRunId hid).2.2.1 u hu

lemma trim_newline (hid : isRunId runId = true) : trim (runId ++ newline) = runId := by
  have hspace : ∀ {s : Text}, (∀ u ∈ s, PodInput.isNameUnit u = true) →
      s.dropWhile isSpace = s := by
    intro s hs
    refine PodInput.dropWhile_eq ?_
    cases s with
    | nil => rfl
    | cons u s => simp [PodInput.isSpace_of_isNameUnit (hs u List.mem_cons_self)]
  have hne := (PodInput.of_isRunId hid).1
  have hfront : (runId ++ newline).dropWhile isSpace = runId ++ newline := by
    refine PodInput.dropWhile_eq ?_
    cases hrun : runId with
    | nil => exact absurd hrun hne
    | cons u s =>
      have hu := isNameUnit_of_mem hid (u := u) (by simp [hrun])
      simp [PodInput.isSpace_of_isNameUnit hu]
  have hback : (newline ++ runId.reverse).dropWhile isSpace = runId.reverse.dropWhile isSpace :=
    List.dropWhile_cons_of_pos (by decide)
  have hreverse : runId.reverse.dropWhile isSpace = runId.reverse :=
    hspace fun u hu => isNameUnit_of_mem hid (List.mem_reverse.mp hu)
  rw [trim, hfront, List.reverse_append]
  show ((newline ++ runId.reverse).dropWhile isSpace).reverse = runId
  rw [hback, hreverse, List.reverse_reverse]

lemma defaultRun_of_named {c : Reader} {x : Text} (hid : isRunId x = true)
    (h : s.latest = some (x ++ newline)) : defaultRun s c = .ok (some x) := by
  have hne := (PodInput.of_isRunId hid).1
  have hrequire : ∀ message, require (isRunId x) message = .ok () := by
    intro message
    rw [hid]
    rfl
  cases c with
  | logs | status =>
    simp only [defaultRun, h, Option.getD_some, trim_newline hid, if_neg hne, hrequire]
    rfl
  | tail | publish =>
    simp only [defaultRun, h, Option.getD_some, trim_newline hid, hrequire]
    rfl

lemma defaultRun_of_none {c : Reader} (h : s.latest = none) :
    defaultRun s c ≠ .ok (some runId) := by
  have htrim : trim [] = [] := rfl
  cases c with
  | logs | status =>
    simp only [defaultRun, h, Option.getD_none, htrim, if_true]
    exact nofun
  | tail =>
    simp only [defaultRun, h]
    exact nofun
  | publish =>
    simp only [defaultRun, h, Option.getD_none, htrim]
    exact nofun

/-- **Whether `latest` names the run that was started last.** After any runs, one after another
and each as far as it got, a run that has recorded an event in its start is the one that logs,
status, tail and publish take by default, until the next start, exactly when it is an organizer
run, or a workflow run that has written `latest`. A run of a pod never is. -/
theorem latest_names_iff {s t u : Root} {agents : ℕ} {runId : Text} {kind : Kind} {p : Io Unit}
    (hs : Reached s) (hstart : Exec env (start agents runId kind) s p t)
    (hrecorded : t.recorded ≠ s.recorded) (hlater : Relation.ReflTransGen Later t u)
    (c : Reader) :
    defaultRun u c = .ok (some runId) ↔
      kind = .organizer ∨ kind = .workflow ∧ t.written ≠ s.written := by
  have hheld := held_start (named_reached hs) hstart
  obtain ⟨hid, htold⟩ := hheld.told hrecorded
  rw [← latest_later hlater] at htold
  refine Iff.trans ⟨fun hdefault => ?_, defaultRun_of_named hid⟩ htold
  cases hlatest : u.latest with
  | none => exact absurd hdefault (defaultRun_of_none hlatest)
  | some content =>
    rw [latest_later hlater] at hlatest
    obtain ⟨x, -, rfl, hx, -⟩ := hheld.named content hlatest
    rw [← latest_later hlater] at hlatest
    rw [defaultRun_of_named hx hlatest] at hdefault
    rw [Option.some.inj (Except.ok.inj hdefault)]

/-! ### A run of each kind alone -/

/-- The call leaves the state root as it is. -/
def plain : Op → Bool
  | .mkdirRun _ _ | .append _ _ | .writeLatest _ | .removeRun _ => false
  | _ => true

lemma step_plain {o : Op} (ho : plain o = true) : env.step s o (.ok ()) s := by
  refine .other fun kind runId type => ⟨?_, ?_, ?_, ?_⟩
  all_goals
    rintro rfl
    cases ho

lemma require_isRunId (hid : isRunId runId = true) (message : String) :
    require (isRunId runId) message = .ok () := by
  rw [hid]
  rfl

lemma exec_tryAsk {o : Op} {f : Unit → Io Unit} {q : Io Unit} {u : Root}
    (h : Step s o (.ok ()) t) (hx : Exec env (f ()) t q u) : Exec env (tryAsk o >>= f) s q u :=
  .step h hx

lemma exec_call {o : Op} {k : Ret o → Io Unit} {q : Io Unit} {u : Root}
    (h : Step s o (.ok ()) t) (hx : Exec env (k (.ok ())) t q u) : Exec env (.call o k) s q u :=
  .step h hx

lemma exec_runPod (hid : isRunId runId = true) : Exec env (runPod runId) {} (.ret ())
    { dirs := [(runId, .pod)], recorded := [runId] } := by
  simp only [runPod, createPodRunStore, require_isRunId hid]
  refine exec_tryAsk (.pruned fun _ => true) ?_
  refine exec_call (o := .mkdirState) (step_plain rfl) ?_
  refine exec_call (o := .mkdirRun .pod runId) (.made nofun fun _ => rfl) ?_
  refine exec_call (o := .writeRun runId) (step_plain rfl) ?_
  refine exec_call (o := .createEvents runId) (step_plain rfl) ?_
  exact .step (r := .ok ()) .appended (.refl _ _)

/-- A workflow run behind the record of its first event. -/
def named (runId : Text) : Io Unit := do
  tryAsk (.changelog runId)
  match ← Prog.ask (.writeLatest runId) with
  | .ok _ => pure ()
  | .error e =>
    let _ ← Prog.ask (.append runId "run.failed")
    let _ ← Prog.ask (.changelog runId)
    Prog.fail e

lemma exec_runWorkflow (hid : isRunId runId = true) : Exec env (runWorkflow runId) {}
    (named runId) { dirs := [(runId, .workflow)], recorded := [runId] } := by
  simp only [runWorkflow, require_isRunId hid]
  refine exec_tryAsk (step_plain rfl) ?_
  refine exec_call (o := .mkdirWorkspace) (step_plain rfl) ?_
  refine .step (r := .ok ()) (step_plain rfl) ?_
  refine exec_call (o := .mkdirRun .workflow runId) (.made nofun fun _ => rfl) ?_
  refine exec_call (o := .createEvents runId) (step_plain rfl) ?_
  exact exec_call (o := .append runId "run.started") .appended (.refl _ _)

lemma exec_named (hfile : runId ≠ lit "latest") : Exec env (named runId)
    { dirs := [(runId, .workflow)], recorded := [runId] } (.ret ())
    { dirs := [(runId, .workflow)], latest := some (runId ++ newline), recorded := [runId],
      written := [runId] } := by
  refine exec_tryAsk (step_plain rfl) ?_
  refine exec_call (o := .writeLatest runId) ?_ (.refl _ _)
  exact .named (by simpa [Root.names] using hfile.symm)

/-- A workflow run alone is the one that is read once it is through its start. -/
theorem workflow_latest : ∃ (s : Root) (runId : Text) (p : Io Unit),
    Exec env (start 1 runId .workflow) {} p s ∧ s.recorded ≠ [] ∧
      (defaultRun s .status = .ok (some runId) ↔
        Kind.workflow = .organizer ∨ Kind.workflow = .workflow ∧ s.written ≠ []) := by
  have hs := (@exec_runWorkflow (lit "r") (by decide)).trans (exec_named (by decide))
  exact ⟨_, lit "r", _, hs, nofun,
    @latest_names_iff {} _ _ 1 (lit "r") .workflow _ .empty hs nofun .refl .status⟩

/-- A run of a pod alone is not: there is no `latest`. Nor is a workflow run between the record of
its first event and its write of `latest`. -/
theorem pod_not_latest :
    (∃ (s : Root) (runId : Text), Exec env (start 1 runId .pod) {} (.ret ()) s ∧
      s.recorded ≠ [] ∧ ∀ c, defaultRun s c ≠ .ok (some runId)) ∧
    ∃ (s : Root) (runId : Text) (p : Io Unit), Exec env (start 1 runId .workflow) {} p s ∧
      s.recorded ≠ [] ∧ ∀ c, defaultRun s c ≠ .ok (some runId) := by
  refine ⟨⟨_, lit "r", @exec_runPod (lit "r") (by decide), nofun,
    fun c => defaultRun_of_none rfl⟩, ?_⟩
  exact ⟨_, lit "r", _, @exec_runWorkflow (lit "r") (by decide), nofun,
    fun c => defaultRun_of_none rfl⟩

end Bimo.LatestRun
