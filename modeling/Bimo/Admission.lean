import Bimo.AgentExecution

/-!
The executions that the controller of a pod asks for, as the container runtime sees them.

An observer notes when the run and the attempt began, the last reading of the clock and the write
paths of the plan on record. The agents, the verifier and the store answer anything. The source
answers as the Git runtime does: a read view has the id it was asked for, and a worktree has the
plan's write paths, in some order, and an id made from the attempt and the slot.
-/

namespace Bimo.Controller

open Wire (Json bytes)
open PodStore (Fields field plainObject pretty)
open Contract

/-! ### What is observed -/

structure Seen where
  /-- The first reading of the clock. -/
  first : Option ℕ := none
  /-- The reading of the clock, where it is what was done last. -/
  last : Option ℕ := none
  /-- The reading with which the attempt began. -/
  begun : Option ℕ := none
  /-- The write paths of the plan on record. -/
  paths : Slot → List String := fun _ => []

/-- The write paths that a plan has for a slot. -/
def planPaths (plan : Json) (slot : Slot) : List String :=
  ((((plan.get "writers").bind (·.get slot.name)).bind (·.get "writePaths")).bind stringsOf).getD []

def Seen.next (s : Seen) : (o : Call) → o.Ret → Seen
  | .now, some t => { s with first := s.first <|> some t, last := some t }
  | .begin _, _ => { s with begun := s.last, last := none }
  | .writeAttemptPlan _ plan, _ => { s with paths := planPaths plan, last := none }
  | _, _ => { s with last := none }

def isSha1 (s : String) : Bool := s.toList.all isHex && s.length == 40

/-- A worktree, as the source tells of it. -/
def workspaceJson (id root : String) (directories : List String) : Json :=
  .obj [("id", .str id), ("root", .str root), ("writeDirectories", strings directories)]

/-- The counter of worktrees is a number that is counted up one by one. -/
def maxCounter : ℕ := 2 ^ 53

/-- The answers of the Git runtime. -/
def gitAnswers (s : Seen) : (o : Call) → o.Ret → Prop
  | .createReadView id sha, .ok v =>
    isSha1 sha = true ∧ ∃ root, v = .obj [("id", .str id), ("root", .str root)]
  | .createWorktree n slot _, .ok v =>
    ∃ root dirs, dirs.Perm (s.paths slot) ∧
      v = workspaceJson ("attempt-" ++ toString n ++ "-" ++ slot.name) root dirs
  | .combineBase n _ _, .ok v =>
    ∃ baseSha root dirs count, count ≤ maxCounter ∧ dirs.Perm (s.paths .engineeringA) ∧
      v = .obj [("baseSha", .str baseSha), ("workspace", workspaceJson
        ("attempt-" ++ toString n ++ "-engineering-a-resume-" ++ toString count) root dirs)]
  | .integrate n _ _ branch, .ok v =>
    ∃ candidateSha root count shas, count ≤ maxCounter ∧
      v = .obj [("branch", .str branch), ("candidateSha", .str candidateSha),
        ("workspaceId", .str ("attempt-" ++ toString n ++ "-integration-" ++ toString count)),
        ("workspaceRoot", .str root), ("integratedResultShas", strings shas)]
  | _, _ => True

/-- Ports that answer anything, over the Git runtime. -/
def observed : Env Call Call.Ret Seen := .of gitAnswers Seen.next

/-! ### What is asked for -/

def Prompt.text (p : Prompt) : List Char :=
  p.instructions.toList ++ contextHeading.toList ++ pretty 0 p.context

/-- The arguments of an execution, as the runtime gets them. -/
def executionOf (input : PodInput) (a : AgentInput) : Docker.Execution where
  executionId := a.executionId
  role := a.role.key
  attempt := a.attempt
  access := if a.write then "write" else "read"
  prompt := a.prompt.text
  timeoutSeconds := a.timeoutSeconds
  runId := input.runId
  workspaceId := a.workspaceId
  writeDirectories := a.writeDirectories

/-- The run was accepted with this template and got this deadline. -/
def Running (input : PodInput) (template : Template) (deadlineAt : ℕ) (s : Seen) : Prop :=
  ∃ startedAt, s.first = some startedAt ∧
    deadlineOf startedAt (startedAt + template.workflowSeconds * 1000) input.deadlineAt =
      .ok deadlineAt

/-- An execution that the runtime takes, whose mounts are refused only when the root of the
deployment is, and that is over before the attempt and the run are. -/
structure Admitted (input : PodInput) (s : Seen) (a : AgentInput) : Prop where
  taken : ∀ h : Docker.Host, ∃ sources,
    Docker.runAgentExecution h (executionOf input a) = .ok sources
  rendered : ∀ h : Docker.Host,
    Docker.renders h (executionOf input a) = Docker.bind h.hostRoot
  seconds : 10 ≤ a.timeoutSeconds ∧ a.timeoutSeconds ≤ 1800
  inTime : ∃ template deadlineAt now begun,
    validatePodTemplate input.lib input.template = .ok template ∧
      Running input template deadlineAt s ∧ s.last = some now ∧ s.begun = some begun ∧
      now + a.timeoutSeconds * 1000 ≤ begun + template.attemptSeconds * 1000 ∧
      now + a.timeoutSeconds * 1000 ≤ deadlineAt

/-- An execution is asked for only if it is admitted. -/
def admits (input : PodInput) (s : Seen) : Call → Prop
  | .execute a => Admitted input s a
  | .start _ a => Admitted input s a
  | _ => True

/-! ### Templates and plans -/

section Accepted

variable {lib : Lib}

lemma of_validatePodTemplate {v : Json} {t : Template} (h : validatePodTemplate lib v = .ok t) :
    t.maxAttempts ≤ 10 ∧ 10 ≤ t.executionSeconds ∧ t.executionSeconds ≤ 1800 := by
  have hb := bounds_of_validatePodTemplate h
  exact ⟨hb.attempts.2, hb.execution⟩

/-- What the write paths of a writer are fit for. -/
structure GoodPaths (l : List String) : Prop where
  some : l ≠ []
  few : l.length ≤ 20
  form : ∀ d ∈ l, Docker.IsDirectory d
  apart : l.Pairwise fun a b => a ≠ b ∧ inside a b = false ∧ inside b a = false

lemma isDirectory_of_assert {v : Json} {label s : String}
    (h : assertRepositoryDirectory v label = .ok s) : Docker.IsDirectory s := by
  obtain ⟨_, -, h⟩ := bind_eq_ok.mp h
  obtain ⟨_, hcanonical, h⟩ := bind_eq_ok.mp h
  obtain ⟨_, hportable, h⟩ := bind_eq_ok.mp h
  obtain ⟨_, hfree, h⟩ := bind_eq_ok.mp h
  obtain rfl := Except.ok.inj h
  exact ⟨PodStore.require_eq.mp hcanonical, PodStore.require_eq.mp hportable,
    PodStore.require_eq.mp hfree⟩

lemma withinFolded_of_inside {a b : String} (ha : Docker.IsDirectory a)
    (hb : Docker.IsDirectory b) (h : inside a b = true) : withinFolded lib a b := by
  obtain ⟨t, ht⟩ := (inside_iff a b).mp h
  have hsep : Char.toLower '/' = '/' := by decide
  rw [withinFolded, toLowerCase_of_portable ha.portable, toLowerCase_of_portable hb.portable]
  refine .inr ⟨t.map Char.toLower, ?_⟩
  rw [← ht, List.map_append, List.map_append, List.map_singleton, hsep]

/-- Directories that do not overlap where case is not told apart do not where it is. -/
lemma apart_of_overlap {a b : String} (ha : Docker.IsDirectory a) (hb : Docker.IsDirectory b)
    (h : directoriesOverlap lib a b = false) : a ≠ b ∧ inside a b = false ∧ inside b a = false := by
  have hno : ¬(withinFolded lib a b ∨ withinFolded lib b a) := by
    rw [← overlap_iff, h]
    decide
  refine ⟨?_, ?_, ?_⟩
  · rintro rfl
    exact hno (.inl (.inl rfl))
  · rw [← Bool.not_eq_true]
    exact fun hin => hno (.inl (withinFolded_of_inside ha hb hin))
  · rw [← Bool.not_eq_true]
    exact fun hin => hno (.inr (withinFolded_of_inside hb ha hin))

/-- The write paths of a writer are those of the plan, each apart from those before it. -/
lemma writePathsFrom_eq {directories : List String} {root : String} {slot : Slot}
    {claimed : List (Slot × String)} {i : ℕ} {done ps : List String} {l : List Json}
    (h : writePathsFrom lib directories root slot claimed i done l = .ok ps)
    (hform : ∀ d ∈ done, Docker.IsDirectory d)
    (hapart : done.Pairwise fun a b => a ≠ b ∧ inside a b = false ∧ inside b a = false) :
    ∃ new, ps = done ++ new ∧ l = new.map .str ∧ (∀ d ∈ ps, Docker.IsDirectory d) ∧
      ps.Pairwise fun a b => a ≠ b ∧ inside a b = false ∧ inside b a = false := by
  induction l generalizing i done with
  | nil =>
      obtain rfl := Except.ok.inj h
      exact ⟨[], by simp, rfl, hform, hapart⟩
  | cons v l ih =>
      obtain ⟨path, hpath, h⟩ := bind_eq_ok.mp h
      obtain ⟨_, -, h⟩ := bind_eq_ok.mp h
      obtain ⟨_, -, h⟩ := bind_eq_ok.mp h
      obtain ⟨_, hfree, h⟩ := bind_eq_ok.mp h
      have hdir := isDirectory_of_assert hpath
      have hform' : ∀ d ∈ done ++ [path], Docker.IsDirectory d := by
        intro d hd
        rcases List.mem_append.mp hd with hd | hd
        · exact hform d hd
        · rw [List.mem_singleton.mp hd]
          exact hdir
      have hapart' : (done ++ [path]).Pairwise fun a b =>
          a ≠ b ∧ inside a b = false ∧ inside b a = false := by
        rw [List.pairwise_append]
        refine ⟨hapart, List.pairwise_singleton _ _, fun a ha b hb => ?_⟩
        obtain rfl := List.mem_singleton.mp hb
        have hno := List.find?_eq_none.mp (noneFound_eq.mp hfree) (slot, a)
          (List.mem_append_right _ (List.mem_map.mpr ⟨a, ha, rfl⟩))
        exact apart_of_overlap (hform a ha) hdir (by simpa using hno)
      obtain ⟨new, rfl, rfl, hall, hpair⟩ := ih h hform' hapart'
      refine ⟨path :: new, by simp, ?_, hall, hpair⟩
      rw [List.map_cons, str_of_assertRepositoryPath hpath]

lemma mapM_asStr (l : List String) : (l.map Json.str).mapM Json.asStr = some l := by
  induction l with
  | nil => rfl
  | cons s l ih =>
      rw [List.map_cons, List.mapM_cons, ih]
      rfl

/-- The write paths of a writer, as the plan has them and as they are taken. -/
lemma planWriter_paths {template : Template} {directories requirementIds : List String}
    {criteria : List Criterion} {l : Fields} {claimed : List (Slot × String)} {slot : Slot}
    {w : PlanWriter}
    (h : planWriter lib template directories requirementIds criteria l claimed slot = .ok w) :
    GoodPaths w.writePaths ∧
      (((field l slot.name).get "writePaths").bind stringsOf) = some w.writePaths := by
  obtain ⟨l', hobject, h⟩ := bind_eq_ok.mp h
  obtain ⟨_, -, h⟩ := bind_eq_ok.mp h
  obtain ⟨_, -, h⟩ := bind_eq_ok.mp h
  obtain ⟨_, -, h⟩ := bind_eq_ok.mp h
  obtain ⟨_, -, h⟩ := bind_eq_ok.mp h
  obtain ⟨paths, harray, h⟩ := bind_eq_ok.mp h
  obtain ⟨_, -, h⟩ := bind_eq_ok.mp h
  obtain ⟨writePaths, hpaths, h⟩ := bind_eq_ok.mp h
  obtain rfl := Except.ok.inj h
  obtain ⟨new, hnew, rfl, hform, hapart⟩ := writePathsFrom_eq hpaths (by simp) List.Pairwise.nil
  obtain rfl : writePaths = new := hnew
  have hlen : 1 ≤ (writePaths.map Json.str).length ∧ (writePaths.map Json.str).length ≤ 20 := by
    unfold assertArray at harray
    split at harray
    · obtain ⟨_, hlen, harray⟩ := bind_eq_ok.mp harray
      obtain rfl := Except.ok.inj harray
      exact PodStore.require_eq.mp hlen
    · cases harray
  have hfields : field l slot.name = .obj l' := by
    obtain ⟨l'', hplain, hrest⟩ := bind_eq_ok.mp hobject
    obtain ⟨_, -, hrest⟩ := bind_eq_ok.mp hrest
    rw [PodStore.plainObject_eq hplain, Except.ok.inj hrest]
  rw [List.length_map] at hlen
  refine ⟨⟨List.ne_nil_of_length_pos hlen.1, hlen.2, hform, hapart⟩, ?_⟩
  have hget : l'.lookup "writePaths" = some (.arr (writePaths.map Json.str)) := by
    have harr := arr_of_assertArray harray
    unfold PodStore.field at harr
    cases hlook : l'.lookup "writePaths" with
    | none =>
        rw [hlook] at harr
        cases harr
    | some v =>
        rw [hlook] at harr
        rw [← harr]
        rfl
  rw [hfields, Json.get, hget, Option.bind_some, stringsOf, mapM_asStr]

/-- The write paths of a plan, as the observer reads them. -/
lemma planPaths_eq {v templateJson runBaseSha existingDirectories : Json} {plan : Plan}
    (h : validateAttemptPlan lib v templateJson runBaseSha existingDirectories = .ok plan) :
    planPaths plan.json = (fun slot => (plan.writers slot).writePaths) ∧
      ∀ slot, GoodPaths (plan.writers slot).writePaths := by
  obtain ⟨_, -, h⟩ := bind_eq_ok.mp h
  obtain ⟨_, -, h⟩ := bind_eq_ok.mp h
  obtain ⟨_, -, h⟩ := bind_eq_ok.mp h
  obtain ⟨l, hobject, h⟩ := bind_eq_ok.mp h
  obtain ⟨_, -, h⟩ := bind_eq_ok.mp h
  obtain ⟨_, -, h⟩ := bind_eq_ok.mp h
  obtain ⟨_, -, h⟩ := bind_eq_ok.mp h
  obtain ⟨_, -, h⟩ := bind_eq_ok.mp h
  obtain ⟨_, -, h⟩ := bind_eq_ok.mp h
  obtain ⟨_, -, h⟩ := bind_eq_ok.mp h
  obtain ⟨_, -, h⟩ := bind_eq_ok.mp h
  obtain ⟨_, -, h⟩ := bind_eq_ok.mp h
  obtain ⟨ws, hws, h⟩ := bind_eq_ok.mp h
  obtain ⟨_, hkeys, h⟩ := bind_eq_ok.mp h
  obtain ⟨a, ha, h⟩ := bind_eq_ok.mp h
  obtain ⟨b, hb, h⟩ := bind_eq_ok.mp h
  obtain ⟨q, hq, h⟩ := bind_eq_ok.mp h
  obtain ⟨_, -, h⟩ := bind_eq_ok.mp h
  obtain ⟨_, -, h⟩ := bind_eq_ok.mp h
  obtain rfl := Except.ok.inj h
  have hv : v = .obj l := by
    obtain ⟨l', hplain, hrest⟩ := bind_eq_ok.mp hobject
    obtain ⟨_, -, hrest⟩ := bind_eq_ok.mp hrest
    rw [PodStore.plainObject_eq hplain, Except.ok.inj hrest]
  have hwriters : l.lookup "writers" = some (.obj ws) := by
    have hobj := PodStore.plainObject_eq hws
    unfold PodStore.field at hobj
    cases hlook : l.lookup "writers" with
    | none =>
        rw [hlook] at hobj
        cases hobj
    | some x =>
        rw [hlook] at hobj
        rw [← hobj]
        rfl
  have hpath (slot : Slot) (w : PlanWriter) (hw : (((field ws slot.name).get "writePaths").bind
      stringsOf) = some w.writePaths) : planPaths v slot = w.writePaths := by
    have hlook : ws.lookup slot.name = some (field ws slot.name) := by
      unfold PodStore.field at hw ⊢
      cases hx : ws.lookup slot.name with
      | none =>
          rw [hx] at hw
          cases hw
      | some x => rfl
    rw [planPaths, hv, Json.get, hwriters, Option.bind_some, Json.get, hlook, Option.bind_some, hw,
      Option.getD_some]
  refine ⟨funext fun slot => ?_, fun slot => ?_⟩
  · cases slot with
    | engineeringA => exact hpath _ a (planWriter_paths ha).2
    | engineeringB => exact hpath _ b (planWriter_paths hb).2
    | qaTests => exact hpath _ q (planWriter_paths hq).2
  · cases slot with
    | engineeringA => exact (planWriter_paths ha).1
    | engineeringB => exact (planWriter_paths hb).1
    | qaTests => exact (planWriter_paths hq).1

end Accepted

end Bimo.Controller
