import Bimo.Contract
import Bimo.Sizes

/-!
The task of a deployment, from the command line to the controller.

The command line takes a task of up to 65536 bytes. It sends it in an envelope, which is JSON on
the controller's standard input, and the controller of a pod writes it into the record of the
run, which is JSON over several lines. In both the task is escaped and has company, so the limits
there are not those of the command line. The controller of a workflow does not take every
character either. The main result says which tasks get through.
-/

namespace Bimo.Task

open Wire (Json len bytes text escapedLen)
open PodStore (require require_eq prettySize serializeRecord initialRun)
open Contract (assertText isUnsafe isBlank)
open Timestamp (toISOString)

def taskBytes : ℕ := 64 * 1024
def envelopeBytes : ℕ := 128 * 1024

/-- What the kinds of templates do not share. -/
inductive Kind
  | workflow (port : ℕ) (publicUrl : String)
  | pod (repository baseSha targetBranch : String) (cloneToken : Option String)

/-- What a deployment sends to its controller beside the task. -/
structure Deployment where
  template : String
  templateDigest : String
  deployment : String
  key : String
  model : String
  agentRuntime : String
  image : String
  runId : String
  kind : Kind

/-- The check of the command line. -/
def deploy (task : String) : Except String Unit :=
  require (task.toList.all isBlank = false ∧ len task ≤ taskBytes)
    "task must contain 1 to 65536 bytes"

/-- What is written to the controller's standard input. -/
def envelope (d : Deployment) (task : String) : Json :=
  .obj ([("version", Wire.ofNat 1), ("template", .str d.template),
    ("templateDigest", .str d.templateDigest), ("deployment", .str d.deployment),
    ("task", .str task), ("key", .str d.key), ("model", .str d.model),
    ("agentRuntime", .str d.agentRuntime), ("image", .str d.image)] ++
    (match d.kind with
    | .workflow port publicUrl => [("port", Wire.ofNat port), ("publicUrl", .str publicUrl)]
    | .pod repository baseSha targetBranch cloneToken =>
      [("repository", .str repository), ("baseSha", .str baseSha),
        ("targetBranch", .str targetBranch), ("cloneToken", cloneToken.elim .null .str)]) ++
    [("runId", Json.str d.runId)])

def readStdin (maximumBytes : ℕ) (raw : List Char) : Except String Unit :=
  require (bytes raw ≤ maximumBytes) s!"stdin exceeds {maximumBytes} bytes"

/-- The assignment of a pod run. -/
def assignment (task repository baseSha targetBranch : String) : Json :=
  .obj [("task", .str task), ("repository", .str repository), ("baseSha", .str baseSha),
    ("targetBranch", .str targetBranch)]

/-- The record that a pod run begins with. -/
def runRecord (d : Deployment) (task repository baseSha targetBranch : String) (now : ℤ) : Json :=
  .obj (initialRun d.runId (assignment task repository baseSha targetBranch) (toISOString now))

/-- What the controller does with the task before the run: it reads the envelope, and then a
workflow checks the text, a pod checks it and makes its record. -/
def admitTask (d : Deployment) (now : ℤ) (task : String) : Except String Unit := do
  readStdin envelopeBytes (text (envelope d task))
  match d.kind with
  | .workflow _ _ =>
    let _ ← assertText (.str task) "task" taskBytes
    pure ()
  | .pod repository baseSha targetBranch _ =>
    require (task.toList.all isBlank = false ∧ len task ≤ taskBytes)
      "pod controller envelope is invalid"
    let _ ← serializeRecord prettySize (runRecord d task repository baseSha targetBranch now)
      "run record"
    pure ()

/-! ### What escaping adds -/

/-- The envelope without the task. -/
def envelopeRest (d : Deployment) : ℕ := bytes (text (envelope d ""))

/-- The record without the task. -/
def recordRest (d : Deployment) (repository baseSha targetBranch : String) (now : ℤ) : ℕ :=
  prettySize (runRecord d "" repository baseSha targetBranch now)

@[simp] lemma escapedLen_empty : escapedLen "" = 0 := by decide

lemma bytes_envelope (d : Deployment) (task : String) :
    bytes (text (envelope d task)) = escapedLen task + envelopeRest d := by
  unfold envelopeRest envelope
  rw [Sizes.bytes_text_obj (by simp), Sizes.bytes_text_obj (by simp)]
  simp only [List.map_append, List.map_cons, List.map_nil, List.sum_append, List.sum_cons,
    List.sum_nil, Sizes.fieldBytes, Sizes.bytes_text_str, escapedLen_empty]
  omega

lemma prettySize_runRecord (d : Deployment) (task repository baseSha targetBranch : String)
    (now : ℤ) : prettySize (runRecord d task repository baseSha targetBranch now) =
      escapedLen task + recordRest d repository baseSha targetBranch now := by
  unfold recordRest prettySize runRecord initialRun assignment
  rw [Sizes.bytes_pretty_obj _ (by simp), Sizes.bytes_pretty_obj _ (by simp)]
  simp only [List.map_cons, List.map_nil, List.sum_cons, List.sum_nil, Sizes.prettyFieldBytes]
  rw [Sizes.bytes_pretty_obj _ (by simp), Sizes.bytes_pretty_obj _ (by simp)]
  simp only [List.map_cons, List.map_nil, List.sum_cons, List.sum_nil, Sizes.prettyFieldBytes,
    Sizes.bytes_pretty_str, escapedLen_empty]
  omega

/-- The record of a run is not deep. -/
lemma shallow_runRecord (d : Deployment) (task repository baseSha targetBranch : String) (now : ℤ) :
    PodStore.shallow 0 (runRecord d task repository baseSha targetBranch now) = true := by
  rfl

/-! ### Which tasks get through -/

/-- The task fits, escaped, beside what goes with it, and a workflow finds no control character
in it that it does not take. -/
def Fits (d : Deployment) (now : ℤ) (task : String) : Prop :=
  escapedLen task + envelopeRest d ≤ envelopeBytes ∧
    match d.kind with
    | .workflow _ _ => task.toList.any isUnsafe = false
    | .pod repository baseSha targetBranch _ =>
      escapedLen task + recordRest d repository baseSha targetBranch now ≤ PodStore.maxRecordBytes

instance (d : Deployment) (now : ℤ) (task : String) : Decidable (Fits d now task) :=
  match d with
  | { kind := .workflow _ _, .. } => inferInstanceAs (Decidable (_ ∧ _ = _))
  | { kind := .pod _ _ _ _, .. } => inferInstanceAs (Decidable (_ ∧ _ ≤ _))

lemma fits_of_admitTask {d : Deployment} {now : ℤ} {task : String}
    (h : admitTask d now task = .ok ()) :
    Fits d now task := by
  unfold admitTask at h
  obtain ⟨_, hread, hrest⟩ := bind_eq_ok.mp h
  refine ⟨?_, ?_⟩
  · rw [← bytes_envelope]
    exact require_eq.mp hread
  · cases hk : d.kind with
    | workflow port publicUrl =>
        rw [hk] at hrest
        obtain ⟨_, hcheck, -⟩ := bind_eq_ok.mp hrest
        obtain ⟨_, -, hcheck⟩ := bind_eq_ok.mp hcheck
        obtain ⟨_, hcheck, -⟩ := bind_eq_ok.mp hcheck
        exact require_eq.mp hcheck
    | pod repository baseSha targetBranch cloneToken =>
        rw [hk] at hrest
        obtain ⟨_, -, hrest⟩ := bind_eq_ok.mp hrest
        obtain ⟨_, hrecord, -⟩ := bind_eq_ok.mp hrest
        obtain ⟨_, -, hrecord⟩ := bind_eq_ok.mp hrecord
        obtain ⟨_, hsize, -⟩ := bind_eq_ok.mp hrecord
        dsimp only
        rw [← prettySize_runRecord]
        exact require_eq.mp hsize

lemma admitTask_of_fits {d : Deployment} {now : ℤ} {task : String} (htask : deploy task = .ok ())
    (h : Fits d now task) : admitTask d now task = .ok () := by
  have htask := require_eq.mp htask
  obtain ⟨hread, hrest⟩ := h
  rw [← bytes_envelope] at hread
  unfold admitTask
  refine bind_eq_ok.mpr ⟨(), require_eq.mpr hread, ?_⟩
  cases hk : d.kind with
  | workflow port publicUrl =>
      rw [hk] at hrest
      have hcheck : assertText (.str task) "task" taskBytes = .ok task :=
        bind_eq_ok.mpr ⟨(), require_eq.mpr htask,
          bind_eq_ok.mpr ⟨(), require_eq.mpr hrest, rfl⟩⟩
      exact bind_eq_ok.mpr ⟨task, hcheck, rfl⟩
  | pod repository baseSha targetBranch cloneToken =>
      rw [hk] at hrest
      dsimp only at hrest
      rw [← prettySize_runRecord] at hrest
      have hrecord : serializeRecord prettySize
          (runRecord d task repository baseSha targetBranch now) "run record" = .ok _ :=
        bind_eq_ok.mpr ⟨(), require_eq.mpr (shallow_runRecord ..),
          bind_eq_ok.mpr ⟨(), require_eq.mpr hrest, rfl⟩⟩
      exact bind_eq_ok.mpr ⟨(), require_eq.mpr htask, bind_eq_ok.mpr ⟨_, hrecord, rfl⟩⟩

/-- **Which tasks can run.** Of the tasks that the command line accepts, the controller admits
those that fit its limits once they are escaped and, in a workflow, have no control character. -/
theorem task_admitted_iff (d : Deployment) (now : ℤ) (task : String) (h : deploy task = .ok ()) :
    admitTask d now task = .ok () ↔ Fits d now task :=
  ⟨fits_of_admitTask, admitTask_of_fits h⟩

/-- A deployment of this kind. -/
def sampleDeployment (kind : Kind) : Deployment where
  template := "react-solo"
  templateDigest := "cb9f"
  deployment := "shop"
  key := "sk-or-v1-0"
  model := "openrouter/deepseek/deepseek-v4-flash"
  agentRuntime := "opencode"
  image := "sha256:5d1e"
  runId := "20260101000000-5e21aa01"
  kind := kind

def sampleWorkflow : Deployment := sampleDeployment (.workflow 8080 "http://shop.example")

def samplePod : Deployment :=
  sampleDeployment (.pod "https://github.com/zaycruz/bimo.git" "3f" "main" none)

/-- A short task gets through to either kind of controller. -/
theorem short_task_admitted :
    (deploy "add a page" = .ok () ∧ Fits sampleWorkflow 0 "add a page" ∧
      admitTask sampleWorkflow 0 "add a page" = .ok ()) ∧
    Fits samplePod 0 "add a page" ∧ admitTask samplePod 0 "add a page" = .ok () := by
  have hdeploy : deploy "add a page" = .ok () := by decide +kernel
  have hworkflow : Fits sampleWorkflow 0 "add a page" := by decide +kernel
  have hpod : Fits samplePod 0 "add a page" := by decide +kernel
  exact ⟨⟨hdeploy, hworkflow, (task_admitted_iff _ _ _ hdeploy).mpr hworkflow⟩, hpod,
    (task_admitted_iff _ _ _ hdeploy).mpr hpod⟩

/-- A task of so many plain letters. -/
def letters (n : ℕ) : String := String.ofList (List.replicate n 'a')

lemma escapedLen_letters (n : ℕ) : escapedLen (letters n) = n := by
  have hsize : Wire.escapedSize 'a' = 1 := by decide
  rw [escapedLen, letters, String.toList_ofList, List.map_replicate, List.sum_replicate, hsize,
    nsmul_eq_mul, Nat.mul_one, Nat.cast_id]

lemma deploy_letters {n : ℕ} (hpos : 0 < n) (hn : n ≤ taskBytes) : deploy (letters n) = .ok () := by
  have hsize : Char.utf8Size 'a' = 1 := by decide
  have hblank : isBlank 'a' = false := by decide
  refine require_eq.mpr ⟨?_, ?_⟩
  · obtain ⟨m, rfl⟩ := Nat.exists_eq_add_of_lt hpos
    rw [letters, String.toList_ofList, Nat.zero_add, List.replicate_succ, List.all_cons, hblank,
      Bool.false_and]
  · rw [len, bytes, letters, String.toList_ofList, List.map_replicate, List.sum_replicate, hsize,
      nsmul_eq_mul, Nat.mul_one, Nat.cast_id]
    exact hn

/-- A task as long as the limit of a record leaves no place for the rest of it. -/
lemma admitTask_letters {n : ℕ} (hmax : PodStore.maxRecordBytes ≤ n) :
    admitTask samplePod 0 (letters n) ≠ .ok () := by
  intro h
  have hfits := (fits_of_admitTask h).2
  have hbound : escapedLen (letters n) + recordRest samplePod
      "https://github.com/zaycruz/bimo.git" "3f" "main" 0 ≤ PodStore.maxRecordBytes := hfits
  rw [escapedLen_letters, recordRest, prettySize] at hbound
  omega

/-- The command line accepts tasks that no pod and no workflow runs: the first is too long for
the record of a run, the second has a bell in it. -/
theorem accepted_task_not_admitted :
    (∃ task, deploy task = .ok () ∧ admitTask samplePod 0 task ≠ .ok ()) ∧
      ∃ task, deploy task = .ok () ∧ admitTask sampleWorkflow 0 task ≠ .ok () := by
  have hpos : 0 < taskBytes := by decide
  refine ⟨⟨letters taskBytes, deploy_letters hpos le_rfl, ?_⟩, "ring\x07", ?_, ?_⟩
  · exact admitTask_letters (by decide)
  · decide +kernel
  · decide +kernel

end Bimo.Task
