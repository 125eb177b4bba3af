import Bimo.Trace
import Bimo.ControllerRuns
import Bimo.Admission

/-!
Every execution that the controller of a pod asks for is admitted.

What matters for an execution lasts: when the run and the attempt began and, once there is a
plan, its write paths. Each part of the controller keeps that and asks for executions only with
ids, directories and a prompt that the runtime takes. The time an execution gets is computed from
the clock right before it is asked for.
-/

namespace Bimo.Controller

open Wire (Json bytes)
open PodStore (Fields field plainObject pretty put spread)
open Contract

/-! ### What lasts -/

/-- Nothing but the last reading of the clock matters for what changes. -/
structure Lasting (I : Seen → Prop) : Prop where
  same : ∀ s t : Seen, t.first = s.first → t.begun = s.begun → t.paths = s.paths → I s → I t
  started : ∀ s, I s → s.first.isSome = true

/-- A call that the observer does not note and that is no execution. -/
def unnoted : Call → Bool
  | .now | .begin _ | .writeAttemptPlan _ _ | .execute _ | .start _ _ => false
  | _ => true

lemma next_of_unnoted {s : Seen} {o : Call} (ho : unnoted o = true) (r : o.Ret) :
    s.next o r = { s with last := none } := by
  cases o <;> first | rfl | cases ho

/-- The program keeps what lasts, asks only for executions that are admitted, and returns what is
described. -/
structure Obeys (input : PodInput) (I : Seen → Prop) {α : Type} (p : Io α) (R : α → Prop) :
    Prop where
  safe : ∀ s, I s → Safe observed (admits input) p s fun r t => I t ∧ ∀ a, r = .ok a → R a

section Obeys

variable {input : PodInput} {I : Seen → Prop} {α β : Type} {R : α → Prop}

lemma Obeys.bind {p : Io α} {f : α → Io β} {S : β → Prop} (hp : Obeys input I p R)
    (hf : ∀ a, R a → Obeys input I (f a) S) : Obeys input I (p >>= f) S := by
  refine ⟨fun s hs => Safe.bind (hp.safe s hs) ?_ ?_⟩
  · rintro a t ⟨ht, hR⟩
    exact (hf a (hR a rfl)).safe t ht
  · rintro e t ⟨ht, -⟩
    exact ⟨ht, nofun⟩

lemma obeys_pure {a : α} (h : R a) : Obeys input I (pure a) R := by
  refine ⟨fun s hs => ⟨hs, fun b hb => ?_⟩⟩
  obtain rfl := Except.ok.inj hb
  exact h

lemma obeys_fail (e : Err) : Obeys input I (Prog.fail e : Io α) R := ⟨fun _ hs => ⟨hs, nofun⟩⟩

lemma Obeys.weaken {p : Io α} {S : α → Prop} (hp : Obeys input I p R) (h : ∀ a, R a → S a) :
    Obeys input I p S := by
  refine ⟨fun s hs => (hp.safe s hs).mono ?_⟩
  rintro r t ⟨ht, hR⟩
  exact ⟨ht, fun a ha => h a (hR a ha)⟩

lemma obeys_ofExcept {x : Except String α} {f : String → Err} :
    Obeys input I (Prog.ofExcept (x.mapError f)) fun a => x = .ok a := by
  cases x with
  | ok a => exact obeys_pure rfl
  | error e => exact obeys_fail _

lemma Obeys.valid {x : Except String α} {f : α → Io β} {S : β → Prop}
    (hf : ∀ a, x = .ok a → Obeys input I (f a) S) : Obeys input I (Controller.valid x >>= f) S :=
  obeys_ofExcept.bind hf

lemma Obeys.port {x : Except String α} {f : α → Io β} {S : β → Prop}
    (hf : ∀ a, x = .ok a → Obeys input I (f a) S) : Obeys input I (Controller.port x >>= f) S :=
  obeys_ofExcept.bind hf

lemma obeys_port {x : Except String α} : Obeys input I (Controller.port x) fun a => x = .ok a :=
  obeys_ofExcept

lemma Obeys.attempt {p : Io α} (hp : Obeys input I p R) :
    Obeys input I (p.attempt : Io (Except Err α)) fun x => ∀ a, x = .ok a → R a := by
  refine ⟨fun s hs => ?_⟩
  rw [safe_attempt]
  refine (hp.safe s hs).mono ?_
  rintro r t ⟨ht, hR⟩
  refine ⟨ht, fun x hx => ?_⟩
  obtain rfl := Except.ok.inj hx
  exact hR

variable (hI : Lasting I)
include hI

lemma obeys_ask {o : Call} (ho : unnoted o = true) :
    Obeys input I (ask o) fun r => ∃ s, I s ∧ gitAnswers s o r := by
  refine ⟨fun s hs => ⟨?_, ?_⟩⟩
  · cases o <;> trivial
  · rintro r t ⟨hr, rfl⟩
    rw [next_of_unnoted ho]
    refine ⟨hI.same s _ rfl rfl rfl hs, fun a ha => ?_⟩
    obtain rfl := Except.ok.inj ha
    exact ⟨s, hs, hr⟩

lemma Obeys.ask {o : Call} {f : o.Ret → Io β} {S : β → Prop} (ho : unnoted o = true)
    (hf : ∀ r, (∃ s, I s ∧ gitAnswers s o r) → Obeys input I (f r) S) :
    Obeys input I (Controller.ask o >>= f) S :=
  (obeys_ask hI ho).bind hf

/-- A call whose answer does not matter. -/
lemma obeys_ask' {o : Call} (ho : unnoted o = true) : Obeys input I (ask o) fun _ => True :=
  (obeys_ask hI ho).weaken fun _ _ => trivial

/-- A reading of the clock, once the run has begun. -/
lemma safe_now {s : Seen} (hs : I s) {Q : Except Err ℕ → Seen → Prop}
    (herr : ∀ e t, I t → Q (.error e) t)
    (hok : ∀ n t, I t → t.last = some n → Q (.ok n) t) :
    Safe observed (admits input) now s Q := by
  refine ⟨trivial, ?_⟩
  rintro r t ⟨-, rfl⟩
  cases r with
  | none => exact herr _ _ (hI.same s _ rfl rfl rfl hs)
  | some n =>
      obtain ⟨m, hm⟩ := Option.isSome_iff_exists.mp (hI.started s hs)
      refine hok n _ (hI.same s _ ?_ rfl rfl hs) rfl
      simp [Seen.next, hm]

lemma obeys_remainingMs {cfg : Config} (deadlineAt : ℕ) :
    Obeys input I (remainingMs cfg deadlineAt) fun _ => True := by
  refine ⟨fun s hs => ?_⟩
  unfold remainingMs
  rw [safe_bind]
  refine safe_now hI hs (fun e t ht => ⟨ht, nofun⟩) fun n t ht _ => ?_
  dsimp only
  split_ifs
  · exact ⟨ht, nofun⟩
  · exact ⟨ht, fun _ _ => trivial⟩

/-- The time of an execution, counted from the reading of the clock. -/
lemma safe_executionSeconds {cfg : Config} {deadlineAt : ℕ} {s : Seen} (hs : I s)
    (htemplate : 10 ≤ cfg.template.executionSeconds) {Q : Except Err ℕ → Seen → Prop}
    (herr : ∀ e t, I t → Q (.error e) t)
    (hok : ∀ seconds n t, I t → t.last = some n → 10 ≤ seconds →
      seconds ≤ cfg.template.executionSeconds →
      n + seconds * 1000 ≤ min cfg.deadlineAt deadlineAt → Q (.ok seconds) t) :
    Safe observed (admits input) (executionSeconds cfg deadlineAt) s Q := by
  unfold executionSeconds remainingMs
  rw [safe_bind, safe_bind]
  refine safe_now hI hs herr fun n t ht hlast => ?_
  dsimp only
  split_ifs with hover
  · exact herr _ t ht
  · rw [safe_pure]
    dsimp only
    split_ifs with hshort
    · exact herr _ t ht
    · refine hok _ n t ht hlast (by omega) (Nat.min_le_left _ _) ?_
      have hseconds : min cfg.template.executionSeconds
          ((min cfg.deadlineAt deadlineAt - n) / 1000) ≤
          (min cfg.deadlineAt deadlineAt - n) / 1000 := Nat.min_le_right _ _
      omega

end Obeys

/-! ### Executions -/

/-- The input of a run was accepted with this configuration. -/
structure Configured (input : PodInput) (cfg : Config) : Prop where
  template : validatePodTemplate input.lib input.template = .ok cfg.template
  run : PodStore.isRunId input.runId = true

/-- The attempt began, and with that it got this deadline. -/
def Trying (input : PodInput) (cfg : Config) (deadlineAt : ℕ) (s : Seen) : Prop :=
  Running input cfg.template cfg.deadlineAt s ∧ ∃ begun, s.begun = some begun ∧
    deadlineAt = min cfg.deadlineAt (begun + cfg.template.attemptSeconds * 1000)

/-- An execution that the runtime takes, whatever time it gets. -/
def Fit (input : PodInput) (a : AgentInput) : Prop :=
  ∀ seconds, 10 ≤ seconds → seconds ≤ 1800 → ∃ workspace dirs,
    Docker.Proper (executionOf input { a with timeoutSeconds := seconds }) workspace dirs

section Executions

variable {input : PodInput} {cfg : Config} {deadlineAt : ℕ} {I : Seen → Prop}

lemma admitted_of {s : Seen} {a : AgentInput} {seconds n : ℕ} (hcfg : Configured input cfg)
    (hfit : Fit input a) (ht : Trying input cfg deadlineAt s) (hlast : s.last = some n)
    (hmin : 10 ≤ seconds) (hmax : seconds ≤ cfg.template.executionSeconds)
    (hend : n + seconds * 1000 ≤ min cfg.deadlineAt deadlineAt) :
    Admitted input s { a with timeoutSeconds := seconds } := by
  have hbound : seconds ≤ 1800 := hmax.trans (of_validatePodTemplate hcfg.template).2.2
  obtain ⟨workspace, dirs, hproper⟩ := hfit seconds hmin hbound
  obtain ⟨hrunning, begun, hbegun, rfl⟩ := ht
  refine ⟨fun h => ⟨_, hproper.taken h⟩, hproper.renders, ⟨hmin, hbound⟩,
    cfg.template, cfg.deadlineAt, n, begun, hcfg.template, hrunning, hlast, hbegun, ?_, ?_⟩
  · exact hend.trans ((Nat.min_le_right _ _).trans (Nat.min_le_right _ _))
  · exact hend.trans (Nat.min_le_left _ _)

variable (hcfg : Configured input cfg) (hI : Lasting I)
  (htrying : ∀ s, I s → Trying input cfg deadlineAt s)
include hcfg hI htrying

lemma obeys_runAgent {a : AgentInput} (hfit : Fit input a) :
    Obeys input I (runAgent cfg deadlineAt a) fun _ => True := by
  refine (obeys_remainingMs hI deadlineAt).bind fun _ _ => ⟨fun s hs => ?_⟩
  rw [safe_bind]
  refine safe_executionSeconds hI hs (of_validatePodTemplate hcfg.template).2.1
    (fun e t ht => ⟨ht, nofun⟩) fun seconds n t ht hlast hmin hmax hend => ?_
  refine ⟨admitted_of hcfg hfit (htrying t ht) hlast hmin hmax hend, ?_⟩
  rintro r u ⟨-, rfl⟩
  exact (obeys_ofExcept.weaken fun _ _ => trivial).safe _ (hI.same t _ rfl rfl rfl ht)

lemma obeys_launch {at' : Attempt} (hdeadline : at'.deadlineAt = deadlineAt) {slot : Slot}
    {a : AgentInput} (hfit : Fit input a) :
    Obeys input I (launch cfg at' slot a) fun _ => True := by
  subst hdeadline
  refine ⟨fun s hs => ?_⟩
  unfold launch
  rw [safe_bind, safe_attempt]
  refine safe_executionSeconds hI hs (of_validatePodTemplate hcfg.template).2.1
    (fun e t ht => ?_) fun seconds n t ht hlast hmin hmax hend => ?_
  · exact (obeys_ask' hI rfl).safe t ht
  · refine ⟨admitted_of hcfg hfit (htrying t ht) hlast hmin hmax hend, ?_⟩
    rintro r u ⟨-, rfl⟩
    exact ⟨hI.same t _ rfl rfl rfl ht, fun _ _ => trivial⟩

end Executions

/-! ### Ids and prompts -/

lemma text_of_buildPrompt {instructions phase : String} {details : Fields} {p : Prompt}
    (h : buildPrompt instructions phase details = .ok p) :
    p.text.all isBlank = false ∧ bytes p.text ≤ 256 * 1024 := by
  unfold buildPrompt at h
  dsimp only at h
  split_ifs at h with hlong
  obtain rfl := Except.ok.inj h
  refine ⟨?_, ?_⟩
  · have hheading : contextHeading.toList.all isBlank = false := by decide
    simp only [Prompt.text, List.all_append, hheading, Bool.and_false, Bool.false_and]
  · simp only [Prompt.text, bytes, List.map_append, List.sum_append, Wire.len] at hlong ⊢
    omega

lemma isExecutionId_attemptId {at' : Attempt} {suffix : String} (hn : at'.n ≤ 10)
    (hsuffix : suffix.toList.all Docker.isIdChar = true) (hlen : suffix.length ≤ 40) :
    Docker.isExecutionId (attemptId at' suffix) = true := by
  rw [attemptId, String.append_assoc]
  refine Docker.isExecutionId_attempt hn (by decide) ?_ ?_
  · rw [String.toList_append, List.all_append, hsuffix, Bool.and_true]
    decide
  · have hhead : "attempt-".length = 8 := by decide
    have hdash : "-".length = 1 := by decide
    rw [String.length_append, hhead, hdash]
    omega

lemma all_counter (count : ℕ) : (toString count).toList.all Docker.isIdChar = true :=
  Docker.all_isIdChar_of_digits (Docker.all_digits count)

lemma length_counter {count : ℕ} (h : count ≤ maxCounter) : (toString count).length ≤ 16 :=
  Docker.length_digits (by decide) (h.trans_lt (by decide))

/-- The id of a worktree that is counted. -/
lemma isExecutionId_counted {n count : ℕ} {middle : String} (hn : n ≤ 10)
    (hcount : count ≤ maxCounter) (hmiddle : middle.toList.all Docker.isIdChar = true)
    (hlen : middle.length ≤ 30) :
    Docker.isExecutionId ("attempt-" ++ toString n ++ middle ++ toString count) = true := by
  have hdigits := length_counter hcount
  rw [String.append_assoc]
  refine Docker.isExecutionId_attempt hn (by decide) ?_ ?_
  · rw [String.toList_append, List.all_append, hmiddle, all_counter]
    rfl
  · have hhead : "attempt-".length = 8 := by decide
    rw [String.length_append, hhead]
    omega

lemma all_isIdChar_of_isSha1 {sha : String} (h : isSha1 sha = true) :
    sha.toList.all Docker.isIdChar = true ∧ sha.length = 40 := by
  simp only [isSha1, Bool.and_eq_true, beq_iff_eq, List.all_eq_true] at h
  refine ⟨List.all_eq_true.mpr fun c hc => ?_, h.2⟩
  have hhex := h.1 c hc
  simp only [isHex, Bool.or_eq_true, Bool.and_eq_true, decide_eq_true_eq] at hhex
  simp only [Docker.isIdChar, Bool.or_eq_true]
  rcases hhex with hdigit | ⟨ha, hf⟩
  · exact .inl (.inr hdigit)
  · refine .inl (.inl ?_)
    simp only [Char.isLower, Bool.and_eq_true, decide_eq_true_eq]
    exact ⟨ha, UInt32.le_trans hf (by decide : 'f'.val ≤ 'z'.val)⟩

/-- The id of a view for a checker. -/
lemma isExecutionId_view {n : ℕ} {slot : Slot} {sha : String} (hn : n ≤ 10)
    (hsha : isSha1 sha = true) :
    Docker.isExecutionId ("c-" ++ toString n ++ "-" ++ slot.name ++ "-" ++ sha) = true := by
  obtain ⟨hall, hlen⟩ := all_isIdChar_of_isSha1 hsha
  have hslot : ("-" ++ slot.name ++ "-").toList.all Docker.isIdChar = true ∧
      ("-" ++ slot.name ++ "-").length ≤ 15 := by
    cases slot <;> decide
  have happ : "c-" ++ toString n ++ "-" ++ slot.name ++ "-" ++ sha =
      "c-" ++ toString n ++ ("-" ++ slot.name ++ "-" ++ sha) := by
    simp only [String.append_assoc]
  rw [happ]
  refine Docker.isExecutionId_attempt hn (by decide) ?_ ?_
  · rw [String.toList_append, List.all_append, hslot.1, hall]
    rfl
  · have hhead : "c-".length = 2 := by decide
    rw [String.length_append, hhead, hlen]
    omega

/-! ### The parts of an attempt -/

/-- The plan of the attempt is on record. -/
def Working (input : PodInput) (cfg : Config) (at' : Attempt) (s : Seen) : Prop :=
  Trying input cfg at'.deadlineAt s ∧ s.paths = fun slot => (at'.plan.writers slot).writePaths

lemma lasting_running {input : PodInput} {template : Template} {deadlineAt : ℕ} :
    Lasting (Running input template deadlineAt) := by
  refine ⟨fun s t hfirst _ _ ⟨started, hs, hd⟩ => ⟨started, hfirst.trans hs, hd⟩, ?_⟩
  rintro s ⟨started, hs, -⟩
  rw [hs]
  rfl

lemma lasting_trying {input : PodInput} {cfg : Config} {deadlineAt : ℕ} :
    Lasting (Trying input cfg deadlineAt) := by
  refine ⟨fun s t hfirst hbegun hpaths hs => ?_, fun s hs => lasting_running.started s hs.1⟩
  obtain ⟨hrunning, begun, hb, hd⟩ := hs
  exact ⟨lasting_running.same s t hfirst hbegun hpaths hrunning, begun, hbegun.trans hb, hd⟩

lemma lasting_working {input : PodInput} {cfg : Config} {at' : Attempt} :
    Lasting (Working input cfg at') := by
  refine ⟨fun s t hfirst hbegun hpaths hs => ?_, fun s hs => lasting_trying.started s hs.1⟩
  exact ⟨lasting_trying.same s t hfirst hbegun hpaths hs.1, hpaths.trans hs.2⟩

/-- A workspace whose id and directories the runtime takes. -/
def IsWorkspace (paths : List String) (v : Json) : Prop :=
  ∃ id root dirs, v = workspaceJson id root dirs ∧ Docker.isExecutionId id = true ∧ dirs.Perm paths

lemma fit_of {input : PodInput} {a : AgentInput} {workspace : String} (dirs : List String)
    (hrun : PodStore.isRunId input.runId = true) (hid : Docker.isExecutionId a.executionId = true)
    (hattempt : 1 ≤ a.attempt ∧ a.attempt ≤ 10) (hworkspaceId : a.workspaceId = .str workspace)
    (hworkspace : Docker.isExecutionId workspace = true)
    (haccess : a.write = true ∧ dirs ≠ [] ∨ a.write = false ∧ dirs = [])
    (hprompt : a.prompt.text.all isBlank = false ∧ bytes a.prompt.text ≤ 256 * 1024)
    (hdirs : a.writeDirectories = .arr (dirs.map .str)) (hfew : dirs.length ≤ 20)
    (hform : ∀ d ∈ dirs, Docker.IsDirectory d)
    (hapart : dirs.Pairwise fun a b => a ≠ b ∧ inside a b = false ∧ inside b a = false) :
    Fit input a := by
  intro seconds hmin hmax
  refine ⟨workspace, dirs, ⟨hid, ⟨hattempt.1, hattempt.2.trans (by decide)⟩, hrun, hworkspaceId,
    hworkspace, ?_, ?_, hprompt, ⟨hmin, hmax⟩, hdirs, hfew.trans (by decide), hform, hapart⟩⟩
  · change isName a.role.key = true
    cases a.role with
    | planner => decide
    | writer slot => cases slot <;> decide
    | checker => decide
    | conformance gate => cases gate <;> decide
  · rcases haccess with ⟨hwrite, hne⟩ | ⟨hwrite, hnil⟩
    · exact .inl ⟨by simp [executionOf, hwrite], hne⟩
    · exact .inr ⟨by simp [executionOf, hwrite], hnil⟩

/-- An execution that reads. -/
lemma fit_read {input : PodInput} {a : AgentInput} {workspace : String}
    (hrun : PodStore.isRunId input.runId = true) (hid : Docker.isExecutionId a.executionId = true)
    (hattempt : 1 ≤ a.attempt ∧ a.attempt ≤ 10) (hworkspaceId : a.workspaceId = .str workspace)
    (hworkspace : Docker.isExecutionId workspace = true) (hwrite : a.write = false)
    (hprompt : a.prompt.text.all isBlank = false ∧ bytes a.prompt.text ≤ 256 * 1024)
    (hdirs : a.writeDirectories = .arr []) : Fit input a :=
  fit_of [] hrun hid hattempt hworkspaceId hworkspace (.inr ⟨hwrite, rfl⟩) hprompt hdirs
    (by simp) (by simp) List.Pairwise.nil

lemma GoodPaths.perm {l l' : List String} (h : GoodPaths l) (hl : l'.Perm l) : GoodPaths l' := by
  refine ⟨fun hnil => h.some ?_, hl.length_eq ▸ h.few, fun d hd => h.form d (hl.mem_iff.mp hd), ?_⟩
  · subst hnil
    exact hl.symm.eq_nil
  · refine (hl.symm.pairwise_iff ?_).mp h.apart
    rintro a b ⟨hne, hin, hout⟩
    exact ⟨hne.symm, hout, hin⟩

/-- An execution of a writer in its workspace. -/
lemma fit_writerInput {input : PodInput} {cfg : Config} {at' : Attempt} {prior : List Evidence}
    {slot : Slot} {workspace : Json} {inbox : List Json} {id baseSha : String} {a : AgentInput}
    (hrun : PodStore.isRunId input.runId = true) (hn : 1 ≤ at'.n ∧ at'.n ≤ 10)
    (hid : Docker.isExecutionId id = true) (hgood : GoodPaths (at'.plan.writers slot).writePaths)
    (hworkspace : IsWorkspace (at'.plan.writers slot).writePaths workspace)
    (h : writerInput cfg at' prior slot workspace inbox id baseSha = .ok a) : Fit input a := by
  obtain ⟨prompt, hprompt, h⟩ := bind_eq_ok.mp h
  obtain rfl := Except.ok.inj h
  obtain ⟨workspaceId, root, dirs, rfl, hworkspaceId, hperm⟩ := hworkspace
  have hdirs := hgood.perm hperm
  exact fit_of dirs hrun hid hn rfl hworkspaceId (.inl ⟨rfl, hdirs.some⟩)
    (text_of_buildPrompt hprompt) rfl hdirs.few hdirs.form hdirs.apart

section Attempt

variable {input : PodInput} {cfg : Config} {at' : Attempt} {prior : List Evidence}
  (hcfg : Configured input cfg) (hn : 1 ≤ at'.n ∧ at'.n ≤ 10)
  (hplan : ∀ slot, GoodPaths (at'.plan.writers slot).writePaths)

lemma obeys_recordWorkResult {w : Work} :
    Obeys input (Working input cfg at') (recordWorkResult at' w) fun _ => True := by
  refine Obeys.ask lasting_working rfl fun _ _ => Obeys.ask lasting_working rfl fun r _ => ?_
  exact obeys_port.weaken fun _ _ => trivial

lemma obeys_recordGate {receipt : Fields} :
    Obeys input (Working input cfg at') (recordGate at' receipt) fun _ => True := by
  refine Obeys.ask lasting_working rfl fun _ _ => Obeys.ask lasting_working rfl fun r _ => ?_
  exact obeys_port.weaken fun _ _ => trivial

lemma obeys_commitWriterResult {slot : Slot} {workspace : Json} {receipt : WriterReceipt} :
    Obeys input (Working input cfg at') (commitWriterResult cfg at' slot workspace receipt)
      fun _ => True := by
  refine (obeys_remainingMs lasting_working _).bind fun _ _ => ?_
  refine Obeys.ask lasting_working rfl fun r _ => Obeys.port fun v _ => Obeys.valid fun c _ => ?_
  exact obeys_recordWorkResult.bind fun _ _ => obeys_pure trivial

include hcfg hn in
lemma obeys_checkWriterResult {slot : Slot} {w : Work} {deliveredInbox : List Json} {cursor : ℕ} :
    Obeys input (Working input cfg at') (checkWriterResult cfg at' slot w deliveredInbox cursor)
      fun _ => True := by
  unfold checkWriterResult
  refine Obeys.ask lasting_working rfl fun r ⟨_, _, hr⟩ => Obeys.port fun v hv => ?_
  subst hv
  obtain ⟨hsha, root, rfl⟩ := hr
  refine Obeys.valid fun view hview => Obeys.valid fun id hid => Obeys.valid fun prompt hprompt => ?_
  obtain rfl := Except.ok.inj hview
  obtain ⟨_, -, hid⟩ := bind_eq_ok.mp hid
  obtain rfl := Except.ok.inj hid
  refine (obeys_runAgent hcfg lasting_working (fun s hs => hs.1) ?_).bind fun raw _ => ?_
  · have hslot : ("checker-" ++ slot.name).toList.all Docker.isIdChar = true ∧
        ("checker-" ++ slot.name).length ≤ 40 := by
      cases slot <;> decide
    exact fit_read hcfg.run (isExecutionId_attemptId hn.2 hslot.1 hslot.2) hn rfl
      (isExecutionId_view hn.2 hsha) rfl (text_of_buildPrompt hprompt) rfl
  · refine Obeys.valid fun l _ => Obeys.valid fun receipt _ => ?_
    refine obeys_recordGate.bind fun _ _ => ?_
    split_ifs
    · exact obeys_pure trivial
    · exact obeys_fail _

include hcfg hn hplan in
lemma obeys_executeWriter {slot : Slot} {workspace : Json} {inbox : List Json}
    {id baseSha : String} (hid : Docker.isExecutionId id = true)
    (hworkspace : IsWorkspace (at'.plan.writers slot).writePaths workspace) :
    Obeys input (Working input cfg at')
      (executeWriter cfg at' prior slot workspace inbox id baseSha) fun _ => True := by
  refine Obeys.valid fun a ha => ?_
  exact obeys_runAgent hcfg lasting_working (fun s hs => hs.1)
    (fit_writerInput hcfg.run hn hid (hplan slot) hworkspace ha)

include hcfg in
lemma obeys_launchAll {ready : List (Slot × AgentInput)} (hready : ∀ p ∈ ready, Fit input p.2) :
    Obeys input (Working input cfg at') (launchAll cfg at' ready) fun _ => True := by
  induction ready with
  | nil => exact obeys_pure trivial
  | cons p ready ih =>
      refine (obeys_launch hcfg lasting_working (fun s hs => hs.1) rfl
        (hready p List.mem_cons_self)).bind fun _ _ => ?_
      exact ih fun p hp => hready p (List.mem_cons_of_mem _ hp)

include hcfg hn hplan in
lemma obeys_startWriters {workspace : Slot → Json}
    (hworkspace : ∀ slot, IsWorkspace (at'.plan.writers slot).writePaths (workspace slot))
    {slots : List Slot} {ready : List (Slot × AgentInput)} (hready : ∀ p ∈ ready, Fit input p.2) :
    Obeys input (Working input cfg at') (startWriters cfg at' prior workspace slots ready)
      fun _ => True := by
  induction slots generalizing ready with
  | nil => exact obeys_launchAll hcfg hready
  | cons slot slots ih =>
      have hid : Docker.isExecutionId (attemptId at' slot.name) = true := by
        refine isExecutionId_attemptId hn.2 ?_ ?_ <;> cases slot <;> decide
      have hinput : Obeys input (Working input cfg at') (do
          let input ← valid (writerInput cfg at' prior slot (workspace slot) []
            (attemptId at' slot.name) at'.baseSha)
          let _ ← remainingMs cfg at'.deadlineAt
          pure input : Io AgentInput) (Fit input) := by
        refine Obeys.valid fun a ha => (obeys_remainingMs lasting_working _).bind fun _ _ => ?_
        exact obeys_pure (fit_writerInput hcfg.run hn hid (hplan slot) (hworkspace slot) ha)
      refine hinput.attempt.bind fun r hr => ?_
      cases r with
      | ok a =>
          refine ih fun p hp => ?_
          rcases List.mem_append.mp hp with hp | hp
          · exact hready p hp
          · rw [List.mem_singleton.mp hp]
            exact hr a rfl
      | error e => exact (obeys_launchAll hcfg hready).bind fun _ _ => obeys_fail e

lemma obeys_noteFirst {p : Progress} {e : Err} :
    Obeys input (Working input cfg at') (noteFirst p e) fun _ => True :=
  Obeys.ask lasting_working rfl fun _ _ => obeys_pure trivial

lemma obeys_noteError {p : Progress} {e : Err} :
    Obeys input (Working input cfg at') (noteError p e) fun _ => True := by
  refine obeys_noteFirst.bind fun p' _ => ?_
  split_ifs
  · exact Obeys.ask lasting_working rfl fun _ _ => obeys_pure trivial
  · exact obeys_pure trivial

include hcfg hn in
lemma obeys_takeRequest {workspace : Slot → Json} {p : Progress} {slot : Slot}
    {receipt : WriterReceipt} {request : Request} :
    Obeys input (Working input cfg at') (takeRequest cfg at' workspace p slot receipt request)
      fun _ => True := by
  unfold takeRequest
  refine Obeys.ask lasting_working rfl fun active _ => ?_
  split_ifs
  swap
  · exact obeys_noteFirst
  refine obeys_commitWriterResult.bind fun checkpoint _ => ?_
  refine (obeys_checkWriterResult hcfg hn).bind fun _ _ => ?_
  refine Obeys.ask lasting_working rfl fun still _ => ?_
  split_ifs
  · exact obeys_noteFirst
  refine Obeys.ask lasting_working rfl fun r _ => Obeys.port fun v _ => Obeys.valid fun _ _ => ?_
  exact Obeys.ask lasting_working rfl fun r _ => Obeys.port fun _ _ => obeys_pure trivial

include hcfg hn in
lemma obeys_takeReceipt {workspace : Slot → Json} {p : Progress} {slot : Slot} {raw : Json} :
    Obeys input (Working input cfg at') (takeReceipt cfg at' workspace p slot raw)
      fun _ => True := by
  unfold takeReceipt
  refine Obeys.valid fun receipt _ => ?_
  dsimp only
  split
  · exact obeys_noteFirst
  · exact obeys_takeRequest hcfg hn
  · exact obeys_noteFirst
  · exact obeys_pure trivial

include hcfg hn in
lemma obeys_settleWriters {workspace : Slot → Json} {k : ℕ} {pending : List Slot} {p : Progress} :
    Obeys input (Working input cfg at') (settleWriters cfg at' workspace k pending p)
      fun _ => True := by
  induction k generalizing pending p with
  | zero => exact obeys_pure trivial
  | succ k ih =>
      unfold settleWriters
      refine Obeys.ask lasting_working rfl fun settled _ => ?_
      obtain ⟨slot, out⟩ := settled
      cases out with
      | error e => exact obeys_noteError.bind fun _ _ => ih
      | ok raw =>
          dsimp only
          split_ifs
          · exact ih
          · refine (obeys_takeReceipt hcfg hn).attempt.bind fun r _ => ?_
            cases r with
            | ok p => exact ih
            | error e => exact obeys_noteError.bind fun _ _ => ih

include hn in
/-- The worktrees of these slots, and those there were already. -/
lemma obeys_createWorktrees {slots : List Slot} {workspace : Slot → Json} (done : List Slot)
    (hdone : ∀ slot ∈ done, IsWorkspace (at'.plan.writers slot).writePaths (workspace slot)) :
    Obeys input (Working input cfg at') (createWorktrees at' slots workspace) fun workspace' =>
      ∀ slot ∈ done ++ slots, IsWorkspace (at'.plan.writers slot).writePaths (workspace' slot) := by
  induction slots generalizing workspace done with
  | nil =>
      rw [List.append_nil]
      exact obeys_pure hdone
  | cons slot slots ih =>
      refine Obeys.ask lasting_working rfl fun r ⟨s, hs, hr⟩ => Obeys.port fun v hv => ?_
      subst hv
      obtain ⟨root, dirs, hperm, rfl⟩ := hr
      rw [hs.2] at hperm
      have hid : Docker.isExecutionId ("attempt-" ++ toString at'.n ++ "-" ++ slot.name) = true := by
        have h : Docker.isExecutionId (attemptId at' slot.name) = true :=
          isExecutionId_attemptId hn.2 (by cases slot <;> decide) (by cases slot <;> decide)
        exact h
      refine Obeys.valid fun _ _ => Obeys.valid fun _ _ => Obeys.valid fun _ _ =>
        Obeys.valid fun _ _ => ?_
      have hmiddle : done ++ slot :: slots = done ++ [slot] ++ slots := by simp
      rw [hmiddle]
      refine ih _ fun slot' hslot' => ?_
      by_cases heq : slot' = slot
      · rw [if_pos heq, heq]
        exact ⟨_, root, dirs, rfl, hid, hperm⟩
      · rw [if_neg heq]
        refine hdone slot' ?_
        rcases List.mem_append.mp hslot' with h | h
        · exact h
        · exact absurd (List.mem_singleton.mp h) heq

lemma obeys_commitAll {workspace : Slot → Json} {initial : Slot → Option WriterReceipt}
    {slots : List Slot} {done : Slot → Option Work} :
    Obeys input (Working input cfg at') (commitAll cfg at' workspace initial slots done)
      fun _ => True := by
  induction slots generalizing done with
  | nil => exact obeys_pure trivial
  | cons slot slots ih =>
      unfold commitAll
      split
      · exact ih
      · split_ifs
        · exact ih
        · exact obeys_commitWriterResult.bind fun _ _ => ih

include hcfg hn in
lemma obeys_checkAll {completed : Slot → Option Work} {slots : List Slot}
    {accepted : Slot → Option Work} {failure : Option Err} :
    Obeys input (Working input cfg at') (checkAll cfg at' completed slots accepted failure)
      fun _ => True := by
  induction slots generalizing accepted failure with
  | nil =>
      cases failure with
      | none => exact obeys_pure trivial
      | some e => exact obeys_fail e
  | cons slot slots ih =>
      unfold checkAll
      split
      · exact ih
      · refine (obeys_checkWriterResult hcfg hn).attempt.bind fun r _ => ?_
        cases r with
        | ok _ => exact ih
        | error e => exact Obeys.ask lasting_working rfl fun _ _ => ih

include hcfg hn hplan in
lemma obeys_resume {workspace : Slot → Json}
    (hworkspace : ∀ slot, IsWorkspace (at'.plan.writers slot).writePaths (workspace slot))
    {initial : Slot → Option WriterReceipt} {request : InboxRequest}
    {accepted : Slot → Option Work} :
    Obeys input (Working input cfg at')
      (resume cfg at' prior workspace initial request accepted) fun _ => True := by
  unfold resume
  refine Obeys.ask lasting_working rfl fun r _ => Obeys.port fun entries _ => ?_
  refine Obeys.valid fun inbox _ => Obeys.valid fun _ _ => ?_
  have hinbox : Docker.isExecutionId (attemptId at' (Slot.engineeringB.name ++ "-inbox")) = true :=
    isExecutionId_attemptId hn.2 (by decide) (by decide)
  have hresume : Docker.isExecutionId (attemptId at' (Slot.engineeringA.name ++ "-resume")) = true :=
    isExecutionId_attemptId hn.2 (by decide) (by decide)
  refine (obeys_executeWriter hcfg hn hplan hinbox (hworkspace _)).bind fun ownerRaw _ => ?_
  refine Obeys.valid fun ownerReceipt _ => Obeys.valid fun _ _ => ?_
  refine obeys_commitWriterResult.bind fun ownerResult _ => ?_
  refine (obeys_checkWriterResult hcfg hn).bind fun _ _ => Obeys.valid fun _ _ => ?_
  refine Obeys.ask lasting_working rfl fun r ⟨s, hs, hr⟩ => Obeys.port fun v hv => ?_
  subst hv
  obtain ⟨baseSha, root, dirs, count, hcount, hperm, rfl⟩ := hr
  rw [hs.2] at hperm
  refine Obeys.valid fun combined hcombined => ?_
  obtain rfl := Except.ok.inj hcombined
  have hid : Docker.isExecutionId
      ("attempt-" ++ toString at'.n ++ "-engineering-a-resume-" ++ toString count) = true :=
    isExecutionId_counted hn.2 hcount (by decide) (by decide)
  refine (obeys_executeWriter hcfg hn hplan hresume ?_).bind fun requesterRaw _ => ?_
  · exact ⟨_, root, dirs, rfl, hid, hperm⟩
  refine Obeys.valid fun requesterReceipt _ => Obeys.valid fun _ _ => ?_
  refine obeys_commitWriterResult.bind fun requesterResult _ => ?_
  exact (obeys_checkWriterResult hcfg hn).bind fun _ _ => obeys_pure trivial

include hcfg hn in
lemma obeys_conformance {gate : Gate} {candidateSha viewId : String}
    (hview : Docker.isExecutionId viewId = true) :
    Obeys input (Working input cfg at') (conformance cfg at' gate candidateSha viewId)
      fun _ => True := by
  unfold conformance
  refine Obeys.valid fun prompt hprompt => ?_
  refine (obeys_runAgent hcfg lasting_working (fun s hs => hs.1) ?_).bind fun raw _ => ?_
  · have hid : Docker.isExecutionId (attemptId at' (Gate.phase gate)) = true := by
      refine isExecutionId_attemptId hn.2 ?_ ?_ <;> cases gate <;> decide
    exact fit_read hcfg.run hid hn rfl hview rfl (text_of_buildPrompt hprompt) rfl
  · refine Obeys.valid fun l _ => Obeys.valid fun receipt _ => obeys_recordGate.bind fun _ _ => ?_
    split_ifs
    · exact obeys_pure trivial
    · exact obeys_fail _

include hn in
/-- The view of the candidate: the worktree of the integration, or a read view. -/
lemma obeys_candidateView {branch candidateSha sha root : String} {count : ℕ} {shas : List String}
    (hcount : count ≤ maxCounter) :
    Obeys input (Working input cfg at') (candidateView at'
      [("branch", .str branch), ("candidateSha", .str candidateSha),
        ("workspaceId", .str ("attempt-" ++ toString at'.n ++ "-integration-" ++ toString count)),
        ("workspaceRoot", .str root), ("integratedResultShas", strings shas)] sha)
      fun id => Docker.isExecutionId id = true := by
  have hintegration : Docker.isExecutionId
      ("attempt-" ++ toString at'.n ++ "-integration-" ++ toString count) = true :=
    isExecutionId_counted hn.2 hcount (by decide) (by decide)
  have hcandidate : Docker.isExecutionId (attemptId at' "candidate") = true :=
    isExecutionId_attemptId hn.2 (by decide) (by decide)
  have hrest (id root : String) (hid : Docker.isExecutionId id = true) :
      Obeys input (Working input cfg at') (do
        let l ← valid (plainObject (Json.obj [("id", .str id), ("root", .str root)])
          "candidate read view")
        let id ← valid (named l "id" "candidate read view is invalid")
        let _ ← valid (named l "root" "candidate read view is invalid")
        pure id : Io String) fun id => Docker.isExecutionId id = true := by
    refine Obeys.valid fun l hl => Obeys.valid fun id' hid' => Obeys.valid fun _ _ => ?_
    obtain rfl := Except.ok.inj hl
    obtain ⟨_, -, hid'⟩ := bind_eq_ok.mp hid'
    obtain rfl := Except.ok.inj hid'
    exact obeys_pure hid
  unfold candidateView
  dsimp only
  split_ifs
  · exact hrest _ root hintegration
  · refine Obeys.ask lasting_working rfl fun r ⟨_, _, hr⟩ => Obeys.port fun v hv => ?_
    subst hv
    obtain ⟨-, root, rfl⟩ := hr
    exact hrest _ root hcandidate

include hcfg hn in
lemma obeys_gates {commits : List Work} :
    Obeys input (Working input cfg at') (gates cfg at' commits) fun _ => True := by
  unfold gates
  refine (obeys_remainingMs lasting_working _).bind fun _ _ => ?_
  refine Obeys.ask lasting_working rfl fun r ⟨_, _, hr⟩ => Obeys.port fun v hv => ?_
  subst hv
  obtain ⟨sha, root, count, shas, hcount, rfl⟩ := hr
  refine Obeys.valid fun integrated hintegrated => Obeys.valid fun candidateSha _ => ?_
  obtain rfl := Except.ok.inj hintegrated
  refine (obeys_candidateView hn hcount).bind fun viewId hview => ?_
  refine Obeys.ask lasting_working rfl fun r _ => Obeys.port fun v _ => Obeys.valid fun _ _ => ?_
  refine (obeys_conformance hcfg hn hview).bind fun _ _ => ?_
  refine (obeys_conformance hcfg hn hview).bind fun _ _ => ?_
  refine (obeys_remainingMs lasting_working _).bind fun ms _ => ?_
  refine Obeys.ask lasting_working rfl fun r _ => Obeys.port fun v _ => Obeys.valid fun _ _ => ?_
  refine obeys_recordGate.bind fun _ _ => ?_
  refine Obeys.ask lasting_working rfl fun r _ => Obeys.port fun v _ => Obeys.valid fun _ _ => ?_
  refine obeys_recordGate.bind fun _ _ => obeys_recordGate.bind fun _ _ => obeys_pure trivial

include hcfg hn in
lemma obeys_commitsOf (accepted : Slot → Option Work) : Obeys input (Working input cfg at')
    (match commitsOf accepted with
    | none => Prog.fail (.invalid "attempt did not produce three accepted writer results")
    | some commits => gates cfg at' commits) fun _ => True := by
  split
  · exact obeys_fail _
  · exact obeys_gates hcfg hn

include hcfg hn hplan in
lemma obeys_runAttempt :
    Obeys input (Working input cfg at') (runAttempt cfg at' prior) fun _ => True := by
  unfold runAttempt
  refine (obeys_createWorktrees hn [] (by simp)).bind fun workspace hworkspace => ?_
  have hall : ∀ slot, IsWorkspace (at'.plan.writers slot).writePaths (workspace slot) :=
    fun slot => hworkspace slot (by cases slot <;> decide)
  refine Obeys.ask lasting_working rfl fun r _ => Obeys.port fun _ _ => ?_
  refine (obeys_startWriters hcfg hn hplan hall (by simp)).bind fun _ _ => ?_
  refine (obeys_settleWriters hcfg hn).bind fun p _ => ?_
  split
  · exact obeys_fail _
  split
  · exact obeys_fail _
  refine obeys_commitAll.bind fun completed _ => ?_
  refine (obeys_checkAll hcfg hn).bind fun accepted _ => ?_
  dsimp only
  split
  · exact (obeys_resume hcfg hn hplan hall).bind fun accepted _ =>
      obeys_commitsOf hcfg hn accepted
  · exact obeys_commitsOf hcfg hn accepted

end Attempt

/-! ### Attempts -/

section Attempts

variable {input : PodInput} {cfg : Config} {I : Seen → Prop} {α β : Type}

/-- What follows a program that obeys starts where it left off. -/
lemma Obeys.safe_bind {p : Io α} {f : α → Io β} {R : α → Prop} {s : Seen}
    {Q : Except Err β → Seen → Prop} (hp : Obeys input I p R) (hs : I s)
    (herr : ∀ e t, I t → Q (.error e) t)
    (hok : ∀ a t, I t → R a → Safe observed (admits input) (f a) t Q) :
    Safe observed (admits input) (p >>= f) s Q := by
  refine Safe.bind (hp.safe s hs) ?_ ?_
  · rintro a t ⟨ht, hR⟩
    exact hok a t ht (hR a rfl)
  · rintro e t ⟨ht, -⟩
    exact herr e t ht

lemma trying_of_same {deadlineAt : ℕ} {s t : Seen} (hs : Trying input cfg deadlineAt s)
    (hfirst : t.first = s.first) (hbegun : t.begun = s.begun) :
    Trying input cfg deadlineAt t := by
  obtain ⟨⟨started, hstarted, hd⟩, begun, hb, hdeadline⟩ := hs
  exact ⟨⟨started, hfirst.trans hstarted, hd⟩, begun, hbegun.trans hb, hdeadline⟩

variable {baseSha : String} {existingDirectories : Json} (hcfg : Configured input cfg)

lemma fit_planner {n : ℕ} {id : String} (root : String) {prompt : Prompt}
    (hrun : PodStore.isRunId input.runId = true) (hn : 1 ≤ n ∧ n ≤ 10)
    (hid : Docker.isExecutionId id = true)
    (hprompt : prompt.text.all isBlank = false ∧ bytes prompt.text ≤ 256 * 1024) :
    Fit input
      { executionId := id, role := .planner, attempt := n, write := false, prompt := prompt
        workspaceId := ((Json.obj [("id", .str id), ("root", .str root)]).get "id").getD .null
        writeDirectories := .arr [] } :=
  fit_read hrun hid hn rfl hid rfl hprompt rfl

/-- What holds when a plan was made: it is the one on record. -/
def Made (input : PodInput) (cfg : Config) (baseSha : String) (n deadlineAt : ℕ)
    (r : Except Err Plan) (t : Seen) : Prop :=
  Trying input cfg deadlineAt t ∧ ∀ plan, r = .ok plan →
    Working input cfg ⟨n, baseSha, deadlineAt, plan⟩ t ∧
      ∀ slot, GoodPaths (plan.writers slot).writePaths

lemma made_error {n deadlineAt : ℕ} {e : Err} {t : Seen} (ht : Trying input cfg deadlineAt t) :
    Made input cfg baseSha n deadlineAt (.error e) t :=
  ⟨ht, nofun⟩

/-- A plan that was accepted is put on record. -/
lemma safe_recordPlan {n deadlineAt : ℕ} {plan : Plan} {s : Seen}
    (hpaths : planPaths plan.json = fun slot => (plan.writers slot).writePaths)
    (hgood : ∀ slot, GoodPaths (plan.writers slot).writePaths)
    (hs : Trying input cfg deadlineAt s) :
    Safe observed (admits input) (do
      ask (.keepPlan plan.json)
      valid (PodStore.require (plan.attempt = n) "attempt plan does not match the active attempt")
      let r ← ask (.writeAttemptPlan n plan.json)
      port r
      let r ← ask (.appendEvent (.planFinished n))
      port r
      pure plan : Io Plan) s (Made input cfg baseSha n deadlineAt) := by
  have hI : Lasting (Trying input cfg deadlineAt) := lasting_trying
  have hW : Lasting (Working input cfg ⟨n, baseSha, deadlineAt, plan⟩) := lasting_working
  refine (obeys_ask' hI rfl).safe_bind hs (fun _ t ht => made_error ht) fun _ s hs _ => ?_
  refine obeys_ofExcept.safe_bind hs (fun _ t ht => made_error ht) fun _ s hs _ => ?_
  refine ⟨trivial, ?_⟩
  rintro r t ⟨-, rfl⟩
  -- from here on the plan is on record
  have hworking : Working input cfg ⟨n, baseSha, deadlineAt, plan⟩
      (s.next (.writeAttemptPlan n plan.json) r) := ⟨trying_of_same hs rfl rfl, hpaths⟩
  refine obeys_port.safe_bind hworking (fun _ t ht => made_error ht.1) fun _ s hs _ => ?_
  refine (obeys_ask' hW rfl).safe_bind hs (fun _ t ht => made_error ht.1) fun r s hs _ => ?_
  refine obeys_port.safe_bind hs (fun _ t ht => made_error ht.1) fun _ s hs _ => ?_
  refine ⟨hs.1, fun plan' h => ?_⟩
  obtain rfl := Except.ok.inj h
  exact ⟨hs, hgood⟩

include hcfg in
lemma safe_makePlan {n deadlineAt : ℕ} {prior : List Evidence} (hn : 1 ≤ n ∧ n ≤ 10) {s : Seen}
    (hs : Trying input cfg deadlineAt s) :
    Safe observed (admits input) (makePlan cfg baseSha existingDirectories n deadlineAt prior) s
      (Made input cfg baseSha n deadlineAt) := by
  have hI : Lasting (Trying input cfg deadlineAt) := lasting_trying
  have hid : Docker.isExecutionId ("attempt-" ++ toString n ++ "-planner") = true :=
    Docker.isExecutionId_attempt hn.2 (by decide) (by decide) (by decide)
  unfold makePlan
  -- the text of the prompt is not looked at
  generalize hbuilt : buildPrompt (cfg.prompt .planner) "planner" _ = built
  refine (obeys_remainingMs hI deadlineAt).safe_bind hs (fun _ t ht => made_error ht)
    fun _ s hs _ => ?_
  refine (obeys_ask' hI rfl).safe_bind hs (fun _ t ht => made_error ht) fun r s hs _ => ?_
  refine obeys_port.safe_bind hs (fun _ t ht => made_error ht) fun _ s hs _ => ?_
  refine (obeys_ask hI rfl).safe_bind hs (fun _ t ht => made_error ht) fun r s hs hr => ?_
  refine obeys_port.safe_bind hs (fun _ t ht => made_error ht) fun view s hs hview => ?_
  subst hview
  obtain ⟨_, _, _, root, rfl⟩ := hr
  refine obeys_ofExcept.safe_bind hs (fun _ t ht => made_error ht) fun prompt s hs hprompt => ?_
  have hfit := fit_planner root hcfg.run hn hid
    (text_of_buildPrompt (hbuilt.trans hprompt))
  refine (obeys_runAgent hcfg hI (fun _ h => h) hfit).safe_bind hs (fun _ t ht => made_error ht)
    fun raw s hs _ => ?_
  refine obeys_ofExcept.safe_bind hs (fun _ t ht => made_error ht) fun l s hs _ => ?_
  refine obeys_ofExcept.safe_bind hs (fun _ t ht => made_error ht) fun plan s hs hplan => ?_
  obtain ⟨hpaths, hgood⟩ := planPaths_eq hplan
  exact safe_recordPlan hpaths hgood hs

include hcfg

lemma obeys_attemptOnce {n deadlineAt : ℕ} {prior : List Evidence} (hn : 1 ≤ n ∧ n ≤ 10) :
    Obeys input (Trying input cfg deadlineAt)
      (attemptOnce cfg baseSha existingDirectories n deadlineAt prior) fun _ => True := by
  refine ⟨fun s hs => ?_⟩
  unfold attemptOnce
  rw [Bimo.safe_bind]
  refine (safe_makePlan hcfg hn hs).mono fun r t ht => ?_
  cases r with
  | error e => exact ⟨ht.1, nofun⟩
  | ok plan =>
      obtain ⟨hworking, hgood⟩ := ht.2 plan rfl
      have hI : Lasting (Working input cfg ⟨n, baseSha, deadlineAt, plan⟩) := lasting_working
      refine (obeys_runAttempt hcfg hn hgood).safe_bind hworking (fun _ t ht => ⟨ht.1, nofun⟩)
        fun candidateSha s hs _ => ?_
      refine (obeys_ask' hI rfl).safe_bind hs (fun _ t ht => ⟨ht.1, nofun⟩) fun r s hs _ => ?_
      refine obeys_port.safe_bind hs (fun _ t ht => ⟨ht.1, nofun⟩) fun _ s hs _ => ?_
      exact ⟨hs.1, fun _ _ => trivial⟩

/-- The numbers of the attempts stay in their bounds. -/
lemma obeys_attemptsFrom {k n : ℕ} {prior : List Evidence} (hn : 1 ≤ n)
    (hk : n + k ≤ cfg.template.maxAttempts + 1) :
    Obeys input (Running input cfg.template cfg.deadlineAt)
      (attemptsFrom cfg baseSha existingDirectories k n prior) fun _ => True := by
  induction k generalizing n prior with
  | zero => exact obeys_fail _
  | succ k ih =>
      have hattempts := (of_validatePodTemplate hcfg.template).1
      refine ⟨fun s hs => ?_⟩
      unfold attemptsFrom
      rw [Bimo.safe_bind]
      refine safe_now lasting_running hs (fun e t ht => ⟨ht, nofun⟩) fun now t ht hlast => ?_
      refine ⟨trivial, ?_⟩
      rintro r u ⟨-, rfl⟩
      have htrying : Trying input cfg
          (min cfg.deadlineAt (now + cfg.template.attemptSeconds * 1000)) (t.next (.begin n) r) :=
        ⟨ht, now, hlast, rfl⟩
      refine (obeys_attemptOnce hcfg ⟨hn, by omega⟩).attempt.safe_bind htrying
        (fun _ t ht => ⟨ht.1, nofun⟩) fun x s hs _ => ?_
      cases x with
      | ok candidateSha => exact ⟨hs.1, fun _ _ => trivial⟩
      | error e =>
          refine (obeys_ask' lasting_running rfl).safe_bind hs.1 (fun _ t ht => ⟨ht, nofun⟩)
            fun kept s hs _ => ?_
          refine (obeys_ask' lasting_running rfl).safe_bind hs (fun _ t ht => ⟨ht, nofun⟩)
            fun r s hs _ => ?_
          refine obeys_port.safe_bind hs (fun _ t ht => ⟨ht, nofun⟩) fun _ s hs _ => ?_
          split_ifs
          · exact ⟨hs, nofun⟩
          · exact (ih (by omega) (by omega)).safe s hs

end Attempts

/-! ### Runs -/

section Runs

variable {input : PodInput} {cfg : Config}

lemma obeys_prepare :
    Obeys input (Running input cfg.template cfg.deadlineAt) (prepare cfg) fun _ => True := by
  unfold prepare
  refine Obeys.ask lasting_running rfl fun r _ => Obeys.port fun _ _ => ?_
  refine Obeys.ask lasting_running rfl fun r _ => Obeys.port fun v _ => ?_
  refine Obeys.valid fun l _ => Obeys.valid fun baseSha _ => Obeys.valid fun _ _ => ?_
  refine Obeys.ask lasting_running rfl fun r _ => Obeys.port fun v _ => Obeys.valid fun _ _ => ?_
  split_ifs
  · refine Obeys.ask lasting_running rfl fun r _ => Obeys.port fun _ _ => ?_
    refine (obeys_remainingMs lasting_running _).bind fun ms _ => ?_
    refine Obeys.ask lasting_running rfl fun r _ => Obeys.port fun v _ => Obeys.valid fun _ _ => ?_
    exact Obeys.ask lasting_running rfl fun r _ => Obeys.port fun _ _ => obeys_pure trivial
  · exact obeys_pure trivial

lemma obeys_giveUp (e : Err) :
    Obeys input (Running input cfg.template cfg.deadlineAt) (giveUp e) fun _ => True := by
  have hI : Lasting (Running input cfg.template cfg.deadlineAt) := lasting_running
  have hfinish : Obeys input (Running input cfg.template cfg.deadlineAt) (do
      let r ← ask (.finish e.reason)
      port r : Io Unit) fun _ => True :=
    Obeys.ask hI rfl fun r _ => obeys_port.weaken fun _ _ => trivial
  unfold giveUp
  refine Obeys.ask hI rfl fun _ _ => Obeys.ask hI rfl fun _ _ => ?_
  refine hfinish.attempt.bind fun r _ => Obeys.ask hI rfl fun closed _ => ?_
  split
  · exact obeys_fail _
  · exact obeys_fail _
  · exact obeys_fail _

lemma obeys_runPod (hcfg : Configured input cfg) :
    Obeys input (Running input cfg.template cfg.deadlineAt) (runPod cfg) fun _ => True := by
  have hworkflow : Obeys input (Running input cfg.template cfg.deadlineAt) (workflow cfg)
      fun _ => True :=
    obeys_prepare.bind fun _ _ => obeys_attemptsFrom hcfg le_rfl (by omega)
  refine hworkflow.attempt.bind fun r _ => ?_
  cases r with
  | ok candidateSha => exact Obeys.ask lasting_running rfl fun _ _ => obeys_pure trivial
  | error e => exact obeys_giveUp e

/-- The first reading of the clock makes the deadline of the run. -/
lemma safe_first {Q : Except Err ℕ → Seen → Prop} (herr : ∀ e t, Q (.error e) t)
    (hok : ∀ n, Q (.ok n) { first := some n, last := some n }) :
    Safe observed (admits input) now {} Q := by
  refine ⟨trivial, ?_⟩
  rintro r t ⟨-, rfl⟩
  cases r with
  | none => exact herr _ _
  | some n => exact hok n

lemma safe_configure (hrun : PodStore.isRunId input.runId = true) :
    Safe observed (admits input) (configure input) {} fun r t =>
      ∀ cfg, r = .ok cfg → Configured input cfg ∧ Running input cfg.template cfg.deadlineAt t := by
  unfold configure
  refine obeys_ofExcept.safe_bind (I := fun s => s = {}) rfl (fun _ _ _ => nofun) ?_
  rintro ⟨template, prompts⟩ s rfl hchecked
  have htemplate := template_of_checkInput hchecked
  dsimp only
  rw [Bimo.safe_bind]
  refine safe_first (fun _ _ => nofun) fun startedAt => ?_
  dsimp only
  refine obeys_ofExcept.safe_bind (I := fun s => s.first = some startedAt) rfl
    (fun _ _ _ => nofun) fun deadlineAt s hs hdeadline => ?_
  rw [safe_pure]
  rintro cfg hcfg
  obtain rfl := Except.ok.inj hcfg
  exact ⟨⟨htemplate, hrun⟩, startedAt, hs, hdeadline⟩

lemma safe_executions (hrun : PodStore.isRunId input.runId = true) :
    Safe observed (admits input) (runEngineeringPod input) {} fun _ _ => True := by
  unfold runEngineeringPod
  rw [Bimo.safe_bind]
  refine (safe_configure hrun).mono fun r t hr => ?_
  cases r with
  | error e => exact trivial
  | ok cfg =>
      obtain ⟨hcfg, hrunning⟩ := hr cfg rfl
      exact ((obeys_runPod hcfg).safe t hrunning).mono fun _ _ _ => trivial

lemma admitted_of_exec (hrun : PodStore.isRunId input.runId = true) {c : Call}
    {k : c.Ret → Io String} {s : Seen} {a : AgentInput}
    (h : Exec observed (runEngineeringPod input) {} (.call c k) s)
    (hc : c = .execute a ∨ ∃ slot, c = .start slot a) : Admitted input s a := by
  have hallowed := (safe_executions hrun).allowed h
  rcases hc with rfl | ⟨slot, rfl⟩
  · exact hallowed
  · exact hallowed

end Runs

/-- **Executions are admissible.** Over the Git runtime, and whatever the agents, the verifier,
the store and the clock answer, every execution that a run asks for passes the checks of the
container runtime. Its time is between ten seconds and half an hour and, counted from the reading
of the clock right before it, is over when the attempt's time and the run's time are. Its mounts
are rendered on those hosts whose root has no comma in it, and on no others. -/
theorem executions_admitted (input : PodInput) (hrun : PodStore.isRunId input.runId = true)
    {c : Call} {k : c.Ret → Io String} {s : Seen} {a : AgentInput}
    (h : Exec observed (runEngineeringPod input) {} (.call c k) s)
    (hc : c = .execute a ∨ ∃ slot, c = .start slot a) (host : Docker.Host) :
    Admitted input s a ∧
      (Docker.renders host (executionOf input a) = .ok () ↔ ',' ∉ host.root.toList) := by
  have hadmitted := admitted_of_exec hrun h hc
  refine ⟨hadmitted, ?_⟩
  rw [hadmitted.rendered host]
  exact Docker.bind_hostRoot host

/-! ### A run that gets to its writers -/

/-- The answers of a pod that works, over the Git runtime. -/
def gitAnswer (s : Seen) : (o : Call) → o.Ret
  | .createWorktree n slot _ =>
    .ok (workspaceJson ("attempt-" ++ toString n ++ "-" ++ slot.name) "/work" (s.paths slot))
  | o => portAnswer o

/-- The calls that are answered so. -/
def answered : Call → Bool
  | .createReadView _ sha => isSha1 sha
  | .combineBase _ _ _ | .integrate _ _ _ _ => false
  | _ => true

lemma gitAnswers_gitAnswer {s : Seen} {o : Call} (h : answered o = true) :
    gitAnswers s o (gitAnswer s o) := by
  cases o with
  | createReadView id sha => exact ⟨h, "/view", rfl⟩
  | createWorktree n slot baseSha => exact ⟨"/work", s.paths slot, List.Perm.refl _, rfl⟩
  | combineBase n a b => cases h
  | integrate n baseSha commits branch => cases h
  | _ => trivial

/-- The next call is to start a writer. -/
def startsWriter : Io String → Bool
  | .call (.start _ _) _ => true
  | _ => false

lemma exec_startsWriter (n : ℕ) (h : (follow (fun _ o _ => answered o = true) Seen.next gitAnswer n
      (runEngineeringPod podInput) {}).any (fun x => startsWriter x.1) = true) :
    ∃ slot a k s, Exec observed (runEngineeringPod podInput) {} (.call (.start slot a) k) s := by
  obtain ⟨⟨q, s⟩, hq, hstart⟩ := (Option.any_eq_true _ _).mp h
  have hx := exec_of_follow (E := observed) (fun s o ho => ⟨gitAnswers_gitAnswer ho, rfl⟩) hq
  cases q with
  | call c k =>
      cases c with
      | start slot a => exact ⟨slot, a, k, s, hx⟩
      | _ => cases hstart
  | ret a => cases hstart
  | fail e => cases hstart

/-- A run in which everything goes well starts a writer. -/
lemma exec_podInput : ∃ slot a k s,
    Exec observed (runEngineeringPod podInput) {} (.call (.start slot a) k) s := by
  apply exec_startsWriter 23
  delta runEngineeringPod runPod workflow attemptsFrom
  delta attemptsFrom._f attemptOnce makePlan runAttempt startWriters
  delta startWriters._f writerInput
  rw [buildPrompt_eq_quickPrompt]
  decide +kernel

def remoteHost : Docker.Host where
  deployment := "demo"
  localHome := none
  root := "/var/lib/bimo/deployments/demo"
  stateRoot := ["state"]
  accepted := by decide +kernel
  state_canonical := by decide

/-- The writer is admitted, and its mounts are rendered where the deployment is a remote one. -/
theorem executions_admitted_sample : ∃ slot a k s,
    Exec observed (runEngineeringPod podInput) {} (.call (.start slot a) k) s ∧
      Admitted podInput s a ∧ Docker.renders remoteHost (executionOf podInput a) = .ok () := by
  obtain ⟨slot, a, k, s, hx⟩ := exec_podInput
  obtain ⟨hadmitted, hrendered⟩ :=
    executions_admitted podInput (by decide) hx (.inr ⟨slot, rfl⟩) remoteHost
  exact ⟨slot, a, k, s, hx, hadmitted, hrendered.mpr (by decide)⟩

/-- A deployment below a home that has a comma in its name. -/
def commaHost : Docker.Host where
  deployment := "demo"
  localHome := some "/home/a,b"
  root := "/home/a,b/.local/share/bimo/deployments/demo"
  stateRoot := ["state"]
  accepted := by decide +kernel
  state_canonical := by decide

/-- There the mounts of the writer are refused. -/
theorem executions_refused : ∃ slot a k s,
    Exec observed (runEngineeringPod podInput) {} (.call (.start slot a) k) s ∧
      Docker.renders commaHost (executionOf podInput a) = .error "unsafe bind mount source" := by
  obtain ⟨slot, a, k, s, hx⟩ := exec_podInput
  refine ⟨slot, a, k, s, hx, ?_⟩
  rw [(admitted_of_exec (by decide) hx (.inr ⟨slot, rfl⟩)).rendered commaHost]
  exact Docker.bind_of_isUnsafe (by decide +kernel)

end Bimo.Controller
