import Bimo.Gateway

/-!
A run of a pod that outlasts its gateway, for every template whose runs may take longer.

The gateway begins at once, the repository takes its time, and the planner is asked for shortly
before the gateway is over. What is left of the run is enough for an execution, so the planner
is still waited for when the gateway ends.
-/

namespace Bimo.Gateway

open Js (Text lit)
open Docker (Ran Output execute)
open Wire (Json)
open Contract

/-! ### A start that takes no time -/

/-- A runtime where everything works and takes no time. -/
def readyAnswer (w : World) : (o : Call) → o.Ret
  | .now => w.time
  | .interrupted | .cancelled => false
  | .docker _ _ => ⟨.closed (some 0) [] [] false false false, false⟩
  | .wait _ => some (.ok ())
  | .startProxy _ | .close => ()

def afterCommand (w : World) : Command → World
  | .create _ _ args => { w with created := some args }
  | _ => w

def readyNext (w : World) : (o : Call) → o.Ret → World
  | .docker c _, _ => afterCommand w c
  | .startProxy _, _ =>
    { w with gateway := (w.created.bind lifetimeSeconds).map fun n => ⟨n, w.time⟩ }
  | _, _ => w

lemma step_ready (w : World) (o : Call) :
    runtimeTimed.step w o (readyAnswer w o) (readyNext w o (readyAnswer w o)) := by
  cases o with
  | now => exact ⟨le_rfl, le_rfl, le_rfl, rfl⟩
  | docker c n => cases c <;> exact ⟨le_rfl, rfl⟩
  | startProxy id => exact ⟨le_rfl, w.time, le_rfl, rfl⟩
  | interrupted | cancelled | wait n | close => exact ⟨le_rfl, rfl⟩

section Ready

variable (r : Runtime) {w : World} {deadlineAt : ℕ}

lemma afterCommand_time (w : World) (c : Command) : (afterCommand w c).time = w.time := by
  cases c <;> rfl

lemma run_now : (ask .now).run readyAnswer readyNext w = (.ok w.time, w) := rfl

lemma run_throwIfCancelled : throwIfCancelled.run readyAnswer readyNext w = (.ok (), w) := rfl

lemma run_uninterrupted : uninterrupted.run readyAnswer readyNext w = (.ok (), w) := rfl

lemma run_remaining (h : w.time < deadlineAt) :
    (remaining deadlineAt).run readyAnswer readyNext w = (.ok (deadlineAt - w.time), w) := by
  rw [remaining, run_bind, run_now]
  simp [Nat.not_le.mpr h]

lemma run_deploymentDeadline (h : w.time < deadlineAt) (hsafe : deadlineAt ≤ maxSafeInteger) :
    (deploymentDeadline deadlineAt).run readyAnswer readyNext w = (.ok (), w) := by
  rw [deploymentDeadline, run_bind, run_now]
  simp [Nat.not_le.mpr h, Nat.not_lt.mpr hsafe]

lemma run_allowance (timeoutMs : Option ℕ) (h : w.time < deadlineAt) :
    ∃ n commandDeadline, w.time < commandDeadline ∧
      (allowance timeoutMs deadlineAt).run readyAnswer readyNext w =
        (.ok (n, commandDeadline), w) := by
  refine ⟨max 1 (min (timeoutMs.getD (deadlineAt - w.time)) (deadlineAt - w.time)),
    min deadlineAt
      (w.time + max 1 (min (timeoutMs.getD (deadlineAt - w.time)) (deadlineAt - w.time))),
    by omega, ?_⟩
  rw [allowance, run_bind, run_throwIfCancelled]
  dsimp only
  rw [run_bind, run_remaining h]
  dsimp only
  rw [run_bind, run_now]
  dsimp only
  rw [run_bind, run_remaining (by omega)]
  rfl

lemma run_settle {outcome : Output} {commandDeadline : ℕ} (h : w.time < commandDeadline) :
    (settle (.ok outcome) false commandDeadline).run readyAnswer readyNext w =
      (.ok outcome, w) := by
  rw [settle]
  simp only [Bool.false_eq_true, false_or]
  rw [run_bind, run_attempt, run_bind, run_ofExcept]
  dsimp only
  rw [run_bind, run_throwIfCancelled]
  dsimp only
  rw [run_bind, run_bind, run_now]
  simp [Nat.not_le.mpr h]

lemma run_commandWithin (c : Command) (allowFailure : Bool) (timeoutMs : Option ℕ)
    (h : w.time < deadlineAt) :
    (commandWithin r c allowFailure timeoutMs deadlineAt).run readyAnswer readyNext w =
      (.ok ⟨some 0, [], []⟩, afterCommand w c) := by
  obtain ⟨n, commandDeadline, hlt, hrun⟩ := run_allowance timeoutMs h
  rw [commandWithin, run_bind, hrun]
  dsimp only
  rw [run_bind]
  have hask : (ask (.docker c n)).run readyAnswer readyNext w =
      (.ok ⟨.closed (some 0) [] [] false false false, false⟩, afterCommand w c) := rfl
  rw [hask]
  have hexecute : execute r.docker allowFailure (.closed (some 0) [] [] false false false) =
      .ok ⟨some 0, [], []⟩ := by
    simp [execute]
  dsimp only
  rw [hexecute, run_settle (by rwa [afterCommand_time])]

lemma run_command (c : Command) (h : w.time < deadlineAt) :
    (command r c deadlineAt).run readyAnswer readyNext w =
      (.ok ⟨some 0, [], []⟩, afterCommand w c) :=
  run_commandWithin r c false none h

lemma run_removeLeft (list : Command) (remove : List Text → Command) (message : String)
    (hlist : afterCommand w list = w) (h : w.time < deadlineAt) :
    (removeLeft r list remove message deadlineAt).run readyAnswer readyNext w = (.ok (), w) := by
  rw [removeLeft, run_bind, run_command r list h, hlist]
  rfl

lemma run_reconcile (h : w.time < deadlineAt) :
    (reconcileTransientResources r deadlineAt).run readyAnswer readyNext w = (.ok (), w) := by
  rw [reconcileTransientResources, run_bind, run_removeLeft r _ _ _ rfl h]
  exact run_removeLeft r _ _ _ rfl h

lemma run_createGateway {opts : List String} {image : String} {args : List String}
    (hcreate : proxyCreateArgs r (agentNetwork r) = .ok (.create opts image args))
    (h : w.time < deadlineAt) :
    (createGateway r deadlineAt).run readyAnswer readyNext w =
      (.ok [], { w with created := some args }) := by
  rw [createGateway, run_bind, run_reconcile r h]
  dsimp only
  rw [run_bind, run_command r _ h]
  dsimp only [afterCommand]
  rw [run_bind, run_command r _ h]
  dsimp only
  rw [run_bind, hcreate]
  simp only [Except.mapError, run_ofExcept]
  rw [run_bind, run_command r _ (by exact h)]
  rfl

lemma run_startGateway {args : List String} (proxyId : Text) (hargs : w.created = some args)
    (hlife : lifetimeSeconds args = some proxyLifetimeSeconds) (h : w.time < deadlineAt) :
    (startGateway r deadlineAt proxyId).run readyAnswer readyNext w =
      (.ok (), { w with gateway := some ⟨proxyLifetimeSeconds, w.time⟩ }) := by
  rw [startGateway, run_bind, run_command r _ h]
  dsimp only
  have hask : (ask (.startProxy proxyId)).run readyAnswer readyNext w =
      (.ok (), { w with gateway := some ⟨proxyLifetimeSeconds, w.time⟩ }) := by
    have hnext : readyNext w (.startProxy proxyId) () =
        { w with gateway := some ⟨proxyLifetimeSeconds, w.time⟩ } := by
      simp [readyNext, hargs, hlife]
    exact Prod.ext rfl hnext
  rw [run_bind]
  simp only [afterCommand]
  rw [hask]
  dsimp only
  rw [awaitHealthy, run_bind, run_commandWithin r _ _ _ (by exact h)]
  simp [afterCommand, probe]

lemma run_start {opts : List String} {image : String} {args : List String}
    (hcreate : proxyCreateArgs r (agentNetwork r) = .ok (.create opts image args))
    (h : w.time < deadlineAt) (hsafe : deadlineAt ≤ maxSafeInteger) :
    (start r deadlineAt).run readyAnswer readyNext w = (.ok (),
      { w with created := some args, gateway := some ⟨proxyLifetimeSeconds, w.time⟩ }) := by
  obtain ⟨_, _, _, heq, hlife⟩ := lifetime_of_proxyCreateArgs hcreate
  cases heq
  rw [start, run_bind, run_deploymentDeadline h hsafe]
  dsimp only
  rw [run_bind, run_attempt, run_bind, run_createGateway r hcreate h]
  dsimp only
  rw [run_startGateway r [] rfl hlife (by exact h)]
  rfl

lemma run_launch {opts : List String} {image : String} {args : List String} {template : Template}
    (hcreate : proxyCreateArgs r (agentNetwork r) = .ok (.create opts image args))
    (hpos : 0 < template.workflowSeconds)
    (hsafe : w.time + template.workflowSeconds * 1000 ≤ maxSafeInteger) :
    (launch r template).run readyAnswer readyNext w =
      (.ok (w.time + template.workflowSeconds * 1000),
        { w with created := some args, gateway := some ⟨proxyLifetimeSeconds, w.time⟩ }) := by
  have hlt : w.time < w.time + template.workflowSeconds * 1000 := by omega
  rw [launch, run_bind, run_uninterrupted]
  dsimp only
  rw [run_bind, run_now]
  dsimp only
  rw [run_bind, imageDigest, run_bind, run_deploymentDeadline hlt hsafe]
  dsimp only
  rw [run_bind, run_command r _ hlt]
  dsimp only [run_pure]
  rw [run_bind]
  simp only [afterCommand]
  rw [run_start r hcreate hlt hsafe]
  dsimp only
  rw [run_bind, run_uninterrupted]
  rfl

end Ready

/-! ### A pod that comes to its planner late -/

/-- The pod's part of it. -/
def podTimed : Env Controller.Call Controller.Call.Ret World where
  step w o r w' := w.time ≤ w'.time ∧ podStep w o r w'

/-- An execution is asked for that the gateway does not outlive. -/
def Missed (w : World) : Controller.Call → Prop
  | .execute a => ¬ Outlives w a
  | _ => False

/-- It is that late, and this gateway stands. -/
def At (time : ℕ) (gateway : Option Running) (w : World) : Prop :=
  w.time = time ∧ w.gateway = gateway

section Pod

open Controller (valid port PodInput gitAnswers)

variable {α β : Type} {time later : ℕ} {gateway : Option Running} {w : World}
  {Q : Except Controller.Err β → World → Prop}

/-- A call other than a reading of the clock, with an answer that takes until then. -/
lemma might_ask {o : Controller.Call} {f : o.Ret → Controller.Io β} (r : o.Ret)
    (hnow : ∀ t, (⟨o, r⟩ : (o : Controller.Call) × o.Ret) ≠ ⟨.now, some t⟩)
    (hgit : ∀ s, gitAnswers s o r) (htime : time ≤ later) (hw : At time gateway w)
    (h : ∀ w', At later gateway w' → Might podTimed Missed (f r) w' Q) :
    Might podTimed Missed (Controller.ask o >>= f) w Q := by
  refine .inr ⟨r, { w with time := later, seen := w.seen.next o r }, ?_, h _ ⟨rfl, hw.2⟩⟩
  exact ⟨hw.1.trans_le htime, hgit _, rfl, fun t ht => absurd ht (hnow t)⟩

lemma might_now {f : ℕ → Controller.Io β} (hw : At time gateway w)
    (h : ∀ w', At time gateway w' → w'.seen.last = some time →
      Might podTimed Missed (f time) w' Q) :
    Might podTimed Missed (Controller.now >>= f) w Q := by
  refine .inr ⟨some time, { w with seen := w.seen.next .now (some time) }, ?_, ?_⟩
  · refine ⟨le_rfl, trivial, rfl, fun t ht => ?_⟩
    have heq : some time = some t := eq_of_heq (Sigma.mk.inj ht).2
    obtain rfl := Option.some.inj heq
    exact ⟨hw.1.le, hw.1.ge⟩
  · exact h _ hw rfl

lemma might_port {x : Except String α} {a : α} {f : α → Controller.Io β} (hx : x = .ok a)
    (h : Might podTimed Missed (f a) w Q) : Might podTimed Missed (port x >>= f) w Q := by
  rw [hx]
  exact h

/-- A port that makes a view at once. -/
lemma might_view {id sha : String} (hsha : Controller.isSha1 sha) {f : Json → Controller.Io β}
    (hw : At time gateway w)
    (h : ∀ w', At time gateway w' →
      Might podTimed Missed (f (.obj [("id", .str id), ("root", .str "/view")])) w' Q) :
    Might podTimed Missed (do
      let r ← Controller.ask (.createReadView id sha)
      let view ← port r
      f view) w Q := by
  refine might_ask (.ok (.obj [("id", .str id), ("root", .str "/view")])) (fun _ h => by cases h)
    (fun _ => ⟨hsha, "/view", rfl⟩) le_rfl hw fun w hw => ?_
  exact h w hw

lemma might_valid {x : Except String α} {a : α} {f : α → Controller.Io β} (hx : x = .ok a)
    (h : Might podTimed Missed (f a) w Q) : Might podTimed Missed (valid x >>= f) w Q := by
  rw [hx]
  exact h

variable {cfg : Controller.Config} {deadlineAt : ℕ}

lemma might_remainingMs {f : ℕ → Controller.Io β} (hlt : time < min cfg.deadlineAt deadlineAt)
    (hw : At time gateway w)
    (h : ∀ w', At time gateway w' → w'.seen.last = some time →
      Might podTimed Missed (f (min cfg.deadlineAt deadlineAt - time)) w' Q) :
    Might podTimed Missed (Controller.remainingMs cfg deadlineAt >>= f) w Q := by
  rw [Controller.remainingMs, might_bind]
  refine might_now hw fun w' hw' hlast => ?_
  rw [if_neg (Nat.not_le.mpr hlt)]
  exact h w' hw' hlast

/-- An agent that is asked for when enough of the run is left, but not of the gateway. -/
lemma might_runAgent {f : Json → Controller.Io β} {input : Controller.AgentInput}
    {life began : ℕ} (hgateway : gateway = some ⟨life, began⟩)
    (hleft : time + 10000 ≤ min cfg.deadlineAt deadlineAt)
    (hexecution : 10 ≤ cfg.template.executionSeconds)
    (hlate : began + life * 1000 < time + 10000) (hw : At time gateway w) :
    Might podTimed Missed (Controller.runAgent cfg deadlineAt input >>= f) w Q := by
  rw [Controller.runAgent, might_bind]
  refine might_remainingMs (by omega) hw fun w hw _ => ?_
  rw [Controller.executionSeconds, might_bind]
  refine might_remainingMs (by omega) hw fun w hw hlast => ?_
  rw [if_neg (by omega)]
  refine .inl ?_
  rintro ⟨g, now, hg, hnow, hall⟩
  rw [hw.2, hgateway] at hg
  obtain rfl := Option.some.inj hg
  obtain rfl := Option.some.inj (hlast.symm.trans hnow)
  have hmoment := hall (began + life * 1000) ?_
  · exact absurd hmoment (lt_irrefl _)
  · dsimp only
    have hsec : 10 ≤ min cfg.template.executionSeconds
      ((min cfg.deadlineAt deadlineAt - time) / 1000) := by omega
    calc began + life * 1000 < time + 10 * 1000 := hlate
      _ ≤ _ := Nat.add_le_add_left (Nat.mul_le_mul_right 1000 hsec) time

open Controller (buildPrompt makePlan attemptOnce attemptsFrom prepare workflow runPod configure
  portAnswer podInput)

/-- What the planner is told in the first attempt. -/
def firstPrompt (cfg : Controller.Config) : Except String Controller.Prompt :=
  buildPrompt (cfg.prompt .planner) "planner"
    [("assignment", cfg.assignment), ("attempt", Wire.ofNat 1), ("baseSha", .str sampleSha),
      ("priorAttempts", .arr (([] : List Controller.Evidence).map Controller.Evidence.json))]

variable {life began : ℕ}

lemma might_makePlan (hprompt : (firstPrompt cfg).isOk)
    (hgateway : gateway = some ⟨life, began⟩)
    (hleft : time + 10000 ≤ min cfg.deadlineAt deadlineAt)
    (hexecution : 10 ≤ cfg.template.executionSeconds) (hlate : began + life * 1000 < time + 10000)
    (hw : At time gateway w) {Q : Except Controller.Err Plan → World → Prop} (directories : Json) :
    Might podTimed Missed (makePlan cfg sampleSha directories 1 deadlineAt []) w Q := by
  obtain ⟨prompt, hprompt⟩ := ok_of_isOk hprompt
  unfold firstPrompt at hprompt
  unfold makePlan
  refine might_remainingMs (by omega) hw fun w hw _ => ?_
  refine might_ask (.ok ()) (fun _ h => by cases h) (fun _ => trivial) le_rfl hw fun w hw => ?_
  refine might_port rfl ?_
  dsimp only
  generalize ("attempt-" ++ toString 1 ++ "-planner" : String) = id
  refine might_view (by decide) hw fun w hw => ?_
  rw [hprompt]
  refine might_valid rfl ?_
  exact might_runAgent hgateway hleft hexecution hlate hw

lemma might_attemptsFrom (hprompt : (firstPrompt cfg).isOk)
    (hgateway : gateway = some ⟨life, began⟩) (hleft : time + 10000 ≤ cfg.deadlineAt)
    (hexecution : 10 ≤ cfg.template.executionSeconds) (hattempt : 10 ≤ cfg.template.attemptSeconds)
    (hlate : began + life * 1000 < time + 10000) (hw : At time gateway w)
    {Q : Except Controller.Err String → World → Prop} (directories : Json) (k : ℕ) :
    Might podTimed Missed (attemptsFrom cfg sampleSha directories (k + 1) 1 []) w Q := by
  unfold attemptsFrom
  refine might_now hw fun w hw _ => ?_
  refine might_ask () (fun _ h => by cases h) (fun _ => trivial) le_rfl hw fun w hw => ?_
  rw [might_bind, might_attempt, attemptOnce, might_bind]
  refine might_makePlan hprompt hgateway ?_ hexecution hlate hw directories
  omega

/-- The repository takes its time. -/
lemma might_prepare {began : ℕ} {Q : Except Controller.Err (String × Json) → World → Prop}
    (hbegan : began ≤ time) (htime : time < cfg.deadlineAt) (hw : At began gateway w)
    (h : ∀ w', At time gateway w' → Q (.ok (sampleSha, sampleDirectories)) w') :
    Might podTimed Missed (prepare cfg) w Q := by
  unfold prepare
  refine might_ask (.ok ()) (fun _ h => by cases h) (fun _ => trivial) le_rfl hw fun w hw => ?_
  refine might_port rfl ?_
  refine might_ask (portAnswer .prepareAssignment) (fun _ h => by cases h) (fun _ => trivial) hbegan
    hw fun w hw => ?_
  refine might_port rfl (might_valid rfl (might_valid rfl (might_valid rfl ?_)))
  refine might_ask (.ok (.obj [])) (fun _ h => by cases h) (fun _ => trivial) le_rfl hw
    fun w hw => ?_
  refine might_port rfl (might_valid rfl ?_)
  split_ifs
  · refine might_ask (.ok ()) (fun _ h => by cases h) (fun _ => trivial) le_rfl hw fun w hw => ?_
    refine might_port rfl (might_remainingMs (by omega) hw fun w hw _ => ?_)
    refine might_ask (portAnswer (.verifyCandidate sampleSha 0)) (fun _ h => by cases h)
      (fun _ => trivial) le_rfl hw fun w hw => ?_
    refine might_port rfl (might_valid rfl ?_)
    refine might_ask (.ok ()) (fun _ h => by cases h) (fun _ => trivial) le_rfl hw fun w hw => ?_
    exact might_port rfl (h w hw)
  · exact h w hw

/-- A run of any accepted template. -/
def lateInput (lib : Lib) (v : Json) (deadlineAt : ℕ) : PodInput :=
  { podInput with lib := lib, template := v, deadlineAt := some deadlineAt }

lemma might_pod {lib : Lib} {v : Json} {template : Template}
    (htemplate : validatePodTemplate lib v = .ok template) {began : ℕ}
    (hgateway : gateway = some ⟨life, began⟩) (hw : At began gateway w)
    (hdeadline : deadlineAt = began + template.workflowSeconds * 1000)
    (hsafe : deadlineAt ≤ maxSafeInteger) (hbegan : began ≤ time)
    (hleft : time + 10000 ≤ deadlineAt) (hlate : began + life * 1000 < time + 10000)
    {Q : Except Controller.Err String → World → Prop} :
    Might podTimed Missed (Controller.runEngineeringPod (lateInput lib v deadlineAt)) w Q := by
  have hb := bounds_of_validatePodTemplate htemplate
  obtain ⟨prompts, hchecked, hprompt⟩ : ∃ prompts,
      Controller.checkInput (lateInput lib v deadlineAt) = .ok (template, prompts) ∧
      ∀ cfg : Controller.Config, cfg.assignment = .obj [] →
        cfg.prompt .planner = (PodStore.strOf (prompts.lookup "planner")).getD "" →
        (firstPrompt cfg).isOk := by
    refine ⟨Controller.promptKeys.map fun key => (key, .str "Work."), ?_, ?_⟩
    · have hrequire {P : Prop} [Decidable P] {message : String} (h : P) :
          PodStore.require P message = .ok () := if_pos h
      have hdigest : isSha256 podInput.templateDigest = true := by decide +kernel
      have hprompts : Controller.promptsFrom
          (Controller.promptKeys.map fun key => (key, .str "Work.")) Controller.promptKeys =
            .ok () := by
        decide +kernel
      rw [Controller.checkInput]
      refine bind_eq_ok.mpr ⟨template, htemplate, bind_eq_ok.mpr
        ⟨Controller.promptKeys.map fun key => (key, .str "Work."), ?_, ?_⟩⟩
      · exact bind_eq_ok.mpr ⟨_, rfl, bind_eq_ok.mpr ⟨(), hrequire (by decide +kernel),
          bind_eq_ok.mpr ⟨(), hprompts, rfl⟩⟩⟩
      · exact bind_eq_ok.mpr ⟨[], rfl, bind_eq_ok.mpr ⟨(), hrequire hdigest, rfl⟩⟩
    · intro cfg ha hp
      rw [firstPrompt, ha, hp]
      decide +kernel
  have hlimit : Controller.deadlineOf began (began + template.workflowSeconds * 1000)
      (some deadlineAt) = .ok deadlineAt := by
    rw [Controller.deadlineOf, ← hdeadline]
    simp only [PodStore.require, hsafe, if_true, le_refl, true_and]
    rw [if_pos (by omega)]
    rfl
  unfold Controller.runEngineeringPod configure
  rw [might_bind, hchecked]
  refine might_valid rfl ?_
  refine might_now hw fun w hw _ => ?_
  refine might_valid hlimit ?_
  change Might podTimed Missed (runPod _) w Q
  rw [runPod, might_bind, might_attempt, workflow, might_bind]
  refine might_prepare hbegan ?_ hw fun w hw => ?_
  · show time < deadlineAt
    omega
  obtain ⟨k, hk⟩ : ∃ k, template.maxAttempts = k + 1 :=
    ⟨template.maxAttempts - 1, (Nat.sub_add_cancel hb.attempts.1).symm⟩
  dsimp only
  rw [hk]
  exact might_attemptsFrom (hprompt _ rfl rfl) hgateway hleft hb.execution.1
    (hb.execution.1.trans hb.attempt.1) hlate hw _ k

end Pod

/-! ### Runs and the lifetime -/

/-- An execution of the run is asked for that the gateway does not outlive. -/
def missed (w : World) : Call ⊕ Controller.Call → Prop
  | .inl _ => False
  | .inr o => Missed w o

lemma might_inl {α : Type} {p : Io α} {w t : World} {a : α} {Q : Except Text α → World → Prop}
    (h : p.run readyAnswer readyNext w = (.ok a, t)) (hQ : Q (.ok a) t) :
    Might timed missed p.inl w Q := by
  induction p generalizing w with
  | ret b =>
    obtain ⟨hb, rfl⟩ := Prod.mk.inj h
    obtain rfl := Except.ok.inj hb
    exact hQ
  | fail e => cases (Prod.mk.inj h).1
  | call o k ih => exact .inr ⟨readyAnswer w o, readyNext w o _, step_ready w o, ih _ h⟩

lemma might_inr {ε α : Type} {p : Prog Controller.Call Controller.Call.Ret ε α} {w : World}
    {Q : Except ε α → World → Prop} (h : Might podTimed Missed p w Q) :
    Might timed missed p.inr w Q := by
  induction p generalizing w with
  | ret a => exact h
  | fail e => exact h
  | call o k ih => exact h.imp_right fun ⟨r, t, hr, hk⟩ => ⟨r, t, hr, ih r hk⟩

/-- In every run with this template the gateway outlives the executions that are asked for. -/
def Covers (lib : Lib) (v : Json) (template : Template) : Prop :=
  ∀ (r : Runtime) (input : Controller.PodInput) (w₀ w : World) o k a,
    input.lib = lib → input.template = v → w₀.seen = {} →
    Exec timed (runPodController r template input) w₀ (.call (.inr o) k) w →
    (o = .execute a ∨ ∃ slot, o = .start slot a) → Outlives w a

lemma covers_of_le {lib : Lib} {v : Json} {template : Template}
    (h : validatePodTemplate lib v = .ok template)
    (hshort : template.workflowSeconds ≤ proxyLifetimeSeconds) : Covers lib v template := by
  rintro r input w₀ w o k a rfl rfl hw hx ho
  have hsafe := ((safe_runPodController r h hshort hw).exec hx).1
  obtain rfl | ⟨slot, rfl⟩ := ho
  · exact hsafe
  · exact hsafe

def sampleRuntime : Runtime where
  docker := "docker"
  image := "bimo:local"
  deployment := "sample"
  model := "openrouter/model"
  modelConcurrency := 2
  modelRequestLimit := 120

def lateTime : ℕ := 3591000

/-- A run that comes to its planner less than ten seconds before the gateway is over. -/
lemma might_runPodController {lib : Lib} {v : Json} {template : Template}
    (h : validatePodTemplate lib v = .ok template)
    (hlong : proxyLifetimeSeconds < template.workflowSeconds) :
    Might timed missed (runPodController sampleRuntime template (lateInput lib v 0))
      ⟨0, none, none, {}⟩ fun _ _ => False := by
  have hb := bounds_of_validatePodTemplate h
  obtain ⟨opts, image, args, hcreate, -⟩ : ∃ opts image args,
      proxyCreateArgs sampleRuntime (agentNetwork sampleRuntime) = .ok (.create opts image args) ∧
        True := ⟨_, _, _, rfl, trivial⟩
  have hsafe : 0 + template.workflowSeconds * 1000 ≤ maxSafeInteger :=
    calc 0 + template.workflowSeconds * 1000 ≤ 0 + 43200 * 1000 := by
          have := hb.workflow.2
          omega
      _ ≤ maxSafeInteger := by decide
  have hid : PodStore.isRunId (lateInput lib v 0).runId = true :=
    show PodStore.isRunId Controller.podInput.runId = true by decide +kernel
  have hlaunch := run_launch sampleRuntime (w := ⟨0, none, none, {}⟩) hcreate
    (Nat.zero_lt_of_lt hlong) hsafe
  rw [runPodController, if_neg (by rw [hid]; exact Bool.noConfusion), might_bind, might_attempt,
    might_bind]
  refine might_inl hlaunch ?_
  refine might_inr ?_
  rw [might_mapErr]
  unfold proxyLifetimeSeconds at hlong
  have hgateway : some (⟨proxyLifetimeSeconds, 0⟩ : Running) = some ⟨proxyLifetimeSeconds, 0⟩ := rfl
  refine might_pod (w := ⟨0, some args, some ⟨proxyLifetimeSeconds, 0⟩, {}⟩) h hgateway
    ⟨rfl, rfl⟩ rfl hsafe (Nat.zero_le lateTime) ?_ (by decide)
  rw [lateTime]
  omega

lemma not_covers_of_lt {lib : Lib} {v : Json} {template : Template}
    (h : validatePodTemplate lib v = .ok template)
    (hlong : proxyLifetimeSeconds < template.workflowSeconds) : ¬ Covers lib v template := by
  intro hcovers
  obtain ⟨o, k, t, hx, hmissed⟩ := (might_runPodController h hlong).exec
  rcases o with o | o
  · exact hmissed
  · cases o with
    | execute a => exact hmissed (hcovers _ _ _ _ _ _ _ rfl rfl rfl hx (.inl rfl))
    | _ => exact hmissed

/-- A template with the times that are shipped. -/
def longTemplate : Json :=
  let writer (slot : Slot) (root : String) : String × Json :=
    (slot.name, .obj [("prompt", .str "writer.md"), ("allowedWriteRoots", .arr [.str root])])
  .obj [("version", .num "1"), ("name", .str "pod"), ("maxAttempts", .num "3"),
    ("timeouts", .obj [("executionSeconds", .num "1200"), ("attemptSeconds", .num "3600"),
      ("workflowSeconds", .num "7200")]),
    ("changes", .obj [("maxFiles", .num "200"), ("maxBytes", .num "4194304")]),
    ("writers", .obj [writer .engineeringA "src", writer .engineeringB "web",
      writer .qaTests "test"]),
    ("prompts", .obj (promptIds.map fun id => (id, .str "prompt.md"))),
    ("verificationProfile", .str "bimo-repo-v1")]

/-- **When the gateway outlives the run.** For every accepted template: in all runs, with every
schedule, the gateway's lifetime is not over while an execution may be waited for, if and only if
the time of the whole run is within that lifetime. -/
theorem gateway_outlives {lib : Lib} {v : Json} {template : Template}
    (h : validatePodTemplate lib v = .ok template) :
    Covers lib v template ↔ template.workflowSeconds ≤ proxyLifetimeSeconds :=
  ⟨fun hcovers => not_lt.mp fun hlong => not_covers_of_lt h hlong hcovers, covers_of_le h⟩

/-- A template whose runs are covered. -/
theorem gateway_outlives_sample : ∃ template,
    validatePodTemplate plainLib sampleTemplate = .ok template ∧
      (Covers plainLib sampleTemplate template ↔
        template.workflowSeconds ≤ proxyLifetimeSeconds) := by
  obtain ⟨template, h⟩ := ok_of_isOk
    (show (validatePodTemplate plainLib sampleTemplate).isOk by decide +kernel)
  exact ⟨template, h, gateway_outlives h⟩

/-- A run of two hours waits for its planner when the gateway of one hour is over. -/
theorem long_run_outlives_gateway : ∃ template,
    validatePodTemplate plainLib longTemplate = .ok template ∧
      ¬ Covers plainLib longTemplate template := by
  obtain ⟨template, h, htime⟩ : ∃ template,
      validatePodTemplate plainLib longTemplate = .ok template ∧ template.workflowSeconds = 7200 := by
    have hok : (match validatePodTemplate plainLib longTemplate with
      | .ok template => template.workflowSeconds == 7200
      | .error _ => false) = true := by decide +kernel
    split at hok
    · rename_i template htemplate
      exact ⟨template, htemplate, by simpa using hok⟩
    · cases hok
  exact ⟨template, h, not_covers_of_lt h (by rw [htime]; decide)⟩

end Bimo.Gateway
