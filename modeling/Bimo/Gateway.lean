import Bimo.Executions
import Bimo.DockerRuntime

/-!
The credential gateway of a pod and how long it is there.

The controller makes the deadline of a run from its first reading of the clock, starts the
gateway and runs the pod with that deadline. The gateway ends by itself when its lifetime is
over, which is counted from its own start. Time is part of the state here: every call takes some
time, the clock tells a time within the call that reads it, and the gateway begins some time
after it is started.

What `close` does is left out: it ends what is left of the run and fails nothing.
-/

namespace Bimo.Gateway

open Js (Text lit)
open Docker (Ran Output execute commonSandbox transientLabels containerName)
open Contract

structure Runtime where
  docker : String
  image : String
  deployment : String
  model : String
  modelConcurrency : ℕ
  modelRequestLimit : ℕ

/-- The commands of a start. A container is made from options, an image and its arguments. -/
inductive Command
  | inspectImage (image : String)
  | ps (filters : List String)
  | rm (ids : List Text)
  | networkLs (filters : List String)
  | networkRm (ids : List Text)
  | networkCreate (args : List String)
  | networkConnect (network : String) (id : Text)
  | create (options : List String) (image : String) (args : List String)
  | run (options : List String) (image : String) (args : List String)

inductive Call
  | now
  | interrupted
  | cancelled
  | docker (c : Command) (timeoutMs : ℕ)
  /-- A container is started with a key on its input, and not waited for. -/
  | startProxy (id : Text)
  | wait (milliseconds : ℕ)
  | close

abbrev Call.Ret : Call → Type
  | .now => ℕ
  | .interrupted | .cancelled => Bool
  | .docker _ _ => Ran
  | .wait _ => Docker.Timed Unit
  | .startProxy _ | .close => Unit

abbrev Io (α : Type) := Prog Call Call.Ret Text α

def ask (c : Call) : Io c.Ret := Prog.ask c

def fail {α : Type} (message : String) : Io α := .fail (lit message)

/-! ### Deadlines -/

def remaining (deadlineAt : ℕ) : Io ℕ := do
  let now ← ask .now
  if deadlineAt ≤ now then fail "deployment deadline exceeded" else pure (deadlineAt - now)

def deploymentDeadline (deadlineAt : ℕ) : Io Unit := do
  let now ← ask .now
  if maxSafeInteger < deadlineAt ∨ deadlineAt ≤ now then fail "invalid deployment deadline"
  else pure ()

def throwIfCancelled : Io Unit := do
  let cancelled ← ask .cancelled
  if cancelled then fail "deployment cancelled" else pure ()

/-- What is left of the outcome of a command once cancellation and deadline were looked at. -/
def settle (outcome : Except Text Output) (expired : Bool) (commandDeadline : ℕ) : Io Output := do
  let late : Io Unit := do
    let now ← ask .now
    if expired ∨ commandDeadline ≤ now then fail "deployment deadline exceeded" else pure ()
  let tried ← Prog.attempt (do
    let result ← Prog.ofExcept outcome
    throwIfCancelled
    late
    pure result : Io Output)
  match tried with
  | .ok result => pure result
  | .error e => do
    throwIfCancelled
    late
    .fail e

/-- How long a command may take, and its deadline. -/
def allowance (timeoutMs : Option ℕ) (deadlineAt : ℕ) : Io (ℕ × ℕ) := do
  throwIfCancelled
  let available ← remaining deadlineAt
  let timeoutMs := max 1 (min (timeoutMs.getD available) available)
  let now ← ask .now
  let commandDeadline := min deadlineAt (now + timeoutMs)
  let _ ← remaining commandDeadline
  pure (timeoutMs, commandDeadline)

def commandWithin (r : Runtime) (c : Command) (allowFailure : Bool) (timeoutMs : Option ℕ)
    (deadlineAt : ℕ) : Io Output := do
  let (timeoutMs, commandDeadline) ← allowance timeoutMs deadlineAt
  let ran ← ask (.docker c timeoutMs)
  settle (execute r.docker allowFailure ran.ending) ran.deadlineExpired commandDeadline

/-- A command that has to succeed. -/
def command (r : Runtime) (c : Command) (deadlineAt : ℕ) : Io Output :=
  commandWithin r c false none deadlineAt

/-- A pause within a deadline of its own, a millisecond longer than it is. -/
def waitWithin (milliseconds deadlineAt : ℕ) : Io Unit := do
  let left ← remaining deadlineAt
  let duration := min milliseconds left
  let now ← ask .now
  let _ ← remaining (min deadlineAt (now + duration + 1))
  let outcome ← ask (.wait duration)
  match outcome with
  | none => fail "deployment deadline exceeded"
  | some (.error e) => .fail e
  | some (.ok ()) => do
    let _ ← remaining (min deadlineAt (now + duration + 1))
    pure ()

/-! ### The start -/

/-- Ids, one after the other, in what a command wrote. -/
def ids (stdout : Text) : List Text := (stdout.splitOnP Js.isSpace).filter (· ≠ [])

def isTransientId (id : Text) : Bool := Js.consists Docker.isHexUnit 12 64 id

/-- What one kind of things a former run left is removed. -/
def removeLeft (r : Runtime) (list : Command) (remove : List Text → Command) (message : String)
    (deadlineAt : ℕ) : Io Unit := do
  let listed ← command r list deadlineAt
  let found := ids listed.stdout
  if found.all isTransientId = false then fail message
  else if found = [] then pure ()
  else do
    let _ ← command r (remove found) deadlineAt
    pure ()

def reconcileTransientResources (r : Runtime) (deadlineAt : ℕ) : Io Unit := do
  let filters := ["--filter", "label=dev.ascii.bimo.deployment=" ++ r.deployment,
    "--filter", "label=dev.ascii.bimo.transient=true"]
  removeLeft r (.ps filters) .rm "Docker returned an invalid transient container ID" deadlineAt
  removeLeft r (.networkLs filters) .networkRm "Docker returned an invalid transient network ID"
    deadlineAt

def proxyLifetimeSeconds : ℕ := 3600

/-- The name of a model at its provider. -/
def modelName (model : String) : String :=
  if "openrouter/".toList.isPrefixOf model.toList then String.ofList (model.toList.drop 11)
  else model

/-- The container of the gateway. -/
def proxyCreateArgs (r : Runtime) (network : String) : Except String Command :=
  if r.modelConcurrency < 1 ∨ 3 < r.modelConcurrency then .error "invalid model concurrency"
  else if r.modelRequestLimit < 1 ∨ 300 < r.modelRequestLimit then
    .error "invalid model request limit"
  else .ok (.create
    (["--pull=never", "--interactive", "--name", containerName r.deployment "gateway"] ++
      transientLabels r.deployment ++ ["--network", network, "--network-alias", "gateway"] ++
      commonSandbox "256m" "0.5" "64" ++ ["--tmpfs", "/tmp:rw,nosuid,nodev,noexec,size=64m"])
    r.image
    ["proxy", "--listen-scope", "isolated-network",
      "--lifetime-seconds", toString proxyLifetimeSeconds, "--port", "8787",
      "--model", modelName r.model, "--max-requests", toString r.modelRequestLimit,
      "--max-concurrency", toString r.modelConcurrency, "--max-body-bytes", "2097152",
      "--timeout-seconds", "300"])

def agentNetwork (r : Runtime) : String := containerName r.deployment "agents"

def egressNetwork (r : Runtime) : String := containerName r.deployment "egress"

/-- The container that asks the gateway whether it is there. -/
def probe (r : Runtime) : Command :=
  .run (["--pull=never", "--rm", "--network", agentNetwork r] ++ transientLabels r.deployment ++
      commonSandbox "64m" "0.25" "32" ++ ["--tmpfs", "/tmp:rw,nosuid,nodev,noexec,size=16m"])
    r.image ["probe", "--url", "http://gateway:8787/healthz", "--status", "200", "--contains", "ok"]

/-- The gateway is asked a number of times, with a pause after each. -/
def awaitHealthy (r : Runtime) (deadlineAt : ℕ) : ℕ → Io Unit
  | 0 => fail "credential gateway did not become healthy"
  | attempts + 1 => do
    let probed ← commandWithin r (probe r) true (some 15000) deadlineAt
    if probed.code = some 0 then pure ()
    else do
      waitWithin 250 deadlineAt
      awaitHealthy r deadlineAt attempts

/-- Networks and gateway, up to the container. -/
def createGateway (r : Runtime) (deadlineAt : ℕ) : Io Text := do
  reconcileTransientResources r deadlineAt
  let _ ← command r
    (.networkCreate (transientLabels r.deployment ++ ["--internal", agentNetwork r])) deadlineAt
  let _ ← command r (.networkCreate (transientLabels r.deployment ++ [egressNetwork r])) deadlineAt
  let create ← Prog.ofExcept ((proxyCreateArgs r (agentNetwork r)).mapError lit)
  let created ← command r create deadlineAt
  pure (Js.trim created.stdout)

/-- The gateway is started and waited for until it answers. -/
def startGateway (r : Runtime) (deadlineAt : ℕ) (proxyId : Text) : Io Unit := do
  let _ ← command r (.networkConnect (egressNetwork r) proxyId) deadlineAt
  ask (.startProxy proxyId)
  awaitHealthy r deadlineAt 30

/-- The start of a pod's runtime, which bootstraps nothing. -/
def start (r : Runtime) (deadlineAt : ℕ) : Io Unit := do
  deploymentDeadline deadlineAt
  let r ← (do
    let proxyId ← createGateway r deadlineAt
    startGateway r deadlineAt proxyId : Io Unit).attempt
  match r with
  | .ok () => pure ()
  | .error e => do
    ask .close
    .fail e

def imageDigest (r : Runtime) (deadlineAt : ℕ) : Io Text := do
  deploymentDeadline deadlineAt
  let result ← command r (.inspectImage r.image) deadlineAt
  pure (Js.trim result.stdout)

/-! ### The run -/

abbrev Run (α : Type) :=
  Prog (Call ⊕ Controller.Call) (Sum.elim Call.Ret Controller.Call.Ret) Text α

def uninterrupted : Io Unit := do
  let interrupted ← ask .interrupted
  if interrupted then fail "controller interrupted" else pure ()

/-- The runtime, from the first reading of the clock until the gateway answers. The deadline of
the run is returned. -/
def launch (r : Runtime) (template : Template) : Io ℕ := do
  uninterrupted
  let startedAt ← ask .now
  let deadlineAt := startedAt + template.workflowSeconds * 1000
  let _ ← imageDigest r deadlineAt
  start r deadlineAt
  uninterrupted
  pure deadlineAt

/-- The pod with the deadline of the run. -/
def podRun (input : Controller.PodInput) (deadlineAt : ℕ) : Run String :=
  ((Controller.runEngineeringPod { input with deadlineAt := some deadlineAt }).mapErr
    fun e => lit e.message).inr

/-- A run of a pod whose template was loaded. -/
def runPodController (r : Runtime) (template : Template) (input : Controller.PodInput) :
    Run String := do
  if PodStore.isRunId input.runId = false then .fail (lit "pod run ID is invalid")
  else do
    let outcome ← (do
      let deadlineAt ← (launch r template).inl
      podRun input deadlineAt : Run String).attempt
    (ask .close).inl
    Prog.ofExcept outcome

/-! ### Time -/

/-- A gateway that has begun. -/
structure Running where
  lifetimeSeconds : ℕ
  startedAt : ℕ
  deriving DecidableEq, Repr

structure World where
  /-- The time in milliseconds. -/
  time : ℕ
  /-- The arguments of the container that was made last. -/
  created : Option (List String) := none
  gateway : Option Running := none
  /-- What is observed of the pod. -/
  seen : Controller.Seen := {}

/-- The options behind the name of a program. -/
def options : List String → List (String × String)
  | flag :: value :: rest => (flag, value) :: options rest
  | _ => []

def positiveInteger (s : String) : Option ℕ :=
  if s.toList ≠ [] ∧ s.toList.all Char.isDigit then
    (some (Nat.ofDigitChars 10 s.toList 0)).filter fun n => 0 < n ∧ n ≤ maxSafeInteger
  else none

/-- The lifetime that the gateway reads off its arguments; with a wrong one it does not begin. -/
def lifetimeSeconds (args : List String) : Option ℕ :=
  (positiveInteger (((options (args.drop 1)).lookup "--lifetime-seconds").getD "3600")).filter
    (· ≤ 7200)

/-- What a call to the runtime may come to. -/
def runtimeStep (w : World) : (o : Call) → o.Ret → World → Prop
  | .now, t, w' => w.time ≤ t ∧ t ≤ w'.time ∧ w' = { w with time := w'.time }
  | .docker (.create _ _ args) _, _, w' => w' = { w with time := w'.time, created := some args }
  | .startProxy _, _, w' => ∃ startedAt, w.time ≤ startedAt ∧
      w' = { w with
        time := w'.time
        gateway := (w.created.bind lifetimeSeconds).map fun n => ⟨n, startedAt⟩ }
  | _, _, w' => w' = { w with time := w'.time }

/-- What a call of the pod may come to: the clock tells the time, or fails. -/
def podStep (w : World) (o : Controller.Call) (r : o.Ret) (w' : World) : Prop :=
  Controller.gitAnswers w.seen o r ∧
    w' = { w with time := w'.time, seen := w.seen.next o r } ∧
    ∀ t : ℕ, (⟨o, r⟩ : (o : Controller.Call) × o.Ret) = ⟨.now, some t⟩ → w.time ≤ t ∧ t ≤ w'.time

/-- Every call takes some time. -/
def timed : Env (Call ⊕ Controller.Call) (Sum.elim Call.Ret Controller.Call.Ret) World where
  step w o r w' := w.time ≤ w'.time ∧ match o, r with
    | .inl o, r => runtimeStep w o r w'
    | .inr o, r => podStep w o r w'

/-- While an execution that is asked for may still be waited for, the gateway is there: until the
execution's time is over, counted from the reading of the clock that it was computed from, the
lifetime of the gateway is not. -/
def Outlives (w : World) (a : Controller.AgentInput) : Prop :=
  ∃ gateway now, w.gateway = some gateway ∧ w.seen.last = some now ∧
    ∀ moment, moment < now + a.timeoutSeconds * 1000 →
      moment < gateway.startedAt + gateway.lifetimeSeconds * 1000

/-! ### What the start leads to -/

/-- The runtime's part of it. -/
def runtimeTimed : Env Call Call.Ret World where
  step w o r w' := w.time ≤ w'.time ∧ runtimeStep w o r w'

/-- From such a state the program gets to such a state, where it does not fail. -/
def Leads {α : Type} (J : World → Prop) (p : Io α) (K : α → World → Prop) : Prop :=
  ∀ w, J w → Safe runtimeTimed (fun _ _ => True) p w fun r t => ∀ a, r = .ok a → K a t

/-- Time alone changes nothing about it. -/
def Stable (J : World → Prop) : Prop :=
  ∀ w time, w.time ≤ time → J w → J { w with time := time }

/-- A call that takes time and does no more. -/
def quiet : Call → Bool
  | .docker (.create _ _ _) _ | .startProxy _ => false
  | _ => true

section Leads

variable {α β : Type} {J : World → Prop} {K : α → World → Prop} {L : β → World → Prop}

lemma Leads.bind {p : Io α} {f : α → Io β} (hp : Leads J p K) (hf : ∀ a, Leads (K a) (f a) L) :
    Leads J (p >>= f) L := by
  intro w hw
  refine Safe.bind (hp w hw) (fun a t ht => hf a t (ht a rfl)) ?_
  exact fun e t _ a ha => by cases ha

lemma leads_pure {a : α} (h : ∀ w, J w → K a w) : Leads J (pure a) K := by
  intro w hw b hb
  obtain rfl := Except.ok.inj hb
  exact h w hw

lemma leads_ofExcept {x : Except Text α} (h : ∀ a w, x = .ok a → J w → K a w) :
    Leads J (Prog.ofExcept x) K := by
  intro w hw
  rw [safe_ofExcept]
  rintro a rfl
  exact h a w rfl hw

lemma step_quiet {w w' : World} {o : Call} {r : o.Ret} (ho : quiet o = true)
    (h : runtimeTimed.step w o r w') : w.time ≤ w'.time ∧ w' = { w with time := w'.time } := by
  obtain ⟨htime, hstep⟩ := h
  refine ⟨htime, ?_⟩
  cases o with
  | now => exact hstep.2.2
  | docker c n => cases c <;> first | exact hstep | cases ho
  | startProxy id => cases ho
  | interrupted | cancelled | wait n | close => exact hstep

/-- Quiet calls keep what is stable. -/
lemma leads_quiet {p : Io α} (hJ : Stable J) (hp : p.Does (quiet · = true) fun _ => True) :
    Leads J p fun _ => J := by
  intro w hw
  induction p generalizing w with
  | ret a => exact fun _ _ => hw
  | fail e => exact fun a ha => by cases ha
  | call o k ih =>
      refine ⟨trivial, fun r t ht => ih r (hp.2 r) t ?_⟩
      obtain ⟨htime, hw'⟩ := step_quiet hp.1 ht
      rw [hw']
      exact hJ w _ htime hw

end Leads

/-! ### The parts of the start -/

section Quiet

variable (r : Runtime) (deadlineAt : ℕ)

lemma does_ask {o : Call} (ho : quiet o = true) : (ask o).Does (quiet · = true) fun _ => True :=
  ⟨ho, fun _ => trivial⟩

lemma does_now : (ask .now).Does (quiet · = true) fun _ => True := does_ask rfl

lemma does_remaining : (remaining deadlineAt).Does (quiet · = true) fun _ => True := by
  refine does_now.bind fun now _ => ?_
  split_ifs <;> exact trivial

lemma does_deploymentDeadline :
    (deploymentDeadline deadlineAt).Does (quiet · = true) fun _ => True := by
  refine does_now.bind fun now _ => ?_
  split_ifs <;> exact trivial

lemma does_throwIfCancelled : throwIfCancelled.Does (quiet · = true) fun _ => True := by
  refine (does_ask rfl).bind fun cancelled _ => ?_
  split_ifs <;> exact trivial

lemma does_uninterrupted : uninterrupted.Does (quiet · = true) fun _ => True := by
  refine (does_ask rfl).bind fun interrupted _ => ?_
  split_ifs <;> exact trivial

lemma does_settle (outcome : Except Text Output) (expired : Bool) (commandDeadline : ℕ) :
    (settle outcome expired commandDeadline).Does (quiet · = true) fun _ => True := by
  have hlate : (do
      let now ← ask .now
      if expired ∨ commandDeadline ≤ now then fail "deployment deadline exceeded" else pure () :
      Io Unit).Does (quiet · = true) fun _ => True := by
    refine does_now.bind fun now _ => ?_
    split_ifs <;> exact trivial
  refine Prog.Does.bind (R := fun _ => True) ?_ fun tried _ => ?_
  · refine (Prog.Does.attempt (R := fun _ => True) ?_).mono fun _ _ => trivial
    refine (Prog.does_ofExcept outcome).bind fun result _ => ?_
    exact does_throwIfCancelled.bind fun _ _ => hlate.bind fun _ _ => trivial
  · cases tried with
    | ok result => exact trivial
    | error e => exact does_throwIfCancelled.bind fun _ _ => hlate.bind fun _ _ => trivial

lemma does_allowance (timeoutMs : Option ℕ) :
    (allowance timeoutMs deadlineAt).Does (quiet · = true) fun _ => True := by
  refine does_throwIfCancelled.bind fun _ _ => (does_remaining _).bind fun available _ => ?_
  exact does_now.bind fun now _ => (does_remaining _).bind fun _ _ => trivial

/-- A command that makes no container. -/
lemma does_commandWithin {c : Command} (hc : ∀ n, quiet (.docker c n) = true) (allowFailure : Bool)
    (timeoutMs : Option ℕ) :
    (commandWithin r c allowFailure timeoutMs deadlineAt).Does (quiet · = true) fun _ => True := by
  refine (does_allowance deadlineAt timeoutMs).bind fun n _ => ?_
  exact (does_ask (hc n.1)).bind fun ran _ => does_settle _ _ _

lemma does_command {c : Command} (hc : ∀ n, quiet (.docker c n) = true) :
    (command r c deadlineAt).Does (quiet · = true) fun _ => True :=
  does_commandWithin r deadlineAt hc false none

lemma does_waitWithin (milliseconds : ℕ) :
    (waitWithin milliseconds deadlineAt).Does (quiet · = true) fun _ => True := by
  refine (does_remaining _).bind fun left _ => does_now.bind fun now _ => ?_
  refine (does_remaining _).bind fun _ _ => (does_ask rfl).bind fun outcome _ => ?_
  obtain - | e | u := outcome
  · exact trivial
  · exact trivial
  · exact (does_remaining _).bind fun _ _ => trivial

lemma does_awaitHealthy (attempts : ℕ) :
    (awaitHealthy r deadlineAt attempts).Does (quiet · = true) fun _ => True := by
  induction attempts with
  | zero => exact trivial
  | succ attempts ih =>
    refine (does_commandWithin r deadlineAt (fun _ => rfl) true _).bind fun probed _ => ?_
    split_ifs
    · exact trivial
    · exact (does_waitWithin deadlineAt 250).bind fun _ _ => ih

lemma does_removeLeft {list : Command} {remove : List Text → Command} (message : String)
    (hlist : ∀ n, quiet (.docker list n) = true)
    (hremove : ∀ found n, quiet (.docker (remove found) n) = true) :
    (removeLeft r list remove message deadlineAt).Does (quiet · = true) fun _ => True := by
  refine (does_command r deadlineAt hlist).bind fun listed _ => ?_
  dsimp only
  split_ifs
  · exact trivial
  · exact trivial
  · exact (does_command r deadlineAt (hremove _)).bind fun _ _ => trivial

lemma does_reconcile :
    (reconcileTransientResources r deadlineAt).Does (quiet · = true) fun _ => True :=
  (does_removeLeft r deadlineAt _ (fun _ => rfl) fun _ _ => rfl).bind fun _ _ =>
    does_removeLeft r deadlineAt _ (fun _ => rfl) fun _ _ => rfl

lemma does_imageDigest : (imageDigest r deadlineAt).Does (quiet · = true) fun _ => True :=
  (does_deploymentDeadline deadlineAt).bind fun _ _ =>
    (does_command r deadlineAt fun _ => rfl).bind fun _ _ => trivial

end Quiet

/-! ### The gateway is there -/

/-- The run began at that time, and the pod has not been called yet. -/
def Begun (startedAt : ℕ) (w : World) : Prop := startedAt ≤ w.time ∧ w.seen = {}

/-- A container with the gateway's lifetime was made. -/
def Made (startedAt : ℕ) (w : World) : Prop :=
  Begun startedAt w ∧
    ∃ args, w.created = some args ∧ lifetimeSeconds args = some proxyLifetimeSeconds

/-- The gateway began in the run. -/
def Standing (startedAt : ℕ) (w : World) : Prop :=
  ∃ gateway, w.gateway = some gateway ∧ gateway.lifetimeSeconds = proxyLifetimeSeconds ∧
    startedAt ≤ gateway.startedAt

lemma stable_begun (startedAt : ℕ) : Stable (Begun startedAt) :=
  fun _ _ htime hw => ⟨hw.1.trans htime, hw.2⟩

lemma stable_made (startedAt : ℕ) : Stable (Made startedAt) :=
  fun _ _ htime hw => ⟨stable_begun _ _ _ htime hw.1, hw.2⟩

lemma lifetime_of_proxyCreateArgs {r : Runtime} {network : String} {c : Command}
    (h : proxyCreateArgs r network = .ok c) :
    ∃ opts image args, c = .create opts image args ∧
      lifetimeSeconds args = some proxyLifetimeSeconds := by
  unfold proxyCreateArgs at h
  split_ifs at h
  obtain rfl := Except.ok.inj h
  refine ⟨_, _, _, rfl, ?_⟩
  have hnumber : (positiveInteger (toString proxyLifetimeSeconds)).filter (· ≤ 7200) =
      some proxyLifetimeSeconds := by
    decide +kernel
  exact hnumber

/-- The one command that makes a container. -/
lemma leads_create (r : Runtime) (startedAt deadlineAt : ℕ) {opts : List String} {image : String}
    {args : List String} (h : lifetimeSeconds args = some proxyLifetimeSeconds) :
    Leads (Begun startedAt) (command r (.create opts image args) deadlineAt)
      fun _ => Made startedAt := by
  refine (leads_quiet (stable_begun startedAt) (does_allowance deadlineAt none)).bind fun n => ?_
  refine Leads.bind (K := fun _ => Made startedAt) ?_ fun ran =>
    leads_quiet (stable_made startedAt) (does_settle _ _ _)
  intro w hw
  refine ⟨trivial, ?_⟩
  rintro ran t ⟨htime, ht⟩ _ -
  rw [ht]
  exact ⟨⟨hw.1.trans htime, hw.2⟩, args, rfl, h⟩

lemma leads_createGateway (r : Runtime) (startedAt deadlineAt : ℕ) :
    Leads (Begun startedAt) (createGateway r deadlineAt) fun _ => Made startedAt := by
  have hbegun := stable_begun startedAt
  refine (leads_quiet hbegun (does_reconcile r deadlineAt)).bind fun _ => ?_
  refine (leads_quiet hbegun (does_command r deadlineAt fun _ => rfl)).bind fun _ => ?_
  refine (leads_quiet hbegun (does_command r deadlineAt fun _ => rfl)).bind fun _ => ?_
  refine Leads.bind (K := fun c w => proxyCreateArgs r (agentNetwork r) = .ok c ∧ Begun startedAt w)
    (leads_ofExcept fun c w hc hw => ?_) fun c => ?_
  · cases hx : proxyCreateArgs r (agentNetwork r) with
    | error e =>
      rw [hx] at hc
      cases hc
    | ok c' =>
      rw [hx] at hc
      obtain rfl := Except.ok.inj hc
      exact ⟨rfl, hw⟩
  · intro w hw
    obtain ⟨opts, image, args, rfl, hlife⟩ := lifetime_of_proxyCreateArgs hw.1
    have hmade : Leads (Begun startedAt) (do
        let created ← command r (.create opts image args) deadlineAt
        pure (Js.trim created.stdout)) fun _ => Made startedAt :=
      (leads_create r startedAt deadlineAt hlife).bind fun created => leads_pure fun _ h => h
    exact hmade w hw.2

lemma leads_startGateway (r : Runtime) (startedAt deadlineAt : ℕ) (proxyId : Text) :
    Leads (Made startedAt) (startGateway r deadlineAt proxyId) fun _ w =>
      Standing startedAt w ∧ w.seen = {} := by
  refine (leads_quiet (stable_made startedAt) (does_command r deadlineAt fun _ => rfl)).bind
    fun _ => ?_
  refine Leads.bind (K := fun _ w => Standing startedAt w ∧ w.seen = {}) ?_ fun _ =>
    leads_quiet (fun _ _ _ hw => hw) (does_awaitHealthy r deadlineAt 30)
  intro w hw
  refine ⟨trivial, ?_⟩
  rintro u t ⟨-, begun, hbegun, ht⟩ _ -
  obtain ⟨⟨htime, hseen⟩, args, hargs, hlife⟩ := hw
  rw [ht]
  refine ⟨⟨⟨proxyLifetimeSeconds, begun⟩, ?_, rfl, htime.trans hbegun⟩, hseen⟩
  simp [hargs, hlife]

lemma leads_start (r : Runtime) (startedAt deadlineAt : ℕ) :
    Leads (Begun startedAt) (start r deadlineAt) fun _ w =>
      Standing startedAt w ∧ w.seen = {} := by
  refine (leads_quiet (stable_begun startedAt) (does_deploymentDeadline deadlineAt)).bind
    fun _ => ?_
  intro w hw
  refine Safe.bind (R := fun x t => x = .ok (.ok ()) → Standing startedAt t ∧ t.seen = {}) ?_ ?_
    fun e t _ a ha => by cases ha
  · rw [safe_attempt]
    refine (((leads_createGateway r startedAt deadlineAt).bind fun proxyId =>
      leads_startGateway r startedAt deadlineAt proxyId) w hw).mono fun x t hx h => ?_
    exact hx () (Except.ok.inj h)
  · rintro (e | u) t ht
    · exact ⟨trivial, fun _ _ _ a ha => by cases ha⟩
    · exact fun _ _ => ht rfl

/-- **The gateway begins in the run**: it has begun when the pod is called, and not before the
reading of the clock that the deadline is made from. -/
theorem leads_launch (r : Runtime) (template : Template) :
    Leads (fun w => w.seen = {}) (launch r template) fun deadlineAt w =>
      w.seen = {} ∧ ∃ startedAt, deadlineAt = startedAt + template.workflowSeconds * 1000 ∧
        Standing startedAt w := by
  refine (leads_quiet (fun _ _ _ hw => hw) does_uninterrupted).bind fun _ => ?_
  refine Leads.bind (K := Begun) ?_ fun startedAt => ?_
  · intro w hw
    refine ⟨trivial, ?_⟩
    rintro now t ⟨-, hlow, hhigh, ht⟩ _ hnow
    obtain rfl := Except.ok.inj hnow
    refine ⟨hhigh, ?_⟩
    rw [ht]
    exact hw
  · refine (leads_quiet (stable_begun startedAt) (does_imageDigest r _)).bind fun _ => ?_
    refine (leads_start r startedAt _).bind fun _ => ?_
    refine (leads_quiet (fun _ _ _ hw => hw) does_uninterrupted).bind fun _ => ?_
    exact leads_pure fun w hw => ⟨hw.2, startedAt, rfl, hw.1⟩

/-! ### The run of the pod -/

/-- An execution is asked for only where the gateway outlives it. -/
def watch (w : World) : Call ⊕ Controller.Call → Prop
  | .inr (.execute a) | .inr (.start _ a) => Outlives w a
  | _ => True

lemma safe_inl {α : Type} {p : Io α} {w : World} {Q : Except Text α → World → Prop}
    (h : Safe runtimeTimed (fun _ _ => True) p w Q) : Safe timed watch p.inl w Q := by
  induction p generalizing w with
  | ret a => exact h
  | fail e => exact h
  | call o k ih => exact ⟨trivial, fun r t ht => ih r (h.2 r t ht)⟩

lemma outlives_of_admitted {input : Controller.PodInput} {template : Template} {startedAt : ℕ}
    {w : World} {a : Controller.AgentInput}
    (htemplate : validatePodTemplate input.lib input.template = .ok template)
    (hshort : template.workflowSeconds ≤ proxyLifetimeSeconds)
    (hdeadline : input.deadlineAt = some (startedAt + template.workflowSeconds * 1000))
    (hw : Standing startedAt w) (h : Controller.Admitted input w.seen a) : Outlives w a := by
  obtain ⟨template', deadlineAt, now, _, htemplate', ⟨first, -, hmade⟩, hlast, -, -, hend⟩ :=
    h.inTime
  obtain ⟨gateway, hgateway, hlife, hbegan⟩ := hw
  refine ⟨gateway, now, hgateway, hlast, fun moment hm => ?_⟩
  obtain rfl := Except.ok.inj (htemplate.symm.trans htemplate')
  have heq : deadlineAt = startedAt + template.workflowSeconds * 1000 := by
    rw [hdeadline] at hmade
    obtain ⟨_, -, hmade⟩ := bind_eq_ok.mp hmade
    obtain ⟨_, -, hmade⟩ := bind_eq_ok.mp hmade
    obtain ⟨_, -, hmade⟩ := bind_eq_ok.mp hmade
    exact (Except.ok.inj hmade).symm
  rw [hlife]
  calc moment < now + a.timeoutSeconds * 1000 := hm
    _ ≤ startedAt + template.workflowSeconds * 1000 := heq ▸ hend
    _ ≤ gateway.startedAt + proxyLifetimeSeconds * 1000 :=
      Nat.add_le_add hbegan (Nat.mul_le_mul_right 1000 hshort)

/-- The gateway stands while the pod runs, whatever the pod does. -/
lemma safe_inr {ε α : Type} (input : Controller.PodInput) {template : Template} {startedAt : ℕ}
    (htemplate : validatePodTemplate input.lib input.template = .ok template)
    (hshort : template.workflowSeconds ≤ proxyLifetimeSeconds)
    (hdeadline : input.deadlineAt = some (startedAt + template.workflowSeconds * 1000))
    {p : Prog Controller.Call Controller.Call.Ret ε α} {w : World} (hw : Standing startedAt w)
    (h : Safe Controller.observed (Controller.admits input) p w.seen fun _ _ => True) :
    Safe timed watch p.inr w fun _ _ => True := by
  induction p generalizing w with
  | ret a => exact trivial
  | fail e => exact trivial
  | call o k ih =>
      refine ⟨?_, ?_⟩
      · cases o with
        | execute a => exact outlives_of_admitted htemplate hshort hdeadline hw h.1
        | start slot a => exact outlives_of_admitted htemplate hshort hdeadline hw h.1
        | _ => trivial
      · rintro r t ⟨-, hgit, ht, -⟩
        refine ih r ?_ ?_
        · rw [ht]
          exact hw
        · refine h.2 r _ ⟨hgit, ?_⟩
          rw [ht]

lemma safe_runPodController (r : Runtime) {input : Controller.PodInput} {template : Template}
    (htemplate : validatePodTemplate input.lib input.template = .ok template)
    (hshort : template.workflowSeconds ≤ proxyLifetimeSeconds) {w : World} (hw : w.seen = {}) :
    Safe timed watch (runPodController r template input) w fun _ _ => True := by
  unfold runPodController
  split_ifs with hrun
  · exact trivial
  refine Safe.bind (R := fun _ _ => True) ?_ ?_ fun _ _ _ => trivial
  · rw [safe_attempt]
    refine Safe.bind (safe_inl (leads_launch r template w hw)) ?_ fun _ _ _ => trivial
    intro deadlineAt t ht
    obtain ⟨hseen, startedAt, rfl, hstands⟩ := ht deadlineAt rfl
    refine safe_inr { input with deadlineAt := some (startedAt + template.workflowSeconds * 1000) }
      htemplate hshort rfl hstands ?_
    rw [hseen, safe_mapErr]
    exact (Controller.safe_executions (by simpa using hrun)).mono fun _ _ _ => trivial
  · intro outcome t _
    refine ⟨trivial, fun u v _ => ?_⟩
    cases outcome <;> exact trivial

end Bimo.Gateway
