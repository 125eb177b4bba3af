import Bimo.InboxIds
import Bimo.Pod
import Bimo.Validation

/-!
Which messages a pod process hands to its worker.

An enqueue bounds the bytes of a payload, the pod process the bytes of the line it writes. The
line has the payload in it once escaped, with the ids and names around it, and the pod's limit
may be any up to 64 KiB: so a message that was accepted may be one that no process of the pod
can send. An enqueue takes any id that can stand in a path, and the process finds the message by
the line the inbox gives back, which may be another one. Each process of the pod stops at such a
message, and what is behind it stays.
-/

namespace Bimo.Pod

open Factory (FactoryState PodState FactoryManifest)
open Store (MessageEnvelope SessionIdentity Disk)
open Wire (Json Frame Machine escapedLen bytes)

/-- The digits of a number. -/
def digits (n : ℕ) : ℕ := bytes (toString n).toList

/-- The bytes a work request takes around the strings in it. -/
def requestOverhead : ℕ := 206

/-- The bytes of the line a message is sent to the worker in. -/
def requestSize (i : SessionIdentity) (seq : ℕ) (m : MessageEnvelope) : ℕ :=
  requestOverhead + digits i.factoryGeneration + digits seq + escapedLen i.pod +
    escapedLen i.session + escapedLen m.id + escapedLen m.source + escapedLen m.kind +
    escapedLen m.payload

/-- The frame a message is sent to the worker in. -/
def workFrame (i : SessionIdentity) (seq : ℕ) (m : MessageEnvelope) : Frame where
  direction := .controlToWorker
  kind := .workRequest
  factoryGen := i.factoryGeneration
  pod := i.pod
  session := i.session
  seq := seq
  requestId := some m.id
  payload := workRequest m

lemma size_workFrame (i : SessionIdentity) (seq : ℕ) (m : MessageEnvelope) :
    (workFrame i seq m).size = requestSize i seq m := by
  unfold Frame.size Frame.toJson workFrame workRequest requestSize requestOverhead digits
  simp only [Wire.text, Wire.textFields, Wire.ofNat, Wire.ofOption, Wire.bytes_cons,
    Wire.bytes_append, Wire.bytes_quote, Wire.bytes_nil]
  have hmarks : Char.utf8Size '{' = 1 ∧ Char.utf8Size '}' = 1 ∧ Char.utf8Size ':' = 1 ∧
      Char.utf8Size ',' = 1 ∧ bytes "null".toList = 4 := by decide
  have hvalues : escapedLen Wire.version = 15 ∧ escapedLen Wire.FrameType.workRequest.name = 12 ∧
      escapedLen Wire.Direction.controlToWorker.name = 17 := by decide
  have hkeys : escapedLen "protocol" = 8 ∧ escapedLen "direction" = 9 ∧ escapedLen "type" = 4 ∧
      escapedLen "factory_gen" = 11 ∧ escapedLen "pod" = 3 ∧ escapedLen "session" = 7 ∧
      escapedLen "seq" = 3 ∧ escapedLen "request_id" = 10 ∧ escapedLen "tool_call_id" = 12 ∧
      escapedLen "payload" = 7 ∧ escapedLen "body" = 4 ∧ escapedLen "from" = 4 ∧
      escapedLen "kind" = 4 := by decide
  omega

lemma controlFrame_workRequest (i : SessionIdentity) (seq : ℕ) (m : MessageEnvelope) (max : ℕ) :
    controlFrame i seq .workRequest (some m.id) none (workRequest m) max =
      if requestSize i seq m > max then .error "control frame exceeds configured limit"
      else .ok (workFrame i seq m) := by
  rw [← size_workFrame]
  rfl

/-! ### A worker that answers at once -/

/-- The state directory, and the frame that the worker was sent last. -/
structure Desk where
  disk : Disk
  last : Option Frame := none

def success : Json := .obj [("output", .str "x"), ("status", .str "success")]

/-- The terminal of a request. -/
def reply (f : Frame) : Frame :=
  { f with direction := .workerToControl, kind := .terminal, payload := success }

/-- The worker takes what it is sent and answers with its terminal. -/
def work (s : Desk) : (w : Worker) → w.Ret
  | .launch _ | .send _ | .ready _ _ => Except.ok ()
  | .exited => false
  | .receive => s.last.map fun f => .frame (reply f) (reply f).size

def answer (s : Desk) : (c : Call) → c.Ret
  | .inl w => work s w
  | .inr c => s.disk.answer c

def next (s : Desk) : (c : Call) → c.Ret → Desk
  | .inl (.send f), _ => { s with last := some f }
  | .inl _, _ => s
  | .inr c, x => { s with disk := s.disk.next c x }

section

variable {α β : Type}

/-- The outcome of a pod program where no file operation fails. -/
def run (s : Desk) (p : Io α) : Except String α × Desk := p.run answer next s

lemma run_bind_ok {s t : Desk} {p : Io α} {f : α → Io β} {a : α} (h : run s p = (.ok a, t)) :
    run s (p >>= f) = run t (f a) := by
  unfold run at *
  rw [run_bind, h]

lemma run_bind_error {s t : Desk} {p : Io α} {f : α → Io β} {e : String}
    (h : run s p = (.error e, t)) : run s (p >>= f) = (.error e, t) := by
  unfold run at *
  rw [run_bind, h]

lemma run_except {s : Desk} {x : Except String α} : run s (.ofExcept x) = (x, s) :=
  run_ofExcept _ _ _ _

lemma run_inr (s : Desk) (p : Prog Store.Call Store.Call.Ret String α) :
    run s p.inr = ((p.run Disk.answer Disk.next s.disk).1,
      { s with disk := (p.run Disk.answer Disk.next s.disk).2 }) := by
  unfold run
  induction p generalizing s with
  | ret a => rfl
  | fail e => rfl
  | call c k ih => exact ih _ _

lemma run_mapErr (d : Disk) (p : Store.Io α) (f : Store.IoError → String) :
    (p.mapErr f).run Disk.answer Disk.next d = ((d.run p).1.mapError f, (d.run p).2) := by
  unfold Disk.run
  induction p generalizing d with
  | ret a => rfl
  | fail e => rfl
  | call c k ih => exact ih _ _

lemma run_store (s : Desk) (p : Store.Io α) (text : String → String) :
    run s (store p text) =
      ((s.disk.run p).1.mapError fun e => text e.message,
        { s with disk := (s.disk.run p).2 }) := by
  unfold store
  rw [run_inr, run_mapErr]

lemma run_store_ok {s : Desk} {p : Store.Io α} {a : α} {d : Disk} (h : s.disk.run p = (.ok a, d))
    (text : String → String) : run s (store p text) = (.ok a, { s with disk := d }) := by
  rw [run_store, h]
  rfl

end

/-! ### The store's part -/

variable {d : Disk} {i : SessionIdentity}

lemma run_record (event id : String) (call effect : Option String) :
    d.run (Store.record event id call effect) = (.ok (), d) := by
  unfold Store.record
  rw [Disk.run_locked]
  exact Disk.run_tryCall _ _

/-- The state file names the process. -/
def Standing (i : SessionIdentity) (d : Disk) : Prop :=
  ∃ s, d.state = some s ∧ Store.current s i = true

lemma Standing.pod (h : Standing i d) : ∃ s pod, d.state = some s ∧
    s.generation = i.factoryGeneration ∧ s.pods[i.pod]? = some pod ∧
    pod.session = some i.session := by
  obtain ⟨s, hstate, hcur⟩ := h
  unfold Store.current at hcur
  rw [Bool.and_eq_true, decide_eq_true_eq, decide_eq_true_eq] at hcur
  obtain ⟨pod, hpod, hsession⟩ := Option.bind_eq_some_iff.mp hcur.2
  exact ⟨s, pod, hstate, hcur.1, hpod, hsession⟩

/-- A process the state file names says what it is doing. -/
lemma run_updatePodDelivery (h : Standing i d) (active terminal : Option String)
    (status : Factory.PodStatus) : ∃ s, Store.current s i = true ∧
      d.run (Store.updatePodDelivery i active terminal status) =
        (.ok (), d.apply (.writeState s)) := by
  obtain ⟨s, pod, hstate, hgen, hpod, hsession⟩ := h.pod
  have hread : d.run Store.readState = (.ok d.state, d) := Disk.run_tryCall _ _
  rw [hstate] at hread
  have hwrite : ∀ t, d.run (Store.writeState t) = (.ok (), d.apply (.writeState t)) :=
    fun t => Disk.run_tryCall _ _
  refine ⟨{ s with pods := s.pods.insert i.pod (Store.deliver pod active terminal status) }, ?_, ?_⟩
  · simp [Store.current, hgen, Store.deliver, hsession]
  · unfold Store.updatePodDelivery
    rw [Disk.run_locked]
    unfold Disk.run at *
    rw [run_bind, hread]
    dsimp only
    rw [if_neg (not_not.mpr hgen), hpod]
    dsimp only
    rw [if_neg (not_not.mpr hsession)]
    exact hwrite _

lemma run_assertWorkerIdentity (h : Standing i d) :
    d.run (Store.assertWorkerIdentity i) = (.ok (), d) := by
  obtain ⟨s, hstate, hcur⟩ := h
  have hread : d.run Store.readState = (.ok d.state, d) := Disk.run_tryCall _ _
  rw [hstate] at hread
  unfold Store.assertWorkerIdentity Store.assertWorkerIdentityLocked
  rw [Disk.run_locked]
  unfold Disk.run at *
  rw [run_bind, hread]
  dsimp only
  rw [if_pos hcur]
  rfl

lemma run_markProcessed (h : Standing i d) {id : String}
    (hp : Store.validateComponent i.pod "pod" = .ok ())
    (hid : Store.validateComponent id "message id" = .ok ()) :
    d.run (Store.markProcessed i id) = (.ok (), d.apply (.writeProcessed i.pod id)) := by
  obtain ⟨s, pod, hstate, hgen, hpod, hsession⟩ := h.pod
  exact Disk.run_markProcessed_current hstate hpod ⟨hgen, hsession⟩ hp hid

lemma run_isProcessed {pod id : String} (hp : Store.validateComponent pod "pod" = .ok ())
    (hid : Store.validateComponent id "message id" = .ok ()) :
    d.run (Store.isProcessed pod id) = (.ok (d.processed pod id), d) := by
  have hread : d.run (Store.tryCall (.readProcessed pod id) fun x => x) =
      (.ok (d.processed pod id), d) := Disk.run_tryCall _ _
  unfold Store.isProcessed
  unfold Disk.run at *
  rw [hp, run_bind, run_ofExcept]
  dsimp only
  rw [hid, run_bind, run_ofExcept]
  exact hread

lemma run_createTerminal {id : String} {f : Frame} (h : d.terminals id = none) :
    d.run (createTerminal id f) = (.ok (), d.apply (.linkTerminal id f)) := by
  have hread : d.run (readTerminal id) = (.ok (d.terminals id), d) := Disk.run_tryCall _ _
  rw [h] at hread
  have hlink : d.run (Store.tryCall (.linkTerminal id f) fun x => x) =
      (.ok (), d.apply (.linkTerminal id f)) := by
    have hanswer : d.answer (.linkTerminal id f) = Except.ok () := by
      unfold Disk.answer
      dsimp only
      rw [h]
      rfl
    refine (Disk.run_tryCall (.linkTerminal id f) fun x => x).trans ?_
    rw [hanswer]
    rfl
  unfold createTerminal atomicCreate
  unfold Disk.run at *
  rw [run_bind, hread]
  dsimp only
  rw [run_bind, run_attempt, hlink]
  rfl

/-! ### One delivery -/

variable {digest : String → String} {cfg : PodProcessConfig} {s t : Desk} {id : String}
  {m : MessageEnvelope}

/-- What deliveries by a process leave of the state directory. -/
structure Carries (i : SessionIdentity) (ids : List String) (d t : Disk) : Prop where
  standing : Standing i t
  messages : t.messages = d.messages
  inbox : t.inbox = d.inbox
  kept : ∀ id, d.processed i.pod id = true → t.processed i.pod id = true
  marked : ∀ id, t.processed i.pod id = true → d.processed i.pod id = true ∨ id ∈ ids
  terminals : ∀ id, t.processed i.pod id = false → d.terminals id = none → t.terminals id = none

lemma Carries.refl (h : Standing i d) (ids : List String) : Carries i ids d d :=
  ⟨h, rfl, rfl, fun _ h => h, fun _ h => .inl h, fun _ _ h => h⟩

lemma Carries.of_state {ids : List String} {x : FactoryState} {t : Disk}
    (h : Carries i ids (d.apply (.writeState x)) t) : Carries i ids d t :=
  ⟨h.standing, h.messages, h.inbox, h.kept, h.marked, h.terminals⟩

/-- No terminal is on disk for what is not processed. -/
def Unanswered (pod : String) (d : Disk) : Prop :=
  ∀ id, d.processed pod id = false → d.terminals id = none

lemma Carries.unprocessed {ids : List String} {t : Disk} (h : Carries i ids d t) {id : String}
    (ht : t.processed i.pod id = false) : d.processed i.pod id = false :=
  Bool.eq_false_iff.mpr fun hd => absurd (ht.symm.trans (h.kept id hd)) nofun

lemma Carries.unanswered {ids : List String} {t : Disk} (h : Carries i ids d t)
    (hd : Unanswered i.pod d) : Unanswered i.pod t :=
  fun id ht => h.terminals id ht (hd id (h.unprocessed ht))

lemma Carries.trans {ids : List String} {t u : Disk} (h : Carries i [id] d t)
    (h' : Carries i ids t u) : Carries i (id :: ids) d u where
  standing := h'.standing
  messages := h'.messages.trans h.messages
  inbox := h'.inbox.trans h.inbox
  kept x hx := h'.kept x (h.kept x hx)
  marked x hx := by
    rcases h'.marked x hx with hx | hx
    · exact (h.marked x hx).imp_right fun hx => List.mem_cons.mpr (.inl (List.mem_singleton.mp hx))
    · exact .inr (List.mem_cons_of_mem _ hx)
  terminals x hx hnone := h'.terminals x hx (h.terminals x (h'.unprocessed hx) hnone)

lemma size_reply_le (i : SessionIdentity) (seq : ℕ) (m : MessageEnvelope) :
    (reply (workFrame i seq m)).size ≤ requestSize i seq m := by
  unfold Frame.size Frame.toJson reply workFrame success requestSize requestOverhead digits
  simp only [Wire.text, Wire.textFields, Wire.ofNat, Wire.ofOption, Wire.bytes_cons,
    Wire.bytes_append, Wire.bytes_quote, Wire.bytes_nil]
  have hmarks : Char.utf8Size '{' = 1 ∧ Char.utf8Size '}' = 1 ∧ Char.utf8Size ':' = 1 ∧
      Char.utf8Size ',' = 1 ∧ bytes "null".toList = 4 := by decide
  have hvalues : escapedLen Wire.version = 15 ∧ escapedLen Wire.FrameType.terminal.name = 8 ∧
      escapedLen Wire.Direction.workerToControl.name = 17 ∧ escapedLen "x" = 1 ∧
      escapedLen "success" = 7 := by decide
  have hkeys : escapedLen "protocol" = 8 ∧ escapedLen "direction" = 9 ∧ escapedLen "type" = 4 ∧
      escapedLen "factory_gen" = 11 ∧ escapedLen "pod" = 3 ∧ escapedLen "session" = 7 ∧
      escapedLen "seq" = 3 ∧ escapedLen "request_id" = 10 ∧ escapedLen "tool_call_id" = 12 ∧
      escapedLen "payload" = 7 ∧ escapedLen "output" = 6 ∧ escapedLen "status" = 6 := by decide
  omega

/-- The machine of a process that waits for work, after so many frames of its worker's. -/
def idle (cfg : PodProcessConfig) (n : ℕ) : Machine := ⟨.ready, n, cfg.session⟩

lemma acceptFrame_reply {n : ℕ} {size : ℕ} (hsize : size ≤ cfg.pod.maxFrameBytes) :
    acceptFrame cfg m.id ⟨.working, n, cfg.session⟩
        (.frame (reply (workFrame cfg.identity (n + 1) m)) size) =
      .ok (reply (workFrame cfg.identity (n + 1) m), ⟨.terminalPersisted, n + 1, cfg.session⟩) := by
  have hparse : parseLine (.frame (reply (workFrame cfg.identity (n + 1) m)) size)
      cfg.pod.maxFrameBytes = .ok (reply (workFrame cfg.identity (n + 1) m)) := by
    unfold parseLine Wire.parse
    dsimp only
    rw [if_neg (Nat.not_lt.mpr hsize)]
    rfl
  have hframe : validateWorkerFrame (reply (workFrame cfg.identity (n + 1) m)) cfg.identity =
      .ok () := by
    simp [validateWorkerFrame, reply, workFrame]
  have haccept : Machine.accept ⟨.working, n, cfg.session⟩
      (reply (workFrame cfg.identity (n + 1) m)) =
        .ok ⟨.terminalPersisted, n + 1, cfg.session⟩ := by
    simp [Machine.accept, Machine.transition, reply, workFrame, PodProcessConfig.identity]
  unfold acceptFrame
  rw [hparse]
  simp only [Except.mapError, bind, Except.bind, hframe, haccept]
  exact if_neg (not_not.mpr rfl)

lemma run_persistTerminal {f : Frame} (h : s.disk.terminals id = none) :
    run s (persistTerminal id f) =
      (.ok (), { s with disk := s.disk.apply (.linkTerminal id
        { f with payload := redactTerminal f.payload }) }) := by
  have hcreate := run_createTerminal (f := { f with payload := redactTerminal f.payload }) h
  have hattempt :
      run s (createTerminal id { f with payload := redactTerminal f.payload }).attempt.inr =
        (.ok (.ok ()), { s with disk := s.disk.apply (.linkTerminal id
          { f with payload := redactTerminal f.payload }) }) := by
    rw [run_inr, run_attempt]
    unfold Disk.run at hcreate
    rw [hcreate]
  unfold persistTerminal
  dsimp only
  rw [run_bind_ok hattempt]
  rfl

/-- The state directory behind a delivery. -/
def delivered (i : SessionIdentity) (id : String) (f : Frame) (x : FactoryState) (d : Disk) :
    Disk :=
  { d with
    state := some x
    terminals := Function.update d.terminals id
      (some { f with payload := redactTerminal f.payload })
    processed := Store.write d.processed i.pod id true }

lemma carries_delivered {f : Frame} {x : FactoryState} (hx : Store.current x i = true) :
    Carries i [id] d (delivered i id f x d) where
  standing := ⟨x, rfl, hx⟩
  messages := rfl
  inbox := rfl
  kept y hy := by
    by_cases hyid : y = id <;> simp [delivered, Store.write, hyid, hy]
  marked y hy := by
    by_cases hyid : y = id
    · exact .inr (List.mem_singleton.mpr hyid)
    · exact .inl (by simpa [delivered, Store.write, hyid] using hy)
  terminals y hy hnone := by
    have hyid : y ≠ id := by
      rintro rfl
      simp [delivered, Store.write] at hy
    exact (Function.update_of_ne hyid _ _).trans hnone

/-- The end of a turn, where no terminal of the request is on disk. -/
lemma run_complete {n : ℕ} {f : Frame} (h : Standing cfg.identity s.disk)
    (hp : Store.validateComponent cfg.pod.name "pod" = .ok ())
    (hid : Store.validateComponent id "message id" = .ok ())
    (hnone : s.disk.terminals id = none) : ∃ x, Store.current x cfg.identity = true ∧
      run s (complete cfg id ⟨.terminalPersisted, n, cfg.session⟩ f) =
        (.ok (idle cfg n), { s with disk := delivered cfg.identity id f x s.disk }) := by
  obtain ⟨d₁, hd₁⟩ : ∃ d₁, d₁ = s.disk.apply (.linkTerminal id
      { f with payload := redactTerminal f.payload }) := ⟨_, rfl⟩
  have h₁ : Standing cfg.identity d₁ := by
    rw [hd₁]
    exact h
  obtain ⟨x₂, hcur₂, hrun₂⟩ := run_updatePodDelivery h₁ (some id) (some id) .terminalPersisted
  have hrun₃ := run_markProcessed (d := d₁.apply (.writeState x₂)) ⟨x₂, rfl, hcur₂⟩ hp hid
  obtain ⟨x₄, hcur₄, hrun₄⟩ := run_updatePodDelivery (i := cfg.identity)
    (d := (d₁.apply (.writeState x₂)).apply (.writeProcessed cfg.identity.pod id))
    ⟨x₂, rfl, hcur₂⟩ none (some id) .ready
  have hdurable : Machine.terminalDurable ⟨.terminalPersisted, n, cfg.session⟩ =
      .ok (idle cfg n) := rfl
  refine ⟨x₄, hcur₄, ?_⟩
  unfold complete
  dsimp only
  rw [run_bind_ok (run_store_ok (run_assertWorkerIdentity h) _),
    run_bind_ok (run_persistTerminal hnone), ← hd₁,
    run_bind_ok (run_store_ok (run_record _ _ _ _) _), run_bind_ok (run_store_ok hrun₂ _),
    run_bind_ok (run_store_ok hrun₃ _), run_bind_ok (run_store_ok (run_record _ _ _ _) _),
    hdurable, run_bind_ok run_except, run_bind_ok (run_store_ok hrun₄ _), hd₁]
  rfl

/-- Reading a message leaves the directory as it is, and finds it under its id. -/
lemma run_readMessage (d : Disk) (id : String) : (d.run (Store.readMessage id)).2 = d ∧
    ∀ m, (d.run (Store.readMessage id)).1 = .ok m → d.messages id = some m ∧ m.id = id := by
  have hread : d.run (Store.tryCall (.readMessage id) fun x => x) = (.ok (d.messages id), d) :=
    Disk.run_tryCall _ _
  unfold Store.readMessage
  unfold Disk.run at *
  rw [run_bind, run_ofExcept]
  cases Store.validateComponent id "message id" with
  | error e => exact ⟨rfl, nofun⟩
  | ok _ =>
    dsimp only
    rw [run_bind, hread]
    cases hfound : d.messages id with
    | none => exact ⟨rfl, nofun⟩
    | some m =>
      dsimp only
      rw [run_bind, run_ofExcept]
      cases hvalid : Store.validateMessage m (some id) with
      | error e => exact ⟨rfl, nofun⟩
      | ok _ =>
        refine ⟨rfl, fun m' hm' => ?_⟩
        obtain rfl : m = m' := Except.ok.inj hm'
        refine ⟨rfl, ?_⟩
        by_contra hne
        simp [Store.validateMessage, Ne.symm hne, bind, Except.bind] at hvalid
        split_ifs at hvalid

/-- Handing a message over: its line is within the limit, or the process ends. -/
lemma run_startDelivery (h : Standing cfg.identity s.disk) (n : ℕ) (m : MessageEnvelope) :
    ∃ x, Store.current x cfg.identity = true ∧
      run s (startDelivery cfg (idle cfg n) (n + 1) m) =
        if requestSize cfg.identity (n + 1) m ≤ cfg.pod.maxFrameBytes then
          (.ok ⟨.working, n, cfg.session⟩,
            ⟨s.disk.apply (.writeState x), some (workFrame cfg.identity (n + 1) m)⟩)
        else (.error "control frame exceeds configured limit",
          { s with disk := s.disk.apply (.writeState x) }) := by
  have hbegin : (idle cfg n).beginWork = .ok ⟨.working, n, cfg.session⟩ := rfl
  obtain ⟨x, hcur, hrun⟩ := run_updatePodDelivery h (some m.id) none .working
  refine ⟨x, hcur, ?_⟩
  unfold startDelivery sendControlFrame
  rw [controlFrame_workRequest, hbegin, run_bind_ok run_except,
    run_bind_ok (run_store_ok (run_record _ _ _ _) _), run_bind_ok (run_store_ok hrun _)]
  by_cases hsize : requestSize cfg.identity (n + 1) m ≤ cfg.pod.maxFrameBytes
  · rw [if_pos hsize, if_neg (Nat.not_lt.mpr hsize)]
    rfl
  · rw [if_neg hsize, if_pos (Nat.lt_of_not_le hsize)]
    rfl

/-- The turn of a worker that answers at once. -/
lemma run_turn {n fuel : ℕ} (h : Standing cfg.identity s.disk)
    (hp : Store.validateComponent cfg.pod.name "pod" = .ok ())
    (hid : Store.validateComponent m.id "message id" = .ok ())
    (hnone : s.disk.terminals m.id = none)
    (hlast : s.last = some (workFrame cfg.identity (n + 1) m))
    (hsize : requestSize cfg.identity (n + 1) m ≤ cfg.pod.maxFrameBytes) :
    ∃ x, Store.current x cfg.identity = true ∧
      run s (turn digest cfg m.id (fuel + 1) ⟨.working, n, cfg.session⟩ (n + 2) 0) =
        (.ok (idle cfg (n + 1), n + 2), ⟨delivered cfg.identity m.id
          (reply (workFrame cfg.identity (n + 1) m)) x s.disk, s.last⟩) := by
  obtain ⟨x, hcur, hrun⟩ := run_complete (n := n + 1)
    (f := reply (workFrame cfg.identity (n + 1) m)) h hp hid hnone
  refine ⟨x, hcur, ?_⟩
  have hreceive : run s (ask .receive) = (.ok (some (.frame
      (reply (workFrame cfg.identity (n + 1) m))
      (reply (workFrame cfg.identity (n + 1) m)).size)), s) := by
    refine Prod.ext ?_ rfl
    change Except.ok (s.last.map _) = _
    rw [hlast]
    rfl
  have hkind : (reply (workFrame cfg.identity (n + 1) m)).kind = .terminal := rfl
  unfold turn
  refine (run_bind_ok hreceive).trans ?_
  dsimp only
  rw [acceptFrame_reply ((size_reply_le _ _ _).trans hsize), run_bind_ok run_except]
  dsimp only
  rw [hkind]
  dsimp only
  rw [run_bind_ok hrun]
  rfl

/-- One entry of the inbox. A message of the pod's that is not processed goes to the worker if its
line is within the limit, and ends the process if it is not. -/
lemma run_deliver_own (digest : String → String) (n fuel : ℕ)
    (h : Standing cfg.identity s.disk)
    (hp : Store.validateComponent cfg.pod.name "pod" = .ok ())
    (hread : (s.disk.run (Store.readMessage m.id)).1 = .ok m) (hdest : m.destination = cfg.pod.name)
    (hid : Store.validateComponent m.id "message id" = .ok ())
    (hnew : s.disk.processed cfg.pod.name m.id = false) (hnone : s.disk.terminals m.id = none) :
    ∃ d last, Carries cfg.identity [m.id] s.disk d ∧
      if requestSize cfg.identity (n + 1) m ≤ cfg.pod.maxFrameBytes then
        run s (deliver digest cfg (fuel + 1) (idle cfg n) (n + 1) m.id) =
            (.ok (idle cfg (n + 1), n + 2), ⟨d, last⟩) ∧
          d.processed cfg.pod.name m.id = true
      else run s (deliver digest cfg (fuel + 1) (idle cfg n) (n + 1) m.id) =
        (.error "control frame exceeds configured limit", ⟨d, last⟩) := by
  obtain ⟨x, hcur, hstart⟩ := run_startDelivery h n m
  have hfound : s.disk.run (Store.readMessage m.id) = (.ok m, s.disk) :=
    Prod.ext hread (run_readMessage _ _).1
  have hdeliver : run s (deliver digest cfg (fuel + 1) (idle cfg n) (n + 1) m.id) =
      run s (startDelivery cfg (idle cfg n) (n + 1) m >>= fun machine =>
        turn digest cfg m.id (fuel + 1) machine (n + 2) 0) := by
    unfold deliver
    refine (run_bind_ok (run_store_ok (run_isProcessed hp hid) _)).trans ?_
    rw [hnew]
    refine (run_bind_ok (run_store_ok hfound _)).trans ?_
    rw [if_neg (not_not.mpr hdest)]
  by_cases hsize : requestSize cfg.identity (n + 1) m ≤ cfg.pod.maxFrameBytes
  · rw [if_pos hsize] at hstart
    obtain ⟨y, hcur', hturn⟩ := @run_turn digest cfg
      ⟨s.disk.apply (.writeState x), some (workFrame cfg.identity (n + 1) m)⟩ m n fuel
      ⟨x, rfl, hcur⟩ hp hid hnone rfl hsize
    have hcarries := @carries_delivered (s.disk.apply (.writeState x)) _ m.id
      (reply (workFrame cfg.identity (n + 1) m)) y hcur'
    refine ⟨_, some (workFrame cfg.identity (n + 1) m), hcarries.of_state, ?_⟩
    rw [if_pos hsize]
    refine ⟨hdeliver.trans ((run_bind_ok hstart).trans hturn), ?_⟩
    simp [delivered, Store.write, PodProcessConfig.identity]
  · rw [if_neg hsize] at hstart
    refine ⟨s.disk.apply (.writeState x), s.last,
      (Carries.refl ⟨x, rfl, hcur⟩ _).of_state, ?_⟩
    rw [if_neg hsize, hdeliver, run_bind_error hstart]

/-- Any entry of the inbox. -/
lemma run_deliver (digest : String → String) (n fuel : ℕ)
    (h : Standing cfg.identity s.disk)
    (hp : Store.validateComponent cfg.pod.name "pod" = .ok ())
    (hnone : Unanswered cfg.pod.name s.disk) (id : String) :
    ∃ x t, run s (deliver digest cfg (fuel + 1) (idle cfg n) (n + 1) id) = (x, t) ∧
      Carries cfg.identity [id] s.disk t.disk ∧ ∀ y, x = .ok y → ∃ k, y = (idle cfg k, k + 1) := by
  have hsame : ∀ e, ∃ x t, ((.error e, s) : Except String (Machine × ℕ) × Desk) = (x, t) ∧
      Carries cfg.identity [id] s.disk t.disk ∧ ∀ y, x = .ok y → ∃ k, y = (idle cfg k, k + 1) :=
    fun e => ⟨_, _, rfl, Carries.refl h _, nofun⟩
  cases hid : Store.validateComponent id "message id" with
  | error e =>
    have hprocessed : s.disk.run (Store.isProcessed cfg.pod.name id) = (.error e, s.disk) := by
      unfold Store.isProcessed Disk.run
      rw [hp, run_bind, run_ofExcept]
      dsimp only
      rw [hid, run_bind, run_ofExcept]
    unfold deliver
    rw [run_bind_error (by rw [run_store, hprocessed]; rfl)]
    exact hsame _
  | ok _ =>
    cases hdone : s.disk.processed cfg.pod.name id with
    | true =>
      refine ⟨.ok (idle cfg n, n + 1), s, ?_, Carries.refl h _, fun y hy =>
        ⟨n, (Except.ok.inj hy).symm⟩⟩
      unfold deliver
      refine (run_bind_ok (run_store_ok (run_isProcessed hp hid) _)).trans ?_
      rw [hdone]
      rfl
    | false =>
      obtain ⟨hsnd, hfound⟩ := run_readMessage s.disk id
      cases hread : (s.disk.run (Store.readMessage id)).1 with
      | error e =>
        unfold deliver
        refine ((run_bind_ok (run_store_ok (run_isProcessed hp hid) _)).trans ?_) ▸ hsame e.message
        rw [hdone]
        refine run_bind_error ?_
        rw [run_store, hread, hsnd]
        rfl
      | ok m =>
        obtain ⟨-, rfl⟩ := hfound m hread
        by_cases hdest : m.destination = cfg.pod.name
        · obtain ⟨d, last, hcarries, hrun⟩ := run_deliver_own digest n fuel h hp hread hdest hid hdone (hnone _ hdone)
          split_ifs at hrun with hsize
          · exact ⟨_, _, hrun.1, hcarries, fun y hy => ⟨n + 1, (Except.ok.inj hy).symm⟩⟩
          · exact ⟨_, _, hrun, hcarries, nofun⟩
        · refine ⟨.ok (idle cfg n, n + 1), s, ?_, Carries.refl h _, fun y hy =>
            ⟨n, (Except.ok.inj hy).symm⟩⟩
          unfold deliver
          refine (run_bind_ok (run_store_ok (run_isProcessed hp hid) _)).trans ?_
          rw [hdone]
          refine (run_bind_ok (run_store_ok (Prod.ext hread hsnd) _)).trans ?_
          rw [if_pos hdest]
          rfl

/-! ### A scan of the inbox -/

/-- The entries of the inbox, one after the other. -/
lemma run_deliverAll (digest : String → String) (n fuel : ℕ)
    (h : Standing cfg.identity s.disk)
    (hp : Store.validateComponent cfg.pod.name "pod" = .ok ())
    (hnone : Unanswered cfg.pod.name s.disk) (ids : List String) :
    ∃ x t, run s (deliverAll digest cfg (fuel + 1) ids (idle cfg n) (n + 1)) = (x, t) ∧
      Carries cfg.identity ids s.disk t.disk ∧
      ∀ y, x = .ok y → ∃ k, y = (idle cfg k, k + 1) := by
  induction ids generalizing s n with
  | nil => exact ⟨_, _, rfl, Carries.refl h _, fun y hy => ⟨n, (Except.ok.inj hy).symm⟩⟩
  | cons id ids ih =>
    obtain ⟨x, t, hrun, hcarries, hx⟩ := run_deliver digest n fuel h hp
      hnone id
    cases x with
    | error e =>
      refine ⟨.error e, t, run_bind_error hrun, ?_, nofun⟩
      exact hcarries.trans (Carries.refl hcarries.standing ids)
    | ok y =>
      obtain ⟨k, rfl⟩ := hx y rfl
      obtain ⟨z, u, hrest, hcarries', hz⟩ := ih (n := k) hcarries.standing
        (hcarries.unanswered hnone)
      exact ⟨z, u, (run_bind_ok hrun).trans hrest, hcarries.trans hcarries', hz⟩

/-- The entry is the id of a message to the pod. -/
def Own (pod : String) (d : Disk) (id : String) : Prop :=
  ∃ m, d.messages id = some m ∧ Store.checkMessage m = .ok () ∧ m.id = id ∧ m.destination = pod

/-- The frames of these messages, numbered from `seq` on, are within the limit. -/
def Fits (cfg : PodProcessConfig) (d : Disk) (seq : ℕ) (ids : List String) : Prop :=
  ∀ k id m, ids[k]? = some id → d.messages id = some m →
    requestSize cfg.identity (seq + k) m ≤ cfg.pod.maxFrameBytes

lemma fits_cons {d : Disk} {seq : ℕ} {ids : List String} (hm : d.messages id = some m) :
    Fits cfg d seq (id :: ids) ↔
      requestSize cfg.identity seq m ≤ cfg.pod.maxFrameBytes ∧ Fits cfg d (seq + 1) ids := by
  constructor
  · intro h
    refine ⟨h 0 id m rfl hm, fun k x y hx hy => ?_⟩
    have hk := h (k + 1) x y hx hy
    rwa [show seq + (k + 1) = seq + 1 + k by omega] at hk
  · rintro ⟨hhead, htail⟩ (_ | k) x y hx hy
    · obtain rfl : id = x := Option.some.inj hx
      obtain rfl := Option.some.inj (hm.symm.trans hy)
      exact hhead
    · have hk := htail k x y hx hy
      rwa [show seq + (k + 1) = seq + 1 + k by omega]

/-- The entries that are not processed. -/
def todo (pod : String) (d : Disk) (ids : List String) : List String :=
  ids.filter fun id => !d.processed pod id

/-- A scan comes through just when what it has to deliver is within the limit. -/
lemma run_deliverAll_own (digest : String → String) (n fuel : ℕ)
    (h : Standing cfg.identity s.disk)
    (hp : Store.validateComponent cfg.pod.name "pod" = .ok ())
    (hnone : Unanswered cfg.pod.name s.disk) {ids : List String} (hnodup : ids.Nodup)
    (hown : ∀ id ∈ ids, Own cfg.pod.name s.disk id) :
    ∃ x t, run s (deliverAll digest cfg (fuel + 1) ids (idle cfg n) (n + 1)) = (x, t) ∧
      Carries cfg.identity ids s.disk t.disk ∧
      (x.isOk ↔ Fits cfg s.disk (n + 1) (todo cfg.pod.name s.disk ids)) ∧
      (x.isOk → ∀ id ∈ ids, t.disk.processed cfg.pod.name id = true) := by
  induction ids generalizing s n with
  | nil =>
    exact ⟨_, _, rfl, Carries.refl h [], iff_of_true rfl (fun k _ _ hk => by simp [todo] at hk),
      fun _ _ hid => absurd hid List.not_mem_nil⟩
  | cons id ids ih =>
    obtain ⟨hid, hids⟩ := List.nodup_cons.mp hnodup
    obtain ⟨m, hm, hchecked, rfl, hdest⟩ := hown id List.mem_cons_self
    have hcomp : Store.validateComponent m.id "message id" = .ok () := by
      obtain ⟨_, -, hrest⟩ := bind_eq_ok.mp hchecked
      obtain ⟨_, hcomp, -⟩ := bind_eq_ok.mp hrest
      exact hcomp
    have hown' := fun y hy => hown y (List.mem_cons_of_mem _ hy)
    cases hdone : s.disk.processed cfg.pod.name m.id with
    | true =>
      have hskip : run s (deliver digest cfg (fuel + 1) (idle cfg n) (n + 1) m.id) =
          (.ok (idle cfg n, n + 1), s) := by
        unfold deliver
        refine (run_bind_ok (run_store_ok (run_isProcessed hp hcomp) _)).trans ?_
        rw [hdone]
        rfl
      obtain ⟨x, t, hrun, hcarries, hfits, hall⟩ := ih (n := n) h hnone hids hown'
      refine ⟨x, t, (run_bind_ok hskip).trans hrun,
        (Carries.refl h [m.id]).trans hcarries, ?_, fun hok => ?_⟩
      · rwa [todo, List.filter_cons_of_neg (by simp [hdone])]
      · exact List.forall_mem_cons.mpr ⟨hcarries.kept _ hdone, hall hok⟩
    | false =>
      have htodo : todo cfg.pod.name s.disk (m.id :: ids) =
          m.id :: todo cfg.pod.name s.disk ids := List.filter_cons_of_pos (by simp [hdone])
      rw [htodo, fits_cons hm]
      obtain ⟨d, last, hcarries, hrun⟩ := run_deliver_own digest n fuel h hp (Store.run_readMessage hchecked hm) hdest hcomp hdone (hnone _ hdone)
      split_ifs at hrun with hsize
      · have hsame : ∀ y ∈ ids, d.processed cfg.pod.name y = s.disk.processed cfg.pod.name y := by
          intro y hy
          have hne : y ∉ [m.id] := fun hmem => hid (List.mem_singleton.mp hmem ▸ hy)
          exact Bool.eq_iff_iff.mpr
            ⟨fun hd => (hcarries.marked y hd).resolve_right hne, hcarries.kept y⟩
        have htodo' : todo cfg.pod.name d ids = todo cfg.pod.name s.disk ids :=
          List.filter_congr fun y hy => by rw [hsame y hy]
        obtain ⟨x, t, hrest, hcarries', hfits, hall⟩ := ih (s := ⟨d, last⟩) (n := n + 1)
          hcarries.standing (hcarries.unanswered hnone) hids fun y hy => by
            unfold Own
            rw [hcarries.messages]
            exact hown' y hy
        refine ⟨x, t, (run_bind_ok hrun.1).trans hrest, hcarries.trans hcarries', ?_,
          fun hok => List.forall_mem_cons.mpr ⟨hcarries'.kept _ hrun.2, hall hok⟩⟩
        unfold Fits at hfits ⊢
        rw [htodo', hcarries.messages] at hfits
        rw [hfits]
        exact ⟨fun hrest => ⟨hsize, hrest⟩, And.right⟩
      · exact ⟨_, _, run_bind_error hrun, hcarries.trans (Carries.refl hcarries.standing ids),
          iff_of_false nofun fun hfits => hsize hfits.1, nofun⟩

section

variable (digest)

/-- What a process does with its inbox, time and again. -/
def scan (cfg : PodProcessConfig) (fuel : ℕ) (machine : Machine) (seq : ℕ) : Io (Machine × ℕ) := do
  let ids ← store (Store.pendingMessageIds cfg.pod.name)
    fun e => "could not read " ++ cfg.pod.name ++ " inbox: " ++ e
  deliverAll digest cfg fuel ids machine seq

lemma run_serve (s : Desk) (fuel : ℕ) (machine : Machine) (seq : ℕ) :
    run s (serve digest cfg (fuel + 1) machine seq) =
      match run s (scan digest cfg fuel machine seq) with
      | (.ok y, t) => run t (serve digest cfg fuel y.1 y.2)
      | (.error e, t) => (.error e, t) := by
  have hexited : run s (ask .exited) = (.ok false, s) := rfl
  rw [serve]
  unfold scan
  refine (run_bind_ok hexited).trans ?_
  unfold run
  rw [if_neg Bool.false_ne_true, run_bind, run_bind]
  obtain ⟨x, t⟩ := (store (Store.pendingMessageIds cfg.pod.name)
    fun e => "could not read " ++ cfg.pod.name ++ " inbox: " ++ e : Io _).run answer next s
  cases x with
  | error e => rfl
  | ok ids =>
    dsimp only
    rw [run_bind]
    obtain ⟨x, t⟩ := (deliverAll digest cfg fuel ids machine seq).run answer next t
    cases x <;> rfl

/-- A pod process that is through its handshake, its worker, and the state directory. -/
structure Process where
  cfg : PodProcessConfig
  desk : Desk
  machine : Machine
  seq : ℕ

/-- Behind the handshake. -/
def launched (cfg : PodProcessConfig) (d : Disk) : Process := ⟨cfg, ⟨d, none⟩, idle cfg 1, 2⟩

def Process.scan (fuel : ℕ) (s : Process) : Except String (Machine × ℕ) × Desk :=
  run s.desk (Pod.scan digest s.cfg (fuel + 1) s.machine s.seq)

/-- A validated configuration of the pod. -/
def Accepted (pod : String) (cfg : PodProcessConfig) : Prop :=
  cfg.pod.name = pod ∧ ∃ m, Factory.validate m = .ok () ∧ cfg.pod ∈ m.pods

/-- Nothing was sent to the pod yet. -/
structure New (pod : String) (d : Disk) : Prop where
  inbox : d.inbox pod = none
  processed : ∀ id, d.processed pod id = false
  terminals : ∀ id, d.terminals id = none

/-- Enqueues that come back well and processes of a pod, with what was enqueued so far. A process
scans the inbox until it ends or the next one is launched. -/
inductive Goes (fuel : ℕ) (pod : String) : List MessageEnvelope → Process → Prop
  | launch {cfg : PodProcessConfig} {d : Disk} (hcfg : Accepted pod cfg) (hnew : New pod d)
      (hd : Standing cfg.identity d) : Goes fuel pod [] (launched cfg d)
  | enqueue {ms : List MessageEnvelope} {s : Process} {m : MessageEnvelope} {b : Bool} {d : Disk}
      (h : Goes fuel pod ms s) (hm : s.desk.disk.run (Store.enqueueMessage m) = (.ok b, d)) :
      Goes fuel pod (ms ++ [m]) { s with desk := ⟨d, s.desk.last⟩ }
  | scan {ms : List MessageEnvelope} {s : Process} {y : Machine × ℕ} {t : Desk}
      (h : Goes fuel pod ms s) (hs : s.scan digest fuel = (.ok y, t)) :
      Goes fuel pod ms ⟨s.cfg, t, y.1, y.2⟩
  | relaunch {ms : List MessageEnvelope} {s : Process} {cfg : PodProcessConfig} {d : Disk}
      {x : FactoryState} (h : Goes fuel pod ms s)
      (hd : d = s.desk.disk ∨ d = (s.scan digest fuel).2.disk) (hcfg : Accepted pod cfg)
      (hx : Store.current x cfg.identity = true) :
      Goes fuel pod ms (launched cfg (d.apply (.writeState x)))

end

/-! ### What holds in a run -/

lemma isSafeName_of_mem {mf : FactoryManifest} {l : List Factory.PodManifest} {seen : List String}
    (h : Factory.podsErrors mf l seen = []) {p : Factory.PodManifest} (hp : p ∈ l) :
    Factory.isSafeName p = true := by
  induction l generalizing seen with
  | nil => cases hp
  | cons q l ih =>
    obtain ⟨-, -, hl⟩ := Factory.podsErrors_cons h
    rcases List.mem_cons.mp hp with rfl | hp
    · unfold Factory.podsErrors at h
      dsimp only at h
      split_ifs at h with hempty hsafe hseen
      · exact absurd h (by simp)
      · exact absurd h (by simp)
      · exact absurd h (by simp)
      · simpa using hsafe
    · exact ih hl hp

/-- White space at its ends does not make a name safe. -/
lemma validateComponent_of_isSafeName {p : Factory.PodManifest} (h : Factory.isSafeName p = true)
    (l : String) : Store.validateComponent p.name l = .ok () := by
  have hmem : ∀ c : Char, Store.isSpace c = false → c ∈ p.name.toList →
      c ∈ (Factory.trim p.name).toList := by
    have hdrop : ∀ (c : Char) (cs : List Char), Store.isSpace c = false → c ∈ cs →
        c ∈ cs.dropWhile Store.isSpace := by
      intro c cs hc hcs
      rw [← List.takeWhile_append_dropWhile (p := Store.isSpace) (l := cs)] at hcs
      refine (List.mem_append.mp hcs).resolve_left fun htake => ?_
      simp [List.mem_takeWhile_imp htake] at hc
    intro c hc hcs
    unfold Factory.trim
    rw [String.toList_ofList, List.mem_reverse]
    exact hdrop c _ hc (List.mem_reverse.mpr (hdrop c _ hc hcs))
  unfold Factory.isSafeName at h
  simp only [Bool.and_eq_true, decide_eq_true_eq] at h
  obtain ⟨⟨⟨⟨hempty, hdot⟩, hdots⟩, hslash⟩, hback⟩ := h
  unfold Store.validateComponent
  rw [if_neg]
  rintro (hn | hn | hn | hn | hn)
  · exact hempty (by rw [hn]; decide)
  · exact hdot (by rw [hn]; decide)
  · exact hdots (by rw [hn]; decide)
  · exact hslash (hmem '/' rfl hn)
  · exact hback (hmem '\\' rfl hn)

variable {pod : String} {ms : List MessageEnvelope} {p q : Process} {fuel : ℕ}

lemma Accepted.component (h : Accepted pod cfg) (l : String) :
    Store.validateComponent cfg.pod.name l = .ok () := by
  obtain ⟨-, m, hvalid, hmem⟩ := h
  exact validateComponent_of_isSafeName
    (isSafeName_of_mem (Factory.podsErrors_of_validate hvalid) hmem) l

/-- What holds of a process, and of the messages sent so far. -/
structure Kept (pod : String) (ms : List MessageEnvelope) (p : Process) : Prop where
  accepted : Accepted pod p.cfg
  standing : Standing p.cfg.identity p.desk.disk
  idle : ∃ n, p.machine = idle p.cfg n ∧ p.seq = n + 1
  unanswered : Unanswered pod p.desk.disk
  messages : ∀ m ∈ ms, p.desk.disk.messages m.id = some m ∧ Store.checkMessage m = .ok ()
  lines : ∀ id, p.desk.disk.processed pod id = true → Store.IsLine id

/-- A scan delivers what the inbox lists. -/
lemma run_scan {n : ℕ} (hp : Store.validateComponent cfg.pod.name "pod" = .ok ()) :
    run s (scan digest cfg (fuel + 1) (idle cfg n) (n + 1)) =
      if (Store.inboxIds (s.disk.inbox cfg.pod.name)).length > 4096 then
        (.error ("could not read " ++ cfg.pod.name ++ " inbox: " ++
          "pending message queue exceeds 4096 entries"), s)
      else run s (deliverAll digest cfg (fuel + 1) (Store.inboxIds (s.disk.inbox cfg.pod.name))
        (idle cfg n) (n + 1)) := by
  have hread := Disk.run_pendingMessageIds (d := s.disk) hp
  unfold scan
  split_ifs at hread ⊢ with hlong
  · refine run_bind_error ?_
    rw [run_store, hread]
    rfl
  · exact run_bind_ok (run_store_ok hread _)

/-- What a scan leaves, whether the process comes through it or not. -/
lemma scan_carries (digest : String → String) (fuel : ℕ) (h : Kept pod ms p) :
    Carries p.cfg.identity (Store.inboxIds (p.desk.disk.inbox pod)) p.desk.disk
        (p.scan digest fuel).2.disk ∧
      ∀ y, (p.scan digest fuel).1 = .ok y → ∃ k, y = (idle p.cfg k, k + 1) := by
  obtain ⟨n, hmachine, hseq⟩ := h.idle
  obtain rfl := h.accepted.1
  unfold Process.scan
  rw [hmachine, hseq, run_scan (h.accepted.component "pod")]
  split_ifs with hlong
  · exact ⟨Carries.refl h.standing _, nofun⟩
  · obtain ⟨x, t, hrun, hcarries, hx⟩ := run_deliverAll digest n fuel
      h.standing (h.accepted.component "pod") h.unanswered
      (Store.inboxIds (p.desk.disk.inbox p.cfg.pod.name))
    rw [hrun]
    exact ⟨hcarries, hx⟩

lemma Kept.carried (h : Kept pod ms p) {d : Disk}
    (hd : Carries p.cfg.identity (Store.inboxIds (p.desk.disk.inbox pod)) p.desk.disk d) :
    Unanswered pod d ∧ (∀ m ∈ ms, d.messages m.id = some m ∧ Store.checkMessage m = .ok ()) ∧
      ∀ id, d.processed pod id = true → Store.IsLine id := by
  obtain rfl := h.accepted.1
  refine ⟨hd.unanswered h.unanswered, hd.messages ▸ h.messages, fun id hid => ?_⟩
  exact (hd.marked id hid).elim (h.lines id) Store.isLine_of_mem

/-- What a process leaves that is stopped before a scan or makes it. -/
lemma carries_relaunch (h : Kept pod ms p)
    (hd : d = p.desk.disk ∨ d = (p.scan digest fuel).2.disk) :
    Carries p.cfg.identity (Store.inboxIds (p.desk.disk.inbox pod)) p.desk.disk d := by
  rcases hd with rfl | rfl
  · exact Carries.refl h.standing _
  · exact (scan_carries digest fuel h).1

lemma kept_goes (h : Goes digest fuel pod ms p) : Kept pod ms p := by
  induction h with
  | launch hcfg hnew hd =>
    exact ⟨hcfg, hd, ⟨1, rfl, rfl⟩, fun id _ => hnew.terminals id,
      fun _ hm => absurd hm List.not_mem_nil,
      fun id hid => by simp [launched, hnew.processed] at hid⟩
  | @enqueue ms p m b d h hm ih =>
    have henq := Disk.enqueues_of_run hm
    obtain ⟨hstate, hprocessed, hterminals⟩ := henq.rest
    obtain ⟨hold, hnew⟩ := Store.messages_step henq
    refine ⟨ih.accepted, ?_, ih.idle, ?_, ?_, ?_⟩
    · obtain ⟨x, hx, hcur⟩ := ih.standing
      exact ⟨x, hstate.trans hx, hcur⟩
    · unfold Unanswered
      rw [hprocessed, hterminals]
      exact ih.unanswered
    · refine List.forall_mem_append.mpr ⟨fun n hn => ?_, List.forall_mem_singleton.mpr ?_⟩
      · exact ⟨hold _ _ (ih.messages n hn).1, (ih.messages n hn).2⟩
      · exact ⟨hnew, henq.checked⟩
    · rw [hprocessed]
      exact ih.lines
  | @scan ms p y t h hs ih =>
    obtain ⟨hcarries, hy⟩ := scan_carries digest fuel ih
    rw [hs] at hcarries hy
    obtain ⟨k, rfl⟩ := hy y rfl
    obtain ⟨hun, hmessages, hlines⟩ := ih.carried hcarries
    exact ⟨ih.accepted, hcarries.standing, ⟨k, rfl, rfl⟩, hun, hmessages, hlines⟩
  | @relaunch ms p cfg d x h hd hcfg hx ih =>
    obtain ⟨hun, hmessages, hlines⟩ := ih.carried (carries_relaunch ih hd)
    exact ⟨hcfg, ⟨x, rfl, hx⟩, ⟨1, rfl, rfl⟩, hun, hmessages, hlines⟩

/-- What is listed, or was, is left of the ids that were sent. -/
lemma leftOf_goes (h : Goes digest fuel pod ms p)
    (hms : ∀ m ∈ ms, m.destination = pod → '\n' ∉ m.id.toList) :
    (∀ entry ∈ Store.inboxIds (p.desk.disk.inbox pod),
        Store.LeftOf (Store.idsTo pod ms) entry) ∧
      ∀ id, p.desk.disk.processed pod id = true → Store.LeftOf (Store.idsTo pod ms) id := by
  have hcarried : ∀ {ms : List MessageEnvelope} {p : Process} {d : Disk}, Kept pod ms p →
      Carries p.cfg.identity (Store.inboxIds (p.desk.disk.inbox pod)) p.desk.disk d →
      ((∀ entry ∈ Store.inboxIds (p.desk.disk.inbox pod),
          Store.LeftOf (Store.idsTo pod ms) entry) ∧
        ∀ id, p.desk.disk.processed pod id = true → Store.LeftOf (Store.idsTo pod ms) id) →
      (∀ entry ∈ Store.inboxIds (d.inbox pod), Store.LeftOf (Store.idsTo pod ms) entry) ∧
        ∀ id, d.processed pod id = true → Store.LeftOf (Store.idsTo pod ms) id := by
    rintro ms p d hkept hd ⟨hlisted, hdone⟩
    obtain rfl := hkept.accepted.1
    rw [hd.inbox]
    exact ⟨hlisted, fun id hid => (hd.marked id hid).elim (hdone id) (hlisted id)⟩
  induction h with
  | launch hcfg hnew hd =>
    refine ⟨fun entry hentry => ?_, fun id hid => by simp [launched, hnew.processed] at hid⟩
    simp [launched, hnew.inbox, Store.inboxIds] at hentry
  | @enqueue ms p m b d h hm ih =>
    have henq := Disk.enqueues_of_run hm
    obtain ⟨hlisted, hdone⟩ := ih fun n hn => hms n (List.mem_append_left _ hn)
    rw [Store.idsTo_append]
    refine ⟨Store.leftOf_step henq hlisted (hms m (List.mem_append_right _
      (List.mem_singleton_self m))), fun id hid => ?_⟩
    rw [henq.rest.2.1] at hid
    exact (hdone id hid).mono (List.subset_append_left _ _)
  | @scan ms p y t h hs ih =>
    have hcarries := (scan_carries digest fuel (kept_goes h)).1
    rw [hs] at hcarries
    exact hcarried (kept_goes h) hcarries (ih hms)
  | @relaunch ms p cfg d x h hd hcfg hx ih =>
    exact hcarried (d := d) (kept_goes h) (carries_relaunch (kept_goes h) hd) (ih hms)

/-- Ids that are kept whole are listed as they were sent. -/
lemma listed_goes (h : Goes digest fuel pod ms p)
    (hms : ∀ m ∈ ms, m.destination = pod → Store.Whole m.id) :
    Store.inboxIds (p.desk.disk.inbox pod) = Store.distinct (Store.idsTo pod ms) ∧
      (Store.distinct (Store.idsTo pod ms)).length ≤ 4096 := by
  induction h with
  | @launch cfg d hcfg hnew hd =>
    change Store.inboxIds (d.inbox pod) = _ ∧ _
    rw [hnew.inbox]
    exact ⟨rfl, Nat.zero_le _⟩
  | @enqueue ms p m b d h hm ih =>
    have hold := fun n hn => hms n (List.mem_append_left [m] hn)
    obtain ⟨hlisted, hshort⟩ := ih hold
    rw [Store.idsTo_append]
    refine Store.listed_step (Disk.enqueues_of_run hm) hlisted hshort (fun id hid => ?_)
      (hms m (List.mem_append_right _ (List.mem_singleton_self m)))
    obtain ⟨n, hn, hdest, rfl⟩ := Store.mem_idsTo.mp hid
    exact hold n hn hdest
  | @scan ms p y t h hs ih =>
    have hcarries := (scan_carries digest fuel (kept_goes h)).1
    rw [hs] at hcarries
    rw [hcarries.inbox]
    exact ih hms
  | @relaunch ms p cfg d x h hd hcfg hx ih =>
    change Store.inboxIds (d.inbox pod) = _ ∧ _
    rw [(carries_relaunch (kept_goes h) hd).inbox]
    exact ih hms

/-- **What is delivered.** After any enqueues that came back well, and processes of the pod that
scanned its inbox, ended and were launched again in between, with a worker that answers at once:
the process comes through its next scan, and every message sent to the pod so far is then
processed, if and only if every id among them is a line that is read back as it was written, and
the frames of the messages that are not processed yet, strings escaped and numbered from the
process's next number on, are within its limit. -/
theorem deliveries_iff (h : Goes digest fuel pod ms p) :
    ((p.scan digest fuel).1.isOk ∧ ∀ m ∈ ms, m.destination = pod →
        (p.scan digest fuel).2.disk.processed pod m.id = true) ↔
      (∀ m ∈ ms, m.destination = pod → Store.Whole m.id) ∧
        Fits p.cfg p.desk.disk p.seq
          (todo pod p.desk.disk (Store.distinct (Store.idsTo pod ms))) := by
  have hkept := kept_goes h
  obtain ⟨n, hmachine, hseq⟩ := hkept.idle
  have hpod := hkept.accepted.1
  subst hpod
  have hscan : (∀ m ∈ ms, m.destination = p.cfg.pod.name → Store.Whole m.id) →
      ∃ x t, p.scan digest fuel = (x, t) ∧
        (x.isOk ↔ Fits p.cfg p.desk.disk p.seq (todo p.cfg.pod.name p.desk.disk
          (Store.distinct (Store.idsTo p.cfg.pod.name ms)))) ∧
        (x.isOk → ∀ id ∈ Store.distinct (Store.idsTo p.cfg.pod.name ms),
          t.disk.processed p.cfg.pod.name id = true) := by
    intro hwhole
    obtain ⟨hlisted, hshort⟩ := listed_goes h hwhole
    obtain ⟨x, t, hrun, -, hfits, hall⟩ := run_deliverAll_own digest n fuel hkept.standing (hkept.accepted.component "pod") hkept.unanswered
      (Store.nodup_distinct (Store.idsTo p.cfg.pod.name ms)) fun id hid => by
        obtain ⟨m, hm, hdest, rfl⟩ := Store.mem_idsTo.mp (Store.mem_distinct.mp hid)
        exact ⟨m, (hkept.messages m hm).1, (hkept.messages m hm).2, rfl, hdest⟩
    refine ⟨x, t, ?_, by rw [hseq]; exact hfits, hall⟩
    unfold Process.scan
    rw [hmachine, hseq, run_scan (hkept.accepted.component "pod"), hlisted,
      if_neg (Nat.not_lt.mpr hshort)]
    exact hrun
  constructor
  · rintro ⟨hok, hall⟩
    have hcarries := (scan_carries digest fuel hkept).1
    have hmarked : ∀ id ∈ Store.idsTo p.cfg.pod.name ms,
        p.desk.disk.processed p.cfg.pod.name id = true ∨
          id ∈ Store.inboxIds (p.desk.disk.inbox p.cfg.pod.name) := by
      intro id hid
      obtain ⟨m, hm, hdest, rfl⟩ := Store.mem_idsTo.mp hid
      exact hcarries.marked m.id (hall m hm hdest)
    have hline : ∀ id ∈ Store.idsTo p.cfg.pod.name ms, Store.IsLine id := fun id hid =>
      (hmarked id hid).elim (hkept.lines id) Store.isLine_of_mem
    obtain ⟨hlisted, hdone⟩ := leftOf_goes h fun m hm hdest =>
      (hline m.id (Store.mem_idsTo.mpr ⟨m, hm, hdest, rfl⟩)).1
    have hwhole := Store.whole_of_listed hline fun id hid =>
      (hmarked id hid).elim (hdone id) (hlisted id)
    have hms : ∀ m ∈ ms, m.destination = p.cfg.pod.name → Store.Whole m.id := fun m hm hdest =>
      hwhole m.id (Store.mem_idsTo.mpr ⟨m, hm, hdest, rfl⟩)
    obtain ⟨x, t, hrun, hfits, -⟩ := hscan hms
    rw [hrun] at hok
    exact ⟨hms, hfits.mp hok⟩
  · rintro ⟨hms, hfit⟩
    obtain ⟨x, t, hrun, hfits, hall⟩ := hscan hms
    rw [hrun]
    have hok := hfits.mpr hfit
    refine ⟨hok, fun m hm hdest => hall hok m.id ?_⟩
    exact Store.mem_distinct.mpr (Store.mem_idsTo.mpr ⟨m, hm, hdest, rfl⟩)

/-! ### A message that was accepted and ends the process -/

/-- A factory of one pod, everything at its default. -/
def plain : FactoryManifest where
  name := "f"
  pods := [{ name := "p", engine := "e", command := ["/bin/e"], heartbeatTimeoutMs := 1000 }]

def plainConfig : PodProcessConfig where
  factoryGen := 1
  factory := "f"
  pod := { name := "p", engine := "e", command := ["/bin/e"], heartbeatTimeoutMs := 1000 }
  session := "s"
  launchFingerprint := "l"

/-- A payload of control characters. -/
def loud (n : ℕ) : MessageEnvelope where
  id := "m"
  source := "p"
  destination := "p"
  kind := "message"
  payload := String.ofList (List.replicate n '\x01')

/-- The first process of the pod. -/
def first : Process := launched plainConfig { state := some Store.onePod }

/-- The process, and the disk after one more message. -/
def Process.sent (p : Process) (m : MessageEnvelope) : Process :=
  { p with desk := ⟨(p.desk.disk.run (Store.enqueueMessage m)).2, p.desk.last⟩ }

lemma goes_first (fuel : ℕ) : Goes digest fuel "p" [] first :=
  .launch ⟨rfl, plain, by decide, List.mem_singleton.mpr rfl⟩
    ⟨rfl, fun _ => rfl, fun _ => rfl⟩ ⟨Store.onePod, rfl, by
      simp [Store.current, Store.onePod, plainConfig, PodProcessConfig.identity]⟩

lemma goes_sent {p : Process} (h : Goes digest fuel pod ms p) {b : Bool}
    (hm : (p.desk.disk.run (Store.enqueueMessage m)).1 = .ok b) :
    Goes digest fuel pod (ms ++ [m]) (p.sent m) :=
  .enqueue h (Prod.ext hm rfl)

/-- Two messages. -/
def sentTwo : Process := (first.sent (Store.letter "a")).sent (Store.letter "b")

lemma goes_two : Goes (fun x => x) 0 "p" [Store.letter "a", Store.letter "b"] sentTwo :=
  goes_sent (b := true) (goes_sent (b := true) (goes_first 0) (by decide)) (by decide)

/-- Both are delivered. -/
theorem deliveries_two : (sentTwo.scan (fun x => x) 0).1.isOk ∧
    ∀ m ∈ [Store.letter "a", Store.letter "b"], m.destination = "p" →
      (sentTwo.scan (fun x => x) 0).2.disk.processed "p" m.id = true := by
  refine (deliveries_iff goes_two).mpr ⟨by decide, fun k x m hx hm => ?_⟩
  have htodo : todo "p" sentTwo.desk.disk (Store.distinct (Store.idsTo "p"
      [Store.letter "a", Store.letter "b"])) = ["a", "b"] := by decide
  have ha : sentTwo.desk.disk.messages "a" = some (Store.letter "a") := by decide
  have hb : sentTwo.desk.disk.messages "b" = some (Store.letter "b") := by decide
  rw [htodo] at hx
  rcases k with _ | _ | k
  · obtain rfl : "a" = x := Option.some.inj hx
    obtain rfl := Option.some.inj (ha.symm.trans hm)
    decide
  · obtain rfl : "b" = x := Option.some.inj hx
    obtain rfl := Option.some.inj (hb.symm.trans hm)
    decide
  · cases hx

lemma checkMessage_loud {n : ℕ} (h : n ≤ 32768) : Store.checkMessage (loud n) = .ok () := by
  have hcomp : ∀ v ∈ ["m", "p"], ∀ l, Store.validateComponent v l = .ok () := by
    intro v hv
    have hok : ∀ v ∈ ["m", "p"], Store.validateComponent v "" = .ok () := by decide
    exact Store.validateComponent_label (hok v hv)
  have hkind : Store.isKind "message" = true := by decide
  have hlen : Wire.len (String.ofList (List.replicate n '\x01')) = n := by
    simp [Wire.len, bytes, show Char.utf8Size '\x01' = 1 from rfl]
  have hsize : ¬32768 < n := by omega
  simp [Store.checkMessage, Store.validateMessage, loud, hcomp "m", hcomp "p", hkind, hlen, hsize]
  rfl

lemma requestSize_loud (i : SessionIdentity) (seq n : ℕ) :
    6 * n ≤ requestSize i seq (loud n) := by
  have hpayload : escapedLen (loud n).payload = 6 * n := by
    simp [escapedLen, loud, show Wire.escapedSize '\x01' = 6 from rfl, Nat.mul_comm]
  unfold requestSize
  omega

/-- A process ends where it does not come through a scan. -/
lemma serve_ends {p : Process} {e : String} (h : (p.scan digest fuel).1 = .error e) :
    (run p.desk (serve digest p.cfg (fuel + 2) p.machine p.seq)).1 = .error e := by
  have hscan : run p.desk (Pod.scan digest p.cfg (fuel + 1) p.machine p.seq) =
      (.error e, (p.scan digest fuel).2) := Prod.ext h rfl
  rw [run_serve, hscan]

lemma enqueue_loud {n : ℕ} (hn : n ≤ 32768) :
    (first.desk.disk.run (Store.enqueueMessage (loud n))).1 = .ok true := by
  have hdecl : (loud n).destination ∈ Store.onePod.pods := by
    change "p" ∈ Store.onePod.pods
    simp [Store.onePod]
  exact (Disk.run_enqueueMessage_fresh (checkMessage_loud hn) rfl hdecl rfl
    List.not_mem_nil).mpr (Nat.zero_lt_succ _)

lemma enqueues_loud {n : ℕ} (hn : n ≤ 32768) :
    Disk.Enqueues { state := some Store.onePod } (loud n) true (first.sent (loud n)).desk.disk :=
  Disk.enqueues_of_run (Prod.ext (enqueue_loud hn) rfl)

lemma goes_loud (digest : String → String) (fuel : ℕ) {n : ℕ} (hn : n ≤ 32768) :
    Goes digest fuel "p" [loud n] (first.sent (loud n)) :=
  goes_sent (goes_first fuel) (enqueue_loud hn)

lemma scan_loud {n : ℕ} (hn : n ≤ 32768) (hlarge : 65536 < 6 * n) :
    ((first.sent (loud n)).scan digest fuel).1 =
      .error "control frame exceeds configured limit" := by
  have hkept : Kept "p" [loud n] (first.sent (loud n)) :=
    kept_goes (goes_loud digest fuel hn)
  have henq := enqueues_loud hn
  have hlisted : Store.inboxIds ((first.sent (loud n)).desk.disk.inbox
      (first.sent (loud n)).cfg.pod.name) = ["m"] := by
    refine (congrArg Store.inboxIds (henq.inbox_apply "p")).trans ?_
    rw [if_pos ⟨rfl, List.not_mem_nil⟩]
    exact (by decide : Store.inboxIds (some (Store.inboxText ["m"])) = ["m"])
  have hmessage := hkept.messages (loud n) (List.mem_singleton_self _)
  have hnew : (first.sent (loud n)).desk.disk.processed "p" "m" = false :=
    congrFun (congrFun henq.rest.2.1 "p") "m"
  obtain ⟨d, last, -, hrun⟩ := run_deliver_own digest 1 fuel
    (m := loud n) hkept.standing (hkept.accepted.component "pod")
    (Store.run_readMessage hmessage.2 hmessage.1) rfl
    (by decide : Store.validateComponent "m" "message id" = .ok ()) hnew (hkept.unanswered _ hnew)
  have hlong : ¬requestSize plainConfig.identity 2 (loud n) ≤ plainConfig.pod.maxFrameBytes :=
    not_le.mpr (Nat.lt_of_lt_of_le hlarge (requestSize_loud _ _ _))
  replace hrun := (if_neg hlong).mp hrun
  unfold Process.scan
  refine (congrArg Prod.fst (run_scan (hkept.accepted.component "pod"))).trans ?_
  refine (congrArg Prod.fst (if_neg (by rw [hlisted]; decide))).trans ?_
  rw [hlisted]
  exact congrArg Prod.fst (run_bind_error hrun)

/-- A message whose id has a newline in it, and one behind it. -/
def sentBroken : Process := (first.sent (Store.letter "a\nb")).sent (Store.letter "c")

/-- Within all limits of an enqueue and to a pod at its defaults: a message whose line is too
long, and one whose id is read back as another, with a message behind it that stays. -/
theorem accepted_message_ends_pod :
    Goes (fun x => x) 0 "p" [loud 32768] (first.sent (loud 32768)) ∧
    (run (first.sent (loud 32768)).desk
      (serve (fun x => x) plainConfig 2 (idle plainConfig 1) 2)).1 =
        .error "control frame exceeds configured limit" ∧
    Goes (fun x => x) 0 "p" [Store.letter "a\nb", Store.letter "c"] sentBroken ∧
    (run sentBroken.desk (serve (fun x => x) plainConfig 2 (idle plainConfig 1) 2)).1 =
      .error "no such message" ∧
    (sentBroken.scan (fun x => x) 0).2.disk.processed "p" "c" = false := by
  refine ⟨goes_loud _ _ le_rfl, serve_ends (scan_loud le_rfl (by omega)), ?_, ?_, by decide⟩
  · exact goes_sent (b := true) (goes_sent (b := true) (goes_first 0) (by decide)) (by decide)
  · exact serve_ends (p := sentBroken) (by decide)

end Bimo.Pod
