import Bimo.Pod
import Bimo.Threads

/-!
The commands and pod processes of one factory, run at the same time over its state directory.

A process is stopped anywhere, and its lock with it; pod processes of any generation and session
come and go. A call that writes may have taken effect although it comes back with an error. What
a worker writes is up to the worker.

A thread's note has what the process knows from its own calls: whether it holds the lock, what
it has read under it, and facts about the disk that no call of anyone can undo.
-/

namespace Bimo.Runs

open Factory (FactoryState PodState PodManifest Manifest)
open Store (MessageEnvelope SessionIdentity ToolRecord Disk inboxIds inboxText clean)
open Pod (PodProcessConfig SendMessageArgs Line effectMessage argsDigest)
open Wire (Json Frame)

abbrev Call := Factory.Call ⊕ Pod.Call

abbrev Call.Ret : Call → Type := Sum.elim Factory.Call.Ret Pod.Call.Ret

abbrev Io (α : Type) := Prog Call Call.Ret String α

inductive Command
  | apply (m : Manifest)
  | status
  | destroy
  | send (m : MessageEnvelope)
  | pod (cfg : PodProcessConfig) (fuel : ℕ)

section

variable (fingerprint : PodManifest → Except String String) (digest : String → String)

def Command.program : Command → Io Unit
  | .apply m => (do let _ ← Factory.apply fingerprint m).inl
  | .status => Factory.commandStatus.inl
  | .destroy => Factory.commandDestroy.inl
  | .send m => (Pod.store (Store.commandSend m)).inr
  | .pod cfg fuel => (Pod.commandPodProcess digest cfg fuel).inr

end

/-! ### The site -/

/-- The state directory, and what the workers have written so far. -/
structure Site where
  disk : Disk
  received : List Frame := []

/-- A write that may take effect and still come back with an error. -/
def Wrote {ε : Type} (s t : Site) (d : Disk) (r : Except ε Unit) : Prop :=
  t = { s with disk := d } ∨ (r ≠ .ok () ∧ t = s)

/-- A record linked into place, unless one is there. -/
def Linked {ε : Type} (s t : Site) (d : Disk) (there : Bool) (r : Except ε Unit) : Prop :=
  (there = false ∧ t = { s with disk := d }) ∨ (r ≠ .ok () ∧ t = s)

/-- A read: what is there, or an error. -/
def Read {ε α : Type} (s t : Site) (x : α) (r : Except ε α) : Prop :=
  t = s ∧ ∀ y, r = .ok y → y = x

def stepStore (s : Site) : (c : Store.Call) → c.Ret → Site → Prop
  | .readState, r, t => Read s t s.disk.state r
  | .readMessage id, r, t => Read s t (s.disk.messages id) r
  | .readInbox pod, r, t => Read s t (s.disk.inbox pod) r
  | .readProcessed pod id, r, t => Read s t (s.disk.processed pod id) r
  | .readTerminal id, r, t => Read s t (s.disk.terminals id) r
  | .readToolResult session id, r, t => Read s t (s.disk.toolResults session id) r
  | .writeState x, r, t => Wrote s t (s.disk.apply (.writeState x)) r
  | .writeMessage m, r, t => Wrote s t (s.disk.apply (.writeMessage m)) r
  | .writeInbox pod text, r, t => Wrote s t (s.disk.apply (.writeInbox pod text)) r
  | .writeProcessed pod id, r, t => Wrote s t (s.disk.apply (.writeProcessed pod id)) r
  | .linkTerminal id f, r, t =>
    Linked s t (s.disk.apply (.linkTerminal id f)) (s.disk.terminals id).isSome r
  | .linkToolResult session id x, r, t =>
    Linked s t (s.disk.apply (.linkToolResult session id x))
      (s.disk.toolResults session id).isSome r
  | .lock, _, t | .unlock, _, t | .ensureLayout, _, t | .append _, _, t => t = s

def stepWorker (s : Site) : (w : Pod.Worker) → w.Ret → Site → Prop
  | .receive, some (.frame f _), t => t = { s with received := f :: s.received }
  | .receive, _, t | .launch _, _, t | .exited, _, t | .send _, _, t | .ready _ _, _, t => t = s

def stepFactory (s : Site) : (c : Factory.Call) → c.Ret → Site → Prop
  | .readState, r, t => Read s t s.disk.state r
  | .writeState x, r, t => Wrote s t (s.disk.apply (.writeState x)) r
  | .lock, _, t | .readJournal, _, t | .append _, _, t | .identityAlive _, _, t
  | .preflight _ _, _, t | .session _, _, t | .writeConfig _ _ _ _, _, t | .spawn _ _ _, _, t
  | .handshake _ _, _, t | .startTime _, _, t | .stopGroup _, _, t => t = s

def env : Env Call Call.Ret Site where
  step s o r t :=
    match o, r with
    | .inl c, r => stepFactory s c r t
    | .inr (.inl w), r => stepWorker s w r t
    | .inr (.inr c), r => stepStore s c r t

/-! ### What a process knows -/

/-- What is so once and for all. -/
inductive Fact
  | terminal (id : String)
  | stored (m : MessageEnvelope)
  | listed (pod id : String)
  | result (session id : String) (r : ToolRecord)
  | received (f : Frame)

def Site.holds (s : Site) : Fact → Prop
  | .terminal id => s.disk.terminals id ≠ none
  | .stored m => s.disk.messages m.id = some m
  | .listed pod id => clean id = true → id ∈ inboxIds (s.disk.inbox pod)
  | .result session id r => s.disk.toolResults session id = some r
  | .received f => f ∈ s.received

inductive Role
  | apply | status | destroy | send | pod (i : SessionIdentity)
  deriving DecidableEq

/-- The process writes a state that it read without the lock. -/
def Role.bare : Role → Bool
  | .status | .destroy => true
  | .apply | .send | .pod _ => false

/-- What a process has in its hands. -/
structure Doing where
  role : Role
  locked : Bool := false
  /-- The state it read, until it writes one. -/
  seen : Option (Option FactoryState) := none
  /-- The inbox it read under the lock. -/
  inbox : Option (String × Option String) := none
  /-- A message it found no file for under the lock. -/
  absent : Option String := none
  /-- The last frame of its worker's. -/
  asked : Option Frame := none
  known : List Fact := []

namespace Doing

def learn (g : Doing) (facts : List Fact) : Doing := { g with known := facts ++ g.known }

/-- The lock is taken: what was read before it counts only for who writes it anyway. -/
def lock (g : Doing) : Doing :=
  { g with locked := true, seen := if g.role.bare then g.seen else none, inbox := none, absent := none }

def unlock (g : Doing) : Doing :=
  { g with locked := false, seen := none, inbox := none, absent := none }

def read (g : Doing) (s : Option FactoryState) : Doing :=
  if g.locked || g.role.bare then { g with seen := some s } else g

def wrote (g : Doing) : Doing := { g with seen := none }

end Doing

def noteStore (g : Doing) : (c : Store.Call) → c.Ret → Doing
  | .lock, .ok _ => g.lock
  | .unlock, _ => g.unlock
  | .readState, .ok s => g.read s
  | .writeState _, _ => g.wrote
  | .readMessage _, .ok (some m) => g.learn [.stored m]
  | .readMessage id, .ok none => if g.locked then { g with absent := some id } else g
  | .writeMessage m, .ok _ => { g.learn [.stored m] with absent := none }
  | .writeMessage _, .error _ => { g with absent := none }
  | .readInbox pod, .ok text =>
    let g := g.learn ((inboxIds text).map (.listed pod))
    if g.locked then { g with inbox := some (pod, text) } else g
  | .writeInbox pod text, .ok _ =>
    { g.learn ((inboxIds (some text)).map (.listed pod)) with inbox := none }
  | .writeInbox _ _, .error _ => { g with inbox := none }
  | .readTerminal id, .ok (some _) => g.learn [.terminal id]
  | .linkTerminal id _, .ok _ => g.learn [.terminal id]
  | .readToolResult session id, .ok (some r) => g.learn [.result session id r]
  | .linkToolResult session id r, .ok _ => g.learn [.result session id r]
  | _, _ => g

def noteWorker (g : Doing) : (w : Pod.Worker) → w.Ret → Doing
  | .receive, some (.frame f _) => { g.learn [.received f] with asked := some f }
  | _, _ => g

def noteFactory (g : Doing) : (c : Factory.Call) → c.Ret → Doing
  | .lock, .ok _ => g.lock
  | .readState, .ok s => g.read s
  | .writeState _, _ => g.wrote
  | _, _ => g

def note (g : Doing) (c : Call) (r : c.Ret) : Doing :=
  match c, r with
  | .inl c, r => noteFactory g c r
  | .inr (.inl w), r => noteWorker g w r
  | .inr (.inr c), r => noteStore g c r

/-! ### The system -/

def Command.role : Command → Role
  | .apply _ => .apply
  | .status => .status
  | .destroy => .destroy
  | .send _ => .send
  | .pod cfg _ => .pod cfg.identity

/-- The processes of a factory, of the commands that are let run. -/
def factory (fingerprint : PodManifest → Except String String) (digest : String → String)
    (runs : Command → Prop) : Threads Call Call.Ret String Unit Site Doing where
  env := env
  idle _ _ := False
  begins g p := ∃ c, runs c ∧ g = { role := c.role } ∧ p = c.program fingerprint digest
  note := note
  leaves _ := True

/-- The call takes the lock. -/
def takes : (c : Call) → c.Ret → Bool
  | .inl .lock, .ok _ => true
  | .inr (.inr .lock), .ok _ => true
  | _, _ => false

/-- The state a call writes. -/
def writes : Call → Option FactoryState
  | .inl (.writeState s) => some s
  | .inr (.inr (.writeState s)) => some s
  | _ => none

/-- The lock is given to one process at a time. It is free again when its holder gives it back,
or is gone. -/
def Exclusive : Threads.Condition Call Call.Ret Site Doing := fun _ ns i c r =>
  takes c r = true → ∀ j g, j ≠ i → ns j = some g → g.locked = false

/-! ### Where each call is made -/

/-- What a tool call asks to be sent. -/
def sendCall (f : Frame) : Option SendMessageArgs :=
  if (f.payload.get "name").bind Json.asStr = some "pod.send_message" then
    (Pod.sendMessageArgs ((f.payload.get "arguments").getD .null)).toOption
  else none

section

variable (digest : String → String)

/-- A message is a user's, or an effect a worker asked for. -/
def Asked (known : List Fact) (m : MessageEnvelope) : Prop :=
  m.effectId = none ∨ ∃ f a i d, Fact.received f ∈ known ∧ sendCall f = some a ∧ f.pod = i.pod ∧
    f.requestId = some d ∧ m = effectMessage digest i d a

/-- The effect a tool call asks for is in its inbox. -/
def Effected (known : List Fact) (f : Frame) : Prop :=
  ∀ a d, sendCall f = some a → f.requestId = some d → ∃ i : SessionIdentity, i.pod = f.pod ∧
    Fact.stored (effectMessage digest i d a) ∈ known ∧
    (clean (effectMessage digest i d a).id = true →
      Fact.listed a.destination (effectMessage digest i d a).id ∈ known)

/-- A state is written that follows the one that was read; a pod process is named by it. -/
def Follows (g : Doing) (s : FactoryState) : Prop :=
  ∃ x, g.seen = some x ∧ Factory.generationOf x ≤ s.generation ∧
    (g.locked = true ∨ g.role = .status) ∧
    ∀ i, g.role = .pod i → ∃ y, x = some y ∧ Store.current y i = true

def AllowedStore (g : Doing) : Store.Call → Prop
  | .writeState s => Follows g s
  | .writeProcessed pod id => g.locked = true ∧ .terminal id ∈ g.known ∧
      ∃ i s, g.role = .pod i ∧ i.pod = pod ∧ g.seen = some (some s) ∧ Store.current s i = true
  | .writeMessage m => g.locked = true ∧ g.absent = some m.id ∧ Asked digest g.known m
  | .writeInbox pod text => g.locked = true ∧
      ∃ old id, g.inbox = some (pod, old) ∧ text = inboxText (inboxIds old ++ [id])
  | .linkToolResult session id r => ∃ f, .received f ∈ g.known ∧ f.session = session ∧
      f.toolCallId = some id ∧ r.argsDigest = argsDigest digest f ∧ Effected digest g.known f
  | .lock | .unlock | .readState | .ensureLayout | .readMessage _ | .readInbox _
  | .readProcessed _ _ | .readTerminal _ | .linkTerminal _ _ | .readToolResult _ _ | .append _ =>
    True

/-- A tool result answers the last frame, and is on record. -/
def AllowedWorker (g : Doing) : Pod.Worker → Prop
  | .send f => f.kind = .toolResult → ∃ call id r, g.asked = some call ∧
      .received call ∈ g.known ∧ call.toolCallId = some id ∧ f.toolCallId = some id ∧
      f.requestId = call.requestId ∧ .result call.session id r ∈ g.known ∧
      r.argsDigest = argsDigest digest call
  | .launch _ | .exited | .receive | .ready _ _ => True

def AllowedFactory (g : Doing) : Factory.Call → Prop
  | .writeState s => Follows g s
  | .lock | .readJournal | .append _ | .readState | .identityAlive _ | .preflight _ _ | .session _
  | .writeConfig _ _ _ _ | .spawn _ _ _ | .handshake _ _ | .startTime _ | .stopGroup _ => True

def Allowed (g : Doing) : Call → Prop
  | .inl c => AllowedFactory g c
  | .inr (.inl w) => AllowedWorker digest g w
  | .inr (.inr c) => AllowedStore digest g c

end

/-! ### Played runs -/

/-- Answers where nothing fails: processes are found dead, a new one is number 7 in session `s2`,
and the worker's lines come from a script, by how many frames there were before. -/
def demoAnswer (script : ℕ → Option Line) (_ : ℕ) (s : Site) : (c : Call) → c.Ret
  | .inl .readState => Except.ok s.disk.state
  | .inl .readJournal => Except.ok []
  | .inl (.identityAlive _) => false
  | .inl (.session _) => "s2"
  | .inl (.spawn _ _ _) => Except.ok 7
  | .inl (.handshake _ _) => Factory.Handshake.ready
  | .inl (.startTime _) => some 1
  | .inl .lock | .inl (.append _) | .inl (.writeState _) | .inl (.preflight _ _)
  | .inl (.writeConfig _ _ _ _) | .inl (.stopGroup _) => Except.ok ()
  | .inr (.inl .receive) => script s.received.length
  | .inr (.inl .exited) => false
  | .inr (.inl (.launch _)) | .inr (.inl (.send _)) | .inr (.inl (.ready _ _)) => Except.ok ()
  | .inr (.inr c) => s.disk.answer c

def demoNext (s : Site) : (c : Call) → c.Ret → Site
  | .inl (.writeState x), _ => { s with disk := s.disk.apply (.writeState x) }
  | .inr (.inl .receive), some (.frame f _) => { s with received := f :: s.received }
  | .inr (.inr c), x => { s with disk := s.disk.next c x }
  | _, _ => s

lemma env_demo (script : ℕ → Option Line) (i : ℕ) (s : Site) (o : Call) :
    env.step s o (demoAnswer script i s o) (demoNext s o (demoAnswer script i s o)) := by
  rcases o with c | w | c
  · cases c with
    | readState => exact ⟨rfl, fun y hy => (Except.ok.inj hy).symm⟩
    | writeState x => exact .inl rfl
    | _ => rfl
  · cases w with
    | receive =>
        change stepWorker s .receive (script s.received.length)
          (demoNext s (.inr (.inl .receive)) (script s.received.length))
        match script s.received.length with
        | none => rfl
        | some .other => rfl
        | some (.frame f _) => rfl
    | _ => rfl
  · cases c with
    | readState | readMessage | readInbox | readProcessed | readTerminal | readToolResult =>
        exact ⟨rfl, fun y hy => (Except.ok.inj hy).symm⟩
    | writeState | writeMessage | writeInbox | writeProcessed => exact .inl rfl
    | linkTerminal id f =>
        cases h : s.disk.terminals id with
        | none =>
            refine .inl ⟨by simp [h], ?_⟩
            simp [demoAnswer, demoNext, Disk.answer, Disk.next, Disk.wrote, h]
        | some x =>
            refine .inr ⟨?_, ?_⟩ <;>
              simp [demoAnswer, demoNext, Disk.answer, Disk.next, Disk.wrote, h]
    | linkToolResult session id x =>
        cases h : s.disk.toolResults session id with
        | none =>
            refine .inl ⟨by simp [h], ?_⟩
            simp [demoAnswer, demoNext, Disk.answer, Disk.next, Disk.wrote, h]
        | some x =>
            refine .inr ⟨?_, ?_⟩ <;>
              simp [demoAnswer, demoNext, Disk.answer, Disk.next, Disk.wrote, h]
    | lock | unlock | ensureLayout | append => rfl

/-- The commands of a list, played by a schedule of turns. -/
def demo (fingerprint : PodManifest → Except String String) (digest : String → String)
    (script : ℕ → Option Line) (ok : Threads.Config Call Call.Ret String Unit Site Doing → ℕ →
      Call → Bool) (s : Site) (cs : List Command) (l : List ℕ) :
    Option (Threads.Config Call Call.Ret String Unit Site Doing) :=
  Threads.play demoNext note (demoAnswer script) (fun (_ : Empty) _ => none) ok (l.map .inl)
    (Threads.begun s (cs.map fun c => ({ role := c.role }, c.program fingerprint digest)))

lemma run_demo {fingerprint : PodManifest → Except String String} {digest : String → String}
    {script : ℕ → Option Line} {runs : Command → Prop}
    {ok : Threads.Config Call Call.Ret String Unit Site Doing → ℕ → Call → Bool}
    {M : Threads.Condition Call Call.Ret Site Doing} {s : Site} {cs : List Command} {l : List ℕ}
    {c : Threads.Config Call Call.Ret String Unit Site Doing} (hcs : ∀ x ∈ cs, runs x)
    (hok : ∀ (c : Threads.Config Call Call.Ret String Unit Site Doing) i o,
      (∀ j, cs.length ≤ j → c.threads j = none) → ok c i o = true →
      M c.shared c.notes i o (demoAnswer script i c.shared o))
    (h : demo fingerprint digest script ok s cs l = some c) :
    Threads.Run (factory fingerprint digest runs) M (.empty s) c := by
  refine Threads.run_begun_play (T := factory fingerprint digest runs) ?_ ?_ ?_ ?_ h
  · intro x hx
    obtain ⟨y, hy, rfl⟩ := List.mem_map.mp hx
    exact ⟨y, hcs y hy, rfl, rfl⟩
  · exact fun c i o _ => env_demo script i c.shared o
  · exact fun x => x.elim
  · exact fun c i o _ hn => hok c i o (by simpa using hn)

/-- A schedule of turns, played on. -/
def resume (script : ℕ → Option Line) (ok : Threads.Config Call Call.Ret String Unit Site Doing →
    ℕ → Call → Bool) (l : List ℕ) (c : Threads.Config Call Call.Ret String Unit Site Doing) :
    Option (Threads.Config Call Call.Ret String Unit Site Doing) :=
  Threads.play demoNext note (demoAnswer script) (fun (_ : Empty) _ => none) ok (l.map .inl) c

lemma threads_demo {fingerprint : PodManifest → Except String String} {digest : String → String}
    {script : ℕ → Option Line}
    {ok : Threads.Config Call Call.Ret String Unit Site Doing → ℕ → Call → Bool} {s : Site}
    {cs : List Command} {l : List ℕ} {c : Threads.Config Call Call.Ret String Unit Site Doing}
    (h : demo fingerprint digest script ok s cs l = some c) :
    ∀ j, cs.length ≤ j → c.threads j = none := by
  refine Threads.threads_play _ (fun j hj => ?_) h
  exact List.getElem?_eq_none (by simpa using hj)

lemma run_resume {fingerprint : PodManifest → Except String String} {digest : String → String}
    {script : ℕ → Option Line} {runs : Command → Prop}
    {ok : Threads.Config Call Call.Ret String Unit Site Doing → ℕ → Call → Bool}
    {M : Threads.Condition Call Call.Ret Site Doing} {l : List ℕ} {n : ℕ}
    {c c' : Threads.Config Call Call.Ret String Unit Site Doing}
    (hn : ∀ j, n ≤ j → c.threads j = none)
    (hok : ∀ (c : Threads.Config Call Call.Ret String Unit Site Doing) i o,
      (∀ j, n ≤ j → c.threads j = none) → ok c i o = true →
      M c.shared c.notes i o (demoAnswer script i c.shared o))
    (h : resume script ok l c = some c') :
    Threads.Run (factory fingerprint digest runs) M c c' := by
  refine Threads.run_play (T := factory fingerprint digest runs) (n := n) ?_ ?_ ?_ .refl hn h
  · exact fun c i o _ => env_demo script i c.shared o
  · exact fun x => x.elim
  · exact fun c i o _ hn => hok c i o hn

/-- The call asks for the lock. -/
def locks : Call → Bool
  | .inl .lock | .inr (.inr .lock) => true
  | _ => false

/-- The lock is asked for when none of the first `n` others has it. -/
def exclusive (n : ℕ) (c : Threads.Config Call Call.Ret String Unit Site Doing) (i : ℕ)
    (o : Call) : Bool :=
  !locks o || (List.range n).all fun j => j == i || (c.notes j).all fun g => !g.locked

lemma locks_of_takes {o : Call} {r : o.Ret} (h : takes o r = true) : locks o = true := by
  rcases o with c | w | c
  · cases c <;> first | rfl | cases h
  · cases w <;> cases h
  · cases c <;> first | rfl | cases h

lemma exclusive_of {n : ℕ} {c : Threads.Config Call Call.Ret String Unit Site Doing} {i : ℕ}
    {o : Call} {r : o.Ret} (hn : ∀ j, n ≤ j → c.threads j = none) (h : exclusive n c i o = true) :
    Exclusive c.shared c.notes i o r := by
  intro ht j g hji hj
  have hjn : j < n := by
    by_contra hge
    simp [Threads.Config.notes, hn j (not_lt.mp hge)] at hj
  unfold exclusive at h
  rw [locks_of_takes ht, Bool.not_true, Bool.false_or, List.all_eq_true] at h
  have hg := h j (List.mem_range.mpr hjn)
  simpa [hji, hj] using hg

end Bimo.Runs
