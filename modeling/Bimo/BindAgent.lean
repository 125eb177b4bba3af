import Bimo.Threads
import Mathlib.Data.List.Basic

/-!
The agent in a guest that starts its runtime.

A start request looks whether a runtime is running, writes the state file, locks the egress and
hands the runtime to the supervisor, one step after the other, in a thread of its own. Only the
last of these steps is under a lock, and its answer, whether this start was the first, is not
looked at. An agent that is started again brings the runtime of the state file up before it
serves.

A restart ends a life of the agent: the threads of that life make no more calls, and what the
supervisor had in memory is gone. The state file, the claim and the ruleset stay.
-/

namespace Bimo.BindAgent

/-! ### What a runtime is started with -/

inductive Egress where
  | proxy (address : String) (port : ℕ)
  | upstream (denyCidrs : List String)
  deriving DecidableEq, Repr

structure Spec where
  program : String
  args : List String := []
  env : List (String × String) := []
  cwd : String
  port : ℕ
  egress : Egress
  requireEgressLock : Bool := true
  deriving DecidableEq, Repr

/-- The output policy of the runtime's user, as it is handed to `nft`. -/
def egressRuleset (uid port : ℕ) (egress : Egress) : String :=
  let head :=
    "table inet monolith_egress\n" ++
    "delete table inet monolith_egress\n" ++
    "table inet monolith_egress \x7b\n" ++
    "  chain output \x7b\n" ++
    "    type filter hook output priority 0; policy accept;\n" ++
    "    meta skuid != " ++ toString uid ++ " accept\n" ++
    "    ct state established,related accept\n"
  let body :=
    match egress with
    | .proxy address proxyPort =>
      "    oifname \"lo\" tcp dport " ++ toString port ++ " accept\n" ++
      "    ip daddr " ++ address ++ " tcp dport " ++ toString proxyPort ++ " accept\n" ++
      "    counter reject\n"
    | .upstream denyCidrs =>
      let deny := String.intercalate ", " denyCidrs
      "    oifname \"lo\" accept\n" ++
      "    udp dport 53 accept\n" ++
      "    tcp dport 53 accept\n" ++
      "    meta nfproto ipv6 counter reject\n" ++
      (if deny = "" then "" else "    ip daddr \x7b " ++ deny ++ " \x7d counter reject\n") ++
      "    accept\n"
  head ++ body ++ "  \x7d\n\x7d\n"

def rulesetOf (uid : ℕ) (x : Spec) : String := egressRuleset uid x.port x.egress

/-! ### The guest -/

/-- What the state file holds: a spec, or what a write that was cut short or ran into another
has left. -/
inductive Content where
  | empty
  | holds (x : Spec)
  | garbled
  deriving DecidableEq, Repr

/-- The guest, with what the agent of this life has in memory. -/
structure Agent where
  life : ℕ := 0
  /-- The agent of this life has its port. -/
  booted : Bool := false
  serving : Bool := false
  claimed : Bool := false
  /-- The state file, by its inode. -/
  file : Option (ℕ × Content) := none
  /-- The first inode that no file had. -/
  inodes : ℕ := 0
  /-- The ruleset installed last. -/
  rules : Option String := none
  /-- What the supervisor runs. -/
  spec : Option Spec := none
  /-- A start was answered 200. -/
  answered : Bool := false
  deriving DecidableEq

/-- Why a start request is turned away before the running check. -/
inductive Refusal where
  | unauthorized
  | noBody
  | notJson
  | invalid (error : String)
  deriving DecidableEq, Repr

def Refusal.code : Refusal → ℕ
  | .unauthorized => 401
  | _ => 400

def Refusal.text : Refusal → String
  | .unauthorized => "unauthorized"
  | .noBody => "a JSON body up to 64 KiB is required"
  | .notJson => "body is not JSON"
  | .invalid error => error

/-- What the supervisor says of itself. What it says of the process is left out. -/
structure Status where
  port : Option ℕ
  egress : Option Egress
  deriving DecidableEq, Repr

inductive Body where
  | error (text : String)
  | status (x : Status)
  deriving DecidableEq, Repr

inductive Op where
  | boot
  | loadState
  | loadClaim
  | serve
  /-- A start request with its authorization and its body, checked. -/
  | received
  | running
  | openState
  /-- The write through an open file, and its close. -/
  | writeState (fd : ℕ) (x : Spec)
  | lockEgress (x : Spec)
  /-- The section of `Supervisor.start`, and the start of its thread. -/
  | supervise (x : Spec)
  | unlinkState
  | status
  | reply (code : ℕ) (body : Body)
  | noteExit (text : String)
  deriving DecidableEq, Repr

def Op.Ret : Op → Type
  | .boot => Except String Unit
  | .loadState => Option Spec
  | .loadClaim => Bool
  | .serve => Unit
  | .received => Except Refusal Spec
  | .running => Bool
  | .openState => Except String ℕ
  | .writeState _ _ => Except String Unit
  | .lockEgress _ => Except String Unit
  | .supervise _ => Except String Bool
  | .unlinkState => Except String Unit
  | .status => Status
  | .reply _ _ => Unit
  | .noteExit _ => Unit

/-- A call of a thread of the agent, with the life the agent had when the thread was started. -/
structure Call where
  life : ℕ
  op : Op
  deriving DecidableEq

def Call.Ret (c : Call) : Type := c.op.Ret

/-- A state file opened for writing: emptied, or made. -/
def opened (s : Agent) : ℕ × Agent :=
  match s.file with
  | some (fd, _) => (fd, { s with file := some (fd, .empty) })
  | none => (s.inodes, { s with file := some (s.inodes, .empty), inodes := s.inodes + 1 })

/-- What a write through an open file makes of the state file. A file that is not the one that
was opened stays, and so does what is longer than the record. -/
inductive Writes (fd : ℕ) (x : Spec) : Option (ℕ × Content) → Option (ℕ × Content) → Prop
  | other {file : Option (ℕ × Content)} (h : ∀ c, file ≠ some (fd, c)) : Writes fd x file file
  | whole (c : Content) : Writes fd x (some (fd, c)) (some (fd, .holds x))
  | overrun {c : Content} (h : c ≠ .empty) : Writes fd x (some (fd, c)) (some (fd, .garbled))

/-- What a write that fails makes of it. -/
inductive Spoils (fd : ℕ) (file : Option (ℕ × Content)) : Option (ℕ × Content) → Prop
  | same : Spoils fd file file
  | garbled {c : Content} (h : file = some (fd, c)) : Spoils fd file (some (fd, .garbled))

/-- What can be read of a state file. A file that cannot be read or parsed is none. -/
def Reads : Option (ℕ × Content) → Option Spec → Prop
  | some (_, .holds x), r => r = some x ∨ r = none
  | some (_, .garbled), _ => True
  | _, r => r = none

def statusOf (s : Agent) : Status := ⟨s.spec.map (·.port), s.spec.map (·.egress)⟩

/-- A call in the agent's own life. -/
def stepOp (uid : ℕ) (s : Agent) : (o : Op) → o.Ret → Agent → Prop
  | .boot, .ok _, t => s.booted = false ∧ t = { s with booted := true }
  | .boot, .error _, t => t = s
  | .loadState, r, t => Reads s.file r ∧ t = s
  | .loadClaim, r, t => (r = true → s.claimed = true) ∧ t = s
  | .serve, _, t => t = { s with serving := true }
  | .received, .ok _, t => s.serving = true ∧ s.claimed = true ∧ t = s
  | .received, .error _, t => s.serving = true ∧ t = s
  | .running, r, t => r = s.spec.isSome ∧ t = s
  | .openState, .ok fd, t => (fd, t) = opened s
  | .openState, .error _, t => t = s
  | .writeState fd x, .ok _, t => ∃ file, Writes fd x s.file file ∧ t = { s with file := file }
  | .writeState fd _, .error _, t => ∃ file, Spoils fd s.file file ∧ t = { s with file := file }
  | .lockEgress x, .ok _, t => t = { s with rules := some (rulesetOf uid x) }
  | .lockEgress x, .error _, t => t = s ∨ t = { s with rules := some (rulesetOf uid x) }
  | .supervise x, .ok true, t => s.spec = none ∧ t = { s with spec := some x }
  | .supervise _, .ok false, t => s.spec ≠ none ∧ t = s
  -- the spec is set when its thread cannot be started
  | .supervise x, .error _, t => s.spec = none ∧ t = { s with spec := some x }
  | .unlinkState, .ok _, t => t = { s with file := none }
  | .unlinkState, .error _, t => t = s
  | .status, r, t => r = statusOf s ∧ t = s
  | .reply code _, _, t => t = if code = 200 then { s with answered := true } else s
  | .noteExit _, _, t => t = s

/-- A thread of an earlier life makes no more calls. -/
def step (uid : ℕ) (s : Agent) (c : Call) (r : c.Ret) (t : Agent) : Prop :=
  c.life = s.life ∧ stepOp uid s c.op r t

/-- What happens to the guest besides: the agent is restarted, and the guest is claimed. -/
inductive Moves (s : Agent) : Agent → Prop
  | restart : Moves s
      { s with life := s.life + 1, booted := false, serving := false, spec := none }
  | bind : Moves s { s with claimed := true }

/-! ### The agent -/

abbrev Io := Prog Call Call.Ret String

def ask (life : ℕ) (o : Op) : Io o.Ret := Prog.call ⟨life, o⟩ Prog.ret

/-- Locks the egress and starts supervising. -/
def runRuntime (life : ℕ) (x : Spec) : Io Bool := do
  match ← ask life (.lockEgress x) with
  | .ok _ => pure ()
  | .error error =>
    if x.requireEgressLock then
      Prog.fail ("could not lock the runtime's egress: " ++ error)
  Prog.ofExcept (← ask life (.supervise x))

/-- A request to start the runtime. -/
def postStart (life : ℕ) : Io Unit := do
  match ← ask life .received with
  | .error refusal => ask life (.reply refusal.code (.error refusal.text))
  | .ok x =>
    let running : Bool ← ask life .running
    if running then
      ask life (.reply 409 (.error "a runtime is already running in this guest"))
    else
      match ← (do
        let fd ← Prog.ofExcept (← ask life .openState)
        Prog.ofExcept (← ask life (.writeState fd x))
        runRuntime life x : Io Bool).attempt with
      | .error error =>
        let _ ← ask life .unlinkState
        ask life (.reply 500 (.error error))
      | .ok _ =>
        let status ← ask life .status
        ask life (.reply 200 (.status status))

/-- After a restart of the agent, brings the runtime back up. -/
def resume (life : ℕ) : Io Unit := do
  match ← ask life .loadState with
  | none => pure ()
  | some x =>
    let claimed : Bool ← ask life .loadClaim
    if claimed then
      match ← (runRuntime life x).attempt with
      | .error error => ask life (.noteExit error)
      | .ok _ => pure ()

def main (life : ℕ) : Io Unit := do
  Prog.ofExcept (← ask life .boot)
  resume life
  ask life .serve

/-! ### What a thread is doing -/

inductive Phase where
  | idle
  | asked (x : Spec)
  | opening (x : Spec)
  | writing (x : Spec) (fd : ℕ)
  | locking (x : Spec)
  | starting (x : Spec)
  | done (x : Spec)
  | failing
  | booting
  | claiming (x : Spec)
  | relocking (x : Spec)
  | restarting (x : Spec)
  | risen

structure Doing where
  life : ℕ
  phase : Phase

/-- The phase a call leaves, with its answer. -/
def Phase.next : Phase → (o : Op) → o.Ret → Phase
  | .idle, .received, .ok x => .asked x
  | .asked _, .running, true => .idle
  | .asked x, .running, false => .opening x
  | .opening x, .openState, .ok fd => .writing x fd
  | .writing x _, .writeState _ _, .ok _ => .locking x
  | .opening _, .openState, .error _ | .writing _ _, .writeState _ _, .error _ => .failing
  | .locking x, .lockEgress _, .ok _ => .starting x
  | .locking x, .lockEgress _, .error _ => if x.requireEgressLock then .failing else .starting x
  | .starting x, .supervise _, .ok _ => .done x
  | .starting _, .supervise _, .error _ => .failing
  | .done x, .status, _ => .done x
  | .idle, .boot, .ok _ => .booting
  | .booting, .loadState, some x => .claiming x
  | .booting, .loadState, none => .risen
  | .claiming x, .loadClaim, true => .relocking x
  | .claiming _, .loadClaim, false => .risen
  | .relocking x, .lockEgress _, .ok _ => .restarting x
  | .relocking x, .lockEgress _, .error _ => if x.requireEgressLock then .risen else .restarting x
  | .restarting _, .supervise _, _ => .risen
  | .risen, .noteExit _, _ => .risen
  | _, _, _ => .idle

def note (g : Doing) (c : Call) (r : c.Ret) : Doing := ⟨c.life, g.phase.next c.op r⟩

/-- The agent, with any number of start requests in any life. -/
def system (uid : ℕ) : Threads Call Call.Ret String Unit Agent Doing where
  env := ⟨step uid⟩
  idle := Moves
  begins g p := ∃ life, g = ⟨life, .idle⟩ ∧ (p = postStart life ∨ p = main life)
  note := note
  leaves _ := True

/-- The thread is between its running check and its answer, or brings the runtime up. -/
def Phase.busy : Phase → Prop
  | .idle | .asked _ => False
  | _ => True

instance : DecidablePred Phase.busy
  | .idle | .asked _ => isFalse id
  | .opening _ | .writing _ _ | .locking _ | .starting _ | .done _ | .failing | .booting
  | .claiming _ | .relocking _ | .restarting _ | .risen => isTrue trivial

/-- No start passes the running check while another one of the same life has passed it and is not
through. A lock fails only for a spec that requires it and before any start was answered 200, and
from then on the claim and the state file are read. -/
def Apart : Threads.Condition Call Call.Ret Agent Doing := fun s ns i c r =>
  match c, r with
  | ⟨life, .running⟩, r => r = false → ∀ j g, j ≠ i → ns j = some g → g.phase.busy → g.life ≠ life
  | ⟨_, .lockEgress x⟩, .error _ => x.requireEgressLock = true ∧ s.answered = false
  | ⟨_, .loadState⟩, r => s.answered = true → ∀ fd x, s.file = some (fd, .holds x) → r = some x
  | ⟨_, .loadClaim⟩, r => s.answered = true → r = true
  | _, _ => True

/-! ### What is kept -/

/-- The ruleset and the state file are the spec's. -/
def Installed (uid : ℕ) (s : Agent) (x : Spec) : Prop :=
  s.rules = some (rulesetOf uid x) ∧ ∃ fd, s.file = some (fd, .holds x)

/-- The three agree, once a start was answered 200. Only a life that does not serve yet may still
have nothing to run. -/
structure Agrees (uid : ℕ) (s : Agent) : Prop where
  booted : s.serving = true → s.booted = true
  fresh : s.booted = false → s.spec = none
  same : s.answered = true → ∃ x, Installed uid s x ∧
    (s.spec = some x ∨ (s.spec = none ∧ s.serving = false))

/-- No start of the agent's life was answered 200, and none has reached the supervisor. -/
structure Free (s : Agent) : Prop where
  serving : s.serving = true
  answered : s.answered = false
  spec : s.spec = none

/-- The agent has its port and does not serve. -/
structure Rising (s : Agent) : Prop where
  booted : s.booted = true
  serving : s.serving = false

/-- What a thread of the agent's life has come to. -/
def Reached (uid : ℕ) (s : Agent) : Phase → Prop
  | .idle => True
  | .asked _ => s.serving = true
  | .opening _ => Free s
  | .writing _ fd => Free s ∧ s.file = some (fd, .empty)
  | .locking x => Free s ∧ ∃ fd, s.file = some (fd, .holds x)
  | .starting x => Free s ∧ Installed uid s x
  | .done x => s.serving = true ∧ Installed uid s x ∧ s.spec = some x
  | .failing => s.serving = true ∧ s.answered = false
  | .booting => Rising s ∧ s.spec = none
  | .claiming x | .relocking x =>
    Rising s ∧ s.spec = none ∧ (s.answered = true → ∃ fd, s.file = some (fd, .holds x))
  | .restarting x => Rising s ∧ s.spec = none ∧ (s.answered = true → Installed uid s x)
  | .risen => Rising s ∧ (s.answered = true → s.spec ≠ none)

/-- The calls that are made in a phase. -/
def allowed : Phase → Op → Prop
  | .idle, .received | .idle, .boot => True
  | .idle, .reply code _ => code ≠ 200
  | .asked _, .running | .opening _, .openState => True
  | .writing x fd, o => o = .writeState fd x
  | .locking x, o | .relocking x, o => o = .lockEgress x
  | .starting x, o | .restarting x, o => o = .supervise x
  | .done _, .status | .done _, .reply _ _ => True
  | .failing, .unlinkState => True
  | .booting, .loadState | .claiming _, .loadClaim => True
  | .risen, .noteExit _ | .risen, .serve => True
  | _, _ => False

def pre (g : Doing) (c : Call) : Prop := c.life = g.life ∧ allowed g.phase c.op

/-! ### One call -/

variable {uid : ℕ} {s t : Agent}

lemma not_answered_of_free (h : Agrees uid s) (hserving : s.serving = true)
    (hspec : s.spec = none) : s.answered = false := by
  by_contra hanswered
  obtain ⟨x, -, hx | ⟨-, hx⟩⟩ := h.same (Bool.not_eq_false _ ▸ hanswered)
  · rw [hspec] at hx
    cases hx
  · rw [hserving] at hx
    cases hx

/-- What is not answered yet has nothing to agree on. -/
lemma agrees_of_booted (hbooted : s.booted = true) (h : s.answered = false) : Agrees uid s := by
  refine ⟨fun _ => hbooted, fun h' => ?_, fun h' => ?_⟩
  · rw [hbooted] at h'
    cases h'
  · rw [h] at h'
    cases h'

lemma writes_empty {fd : ℕ} {x : Spec} {file : Option (ℕ × Content)}
    (h : Writes fd x (some (fd, .empty)) file) : file = some (fd, .holds x) := by
  cases h with
  | other h => exact absurd rfl (h _)
  | whole => rfl
  | overrun h => exact absurd rfl h

lemma opened_eq (s : Agent) : ∃ fd inodes, opened s =
    (fd, { s with file := some (fd, .empty), inodes := inodes }) := by
  unfold opened
  split
  · exact ⟨_, _, rfl⟩
  · exact ⟨_, _, rfl⟩

/-- An agent that serves goes on serving. -/
lemma serving_step {o : Op} {r : o.Ret} (h : stepOp uid s o r t) (hs : s.serving = true) :
    t.serving = true := by
  cases o with
  | boot =>
    cases r with
    | ok _ => exact h.2 ▸ hs
    | error _ => exact h ▸ hs
  | loadState | loadClaim | running | status => exact h.2 ▸ hs
  | serve => exact h ▸ rfl
  | received =>
    cases r with
    | ok _ => exact h.2.2 ▸ hs
    | error _ => exact h.2 ▸ hs
  | openState =>
    cases r with
    | ok fd =>
      obtain ⟨fd', inodes, hopened⟩ := opened_eq s
      obtain ⟨-, rfl⟩ := Prod.mk.inj (h.trans hopened)
      exact hs
    | error _ => exact h ▸ hs
  | writeState fd x =>
    cases r with
    | ok _ =>
      obtain ⟨file, -, rfl⟩ := h
      exact hs
    | error _ =>
      obtain ⟨file, -, rfl⟩ := h
      exact hs
  | lockEgress x =>
    cases r with
    | ok _ => exact h ▸ hs
    | error _ =>
      obtain rfl | rfl := h
      · exact hs
      · exact hs
  | supervise x =>
    cases r with
    | ok won =>
      cases won with
      | true => exact h.2 ▸ hs
      | false => exact h.2 ▸ hs
    | error _ => exact h.2 ▸ hs
  | unlinkState =>
    cases r with
    | ok _ => exact h ▸ hs
    | error _ => exact h ▸ hs
  | reply code body =>
    obtain rfl := h
    split_ifs <;> exact hs
  | noteExit text => exact h ▸ hs

/-- A call has taken the agent, in the same life, to where the phase says. -/
def Comes (uid : ℕ) (s t : Agent) (p : Phase) : Prop :=
  t.life = s.life ∧ Agrees uid t ∧ Reached uid t p

section Calls

variable {ns : ℕ → Option Doing} {i life : ℕ} {x : Spec}

lemma comes_idle {o : Op} {r : o.Ret} (hA : Agrees uid s) (hpre : allowed .idle o)
    (hstep : stepOp uid s o r t) : Comes uid s t (Phase.idle.next o r) := by
  cases o <;> try exact hpre.elim
  case boot =>
    cases r with
    | error e =>
      obtain rfl := hstep
      exact ⟨rfl, hA, trivial⟩
    | ok u =>
      obtain ⟨hbooted, rfl⟩ := hstep
      have hspec := hA.fresh hbooted
      have hserving : s.serving = false := by
        by_contra h
        rw [hA.booted (Bool.not_eq_false _ ▸ h)] at hbooted
        cases hbooted
      exact ⟨rfl, ⟨fun _ => rfl, fun _ => hspec, hA.same⟩, ⟨rfl, hserving⟩, hspec⟩
  case received =>
    cases r with
    | error e =>
      obtain ⟨-, rfl⟩ := hstep
      exact ⟨rfl, hA, trivial⟩
    | ok x =>
      obtain ⟨hserving, -, rfl⟩ := hstep
      exact ⟨rfl, hA, hserving⟩
  case reply code body =>
    obtain rfl := hstep
    rw [if_neg hpre]
    exact ⟨rfl, hA, trivial⟩

lemma comes_asked {o : Op} {r : o.Ret} (hA : Agrees uid s) (hR : s.serving = true)
    (hpre : allowed (.asked x) o) (hstep : stepOp uid s o r t) :
    Comes uid s t ((Phase.asked x).next o r) := by
  cases o <;> try exact hpre.elim
  case running =>
    obtain ⟨hr, rfl⟩ := hstep
    cases r with
    | true => exact ⟨rfl, hA, trivial⟩
    | false =>
      have hspec : t.spec = none := Option.not_isSome_iff_eq_none.mp (by rw [← hr]; decide)
      exact ⟨rfl, hA, hR, not_answered_of_free hA hR hspec, hspec⟩

lemma comes_opening {o : Op} {r : o.Ret} (hA : Agrees uid s) (hR : Free s)
    (hpre : allowed (.opening x) o) (hstep : stepOp uid s o r t) :
    Comes uid s t ((Phase.opening x).next o r) := by
  cases o <;> try exact hpre.elim
  case openState =>
    cases r with
    | error e =>
      obtain rfl := hstep
      exact ⟨rfl, hA, hR.serving, hR.answered⟩
    | ok fd =>
      obtain ⟨fd', inodes, hopened⟩ := opened_eq s
      obtain ⟨rfl, rfl⟩ := Prod.mk.inj (hstep.trans hopened)
      exact ⟨rfl, agrees_of_booted (hA.booted hR.serving) hR.answered,
        ⟨hR.serving, hR.answered, hR.spec⟩, rfl⟩

lemma comes_writing {fd : ℕ} {r : (Op.writeState fd x).Ret} (hA : Agrees uid s) (hR : Free s)
    (hfile : s.file = some (fd, .empty)) (hstep : stepOp uid s (.writeState fd x) r t) :
    Comes uid s t ((Phase.writing x fd).next (.writeState fd x) r) := by
  have hbooted := hA.booted hR.serving
  cases r with
  | error e =>
    obtain ⟨file, -, rfl⟩ := hstep
    exact ⟨rfl, agrees_of_booted hbooted hR.answered, hR.serving, hR.answered⟩
  | ok u =>
    obtain ⟨file, hwrites, rfl⟩ := hstep
    rw [hfile] at hwrites
    obtain rfl := writes_empty hwrites
    exact ⟨rfl, agrees_of_booted hbooted hR.answered, ⟨hR.serving, hR.answered, hR.spec⟩, fd, rfl⟩

lemma comes_locking {r : (Op.lockEgress x).Ret} (hA : Agrees uid s) (hR : Free s)
    (hfile : ∃ fd, s.file = some (fd, .holds x)) (hstep : stepOp uid s (.lockEgress x) r t)
    (hM : Apart s ns i ⟨life, .lockEgress x⟩ r) :
    Comes uid s t ((Phase.locking x).next (.lockEgress x) r) := by
  have hbooted := hA.booted hR.serving
  cases r with
  | error e =>
    have hnext : (Phase.locking x).next (.lockEgress x) (.error e) = .failing := if_pos hM.1
    rw [hnext]
    obtain rfl | rfl := hstep
    · exact ⟨rfl, hA, hR.serving, hR.answered⟩
    · exact ⟨rfl, agrees_of_booted hbooted hR.answered, hR.serving, hR.answered⟩
  | ok u =>
    obtain rfl := hstep
    exact ⟨rfl, agrees_of_booted hbooted hR.answered, ⟨hR.serving, hR.answered, hR.spec⟩, rfl,
      hfile⟩

lemma comes_starting {r : (Op.supervise x).Ret} (hA : Agrees uid s) (hR : Free s)
    (hx : Installed uid s x) (hstep : stepOp uid s (.supervise x) r t) :
    Comes uid s t ((Phase.starting x).next (.supervise x) r) := by
  have hbooted := hA.booted hR.serving
  cases r with
  | error e =>
    obtain ⟨-, rfl⟩ := hstep
    exact ⟨rfl, agrees_of_booted hbooted hR.answered, hR.serving, hR.answered⟩
  | ok won =>
    cases won with
    | false => exact absurd hR.spec hstep.1
    | true =>
      obtain ⟨-, rfl⟩ := hstep
      exact ⟨rfl, agrees_of_booted hbooted hR.answered, hR.serving, hx, rfl⟩

lemma comes_done {o : Op} {r : o.Ret} (hA : Agrees uid s) (hR : Reached uid s (.done x))
    (hpre : allowed (.done x) o) (hstep : stepOp uid s o r t) :
    Comes uid s t ((Phase.done x).next o r) := by
  obtain ⟨hserving, hinstalled, hspec⟩ := hR
  cases o <;> try exact hpre.elim
  case status =>
    obtain ⟨-, rfl⟩ := hstep
    exact ⟨rfl, hA, hserving, hinstalled, hspec⟩
  case reply code body =>
    obtain rfl := hstep
    split_ifs
    · exact ⟨rfl, ⟨hA.booted, hA.fresh, fun _ => ⟨x, hinstalled, .inl hspec⟩⟩, trivial⟩
    · exact ⟨rfl, hA, trivial⟩

lemma comes_failing {o : Op} {r : o.Ret} (hA : Agrees uid s) (hR : Reached uid s .failing)
    (hpre : allowed .failing o) (hstep : stepOp uid s o r t) :
    Comes uid s t (Phase.failing.next o r) := by
  obtain ⟨hserving, hanswered⟩ := hR
  cases o <;> try exact hpre.elim
  case unlinkState =>
    cases r with
    | error e =>
      obtain rfl := hstep
      exact ⟨rfl, hA, trivial⟩
    | ok u =>
      obtain rfl := hstep
      exact ⟨rfl, agrees_of_booted (hA.booted hserving) hanswered, trivial⟩

lemma comes_booting {o : Op} {r : o.Ret} (hA : Agrees uid s) (hR : Rising s)
    (hspec : s.spec = none) (hpre : allowed .booting o) (hstep : stepOp uid s o r t)
    (hM : Apart s ns i ⟨life, o⟩ r) : Comes uid s t (Phase.booting.next o r) := by
  cases o <;> try exact hpre.elim
  case loadState =>
    obtain ⟨-, rfl⟩ := hstep
    have hread : t.answered = true → ∃ x fd, t.file = some (fd, .holds x) ∧ r = some x := by
      intro hanswered
      obtain ⟨x, ⟨-, fd, hfile⟩, -⟩ := hA.same hanswered
      exact ⟨x, fd, hfile, hM hanswered fd x hfile⟩
    cases r with
    | none =>
      refine ⟨rfl, hA, hR, fun hanswered => ?_⟩
      obtain ⟨x, fd, -, hx⟩ := hread hanswered
      cases hx
    | some y =>
      refine ⟨rfl, hA, hR, hspec, fun hanswered => ?_⟩
      obtain ⟨x, fd, hfile, hx⟩ := hread hanswered
      obtain rfl := Option.some.inj hx
      exact ⟨fd, hfile⟩

lemma comes_claiming {o : Op} {r : o.Ret} (hA : Agrees uid s)
    (hR : Reached uid s (.claiming x)) (hpre : allowed (.claiming x) o)
    (hstep : stepOp uid s o r t) (hM : Apart s ns i ⟨life, o⟩ r) :
    Comes uid s t ((Phase.claiming x).next o r) := by
  cases o <;> try exact hpre.elim
  case loadClaim =>
    obtain ⟨-, rfl⟩ := hstep
    cases r with
    | true => exact ⟨rfl, hA, hR⟩
    | false => exact ⟨rfl, hA, hR.1, fun hanswered => nomatch hM hanswered⟩

lemma comes_relocking {r : (Op.lockEgress x).Ret} (hA : Agrees uid s)
    (hR : Reached uid s (.relocking x)) (hstep : stepOp uid s (.lockEgress x) r t)
    (hM : Apart s ns i ⟨life, .lockEgress x⟩ r) :
    Comes uid s t ((Phase.relocking x).next (.lockEgress x) r) := by
  obtain ⟨hrising, hspec, hfile⟩ := hR
  cases r with
  | error e =>
    obtain ⟨hrequired, hanswered⟩ := hM
    have hnext : (Phase.relocking x).next (.lockEgress x) (.error e) = .risen := if_pos hrequired
    rw [hnext]
    have hno : s.answered = true → s.spec ≠ none := fun h => by
      rw [hanswered] at h
      cases h
    obtain rfl | rfl := hstep
    · exact ⟨rfl, hA, hrising, hno⟩
    · exact ⟨rfl, agrees_of_booted hrising.booted hanswered, ⟨hrising.booted, hrising.serving⟩, hno⟩
  | ok u =>
    obtain rfl := hstep
    have hinstalled : s.answered = true →
        Installed uid { s with rules := some (rulesetOf uid x) } x :=
      fun hanswered => ⟨rfl, hfile hanswered⟩
    exact ⟨rfl, ⟨hA.booted, hA.fresh, fun hanswered =>
      ⟨x, hinstalled hanswered, .inr ⟨hspec, hrising.serving⟩⟩⟩,
      ⟨hrising.booted, hrising.serving⟩, hspec, hinstalled⟩

lemma comes_restarting {r : (Op.supervise x).Ret} (hA : Agrees uid s)
    (hR : Reached uid s (.restarting x)) (hstep : stepOp uid s (.supervise x) r t) :
    Comes uid s t .risen := by
  obtain ⟨hrising, hspec, hinstalled⟩ := hR
  have hset : t = { s with spec := some x } := by
    cases r with
    | error e => exact hstep.2
    | ok won =>
      cases won with
      | false => exact absurd hspec hstep.1
      | true => exact hstep.2
  subst hset
  refine ⟨rfl, ⟨hA.booted, fun h => ?_, fun h => ⟨x, hinstalled h, .inl rfl⟩⟩,
    ⟨hrising.booted, hrising.serving⟩, fun _ => nofun⟩
  rw [hrising.booted] at h
  cases h

lemma comes_risen {o : Op} {r : o.Ret} (hA : Agrees uid s) (hR : Reached uid s .risen)
    (hpre : allowed .risen o) (hstep : stepOp uid s o r t) :
    Comes uid s t (Phase.risen.next o r) := by
  obtain ⟨hrising, hspec⟩ := hR
  cases o <;> try exact hpre.elim
  case noteExit text =>
    obtain rfl := hstep
    exact ⟨rfl, hA, hrising, hspec⟩
  case serve =>
    obtain rfl := hstep
    refine ⟨rfl, ⟨fun _ => hrising.booted, hA.fresh, fun hanswered => ?_⟩, trivial⟩
    obtain ⟨x, hx, hruns | ⟨hnone, -⟩⟩ := hA.same hanswered
    · exact ⟨x, hx, .inl hruns⟩
    · exact absurd hnone (hspec hanswered)

end Calls

/-- **One call.** In the thread's own life, the agent is where the thread's next phase says. -/
lemma comes_of_call {ns : ℕ → Option Doing} {i life : ℕ} {p : Phase} {o : Op} {r : o.Ret}
    (hA : Agrees uid s) (hR : Reached uid s p) (hpre : allowed p o) (hstep : stepOp uid s o r t)
    (hM : Apart s ns i ⟨life, o⟩ r) : Comes uid s t (p.next o r) := by
  cases p with
  | idle => exact comes_idle hA hpre hstep
  | asked x => exact comes_asked hA hR hpre hstep
  | opening x => exact comes_opening hA hR hpre hstep
  | writing x fd =>
    obtain rfl : o = _ := hpre
    exact comes_writing hA hR.1 hR.2 hstep
  | locking x =>
    obtain rfl : o = _ := hpre
    exact comes_locking hA hR.1 hR.2 hstep hM
  | starting x =>
    obtain rfl : o = _ := hpre
    exact comes_starting hA hR.1 hR.2 hstep
  | done x => exact comes_done hA hR hpre hstep
  | failing => exact comes_failing hA hR hpre hstep
  | booting => exact comes_booting hA hR.1 hR.2 hpre hstep hM
  | claiming x => exact comes_claiming hA hR hpre hstep hM
  | relocking x =>
    obtain rfl : o = _ := hpre
    exact comes_relocking hA hR hstep hM
  | restarting x =>
    obtain rfl : o = _ := hpre
    exact comes_restarting hA hR hstep
  | risen => exact comes_risen hA hR hpre hstep

/-! ### Every interleaving -/

/-- A thread of an earlier life is of no account, and one of this life has come as far as its
phase says. -/
def Stands (uid : ℕ) (s : Agent) (g : Doing) : Prop :=
  (g.phase = .idle ∨ g.life ≤ s.life) ∧ (g.life = s.life → Reached uid s g.phase)

/-- Two threads that are busy are of different lives. -/
def Parted (g g' : Doing) : Prop := g.phase.busy → g'.phase.busy → g.life ≠ g'.life

abbrev Invariant (uid : ℕ) : Agent → (ℕ → Option Doing) → Prop :=
  Threads.Each (Agrees uid) (Stands uid) Parted

lemma booted_of_busy {p : Phase} (hA : Agrees uid s) (hR : Reached uid s p) (hbusy : p.busy) :
    s.booted = true := by
  cases p with
  | idle | asked x => exact hbusy.elim
  | opening x => exact hA.booted hR.serving
  | writing x fd | locking x | starting x => exact hA.booted hR.1.serving
  | done x | failing => exact hA.booted hR.1
  | booting | claiming x | relocking x | restarting x | risen => exact hR.1.booted

lemma reached_bind {p : Phase} (h : Reached uid s p) :
    Reached uid { s with claimed := true } p := by
  cases p with
  | idle | asked x | done x | failing => exact h
  | opening x => exact ⟨h.serving, h.answered, h.spec⟩
  | writing x fd | locking x | starting x =>
    exact ⟨⟨h.1.serving, h.1.answered, h.1.spec⟩, h.2⟩
  | booting | claiming x | relocking x | restarting x | risen =>
    exact ⟨⟨h.1.booted, h.1.serving⟩, h.2⟩

section Interleaving

variable {ns : ℕ → Option Doing} {i : ℕ} {g : Doing} {o : Op} {r : o.Ret}

/-- A thread that is busy, or becomes so with this call, is the only one of its life. -/
lemma alone_of_busy (h : Invariant uid s ns) (hi : ns i = some g) (hnow : g.life = s.life)
    (hpre : allowed g.phase o) (hstep : stepOp uid s o r t)
    (hM : Apart s ns i ⟨g.life, o⟩ r) (hbusy : g.phase.busy ∨ (g.phase.next o r).busy) :
    ∀ j x, j ≠ i → ns j = some x → x.phase.busy → x.life ≠ g.life := by
  by_cases hp : g.phase.busy
  · exact fun j x hj hx hb => h.two j i x g hj hx hi hb hp
  replace hbusy := hbusy.resolve_left hp
  obtain ⟨life, p⟩ := g
  cases p <;> try exact absurd trivial hp
  case idle =>
    cases o <;> try exact hpre.elim
    case boot =>
      -- the port is not taken, and whoever is busy has taken it
      intro j x hj hx hb hlife
      have hbooted := booted_of_busy h.all ((h.one j x hx).2 (hlife.trans hnow)) hb
      cases r with
      | error e => exact hbusy
      | ok u =>
        rw [hstep.1] at hbooted
        cases hbooted
    case received => cases r <;> exact hbusy.elim
    case reply code body => exact hbusy.elim
  case asked x =>
    cases o <;> try exact hpre.elim
    case running =>
      cases r with
      | true => exact hbusy.elim
      | false => exact hM rfl

/-- A call that is not part of anything leaves the agent as it is. -/
lemma still_of_not_busy (hpre : allowed g.phase o) (hstep : stepOp uid s o r t)
    (hbusy : ¬(g.phase.busy ∨ (g.phase.next o r).busy)) : t = s := by
  obtain ⟨hp, hnext⟩ := not_or.mp hbusy
  obtain ⟨life, p⟩ := g
  cases p <;> try exact absurd trivial hp
  case idle =>
    cases o <;> try exact hpre.elim
    case boot =>
      cases r with
      | error e => exact hstep
      | ok u => exact absurd trivial hnext
    case received =>
      cases r with
      | error e => exact hstep.2
      | ok x => exact hstep.2.2
    case reply code body => exact hstep.trans (if_neg hpre)
  case asked x =>
    cases o <;> try exact hpre.elim
    case running => exact hstep.2

/-- What the call of a thread does to the others. -/
lemma others_of_call (h : Invariant uid s ns) (hi : ns i = some g) (hnow : g.life = s.life)
    (hpre : allowed g.phase o) (hstep : stepOp uid s o r t)
    (hM : Apart s ns i ⟨g.life, o⟩ r) (hsame : t.life = s.life) {j : ℕ} {x : Doing} (hj : j ≠ i)
    (hx : ns j = some x) (hstands : Stands uid s x) :
    Stands uid t x ∧ Parted x ⟨g.life, g.phase.next o r⟩ ∧
      Parted ⟨g.life, g.phase.next o r⟩ x := by
  have halone := fun hb => alone_of_busy h hi hnow hpre hstep hM hb j x hj hx
  refine ⟨⟨hsame ▸ hstands.1, fun hlife => ?_⟩, fun hb hb' => halone (.inr hb') hb,
    fun hb' hb => (halone (.inr hb') hb).symm⟩
  rw [hsame] at hlife
  have hreached := hstands.2 hlife
  by_cases hb : x.phase.busy
  · by_cases hbusy : g.phase.busy ∨ (g.phase.next o r).busy
    · exact absurd (hlife.trans hnow.symm) (halone hbusy hb)
    · rwa [still_of_not_busy hpre hstep hbusy]
  · obtain ⟨life, p⟩ := x
    cases p <;> try exact absurd trivial hb
    case idle => exact trivial
    case asked y => exact serving_step hstep hreached

end Interleaving

lemma keeps_invariant (uid : ℕ) :
    Threads.Keeps (system uid) Apart pre (fun _ => True) (Invariant uid) where
  start := by
    rintro s ns i g p - ⟨life, rfl, -⟩ h
    exact h.set h.all (fun j x _ hj hx => ⟨hx, fun _ hb => hb.elim, fun hb => hb.elim⟩)
      ⟨.inl rfl, fun _ => trivial⟩
  call := by
    rintro s ns i g ⟨life, o⟩ r t hi ⟨hlife, hpre⟩ ⟨hnow, hstep⟩ hM h
    obtain rfl : life = g.life := hlife
    replace hnow : g.life = s.life := hnow
    obtain ⟨hsame, hA, hreached⟩ := comes_of_call h.all ((h.one i g hi).2 hnow) hpre hstep hM
    refine h.set hA (fun j x hj hx hstands =>
      others_of_call h hi hnow hpre hstep hM hsame hj hx hstands) ⟨.inr ?_, fun _ => hreached⟩
    exact (hnow.trans hsame.symm).le
  leave := by
    intro s ns i g _ _ h
    exact h.drop i
  idle := by
    intro s ns t hmoves h
    cases hmoves with
    | restart =>
      refine h.move ⟨nofun, fun _ => rfl, fun hanswered => ?_⟩
        fun j x _ hx => ⟨hx.1.imp id Nat.le_succ_of_le, fun hlife => ?_⟩
      · obtain ⟨x, hx, -⟩ := h.all.same hanswered
        exact ⟨x, hx, .inr ⟨rfl, rfl⟩⟩
      · -- no thread has made a call in the life that begins
        obtain hidle | hle := hx.1
        · rw [hidle]
          exact trivial
        · rw [hlife] at hle
          exact absurd hle (Nat.not_succ_le_self _)
    | bind =>
      exact h.move ⟨h.all.booted, h.all.fresh, h.all.same⟩
        fun j x _ hx => ⟨hx.1, fun hlife => reached_bind (hx.2 hlife)⟩

/-! ### The programs -/

def anyAnswer (_ : Doing) (c : Call) (_ : c.Ret) : Prop := True

/-- Every call is one of the thread's life and of its phase. -/
abbrev Fine {α : Type} (p : Io α) (g : Doing) (Q : Except String α → Doing → Prop) : Prop :=
  Safe (.of anyAnswer note) pre p g Q

lemma fine_ask {α : Type} {life : ℕ} {p : Phase} {o : Op} {f : o.Ret → Io α}
    {Q : Except String α → Doing → Prop} (hpre : allowed p o)
    (hf : ∀ r, Fine (f r) ⟨life, p.next o r⟩ Q) : Fine (ask life o >>= f) ⟨life, p⟩ Q := by
  refine ⟨⟨rfl, hpre⟩, fun r g hg => ?_⟩
  obtain ⟨-, rfl⟩ := hg
  exact hf r

lemma fine_last {life : ℕ} {p : Phase} {o : Op} (hpre : allowed p o) :
    Fine (ask life o) ⟨life, p⟩ fun r g => r.isOk ∧ ∃ r, g = ⟨life, p.next o r⟩ :=
  ⟨⟨rfl, hpre⟩, fun r _ h => ⟨rfl, r, h.2⟩⟩

lemma fine_attempt {α β : Type} {p : Io α} {f : Except String α → Io β} {g : Doing}
    {R : Except String α → Doing → Prop} {Q : Except String β → Doing → Prop} (hp : Fine p g R)
    (hf : ∀ r g', R r g' → Fine (f r) g' Q) :
    Fine ((p.attempt : Io (Except String α)) >>= f) g Q :=
  (safe_bind _ _ _ _).mpr ((safe_attempt _ _ _).mpr (hp.mono hf))

/-- The lock and the start of the supervisor, from a phase that makes these two calls. -/
lemma fine_runRuntime {life : ℕ} {x : Spec} {p q d : Phase}
    {Q : Except String Bool → Doing → Prop} (hp : allowed p (.lockEgress x))
    (hok : ∀ u, p.next (.lockEgress x) (.ok u) = q)
    (herr : ∀ e, p.next (.lockEgress x) (.error e) = if x.requireEgressLock then d else q)
    (hq : allowed q (.supervise x)) (hQ : ∀ r, Q r ⟨life, q.next (.supervise x) r⟩)
    (hfailed : ∀ e, Q (.error e) ⟨life, d⟩) : Fine (runRuntime life x) ⟨life, p⟩ Q := by
  have hstart : Fine (ask life (.supervise x) >>= Prog.ofExcept) ⟨life, q⟩ Q :=
    fine_ask hq fun r => (safe_ofExcept r _ _).mpr (hQ r)
  refine fine_ask hp fun r => ?_
  cases r with
  | ok u =>
    rw [hok]
    exact hstart
  | error e =>
    rw [herr]
    by_cases hrequired : x.requireEgressLock = true
    · simp only [hrequired, if_true]
      exact hfailed _
    · simp only [if_neg hrequired]
      exact hstart

lemma fine_resume (life : ℕ) :
    Fine (resume life) ⟨life, .booting⟩ fun r g => r.isOk ∧ g = ⟨life, .risen⟩ := by
  refine fine_ask trivial fun r => ?_
  cases r with
  | none => exact ⟨rfl, rfl⟩
  | some x =>
    refine fine_ask (p := .claiming x) trivial fun r => ?_
    cases r with
    | false => exact ⟨rfl, rfl⟩
    | true =>
      have hrun : Fine (runRuntime life x) ⟨life, .relocking x⟩ fun _ g => g = ⟨life, .risen⟩ :=
        fine_runRuntime (q := .restarting x) (d := .risen) rfl (fun _ => rfl) (fun _ => rfl)
          rfl (fun _ => rfl) fun _ => rfl
      refine fine_attempt hrun ?_
      rintro r _ rfl
      cases r with
      | error e =>
        refine (fine_last (p := .risen) (o := .noteExit e) trivial).mono ?_
        rintro _ _ ⟨hr, _, rfl⟩
        exact ⟨hr, rfl⟩
      | ok won => exact ⟨rfl, rfl⟩

lemma fine_main (life : ℕ) : Fine (main life) ⟨life, .idle⟩ fun _ _ => True := by
  refine fine_ask trivial fun r => ?_
  cases r with
  | error e => exact trivial
  | ok u =>
    refine Safe.bind (p := resume life) (fine_resume life) ?_ ?_
    · rintro u _ ⟨-, rfl⟩
      exact (fine_last (p := .risen) (o := .serve) trivial).mono fun _ _ _ => trivial
    · rintro e g ⟨hok, -⟩
      cases hok

lemma fine_postStart (life : ℕ) : Fine (postStart life) ⟨life, .idle⟩ fun _ _ => True := by
  refine fine_ask trivial fun r => ?_
  cases r with
  | error refusal =>
    refine (fine_last (p := .idle) ?_).mono fun _ _ _ => trivial
    cases refusal <;> exact nofun
  | ok x =>
    refine fine_ask (p := .asked x) trivial fun r => ?_
    cases r with
    | true => exact (fine_last (p := .idle) (o := .reply 409 _) nofun).mono fun _ _ _ => trivial
    | false =>
      refine fine_attempt (R := fun r g => g = ⟨life, if r.isOk then .done x else .failing⟩) ?_ ?_
      · refine fine_ask (p := .opening x) trivial fun fd => ?_
        cases fd with
        | error e => exact rfl
        | ok fd =>
          refine fine_ask (p := .writing x fd) rfl fun written => ?_
          cases written with
          | error e => exact rfl
          | ok u =>
            refine fine_runRuntime (p := .locking x) (q := .starting x) (d := .failing) rfl
              (fun _ => rfl) (fun _ => rfl) rfl (fun r => ?_) fun _ => rfl
            cases r <;> rfl
      · rintro r _ rfl
        cases r with
        | error e =>
          exact fine_ask (p := .failing) trivial fun _ =>
            (fine_last (p := .idle) (o := .reply 500 _) nofun).mono fun _ _ _ => trivial
        | ok won =>
          exact fine_ask (p := .done x) trivial fun _ =>
            (fine_last (p := .done x) (o := .reply 200 _) trivial).mono fun _ _ _ => trivial

lemma agrees_empty (uid : ℕ) : Agrees uid {} := by
  refine ⟨fun h => ?_, fun _ => rfl, fun h => ?_⟩ <;> cases h

/-- **A bind agent's start is consistent.** In a run in which no start passes the running check
while another is at work, and whose locks and reads fail at most where it does not matter, once a
start was answered 200 the ruleset installed last, the spec in the state file and the spec the
supervisor runs are the same one; an agent that is started again may not run it yet, until it
serves. -/
theorem start_consistent (uid : ℕ) {c : Threads.Config Call Call.Ret String Unit Agent Doing}
    (h : Threads.Run (system uid) Apart (.empty {}) c) (hanswered : c.shared.answered = true) :
    ∃ x fd, c.shared.rules = some (rulesetOf uid x) ∧ c.shared.file = some (fd, .holds x) ∧
      (c.shared.spec = some x ∨ (c.shared.spec = none ∧ c.shared.serving = false)) := by
  have hinv := Threads.inv anyAnswer (fun _ _ _ _ _ _ _ _ _ _ _ => trivial)
    (fun g p hb => by
      obtain ⟨life, rfl, rfl | rfl⟩ := hb
      · exact fine_postStart life
      · exact fine_main life)
    (fun _ _ _ _ => trivial) (keeps_invariant uid) (Threads.Each.empty (agrees_empty uid)) h
  obtain ⟨x, ⟨hrules, fd, hfile⟩, hspec⟩ := hinv.all.same hanswered
  exact ⟨x, fd, hrules, hfile, hspec⟩

/-! ### Starts at the same time -/

abbrev Guest := Threads.Config Call Call.Ret String Unit Agent Doing

/-- What the guest answers on which all is well. -/
def answerOp (asks : Spec) (s : Agent) : (o : Op) → o.Ret
  | .boot => if s.booted then .error "Address already in use" else .ok ()
  | .loadState =>
    match s.file with
    | some (_, .holds x) => some x
    | _ => none
  | .loadClaim => s.claimed
  | .serve => ()
  | .received => if s.claimed then .ok asks else .error .unauthorized
  | .running => s.spec.isSome
  | .openState => .ok (opened s).1
  | .writeState _ _ => .ok ()
  | .lockEgress _ => .ok ()
  | .supervise _ => .ok s.spec.isNone
  | .unlinkState => .ok ()
  | .status => statusOf s
  | .reply _ _ => ()
  | .noteExit _ => ()

def nextOp (uid : ℕ) (s : Agent) : Op → Agent
  | .boot => { s with booted := true }
  | .serve => { s with serving := true }
  | .openState => (opened s).2
  | .writeState fd x =>
    match s.file with
    | some (fd', _) => if fd' = fd then { s with file := some (fd, .holds x) } else s
    | none => s
  | .lockEgress x => { s with rules := some (rulesetOf uid x) }
  | .supervise x => { s with spec := s.spec.or (some x) }
  | .unlinkState => { s with file := none }
  | .reply code _ => if code = 200 then { s with answered := true } else s
  | _ => s

/-- The call can be answered: by an agent of the thread's life, that serves if it is a request. -/
def answers (s : Agent) (c : Call) : Bool :=
  c.life == s.life && (c.op != .received || s.serving)

lemma step_answer (uid : ℕ) (asks : Spec) (s : Agent) (c : Call) (h : answers s c = true) :
    step uid s c (answerOp asks s c.op) (nextOp uid s c.op) := by
  obtain ⟨hlife, hserving⟩ := (Bool.and_eq_true _ _).mp h
  refine ⟨eq_of_beq hlife, ?_⟩
  obtain ⟨life, o⟩ := c
  obtain ⟨_, booted, serving, claimed, file, _, _, spec, _⟩ := s
  cases o with
  | boot =>
    cases booted with
    | true => exact rfl
    | false => exact ⟨rfl, rfl⟩
  | loadState =>
    rcases file with _ | ⟨fd, _ | x | _⟩
    · exact ⟨rfl, rfl⟩
    · exact ⟨rfl, rfl⟩
    · exact ⟨.inl rfl, rfl⟩
    · exact ⟨trivial, rfl⟩
  | loadClaim => exact ⟨id, rfl⟩
  | serve => exact rfl
  | received =>
    cases claimed with
    | true => exact ⟨hserving, rfl, rfl⟩
    | false => exact ⟨hserving, rfl⟩
  | running => exact ⟨rfl, rfl⟩
  | openState => exact rfl
  | writeState fd x =>
    rcases file with _ | ⟨fd', content⟩
    · exact ⟨none, .other nofun, rfl⟩
    · by_cases hfd : fd' = fd
      · subst hfd
        exact ⟨_, .whole content, by simp [nextOp]⟩
      · exact ⟨_, .other fun _ h => hfd (Prod.mk.inj (Option.some.inj h)).1, by simp [nextOp, hfd]⟩
  | lockEgress x => exact rfl
  | supervise x =>
    cases spec with
    | none => exact ⟨rfl, rfl⟩
    | some y => exact ⟨nofun, rfl⟩
  | unlinkState => exact rfl
  | status => exact ⟨rfl, rfl⟩
  | reply code body => exact rfl
  | noteExit text => exact rfl

def specOf (program : String) (port : ℕ) : Spec where
  program := program
  cwd := "/srv/monolith/runtime"
  port := port
  egress := .proxy "10.0.0.2" 3128

/-- The agent and some start requests, each with its own spec, a turn at a time. The guest is
claimed in between. -/
def starts (asks : List Spec) (ok : Guest → ℕ → Call → Bool) (l : List (ℕ ⊕ Unit)) :
    Option Guest :=
  Threads.play (fun s c _ => nextOp 1000 s c.op) note
    (fun i s c => answerOp (asks.getD (i - 1) (specOf "/usr/bin/a" 4000)) s c.op)
    (fun _ s => some { s with claimed := true }) (fun c i o => answers c.shared o && ok c i o) l
    (Threads.begun {} ((⟨0, .idle⟩, main 0) :: asks.map fun _ => (⟨0, .idle⟩, postStart 0)))

lemma run_starts {asks : List Spec} {ok : Guest → ℕ → Call → Bool} {l : List (ℕ ⊕ Unit)}
    {M : Threads.Condition Call Call.Ret Agent Doing} {c : Guest}
    (hok : ∀ (c : Guest) i o x, (∀ j, asks.length + 1 ≤ j → c.threads j = none) →
      ok c i o = true → M c.shared c.notes i o (answerOp x c.shared o.op))
    (h : starts asks ok l = some c) : Threads.Run (system 1000) M (.empty {}) c := by
  refine Threads.run_begun_play (T := system 1000) ?_ ?_ ?_ ?_ h
  · intro x hx
    rcases List.mem_cons.mp hx with rfl | hx
    · exact ⟨0, rfl, .inr rfl⟩
    · obtain ⟨_, -, rfl⟩ := List.mem_map.mp hx
      exact ⟨0, rfl, .inl rfl⟩
  · exact fun c i o h => step_answer 1000 _ c.shared o ((Bool.and_eq_true _ _).mp h).1
  · rintro - s t ht
    obtain rfl := Option.some.inj ht
    exact .bind
  · intro c i o _ hn h
    exact hok c i o _ (by simpa using hn) ((Bool.and_eq_true _ _).mp h).2

/-- What was answered is still in reach, and where the thread looks whether the agent runs, no
other thread is busy. -/
def clear (n : ℕ) (c : Guest) (i : ℕ) : Call → Bool
  | ⟨_, .loadClaim⟩ => !c.shared.answered || c.shared.claimed
  | ⟨_, .running⟩ =>
    (List.range n).all fun j => j == i || (c.notes j).all fun g => !decide g.phase.busy
  | _ => true

lemma apart_of_clear {n i : ℕ} {c : Guest} {o : Call} {x : Spec}
    (hn : ∀ j, n ≤ j → c.threads j = none) (h : clear n c i o = true) :
    Apart c.shared c.notes i o (answerOp x c.shared o.op) := by
  obtain ⟨life, o⟩ := o
  cases o <;> try exact trivial
  case loadState =>
    intro _ fd y hfile
    show answerOp x c.shared .loadState = some y
    unfold answerOp
    rw [hfile]
  case loadClaim =>
    intro hanswered
    have hclaimed : (!c.shared.answered || c.shared.claimed) = true := h
    show c.shared.claimed = true
    simpa [hanswered] using hclaimed
  case running =>
    intro _ j g hj hg hbusy
    have hlt : j < n := by
      by_contra hle
      rw [Threads.Config.notes, hn j (Nat.not_lt.mp hle)] at hg
      cases hg
    have hfree := List.all_eq_true.mp h j (List.mem_range.mpr hlt)
    rw [hg] at hfree
    simp [hj, hbusy] at hfree

/-- The second start has begun before the first, and looks whether the agent runs when the first
is through. -/
def oneAfterOther : List (ℕ ⊕ Unit) :=
  [.inl 0, .inl 0, .inl 0, .inr (), .inl 2, .inl 1, .inl 1, .inl 1, .inl 1, .inl 1, .inl 1, .inl 1,
    .inl 1, .inl 2, .inl 2]

/-- Two starts, the one after the other. -/
theorem start_consistent_two : ∃ c : Guest, Threads.Run (system 1000) Apart (.empty {}) c ∧
    c.shared.answered = true ∧ c.shared.spec = some (specOf "/usr/bin/a" 4000) ∧
      (c.threads 2).any (·.2.isRet) = true ∧ ∃ x fd, c.shared.rules = some (rulesetOf 1000 x) ∧
        c.shared.file = some (fd, .holds x) ∧
          (c.shared.spec = some x ∨ (c.shared.spec = none ∧ c.shared.serving = false)) := by
  have hplay : ((starts [specOf "/usr/bin/a" 4000, specOf "/usr/bin/b" 4001] (clear 3)
      oneAfterOther).any fun c => c.shared.answered &&
        decide (c.shared.spec = some (specOf "/usr/bin/a" 4000)) &&
          (c.threads 2).any (·.2.isRet)) = true := by decide +kernel
  obtain ⟨c, hc, hx⟩ := (Option.any_eq_true _ _).mp hplay
  rw [Bool.and_eq_true, Bool.and_eq_true, decide_eq_true_eq] at hx
  obtain ⟨⟨hanswered, hspec⟩, hdone⟩ := hx
  have hrun : Threads.Run (system 1000) Apart (.empty {}) c :=
    run_starts (fun c i o x hn hclear => apart_of_clear hn hclear) hc
  exact ⟨c, hrun, hanswered, hspec, hdone, start_consistent 1000 hrun hanswered⟩

def bothAtOnce : List (ℕ ⊕ Unit) :=
  [.inl 0, .inl 0, .inl 0, .inr (), .inl 1, .inl 1, .inl 2, .inl 2, .inl 1, .inl 1, .inl 1, .inl 1,
    .inl 1, .inl 1, .inl 2, .inl 2, .inl 2, .inl 2, .inl 2, .inl 2]

/-- Two starts pass the running check. The first goes through, and then the second writes its
spec, locks its egress and is answered 200 too, though the supervisor runs the first. -/
theorem two_starts_disagree : ∃ (c : Guest) (x y : Spec) (fd : ℕ),
    Threads.Run (system 1000) Threads.always (.empty {}) c ∧ c.shared.answered = true ∧
      c.shared.file = some (fd, .holds y) ∧ c.shared.rules = some (rulesetOf 1000 y) ∧
      c.shared.spec = some x ∧ x ≠ y ∧ rulesetOf 1000 x ≠ rulesetOf 1000 y := by
  have hplay : ((starts [specOf "/usr/bin/a" 4000, specOf "/usr/bin/b" 4001] (fun _ _ _ => true)
      bothAtOnce).any fun c =>
      decide (c.shared.answered = true ∧
        c.shared.file = some (0, .holds (specOf "/usr/bin/b" 4001)) ∧
        c.shared.rules = some (rulesetOf 1000 (specOf "/usr/bin/b" 4001)) ∧
        c.shared.spec = some (specOf "/usr/bin/a" 4000))) = true := by decide +kernel
  obtain ⟨c, hc, hx⟩ := (Option.any_eq_true _ _).mp hplay
  obtain ⟨hanswered, hfile, hrules, hspec⟩ := of_decide_eq_true hx
  exact ⟨c, _, _, 0, run_starts (fun _ _ _ _ _ _ => trivial) hc, hanswered, hfile, hrules, hspec,
    by decide +kernel, by decide +kernel⟩

end Bimo.BindAgent
