import Bimo.Trace
import Bimo.Substrate
import Mathlib.Logic.Relation

/-!
Unix process groups, as the engine tests and stops them, one system call at a time.

A launched process leads a group of its own, so its identity is a pid, the group of that
number and the start time of the leader. `identityAlive` asks after the leader alone,
`stopGroup` goes by the group, and `stopProcess`, the destroy of a local resource, is the one
after the other.
-/

namespace Bimo.Processes

inductive Signal
  | term | kill
  deriving DecidableEq, Repr

inductive Errno
  | esrch | eperm | other (code : ℕ)
  deriving DecidableEq, Repr

def Errno.text : Errno → String
  | .esrch => "No such process (os error 3)"
  | .eperm => "Operation not permitted (os error 1)"
  | .other code => "os error " ++ toString code

inductive Call
  /-- The start time in the stat file of a pid, if it can be read. -/
  | stat (pid : ℕ)
  /-- A signal to a pid, or to the group of the number negated; `none` is the null signal. -/
  | kill (target : ℤ) (signal : Option Signal)
  | getpgid (pid : ℤ)
  | now
  | sleep (ms : ℕ)

def Call.Ret : Call → Type
  | .stat _ => Option ℕ
  | .kill _ _ => Except Errno Unit
  | .getpgid _ => Option ℤ
  | .now => ℕ
  | .sleep _ => Unit

abbrev Sys (ε α : Type) := Prog Call Call.Ret ε α

variable {ε : Type}

def ask (c : Call) : Sys ε c.Ret := Prog.ask c

def processStartTime (pid : ℕ) : Sys ε (Option ℕ) := ask (.stat pid)

def kill (target : ℤ) (signal : Option Signal) : Sys ε (Except Errno Unit) :=
  ask (.kill target signal)

def getpgid (pid : ℤ) : Sys ε (Option ℤ) := ask (.getpgid pid)

/-- The cast of a `u32` to an `i32`. -/
def asI32 (n : ℕ) : ℤ := (n : ℤ).bmod (2 ^ 32)

def identityShapeIsValid (i : ProcessIdentity) : Bool :=
  i.pid != 0 && decide (0 < i.processGroup) && i.processGroup == asI32 i.pid

def identityMatchesStartTime (i : ProcessIdentity) : Sys ε Bool := do
  let t ← processStartTime i.pid
  return t == some i.startTime

/-- The leader answers to the null signal and is in the recorded group. -/
def leaderAnswers (i : ProcessIdentity) : Sys ε Bool := do
  match ← kill (asI32 i.pid) none with
  | .error _ => return false
  | .ok _ => do
    let group ← getpgid (asI32 i.pid)
    return group == some i.processGroup

def identityAlive (i : ProcessIdentity) : Sys ε Bool :=
  if !identityShapeIsValid i then return false
  else do
    if !(← identityMatchesStartTime i) then return false
    else leaderAnswers i

/-- A failure is an I/O error's text; `EPERM` is taken for a group of zombies alone. -/
def processGroupExists (group : ℤ) : Sys String Bool := do
  match ← kill (-group) none with
  | .ok _ => return true
  | .error .esrch | .error .eperm => return false
  | .error (.other code) => .fail (Errno.other code).text

def signalGroup (group : ℤ) (signal : Signal) : Sys String Unit := do
  match ← kill (-group) (some signal) with
  | .ok _ | .error .esrch | .error .eperm => return ()
  | .error (.other code) => .fail (Errno.other code).text

/-- The wait for a group to go. Every turn sleeps 20 ms, so the turns that fit before the
deadline are numbered. -/
def awaitGone (group : ℤ) (deadline : ℕ) : ℕ → Sys String Bool
  | 0 => return false
  | n + 1 => do
    let now : ℕ ← ask .now
    if deadline ≤ now then return false
    else if !(← processGroupExists group) then return true
    else do
      let _ ← ask (.sleep 20)
      awaitGone group deadline n

/-- Whether the pid is in another group than the recorded one. -/
def elsewhere (group : Option ℤ) (i : ProcessIdentity) : Bool :=
  group.any fun g => 0 ≤ g && g != i.processGroup

/-- A pid that is not the recorded leader's is not to be signalled. -/
def checkLeader (i : ProcessIdentity) : Sys String Unit := do
  let leaderMatches ← identityMatchesStartTime i
  let leaderGroup ← getpgid (asI32 i.pid)
  if leaderMatches then
    if elsewhere leaderGroup i then .fail "managed pid no longer owns recorded process group"
    else return ()
  else do
    let t ← processStartTime i.pid
    if t.isSome then .fail "managed pid was reused by a different process"
    else if elsewhere leaderGroup i then
      .fail "managed pid was reused outside recorded process group"
    else return ()

/-- The group is asked to end, waited for, and killed. -/
def endGroup (group : ℤ) (grace : ℕ) : Sys String Unit := do
  signalGroup group .term
  let now : ℕ ← ask .now
  if ← awaitGone group (now + grace) (grace / 20 + 1) then return ()
  else do
    signalGroup group .kill
    if ← processGroupExists group then .fail "managed process group survived termination"
    else return ()

/-- The leader may have exited and left descendants in its group, so it is the recorded group
that is ended. -/
def stopGroup (i : ProcessIdentity) (grace : ℕ) : Sys String Unit :=
  if !identityShapeIsValid i then .fail "invalid managed process identity"
  else do
    checkLeader i
    if !(← processGroupExists i.processGroup) then return ()
    else endGroup i.processGroup grace

/-- Stop a process resource on this host. Already gone is success. -/
def stopProcess (r : Resource) : Sys FabricError Unit :=
  match r.process with
  | none => return () -- journaled before spawn and never created: nothing to stop
  | some i => do
    if !(← identityAlive i) then return ()
    else (stopGroup i 3000).mapErr (FabricError.io .substrateFailed ("could not stop " ++ r.id))

/-! ### The host -/

/-- A process: alive or a zombie, with its group. `ours` says that we may signal it, and
`member` that it was started under the recorded identity and is in the group it was started
in. -/
structure Proc where
  group : ℕ
  startTime : ℕ
  zombie : Bool
  ours : Bool
  member : Bool
  deriving DecidableEq, Repr

abbrev Procs := ℕ → Option Proc

/-- The processes a signal to the target is for. -/
def Reached (procs : Procs) (target : ℤ) (pid : ℕ) (p : Proc) : Prop :=
  procs pid = some p ∧ if 0 < target then (pid : ℤ) = target else (p.group : ℤ) = -target

/-- A signal that was sent, and the processes at that time. -/
structure Sent where
  target : ℤ
  signal : Signal
  procs : Procs

structure Host where
  procs : Procs
  clock : ℕ
  sent : List Sent
  /-- The recorded pid was given to a new process. -/
  reused : Bool

namespace Host

def set (s : Host) (pid : ℕ) (p : Option Proc) : Host :=
  { s with procs := Function.update s.procs pid p }

end Host

/-- What may happen on the host at any time. A new process has a pid that is in use neither as
a pid nor as a group's number, and one with a pid that was in use before starts at a later
tick. The leader of a session stays in its group. -/
inductive Event (i : ProcessIdentity) : Host → Host → Prop
  | fork {s : Host} {parent pid : ℕ} {p child : Proc} (hp : s.procs parent = some p)
      (hlive : p.zombie = false) (hfree : s.procs pid = none)
      (hgroups : ∀ x q, s.procs x = some q → q.group ≠ pid) (hgroup : child.group = p.group)
      (hmember : child.member = p.member)
      (htick : pid = i.pid → child.startTime ≠ i.startTime) :
      Event i s { s.set pid (some child) with reused := s.reused || pid == i.pid }
  | lead {s : Host} {pid : ℕ} {p : Proc} (hp : s.procs pid = some p)
      (hfollower : pid = i.pid → p.member = false) :
      Event i s (s.set pid (some { p with group := pid, member := false }))
  | join {s : Host} {pid other : ℕ} {p q : Proc} (hp : s.procs pid = some p)
      (hq : s.procs other = some q) (hfollower : pid = i.pid → p.member = false) :
      Event i s (s.set pid (some { p with group := q.group, member := q.member }))
  | exit {s : Host} {pid : ℕ} {p : Proc} (hp : s.procs pid = some p) :
      Event i s (s.set pid (some { p with zombie := true }))
  | reap {s : Host} {pid : ℕ} {p : Proc} (hp : s.procs pid = some p) (hzombie : p.zombie = true) :
      Event i s (s.set pid none)
  | credentials {s : Host} {pid : ℕ} {p : Proc} (ours : Bool) (hp : s.procs pid = some p) :
      Event i s (s.set pid (some { p with ours }))
  | tick {s : Host} (ms : ℕ) : Event i s { s with clock := s.clock + ms }

abbrev Evolves (i : ProcessIdentity) : Host → Host → Prop := Relation.ReflTransGen (Event i)

/-- What the kernel may answer. A stat file may be unreadable, and any other error is possible
of a `kill`. -/
def Answers (s : Host) : (c : Call) → c.Ret → Prop
  | .stat pid, r => r = none ∨ r = (s.procs pid).map (·.startTime)
  | .kill target _, .ok _ => ∃ pid p, Reached s.procs target pid p ∧ p.ours = true
  | .kill target _, .error .esrch => ∀ pid p, ¬ Reached s.procs target pid p
  | .kill target _, .error .eperm =>
      (∃ pid p, Reached s.procs target pid p) ∧
        ∀ pid p, Reached s.procs target pid p → p.ours = false
  | .kill _ _, .error (.other _) => True
  | .getpgid pid, r => r = (s.procs pid.toNat).map fun p => (p.group : ℤ)
  | .now, r => r = s.clock
  | .sleep _, _ => True

/-- A call on its own: a signal is noted, and a sleep takes its time. -/
def effect (s : Host) : (c : Call) → c.Ret → Host
  | .kill target (some signal), .ok _ =>
      { s with sent := s.sent ++ [⟨target, signal, s.procs⟩] }
  | .sleep ms, _ => { s with clock := s.clock + ms }
  | .stat _, _ | .kill _ _, _ | .getpgid _, _ | .now, _ => s

/-- The host: a call is answered, and things go on before the next. -/
def host (i : ProcessIdentity) : Env Call Call.Ret Host where
  step s c r t := Answers s c r ∧ Evolves i (effect s c r) t

/-! ### What is promised, and when it is kept -/

/-- The processes of the host and the recorded identity: a process that starts with the pid of
the leader is not the leader, and the number of a group is not given away while it has
processes. -/
structure Recorded (i : ProcessIdentity) (s : Host) : Prop where
  group : ∀ x p, s.procs x = some p → p.member = true → p.group = i.pid
  one : ∀ x y p q, s.procs x = some p → s.procs y = some q → p.group = i.pid →
    q.group = i.pid → p.member = true → q.member = true
  leader : ∀ p, s.procs i.pid = some p → (p.startTime = i.startTime ↔ p.member = true)
  kept : ∀ p, s.procs i.pid = some p → ∀ x q, s.procs x = some q → q.member = true →
    p.member = true

/-- A signal that reached no process but those of the recorded group. -/
def Sent.OwnOnly (x : Sent) : Prop :=
  ∀ pid p, Reached x.procs x.target pid p → p.member = true

/-- No process of the recorded group is alive. -/
def Clean (s : Host) : Prop :=
  ∀ pid p, s.procs pid = some p → p.member = true → p.zombie = true

/-- No process of the recorded group is left. -/
def Gone (s : Host) : Prop := ∀ pid p, s.procs pid = some p → p.member = false

/-- The group has not outlived the entry of its leader. -/
def Led (i : ProcessIdentity) (s : Host) : Prop :=
  (∃ p, s.procs i.pid = some p ∧ p.member = true) ∨ Gone s

/-- The calls about the leader are made while its entry is there or the group is gone, a stat
file that is there can be read, the null signal is refused nowhere, and no signal is sent after
the recorded pid was given away. -/
def Condition (i : ProcessIdentity) (s : Host) : (c : Call) → c.Ret → Prop
  | .stat pid, r => (r = none → s.procs pid = none) ∧ Led i s
  | .getpgid _, _ => Led i s
  | .kill target none, r => (r = .ok () ∨ r = .error .esrch) ∧ (0 < target → Led i s)
  | .kill _ (some _), _ => s.reused = false
  | .now, _ | .sleep _, _ => True

/-- The identity of a process that was started as the leader of its group. -/
structure Launched (i : ProcessIdentity) : Prop where
  u32 : i.pid < 2 ^ 32
  shape : identityShapeIsValid i = true

section

variable {i : ProcessIdentity} {s t : Host}

lemma Launched.pid_pos (hi : Launched i) : 0 < i.pid := by
  have := hi.shape
  simp only [identityShapeIsValid, Bool.and_eq_true, bne_iff_ne] at this
  omega

lemma Launched.processGroup (hi : Launched i) : i.processGroup = i.pid := by
  have hshape := hi.shape
  simp only [identityShapeIsValid, Bool.and_eq_true, decide_eq_true_eq, beq_iff_eq] at hshape
  obtain ⟨⟨-, hpos⟩, hcast⟩ := hshape
  have hlt : i.pid < 4294967296 := hi.u32
  have hcast' : i.processGroup = (i.pid : ℤ).bmod 4294967296 := hcast
  have hmod : (i.pid : ℤ) % ((4294967296 : ℕ) : ℤ) = i.pid := by omega
  rw [Int.bmod_def, hmod] at hcast'
  split_ifs at hcast' <;> omega

lemma Launched.asI32 (hi : Launched i) : asI32 i.pid = i.pid := by
  have hshape := hi.shape
  simp only [identityShapeIsValid, Bool.and_eq_true, beq_iff_eq] at hshape
  rw [← hshape.2, hi.processGroup]

/-! ### Events -/

/-- **What an event may do to a process**: leave its group alone, start it, or move it. -/
lemma Event.proc_cases (e : Event i s t) {x : ℕ} {p : Proc} (hp : t.procs x = some p) :
    (∃ q, s.procs x = some q ∧ p.startTime = q.startTime ∧ p.group = q.group ∧
      p.member = q.member) ∨
    ((∀ y q, s.procs y = some q → q.group ≠ x) ∧ (x = i.pid → p.startTime ≠ i.startTime) ∧
      (x = i.pid → t.reused = true) ∧
      ∃ y q, s.procs y = some q ∧ p.group = q.group ∧ p.member = q.member) ∨
    (∃ q, s.procs x = some q ∧ p.startTime = q.startTime ∧ (x = i.pid → q.member = false) ∧
      (p.group = x ∧ p.member = false ∨
        ∃ y r, s.procs y = some r ∧ p.group = r.group ∧ p.member = r.member)) := by
  have hsame : ∀ {pid : ℕ} {o : Option Proc}, x ≠ pid → (s.set pid o).procs x = s.procs x :=
    fun hx => Function.update_of_ne hx _ _
  have hnew : ∀ {pid : ℕ} {o : Option Proc}, x = pid → (s.set pid o).procs x = o := by
    rintro pid o rfl
    exact Function.update_self _ _ _
  cases e with
  | @fork parent pid q child hq hlive hfree hgroups hgroup hmember htick =>
      by_cases hx : x = pid
      · obtain rfl := Option.some.inj ((hnew hx).symm.trans hp)
        subst hx
        exact Or.inr (Or.inl ⟨hgroups, htick, fun h => by simp [h], parent, q, hq, hgroup,
          hmember⟩)
      · exact Or.inl ⟨p, (hsame hx).symm.trans hp, rfl, rfl, rfl⟩
  | @lead pid q hq hfollower =>
      by_cases hx : x = pid
      · obtain rfl := Option.some.inj ((hnew hx).symm.trans hp)
        subst hx
        exact Or.inr (Or.inr ⟨q, hq, rfl, hfollower, Or.inl ⟨rfl, rfl⟩⟩)
      · exact Or.inl ⟨p, (hsame hx).symm.trans hp, rfl, rfl, rfl⟩
  | @join pid other q r hq hr hfollower =>
      by_cases hx : x = pid
      · obtain rfl := Option.some.inj ((hnew hx).symm.trans hp)
        subst hx
        exact Or.inr (Or.inr ⟨q, hq, rfl, hfollower, Or.inr ⟨other, r, hr, rfl, rfl⟩⟩)
      · exact Or.inl ⟨p, (hsame hx).symm.trans hp, rfl, rfl, rfl⟩
  | @exit pid q hq | @credentials pid q _ hq =>
      by_cases hx : x = pid
      · obtain rfl := Option.some.inj ((hnew hx).symm.trans hp)
        subst hx
        exact Or.inl ⟨q, hq, rfl, rfl, rfl⟩
      · exact Or.inl ⟨p, (hsame hx).symm.trans hp, rfl, rfl, rfl⟩
  | @reap pid q hq hzombie =>
      by_cases hx : x = pid
      · exact absurd ((hnew hx).symm.trans hp) (by simp)
      · exact Or.inl ⟨p, (hsame hx).symm.trans hp, rfl, rfl, rfl⟩
  | tick ms => exact Or.inl ⟨p, hp, rfl, rfl, rfl⟩

lemma Event.sent (e : Event i s t) : t.sent = s.sent := by
  cases e <;> rfl

lemma Event.reused (e : Event i s t) (h : t.reused = false) : s.reused = false := by
  cases e with
  | fork =>
      simp only [Bool.or_eq_false_iff] at h
      exact h.1
  | lead | join | exit | reap | credentials | tick => exact h

/-- A member was one before, or comes of one. -/
lemma Event.member (e : Event i s t) {x : ℕ} {p : Proc} (hp : t.procs x = some p)
    (hm : p.member = true) : ∃ y q, s.procs y = some q ∧ q.member = true ∧ p.group = q.group := by
  rcases e.proc_cases hp with ⟨q, hq, -, hg, hmem⟩ | ⟨-, -, -, y, q, hq, hg, hmem⟩ |
    ⟨q, -, -, -, ⟨-, hmem⟩ | ⟨y, r, hr, hg, hmem⟩⟩
  · exact ⟨x, q, hq, hmem ▸ hm, hg⟩
  · exact ⟨y, q, hq, hmem ▸ hm, hg⟩
  · simp [hmem] at hm
  · exact ⟨y, r, hr, hmem ▸ hm, hg⟩

lemma Gone.event (h : Gone s) (e : Event i s t) : Gone t := by
  intro x p hp
  by_contra hm
  obtain ⟨y, q, hq, hmem, -⟩ := e.member hp (by simpa using hm)
  simp [h y q hq] at hmem

lemma Recorded.event (h : Recorded i s) (e : Event i s t) : Recorded i t where
  group x p hp hm := by
    obtain ⟨y, q, hq, hmem, hg⟩ := e.member hp hm
    rw [hg]
    exact h.group y q hq hmem
  one x y p q hp hq hpg hqg hm := by
    obtain ⟨z, r, hr, hmem, hg⟩ := e.member hp hm
    have hrg : r.group = i.pid := h.group z r hr hmem
    rcases e.proc_cases hq with ⟨q', hq', -, hg', hmem'⟩ | ⟨-, -, -, y', q', hq', hg', hmem'⟩ |
      ⟨q', hq', -, hfollower, ⟨hg', hmem'⟩ | ⟨y', q', hq', hg', hmem'⟩⟩
    · exact hmem' ▸ h.one z y r q' hr hq' hrg (hg' ▸ hqg) hmem
    · exact hmem' ▸ h.one z y' r q' hr hq' hrg (hg' ▸ hqg) hmem
    · -- the process leads the recorded number, so it has the recorded pid
      have hy : y = i.pid := hg'.symm.trans hqg
      subst hy
      have := h.kept q' hq' z r hr hmem
      simp [hfollower rfl] at this
    · exact hmem' ▸ h.one z y' r q' hr hq' hrg (hg' ▸ hqg) hmem
  leader p hp := by
    rcases e.proc_cases hp with ⟨q, hq, hst, -, hmem⟩ | ⟨hgroups, htick, -, y, q, hq, hg, hmem⟩ |
      ⟨q, hq, hst, hfollower, hmove⟩
    · rw [hst, hmem]
      exact h.leader q hq
    · refine iff_of_false (htick rfl) fun hm => ?_
      exact hgroups y q hq (h.group y q hq (hmem ▸ hm))
    · have hnot : ¬ q.startTime = i.startTime := fun hs => by
        simpa [hfollower rfl] using (h.leader q hq).mp hs
      refine iff_of_false (hst ▸ hnot) fun hm => ?_
      rcases hmove with ⟨-, hmem⟩ | ⟨y, r, hr, -, hmem⟩
      · simp [hmem] at hm
      · have := h.kept q hq y r hr (hmem ▸ hm)
        simp [hfollower rfl] at this
  kept p hp x q hq hm := by
    obtain ⟨y, r, hr, hmem, -⟩ := e.member hq hm
    rcases e.proc_cases hp with ⟨p', hp', -, -, hmem'⟩ | ⟨hgroups, -⟩ |
      ⟨p', hp', -, hfollower, -⟩
    · exact hmem' ▸ h.kept p' hp' y r hr hmem
    · exact absurd (h.group y r hr hmem) (hgroups y r hr)
    · have := h.kept p' hp' y r hr hmem
      simp [hfollower rfl] at this

/-- As long as the recorded pid is not given away, who is in the group of that number or has
that pid is a member. -/
def Held (i : ProcessIdentity) (s : Host) : Prop :=
  s.reused = false → (∀ x p, s.procs x = some p → p.group = i.pid → p.member = true) ∧
    ∀ p, s.procs i.pid = some p → p.member = true

lemma Held.event (h : Held i s) (e : Event i s t) : Held i t := by
  intro hreused
  obtain ⟨hgroup, hpid⟩ := h (e.reused hreused)
  constructor
  · intro x p hp hg
    rcases e.proc_cases hp with ⟨q, hq, -, hg', hmem⟩ | ⟨-, -, -, y, q, hq, hg', hmem⟩ |
      ⟨q, hq, -, hfollower, ⟨hg', hmem⟩ | ⟨y, r, hr, hg', hmem⟩⟩
    · exact hmem ▸ hgroup x q hq (hg' ▸ hg)
    · exact hmem ▸ hgroup y q hq (hg' ▸ hg)
    · have hx : x = i.pid := hg'.symm.trans hg
      subst hx
      have := hpid q hq
      simp [hfollower rfl] at this
    · exact hmem ▸ hgroup y r hr (hg' ▸ hg)
  · intro p hp
    rcases e.proc_cases hp with ⟨q, hq, -, -, hmem⟩ | ⟨-, -, hgiven, -⟩ | ⟨q, hq, -, hfollower, -⟩
    · exact hmem ▸ hpid q hq
    · simp [hgiven rfl] at hreused
    · have := hpid q hq
      simp [hfollower rfl] at this

lemma Gone.evolves (h : Gone s) (e : Evolves i s t) : Gone t := by
  induction e with
  | refl => exact h
  | tail _ e ih => exact ih.event e

lemma Held.evolves (h : Held i s) (e : Evolves i s t) : Held i t := by
  induction e with
  | refl => exact h
  | tail _ e ih => exact ih.event e

/-- What holds whenever the program waits for an answer. -/
structure Base (i : ProcessIdentity) (s : Host) : Prop where
  recorded : Recorded i s
  own : ∀ x ∈ s.sent, x.OwnOnly

lemma Base.evolves (h : Base i s) (e : Evolves i s t) : Base i t := by
  induction e with
  | refl => exact h
  | tail _ e ih => exact ⟨ih.recorded.event e, e.sent ▸ ih.own⟩

lemma Gone.clean (h : Gone s) : Clean s := by
  intro pid p hp hm
  simp [h pid p hp] at hm

/-! ### The programs -/

/-- The host, where every step meets the condition. -/
abbrev Steady (i : ProcessIdentity) : Env Call Call.Ret Host := (host i).given (Condition i)

abbrev Watch (i : ProcessIdentity) (s : Host) (_ : Call) : Prop := Base i s

variable {ε α : Type}

/-- A call that sends nothing. -/
lemma safe_ask_steady {c : Call} {f : c.Ret → Sys ε α} {Q : Except ε α → Host → Prop}
    (h : Base i s) (hquiet : ∀ r, (effect s c r).sent = s.sent ∧ (effect s c r).procs = s.procs ∧
      (effect s c r).reused = s.reused)
    (hf : ∀ r t, Answers s c r → Condition i s c r → Evolves i (effect s c r) t → Base i t →
      Safe (Steady i) (Watch i) (f r) t Q) :
    Safe (Steady i) (Watch i) (ask c >>= f) s Q := by
  refine ⟨h, fun r t hr => hf r t hr.1.1 hr.2 hr.1.2 ?_⟩
  obtain ⟨hsent, hprocs, -⟩ := hquiet r
  have hb : Base i (effect s c r) :=
    ⟨⟨hprocs ▸ h.recorded.group, hprocs ▸ h.recorded.one, hprocs ▸ h.recorded.leader,
      hprocs ▸ h.recorded.kept⟩, hsent ▸ h.own⟩
  exact hb.evolves hr.1.2

lemma safe_processStartTime {f : Option ℕ → Sys ε α} {Q : Except ε α → Host → Prop} {pid : ℕ}
    (h : Base i s) (hf : ∀ t r, r = (s.procs pid).map (·.startTime) → Led i s → Evolves i s t →
      Base i t → Safe (Steady i) (Watch i) (f r) t Q) :
    Safe (Steady i) (Watch i) (processStartTime pid >>= f) s Q := by
  refine safe_ask_steady h (fun _ => ⟨rfl, rfl, rfl⟩) fun r t hr hc he hb => ?_
  refine hf t r ?_ hc.2 he hb
  rcases hr with rfl | hr
  · rw [hc.1 rfl]
    rfl
  · exact hr

lemma safe_getpgid {f : Option ℤ → Sys ε α} {Q : Except ε α → Host → Prop} {pid : ℤ}
    (h : Base i s) (hf : ∀ t r, r = ((s.procs pid.toNat).map fun p => (p.group : ℤ)) → Led i s →
      Evolves i s t → Base i t → Safe (Steady i) (Watch i) (f r) t Q) :
    Safe (Steady i) (Watch i) (getpgid pid >>= f) s Q :=
  safe_ask_steady h (fun _ => ⟨rfl, rfl, rfl⟩) fun r t hr hc he hb => hf t r hr hc he hb

/-- Where the entry of the leader is gone, so is the group. -/
lemma Led.gone (h : Led i s) (hnone : ∀ p, s.procs i.pid = some p → p.member = false) :
    Gone s := by
  rcases h with ⟨p, hp, hm⟩ | h
  · simp [hnone p hp] at hm
  · exact h

/-- A leader that is a member holds the group's number for it. -/
lemma Recorded.held (h : Recorded i s) {p : Proc} (hp : s.procs i.pid = some p)
    (hm : p.member = true) : Held i s := by
  intro _
  refine ⟨fun x q hq hg => h.one i.pid x p q hp hq (h.group _ _ hp hm) hg hm, fun q hq => ?_⟩
  obtain rfl := Option.some.inj (hp.symm.trans hq)
  exact hm

/-- What a test of the leader says: it is there, or the group is gone. -/
def Tested (i : ProcessIdentity) (r : Except ε Bool) (t : Host) : Prop :=
  Base i t ∧ ((r = .ok true ∧ Held i t) ∨ (r = .ok false ∧ Gone t))

lemma safe_leaderAnswers (hi : Launched i) (h : Base i s) (hheld : Held i s) :
    Safe (Steady i) (Watch i) (leaderAnswers i : Sys ε Bool) s (Tested i) := by
  refine safe_ask_steady h (fun r => by cases r <;> exact ⟨rfl, rfl, rfl⟩)
    fun r t hr hc he hb => ?_
  have hpos : 0 < asI32 i.pid := by
    rw [hi.asI32]
    exact_mod_cast hi.pid_pos
  rcases hc.1 with rfl | rfl
  · have hheld := hheld.evolves he
    refine safe_getpgid hb fun u g hg hled he' hb' => ⟨hb', ?_⟩
    by_cases hgroup : g = some i.processGroup
    · exact Or.inl ⟨by simp [hgroup], hheld.evolves he'⟩
    · refine Or.inr ⟨by simp [hgroup], (hled.gone fun p hp => ?_).evolves he'⟩
      by_contra hm
      have := hb.recorded.group _ _ hp (by simpa using hm)
      refine hgroup ?_
      rw [hg, hi.asI32, hi.processGroup, Int.toNat_natCast, hp, Option.map_some, this]
  · refine ⟨hb, Or.inr ⟨rfl, ((hc.2 hpos).gone fun p hp => ?_).evolves he⟩⟩
    refine absurd ⟨hp, ?_⟩ (hr i.pid p)
    rw [if_pos hpos, hi.asI32]

lemma safe_identityAlive (hi : Launched i) (h : Base i s) :
    Safe (Steady i) (Watch i) (identityAlive i : Sys ε Bool) s (Tested i) := by
  unfold identityAlive
  rw [hi.shape]
  refine safe_processStartTime h fun t r hr hled he hb => ?_
  by_cases hmatch : r = some i.startTime
  · -- who has the recorded start time is the recorded leader
    obtain ⟨p, hp, hstart⟩ := Option.map_eq_some_iff.mp (hr.symm.trans hmatch)
    have hheld := (h.recorded.held hp ((h.recorded.leader p hp).mp hstart)).evolves he
    rw [hmatch]
    simpa using safe_leaderAnswers hi hb hheld
  · have hgone : Gone s := hled.gone fun p hp => by
      by_contra hm
      have := (h.recorded.leader p hp).mpr (by simpa using hm)
      exact hmatch (by rw [hr, hp, Option.map_some, this])
    have : (r == some i.startTime) = false := by simpa using hmatch
    rw [this]
    exact ⟨hb, Or.inr ⟨rfl, hgone.evolves he⟩⟩

/-- What is known while a group is ended. -/
def Ending (i : ProcessIdentity) (s : Host) : Prop := Base i s ∧ Held i s

lemma Ending.evolves (h : Ending i s) (e : Evolves i s t) : Ending i t :=
  ⟨h.1.evolves e, h.2.evolves e⟩

lemma safe_processGroupExists (hi : Launched i) (h : Ending i s) :
    Safe (Steady i) (Watch i) (processGroupExists i.processGroup) s fun r t =>
      Ending i t ∧ (r = .ok false → Gone t) := by
  refine safe_ask_steady h.1 (fun r => by cases r <;> exact ⟨rfl, rfl, rfl⟩)
    fun r t hr hc he hb => ?_
  have he : Evolves i s t := by rcases hc.1 with rfl | rfl <;> exact he
  have hend := h.evolves he
  rcases hc.1 with rfl | rfl
  · exact ⟨hend, nofun⟩
  · refine ⟨hend, fun _ => Gone.evolves (fun x p hp => ?_) he⟩
    by_contra hm
    refine hr x p ⟨hp, ?_⟩
    have := h.1.recorded.group x p hp (by simpa using hm)
    have hpos := hi.pid_pos
    rw [hi.processGroup, if_neg (by omega), this, Int.neg_neg]

/-- **No signal leaves the group**: when it is sent, the number is still the recorded group's. -/
lemma safe_signalGroup (hi : Launched i) (h : Ending i s) (signal : Signal) :
    Safe (Steady i) (Watch i) (signalGroup i.processGroup signal) s fun _ t => Ending i t := by
  refine ⟨h.1, fun r t hr => ?_⟩
  obtain ⟨⟨-, he⟩, hfree⟩ := hr
  have hown : Sent.OwnOnly ⟨-i.processGroup, signal, s.procs⟩ := by
    rintro pid p ⟨hp, htarget⟩
    have hpos := hi.pid_pos
    have hneg : ¬ 0 < -i.processGroup := by
      rw [hi.processGroup]
      omega
    rw [if_neg hneg, Int.neg_neg, hi.processGroup] at htarget
    exact (h.2 hfree).1 pid p hp (by exact_mod_cast htarget)
  have hsent : Ending i { s with sent := s.sent ++ [⟨-i.processGroup, signal, s.procs⟩] } := by
    refine ⟨⟨⟨h.1.recorded.group, h.1.recorded.one, h.1.recorded.leader, h.1.recorded.kept⟩,
      fun x hx => ?_⟩, h.2⟩
    rcases List.mem_append.mp hx with hx | hx
    · exact h.1.own x hx
    · rw [List.mem_singleton.mp hx]
      exact hown
  rcases r with (_ | _ | code) | _
  · exact h.evolves he
  · exact h.evolves he
  · exact h.evolves he
  · exact hsent.evolves he

/-- A call that neither reads nor changes the processes. -/
lemma safe_clock {c : Call} {f : c.Ret → Sys ε α} {Q : Except ε α → Host → Prop}
    (hc : c = .now ∨ ∃ ms, c = .sleep ms) (h : Ending i s)
    (hf : ∀ r t, Ending i t → Safe (Steady i) (Watch i) (f r) t Q) :
    Safe (Steady i) (Watch i) (ask c >>= f) s Q := by
  have hheld : ∀ r : c.Ret, Ending i (effect s c r) := by
    intro r
    rcases hc with rfl | ⟨ms, rfl⟩
    · exact h
    · exact ⟨⟨⟨h.1.recorded.group, h.1.recorded.one, h.1.recorded.leader, h.1.recorded.kept⟩,
        h.1.own⟩, h.2⟩
  exact ⟨h.1, fun r t hr => hf r t ((hheld r).evolves hr.1.2)⟩

lemma safe_awaitGone (hi : Launched i) (deadline n : ℕ) (h : Ending i s) :
    Safe (Steady i) (Watch i) (awaitGone i.processGroup deadline n) s fun r t =>
      Ending i t ∧ (r = .ok true → Gone t) := by
  induction n generalizing s with
  | zero => exact ⟨h, nofun⟩
  | succ n ih =>
      refine safe_clock (Or.inl rfl) h fun now t ht => ?_
      by_cases hlate : deadline ≤ now
      · rw [if_pos hlate]
        exact ⟨ht, nofun⟩
      rw [if_neg hlate]
      refine (safe_processGroupExists hi ht).bind (fun there u hu => ?_) fun e u hu => ⟨hu.1, nofun⟩
      cases there with
      | false => exact ⟨hu.1, fun _ => hu.2 rfl⟩
      | true => exact safe_clock (Or.inr ⟨20, rfl⟩) hu.1 fun _ v hv => ih hv

/-- What a stopped group is known by. -/
def Stopped (i : ProcessIdentity) (r : Except ε Unit) (t : Host) : Prop :=
  Base i t ∧ (r = .ok () → Gone t)

lemma safe_endGroup (hi : Launched i) (grace : ℕ) (h : Ending i s) :
    Safe (Steady i) (Watch i) (endGroup i.processGroup grace) s (Stopped i) := by
  refine (safe_signalGroup hi h .term).bind (fun _ t ht => ?_) fun _ _ ht => ⟨ht.1, nofun⟩
  refine safe_clock (Or.inl rfl) ht fun now u hu => ?_
  refine (safe_awaitGone hi _ _ hu).bind (fun gone v hv => ?_) fun _ _ hv => ⟨hv.1.1, nofun⟩
  cases gone with
  | true => exact ⟨hv.1.1, fun _ => hv.2 rfl⟩
  | false =>
      refine (safe_signalGroup hi hv.1 .kill).bind (fun _ w hw => ?_) fun _ _ hw => ⟨hw.1, nofun⟩
      refine (safe_processGroupExists hi hw).bind (fun there x hx => ?_)
        fun _ _ hx => ⟨hx.1.1, nofun⟩
      cases there with
      | true => exact ⟨hx.1.1, nofun⟩
      | false => exact ⟨hx.1.1, fun _ => hx.2 rfl⟩

lemma safe_checkLeader (h : Ending i s) :
    Safe (Steady i) (Watch i) (checkLeader i) s fun _ t => Ending i t := by
  refine safe_processStartTime h.1 fun t r hr hled he hb => ?_
  have ht := h.evolves he
  refine safe_getpgid hb fun u g hg hled' he' hb' => ?_
  have hu := ht.evolves he'
  cases hmatch : (r == some i.startTime) with
  | true =>
      cases hplace : elsewhere g i with
      | true => exact hu
      | false => exact hu
  | false =>
      refine safe_processStartTime hu.1 fun v r' hr' hled'' he'' hb'' => ?_
      have hv := hu.evolves he''
      cases hsome : r'.isSome with
      | true => exact hv
      | false =>
          cases hplace : elsewhere g i with
          | true => exact hv
          | false => exact hv

lemma safe_stopGroup (hi : Launched i) (grace : ℕ) (h : Ending i s) :
    Safe (Steady i) (Watch i) (stopGroup i grace) s (Stopped i) := by
  unfold stopGroup
  rw [hi.shape]
  refine (safe_checkLeader h).bind (fun _ t ht => ?_) fun _ _ ht => ⟨ht.1, nofun⟩
  refine (safe_processGroupExists hi ht).bind (fun there u hu => ?_) fun _ _ hu => ⟨hu.1.1, nofun⟩
  cases there with
  | true => exact safe_endGroup hi grace hu.1
  | false => exact ⟨hu.1.1, fun _ => hu.2 rfl⟩

lemma safe_stopProcess {r : Resource} (hr : r.process = some i) (hi : Launched i) (h : Base i s) :
    Safe (Steady i) (Watch i) (stopProcess r) s (Stopped i) := by
  unfold stopProcess
  rw [hr]
  refine (safe_identityAlive hi h).bind (fun alive t ht => ?_) fun e t ht => ?_
  · obtain ⟨hb, ⟨halive, hheld⟩ | ⟨halive, hgone⟩⟩ := ht
    · obtain rfl := Except.ok.inj halive
      refine (safe_mapErr _ _ _ _).mpr ((safe_stopGroup hi 3000 ⟨hb, hheld⟩).mono ?_)
      rintro (e | _) u ⟨hb', hstop⟩
      · exact ⟨hb', nofun⟩
      · exact ⟨hb', fun _ => hstop rfl⟩
    · obtain rfl := Except.ok.inj halive
      exact ⟨hb, fun _ => hgone⟩
  · rcases ht.2 with ⟨h, -⟩ | ⟨h, -⟩ <;> cases h

/-- A leader that has gone, or cannot be read, is all `stopProcess` looks for. -/
lemma exec_of_leader_gone {r : Resource} (hr : r.process = some i) (hi : Launched i) :
    Exec (host i) (stopProcess r) s (.ret ()) s := by
  simp only [stopProcess, hr, identityAlive, hi.shape]
  exact .step (r := (none : Option ℕ)) ⟨Or.inl rfl, .refl⟩ (.refl _ _)

end

/-- **When a local destroy leaves nothing running.** In every run whose steps meet the
condition, every signal reaches processes of the recorded group alone, and a destroy that
returns leaves none of them alive. A group that has outlived its leader is left as it is. -/
theorem stop_process_clean {r : Resource} {i : ProcessIdentity} (hr : r.process = some i)
    (hi : Launched i) (s : Host) :
    (∀ (t : Host) (q : Sys FabricError Unit), Recorded i s → s.sent = [] →
      Exec (Steady i) (stopProcess r) s q t →
      (∀ x ∈ t.sent, x.OwnOnly) ∧ (q = .ret () → Clean t)) ∧
    (s.procs i.pid = none → ¬ Clean s →
      ∃ t, Exec (host i) (stopProcess r) s (.ret ()) t ∧ ¬ Clean t) := by
  constructor
  · intro t q hs hsent hx
    have hbase : Base i s := ⟨hs, by simp [hsent]⟩
    have hsafe := (safe_stopProcess hr hi hbase).exec hx
    cases q with
    | ret a => exact ⟨hsafe.1.own, fun _ => (hsafe.2 rfl).clean⟩
    | fail e => exact ⟨hsafe.1.own, nofun⟩
    | call c k => exact ⟨hsafe.1.own, nofun⟩
  · intro _ hclean
    exact ⟨s, exec_of_leader_gone hr hi, hclean⟩

/-! ### A group with a leader, and one without -/

def sampleIdentity : ProcessIdentity :=
  { pid := 8, processGroup := 8, session := "agent-g1", launchFingerprint := "agent-g1",
    startTime := 500 }

def sampleResource : Resource :=
  { kind := .agentProcess, id := "local:agent-g1", process := some sampleIdentity }

/-- A process of the group of pid 8. -/
def sampleProc (startTime : ℕ) : Proc :=
  { group := 8, startTime, zombie := false, ours := true, member := true }

/-- The leader, and a descendant with pid 9. -/
def sampleHost : Host :=
  { procs := fun pid => if pid = 8 then some (sampleProc 500) else
      if pid = 9 then some (sampleProc 501) else none
    clock := 0, sent := [], reused := false }

/-- The leader has exited. -/
def orphanHost : Host := sampleHost.set 8 none

lemma sampleIdentity_launched : Launched sampleIdentity := ⟨by decide, by decide⟩

lemma sampleHost_proc {x : ℕ} {p : Proc} (hp : sampleHost.procs x = some p) :
    p.group = 8 ∧ p.member = true ∧ (x = 8 → p.startTime = 500) := by
  simp only [sampleHost] at hp
  split_ifs at hp with h8 h9
  · obtain rfl := Option.some.inj hp
    exact ⟨rfl, rfl, fun _ => rfl⟩
  · obtain rfl := Option.some.inj hp
    exact ⟨rfl, rfl, fun h => absurd h h8⟩

lemma sampleHost_recorded : Recorded sampleIdentity sampleHost where
  group _ _ hp _ := (sampleHost_proc hp).1
  one _ _ _ _ _ hq _ _ _ := (sampleHost_proc hq).2.1
  leader _ hp := iff_of_true ((sampleHost_proc hp).2.2 rfl) (sampleHost_proc hp).2.1
  kept _ hp _ _ _ _ := (sampleHost_proc hp).2.1

/-- Every process has exited and is reaped. -/
def emptyHost (sent : List Sent) : Host :=
  { procs := fun _ => none, clock := 0, sent, reused := false }

/-- The group ends on `SIGTERM`. -/
lemma sampleHost_ends (sent : List Sent) :
    Evolves sampleIdentity { sampleHost with sent } (emptyHost sent) := by
  have hend : ((({ sampleHost with sent } : Host).set 9 (some { sampleProc 501 with
      zombie := true })).set 9 none |>.set 8 (some { sampleProc 500 with zombie := true })).set 8
      none = emptyHost sent := by
    simp only [Host.set, sampleHost, emptyHost, Host.mk.injEq, and_true]
    funext x
    by_cases h8 : x = 8
    · simp [h8]
    · by_cases h9 : x = 9 <;> simp [h8, h9, Function.update_of_ne]
  rw [← hend]
  refine .tail (.tail (.tail (.tail .refl (.exit (p := sampleProc 501) rfl)) (.reap rfl rfl))
    (.exit (p := sampleProc 500) rfl)) (.reap rfl rfl)

/-- A run that ends the group. -/
lemma sampleHost_run : ∃ sent : List Sent, sent ≠ [] ∧
    Exec (Steady sampleIdentity) (stopProcess sampleResource) sampleHost (.ret ())
      (emptyHost sent) := by
  have hled : Led sampleIdentity sampleHost := Or.inl ⟨sampleProc 500, rfl, rfl⟩
  have h32 : asI32 8 = 8 := by decide
  have hleader : Reached sampleHost.procs (asI32 8) 8 (sampleProc 500) := by
    rw [h32]
    exact ⟨rfl, rfl⟩
  have hgroup : Reached sampleHost.procs (-8) 8 (sampleProc 500) := ⟨rfl, rfl⟩
  have hstat : (Steady sampleIdentity).step sampleHost (.stat 8) (some 500) sampleHost :=
    ⟨⟨Or.inr rfl, .refl⟩, nofun, hled⟩
  have hpgid : (Steady sampleIdentity).step sampleHost (.getpgid (asI32 8)) (some (8 : ℤ))
      sampleHost := by
    rw [h32]
    exact ⟨⟨rfl, .refl⟩, hled⟩
  have hnull : ∀ target, Reached sampleHost.procs target 8 (sampleProc 500) →
      (Steady sampleIdentity).step sampleHost (.kill target none) (Except.ok ()) sampleHost :=
    fun target h => ⟨⟨⟨8, _, h, rfl⟩, .refl⟩, Or.inl rfl, fun _ => hled⟩
  have hterm : (Steady sampleIdentity).step sampleHost (.kill (-8) (some .term)) (Except.ok ())
      (emptyHost [⟨-8, .term, sampleHost.procs⟩]) :=
    ⟨⟨⟨8, _, hgroup, rfl⟩, sampleHost_ends _⟩, rfl⟩
  have hnow : ∀ sent, (Steady sampleIdentity).step (emptyHost sent) .now (0 : ℕ)
      (emptyHost sent) := fun _ => ⟨⟨rfl, .refl⟩, trivial⟩
  have hgone : ∀ sent, (Steady sampleIdentity).step (emptyHost sent) (.kill (-8) none)
      (Except.error .esrch) (emptyHost sent) := by
    refine fun _ => ⟨⟨?_, .refl⟩, Or.inr rfl, fun _ => Or.inr nofun⟩
    rintro x p ⟨hp, -⟩
    cases hp
  refine ⟨[⟨-8, .term, sampleHost.procs⟩], by simp, ?_⟩
  -- the test of the leader, the same again, and the end of the group
  refine .step hstat (.step (hnull _ hleader) (.step hpgid ?_))
  refine .step hstat (.step hpgid (.step (hnull _ hgroup) ?_))
  exact .step hterm (.step (hnow _) (.step (hnow _) (.step (hgone _) (.refl _ _))))

/-- The group of the sample is ended, with no signal to another. -/
theorem stop_process_clean_sample : ∃ t : Host,
    Exec (Steady sampleIdentity) (stopProcess sampleResource) sampleHost (.ret ()) t ∧
      t.sent ≠ [] ∧ (∀ x ∈ t.sent, x.OwnOnly) ∧ Clean t := by
  obtain ⟨sent, hsent, hx⟩ := sampleHost_run
  have h := (stop_process_clean (r := sampleResource) rfl sampleIdentity_launched sampleHost).1
    _ _ sampleHost_recorded rfl hx
  exact ⟨_, hx, hsent, h.1, h.2 rfl⟩

lemma orphanHost_proc {x : ℕ} {p : Proc} (hp : orphanHost.procs x = some p) :
    x ≠ 8 ∧ sampleHost.procs x = some p := by
  by_cases hx : x = 8
  · subst hx
    cases hp
  · exact ⟨hx, (Function.update_of_ne hx _ _).symm.trans hp⟩

lemma orphanHost_recorded : Recorded sampleIdentity orphanHost where
  group _ _ hp _ := (sampleHost_proc (orphanHost_proc hp).2).1
  one _ _ _ _ _ hq _ _ _ := (sampleHost_proc (orphanHost_proc hq).2).2.1
  leader _ hp := absurd rfl (orphanHost_proc hp).1
  kept _ hp _ _ _ _ := absurd rfl (orphanHost_proc hp).1

/-- **Descendants survive a destroy**: their leader is gone, so none of them is looked for. -/
theorem descendants_survive :
    ¬ ∀ (r : Resource) (i : ProcessIdentity) (s t : Host), r.process = some i → Launched i →
      Recorded i s → s.sent = [] → Exec (host i) (stopProcess r) s (.ret ()) t →
      Clean t ∧ ∀ x ∈ t.sent, x.OwnOnly := by
  intro h
  have hclean := (h sampleResource sampleIdentity orphanHost orphanHost rfl
    sampleIdentity_launched orphanHost_recorded rfl
    (exec_of_leader_gone rfl sampleIdentity_launched)).1
  have := hclean 9 (sampleProc 501) rfl rfl
  cases this

end Bimo.Processes
