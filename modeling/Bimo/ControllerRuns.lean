import Bimo.Ownership

/-!
What the controller of a pod runs in.

The ports answer as they like: an agent may answer anything or fail, and a call to the source or
to the store takes place or fails. A writer that was started settles at some moment, which may
be long before the controller looks at it. A writer that nobody waits for any more goes on all
the same.

The world keeps the calls of the attempt under way with their answers, the newest first, and
what counts in the end: the candidates that were made public, whether the run was recorded as
failed, whether an execution was interrupted or everything was cancelled, and whether another
execution was started after that.
-/

namespace Bimo.Controller

open Wire (Json)
open PodStore (Fields spread)
open Contract

/-- A call and its answer. -/
abbrev Answered := (o : Call) × o.Ret

inductive Status
  | idle
  | running
  | settled (out : Except Err Json)

/-- A candidate that was made public, with what was on record then. -/
structure Ready where
  attempt : ℕ
  baseSha : String
  candidateSha : String
  record : List Answered

structure World where
  writers : Slot → Status := fun _ => .idle
  -- writers of earlier attempts that still run
  orphans : ℕ := 0
  interrupted : Bool := false
  -- an execution was started after that
  late : Bool := false
  record : List Answered := []
  ready : List Ready := []
  failed : Bool := false

/-- The execution ended with an interruption. -/
def stopped {α : Type} : Except Err α → Bool
  | .ok _ => false
  | .error e => terminalInterruption e

def World.setWriter (s : World) (slot : Slot) (status : Status) : World :=
  { s with writers := fun s' => if s' = slot then status else s.writers s' }

/-- An execution that ends while the controller is busy: a writer of this attempt or, where no
slot is given, of an earlier one. -/
def World.settle (s : World) (slot : Option Slot) (out : Except String Json) : World :=
  let s := { s with interrupted := s.interrupted || stopped (out.mapError Err.agent) }
  match slot with
  | some slot => s.setWriter slot (.settled (out.mapError Err.agent))
  | none => { s with orphans := s.orphans - 1 }

lemma settle_writers (s : World) (slot : Slot) (out : Except String Json) :
    (s.settle (some slot) out).writers slot = .settled (out.mapError Err.agent) :=
  if_pos rfl

def World.running (s : World) : Option Slot → Prop
  | some slot => s.writers slot = .running
  | none => 0 < s.orphans

/-- These executions end, one after the other. -/
inductive Settles : World → List (Option Slot × Except String Json) → World → Prop
  | nil (s : World) : Settles s [] s
  | cons {s t : World} {slot : Option Slot} {out : Except String Json}
      {l : List (Option Slot × Except String Json)} (hrunning : s.running slot)
      (hrest : Settles (s.settle slot out) l t) : Settles s ((slot, out) :: l) t

/-! ### The record of an attempt -/

def planKept : Answered → Option Json
  | ⟨.keepPlan plan, _⟩ => some plan
  | _ => none

def workKept : Answered → Option Json
  | ⟨.keepWork result, _⟩ => some (.obj result)
  | _ => none

def gateKept : Answered → Option Fields
  | ⟨.keepGate receipt, _⟩ => some receipt
  | _ => none

/-- What the attempt has put on its record, the oldest first. -/
def keptOf (record : List Answered) : Option Json × List Json × List Fields :=
  (record.findSome? planKept, record.reverse.filterMap workKept, record.reverse.filterMap gateKept)

lemma keptOf_cons {x : Answered} {l : List Answered} (hplan : planKept x = none)
    (hwork : workKept x = none) (hgate : gateKept x = none) : keptOf (x :: l) = keptOf l := by
  simp [keptOf, hplan, hwork, hgate]

/-! ### Steps -/

/-- The controller has looked at what this writer came to. -/
def taken (slot : Slot) : Answered → Bool
  | ⟨.race _, (slot', _)⟩ => slot' = slot
  | _ => false

def can (s : World) : (o : Call) → o.Ret → Prop
  | .race pending, (slot, out) => slot ∈ pending ∧ s.writers slot = .settled out
  | .active slot, active =>
    (active = false → ∃ out, s.writers slot = .settled out) ∧
      (active = true → s.record.any (taken slot) = false)
  | .settleAll, _ => (∀ slot, s.writers slot ≠ .running) ∧ s.orphans = 0
  | .kept, r => r = keptOf s.record
  | _, _ => True

/-- The slots whose writers still run. -/
def World.left (s : World) : List Slot :=
  writerIds.filter fun slot => match s.writers slot with
    | .running => true
    | _ => false

/-- What a call does, but for its place on the record. -/
def effect (s : World) : (o : Call) → o.Ret → World
  | .begin _, _ =>
    { s with orphans := s.orphans + s.left.length, writers := fun _ => .idle }
  | .start slot _, _ => { s.setWriter slot .running with late := s.late || s.interrupted }
  | .reject slot e, _ => s.setWriter slot (.settled (.error e))
  | .execute _, r =>
    { s with
      interrupted := s.interrupted || stopped (r.mapError Err.agent)
      late := s.late || s.interrupted }
  | .cancelActive, _ => { s with interrupted := true }
  | .appendEvent (.publicationReady n baseSha candidateSha _), .ok () =>
    { s with ready := { attempt := n, baseSha := baseSha, candidateSha := candidateSha
                        record := s.record } :: s.ready }
  | .finish _, .ok () => { s with failed := true }
  | _, _ => s

def isBegin : Call → Bool
  | .begin _ => true
  | _ => false

def World.next (s : World) (o : Call) (r : o.Ret) : World :=
  { effect s o r with record := if isBegin o then [] else ⟨o, r⟩ :: s.record }

/-- The world, where a step is taken only if it meets a condition on the state before it, the
call with its answer, and the executions that end meanwhile. -/
def envWhere (allowed : World → (o : Call) → o.Ret → List (Option Slot × Except String Json) → Prop) :
    Env Call Call.Ret World where
  step s o r t := ∃ l s', Settles s l s' ∧ allowed s o r l ∧ can s' o r ∧ t = s'.next o r

/-- The world as it is. -/
def env : Env Call Call.Ret World := envWhere fun _ _ _ _ => True

/-! ### Runs with given answers -/

/-- Ports that answer in a given way: each writer settles at the moment it is looked at, in this
order. -/
structure Ports where
  writer : Slot → Except String Json
  order : List Slot
  answer : (o : Call) → o.Ret

namespace Ports

variable (P : Ports)

def first (pending : List Slot) : Slot := (P.order.find? (pending.contains ·)).getD .engineeringA

def reply (s : World) : (o : Call) → o.Ret
  | .race pending => (P.first pending, (P.writer (P.first pending)).mapError Err.agent)
  | .active slot => (s.left.contains slot : Bool)
  | .kept => keptOf s.record
  | o => P.answer o

def may (s : World) : Call → Bool
  | .race pending => pending.contains (P.first pending) && s.left.contains (P.first pending)
  | .active slot => s.left.contains slot && !s.record.any (taken slot)
  | .settleAll => s.left.isEmpty && s.orphans == 0
  | _ => true

def after (s : World) : (o : Call) → o.Ret → World
  | .race pending, r =>
    (s.settle (some (P.first pending)) (P.writer (P.first pending))).next (.race pending) r
  | o, r => s.next o r

/-- The executions that end during a call. -/
def ends : Call → List (Option Slot × Except String Json)
  | .race pending => [(some (P.first pending), P.writer (P.first pending))]
  | _ => []

variable {P}

lemma running_of_left {s : World} {slot : Slot} (h : s.left.contains slot = true) :
    s.writers slot = .running := by
  have hmem : slot ∈ s.left := by simpa using h
  have hrun := (List.mem_filter.mp hmem).2
  revert hrun
  cases s.writers slot <;> simp

lemma not_running_of_left {s : World} (h : s.left.isEmpty = true) (slot : Slot) :
    s.writers slot ≠ .running := by
  intro hrun
  have hmem : slot ∈ s.left := by
    refine List.mem_filter.mpr ⟨by cases slot <;> decide, ?_⟩
    rw [hrun]
  rw [List.isEmpty_iff.mp h] at hmem
  cases hmem

lemma step_reply {allowed : World → (o : Call) → o.Ret → List (Option Slot × Except String Json) → Prop}
    {s : World} {o : Call} (h : P.may s o = true)
    (hallowed : allowed s o (P.reply s o) (P.ends o)) :
    (envWhere allowed).step s o (P.reply s o) (P.after s o (P.reply s o)) := by
  cases o with
  | race pending =>
      obtain ⟨hpending, hleft⟩ := Bool.and_eq_true_iff.mp h
      have hsettles : Settles s (P.ends (.race pending))
          (s.settle (some (P.first pending)) (P.writer (P.first pending))) :=
        .cons (show s.running (some (P.first pending)) from running_of_left hleft) (.nil _)
      have hcan : can (s.settle (some (P.first pending)) (P.writer (P.first pending)))
          (.race pending) (P.reply s (.race pending)) :=
        ⟨by simpa using hpending, settle_writers _ _ _⟩
      exact ⟨_, _, hsettles, hallowed, hcan, rfl⟩
  | active slot =>
      obtain ⟨hleft, htaken⟩ := Bool.and_eq_true_iff.mp h
      refine ⟨_, _, .nil _, hallowed, ⟨fun hno => ?_, fun _ => by simpa using htaken⟩, rfl⟩
      have hyes : s.left.contains slot = false := hno
      rw [hyes] at hleft
      cases hleft
  | settleAll =>
      obtain ⟨hleft, horphans⟩ := Bool.and_eq_true_iff.mp h
      exact ⟨_, _, .nil _, hallowed, ⟨not_running_of_left hleft, by simpa using horphans⟩, rfl⟩
  | kept => exact ⟨_, _, .nil _, hallowed, rfl, rfl⟩
  | _ => exact ⟨_, _, .nil _, hallowed, trivial, rfl⟩

end Ports

/-! ### Prompts in a run

Prompts are far below their limit in the runs below, and a bound on their size is enough to
tell. -/

/-- `buildPrompt`, with a bound on the size looked at before the size. -/
def quickPrompt (instructions phase : String) (details : Fields) : Except String Prompt :=
  let context := Json.obj (spread [("version", Wire.ofNat 1), ("phase", .str phase),
    ("authority", .str "Return only the strict receipt for this bounded execution.")] details)
  if instructions.utf8ByteSize + contextHeading.utf8ByteSize + Sizes.atMost 0 context ≤ 252 * 1024
  then .ok { instructions := instructions, context := context }
  else buildPrompt instructions phase details

lemma buildPrompt_eq_quickPrompt : buildPrompt = quickPrompt := by
  funext instructions phase details
  rw [quickPrompt]
  split_ifs with h
  · have hle := Sizes.bytes_pretty_le 0 (Json.obj (spread [("version", Wire.ofNat 1),
      ("phase", .str phase),
      ("authority", .str "Return only the strict receipt for this bounded execution.")] details))
    rw [buildPrompt, if_neg]
    rw [Sizes.len_eq_utf8ByteSize, Sizes.len_eq_utf8ByteSize]
    omega
  · rfl

/-! ### A pod that works -/

def resultSha : String := "9876543210987654321098765432109876543210"

def digest : String := "0123456789012345678901234567890123456789012345678901234567890123"

/-- The fields that every receipt has. -/
def receiptBody : Fields :=
  [("what", .str "Done."), ("why", .str "As planned."), ("evidence", .arr [.str "log"]),
    ("requirementIds", .arr [.str "R-1"]), ("acceptanceIds", .arr [.str "A-1"])]

def writerReceipt (outcome why : String) : Json :=
  .obj [("outcome", .str outcome), ("baseSha", .str sampleSha), ("what", .str "Done."),
    ("why", .str why), ("evidence", .arr [.str "log"]), ("requirementIds", .arr [.str "R-1"]),
    ("acceptanceIds", .arr [.str "A-1"]), ("inboxCursor", .num "0"), ("dependencyRequest", .null)]

def checkerReceipt : Json :=
  let head : Fields := [("outcome", .str "passed"), ("baseSha", .str sampleSha),
    ("resultSha", .str resultSha), ("diffSha256", .str digest)]
  let files : Fields := [("files", .arr []), ("deliveredInbox", .arr [])]
  .obj (head ++ receiptBody ++ files)

def conformanceReceipt (gate : Gate) : Json :=
  let head : Fields :=
    [("gate", .str gate.name), ("outcome", .str "passed"), ("candidateSha", .str resultSha)]
  let files : Fields := [("files", .arr [])]
  .obj (head ++ receiptBody ++ files)

def agentAnswer (input : AgentInput) : Json :=
  match input.role with
  | .planner => samplePlan
  | .writer _ => writerReceipt "completed" "As planned."
  | .checker => checkerReceipt
  | .conformance gate => conformanceReceipt gate

def changedPath : Slot → String
  | .engineeringA => "src/Core/main.js"
  | .engineeringB => "web/index.js"
  | .qaTests => "test/main.js"

def portAnswer : (o : Call) → o.Ret
  | .now => some 0
  | .execute input => .ok (agentAnswer input)
  | .prepareAssignment =>
    .ok (.obj [("baseSha", .str sampleSha), ("existingDirectories", sampleDirectories)])
  | .createReadView id _ => .ok (.obj [("id", .str id), ("root", .str "/view")])
  | .createWorktree _ slot _ =>
    .ok (.obj [("id", .str slot.name), ("root", .str "/work"), ("writeDirectories", .arr [])])
  | .createSnapshot _ _ => .ok (.obj [])
  | .validateAndCommit slot _ =>
    .ok (.obj [("baseSha", .str sampleSha), ("changedPaths", .arr [.str (changedPath slot)]),
      ("changedBytes", .num "1"), ("diffSha256", .str digest), ("resultSha", .str resultSha)])
  | .combineBase _ _ _ => .ok (.obj [])
  | .integrate _ _ _ _ => .ok (.obj [("candidateSha", .str resultSha)])
  | .verifyCandidate sha _ => .ok (.obj [("status", .str "passed"), ("candidateSha", .str sha)])
  | .scan _ sha => .ok (.obj [("status", .str "passed"), ("candidateSha", .str sha)])
  | .enqueueInbox _ _ => .ok (.obj [])
  | .readInbox _ _ => .ok []
  | .cancelActive | .close _ | .appendEvent _ | .writeAttemptPlan _ _ | .writeWorkResult _ _
  | .writeGateReceipt _ _ | .finish _ => .ok ()
  | .race _ => (.engineeringA, .ok .null)
  | .active _ => true
  | .kept => (none, [], [])
  | .start _ _ | .reject _ _ | .settleAll | .begin _ | .keepPlan _ | .keepWork _ | .keepGate _
  | .keepError _ => ()

/-- Agents and ports that do what they are asked. -/
def goodPorts : Ports where
  writer _ := .ok (writerReceipt "completed" "As planned.")
  order := writerIds
  answer := portAnswer

def podInput : PodInput where
  lib := plainLib
  template := sampleTemplate
  templateDigest := digest
  prompts := .obj (promptKeys.map fun key => (key, .str "Work."))
  assignment := .obj []
  repository := "/repository"
  baseRevision := "main"
  targetBranch := "main"
  runId := "run"
  stateRoot := "/state"
  deadlineAt := none
  combines := true

end Bimo.Controller
