import Bimo.Retry
import Bimo.Trace
import Bimo.Budgets
import Bimo.Closing

/-!
How many agents work at a time.

The gateway of a pod is made for as many requests at once as its template has writers. The
controller keeps to that: the three writers are started together, and what is executed besides is
executed alone, or while one of the writers has settled already. Only where an attempt starts some
of its writers but not all is there a writer that nobody waits for, and the next attempt begins
beside it.
-/

namespace Bimo.Controller

open Wire (Json)
open PodStore (Fields field plainObject require_eq)
open Contract

/-! ### Agents at work -/

/-- The program waits for an execution that it has started. -/
def executing {α : Type} : Io α → Option AgentInput
  | .call (.execute input) _ => some input
  | _ => none

/-- The executions that run. -/
def atWork {α : Type} (p : Io α) (s : World) : ℕ :=
  s.left.length + s.orphans + (executing p).toList.length

/-- The executions that run for the writer of a slot, in its workspace. -/
def onSlot {α : Type} (slot : Slot) (p : Io α) (s : World) : ℕ :=
  s.left.countP (· = slot) + (executing p).toList.countP (·.role = .writer slot)

/-- `Object.keys(loaded.template.writers).length` -/
def modelConcurrency (template : Json) : ℕ :=
  match template.get "writers" with
  | some (.obj l) => l.length
  | _ => 0

lemma modelConcurrency_eq {lib : Lib} {v : Json} {t : Template}
    (h : validatePodTemplate lib v = .ok t) : modelConcurrency v = 3 := by
  obtain ⟨l, hl, h⟩ := bind_eq_ok.mp h
  have hv : v = .obj l := (keys_of_exactObject hl).1
  obtain ⟨_, -, h⟩ := bind_eq_ok.mp h
  obtain ⟨_, -, h⟩ := bind_eq_ok.mp h
  obtain ⟨_, -, h⟩ := bind_eq_ok.mp h
  obtain ⟨_, -, h⟩ := bind_eq_ok.mp h
  obtain ⟨_, -, h⟩ := bind_eq_ok.mp h
  obtain ⟨_, -, h⟩ := bind_eq_ok.mp h
  obtain ⟨_, -, h⟩ := bind_eq_ok.mp h
  obtain ⟨_, -, h⟩ := bind_eq_ok.mp h
  obtain ⟨_, -, h⟩ := bind_eq_ok.mp h
  obtain ⟨_, -, h⟩ := bind_eq_ok.mp h
  obtain ⟨ws, hws, h⟩ := bind_eq_ok.mp h
  obtain ⟨_, hkeys, -⟩ := bind_eq_ok.mp h
  have hwriters : field l "writers" = .obj ws := PodStore.plainObject_eq hws
  have hlookup : l.lookup "writers" = some (.obj ws) := by
    unfold field at hwriters
    cases hfound : l.lookup "writers" with
    | none =>
        rw [hfound] at hwriters
        cases hwriters
    | some w =>
        rw [hfound] at hwriters
        exact congrArg some hwriters
  have hget : (Json.obj l).get "writers" = some (.obj ws) := hlookup
  rw [modelConcurrency, hv, hget]
  exact (require_eq.mp hkeys).1

/-- There is room for the execution, and its writer does not run already. -/
def roomFor (s : World) : Call → Prop
  | .execute input =>
    s.left.length + s.orphans < 3 ∧ ∀ slot, input.role = .writer slot → s.writers slot ≠ .running
  | .start slot _ => s.left.length + s.orphans < 3 ∧ s.writers slot ≠ .running
  | _ => True

def started : Status → Bool
  | .idle => false
  | _ => true

/-- An attempt begins only where the one before has started all of its writers or none. -/
def unbroken (s : World) : (o : Call) → o.Ret → List (Option Slot × Except String Json) → Prop
  | .begin _, _, _ => ∀ a b, started (s.writers a) = started (s.writers b)
  | _, _, _ => True

abbrev unbrokenEnv : Env Call Call.Ret World := envWhere unbroken

/-! ### Writers that settle -/

/-- What may have changed is that writers have settled. -/
structure Fewer (s t : World) : Prop where
  orphans : t.orphans ≤ s.orphans
  writers : ∀ slot, t.writers slot = s.writers slot ∨
    s.writers slot = .running ∧ ∃ out, t.writers slot = .settled out

namespace Fewer

variable {s t u : World}

lemma refl (s : World) : Fewer s s := ⟨le_rfl, fun _ => .inl rfl⟩

lemma trans (h : Fewer s t) (h' : Fewer t u) : Fewer s u := by
  refine ⟨h'.orphans.trans h.orphans, fun slot => ?_⟩
  rcases h.writers slot with hst | ⟨hrun, out, hout⟩
  · rw [← hst]
    exact h'.writers slot
  · rcases h'.writers slot with htu | ⟨hrun', -⟩
    · exact .inr ⟨hrun, out, htu.trans hout⟩
    · rw [hout] at hrun'
      cases hrun'

lemma of_eq (horphans : t.orphans = s.orphans) (hwriters : t.writers = s.writers) : Fewer s t :=
  ⟨horphans.le, fun _ => .inl (congrFun hwriters _)⟩

lemma started (h : Fewer s t) (slot : Slot) :
    started (t.writers slot) = started (s.writers slot) := by
  rcases h.writers slot with hst | ⟨hrun, out, hout⟩
  · rw [hst]
  · rw [hrun, hout]
    rfl

lemma not_running (h : Fewer s t) {slot : Slot} (hs : s.writers slot ≠ .running) :
    t.writers slot ≠ .running := by
  rcases h.writers slot with hst | ⟨hrun, -⟩
  · rwa [hst]
  · exact absurd hrun hs

lemma no_orphans (h : Fewer s t) (hs : s.orphans = 0) : t.orphans = 0 :=
  Nat.le_zero.mp (hs ▸ h.orphans)

end Fewer

lemma Settles.fewer {s t : World} {l : List (Option Slot × Except String Json)}
    (h : Settles s l t) : Fewer s t := by
  induction h with
  | nil s => exact Fewer.refl s
  | @cons s t slot out l hrunning hrest ih =>
      refine Fewer.trans ?_ ih
      cases slot with
      | none => exact ⟨Nat.sub_le _ _, fun _ => .inl rfl⟩
      | some slot =>
          refine ⟨le_rfl, fun slot' => ?_⟩
          by_cases heq : slot' = slot
          · subst heq
            exact .inr ⟨hrunning, _, settle_writers s slot' out⟩
          · exact .inl (if_neg heq)

/-- A call that neither starts nor ends a writer, nor waits for one. -/
def aside : Call → Bool
  | .begin _ | .start _ _ | .reject _ _ | .race _ => false
  | _ => true

/-- Such a call, and no execution of a writer. -/
def modest : Call → Bool
  | .execute input => match input.role with
    | .writer _ => false
    | _ => true
  | o => aside o

/-- Such a call, and no execution at all. -/
def idleCall : Call → Bool
  | .execute _ => false
  | o => aside o

lemma aside_of_modest {o : Call} (h : modest o = true) : aside o = true := by
  cases o <;> first | rfl | exact h

lemma aside_of_idleCall {o : Call} (h : idleCall o = true) : aside o = true := by
  cases o <;> first | rfl | exact h

lemma effect_aside {s : World} {o : Call} (h : aside o = true) (r : o.Ret) :
    (effect s o r).orphans = s.orphans ∧ (effect s o r).writers = s.writers := by
  unfold effect
  split
  all_goals first | exact ⟨rfl, rfl⟩ | cases h

lemma step_aside {s t : World} {o : Call} {r : o.Ret} (h : aside o = true)
    (hstep : unbrokenEnv.step s o r t) : Fewer s t := by
  obtain ⟨l, s', hsettles, -, -, rfl⟩ := hstep
  obtain ⟨horphans, hwriters⟩ := effect_aside (s := s') h r
  exact hsettles.fewer.trans (.of_eq horphans hwriters)

/-! ### States -/

/-- No writer runs. -/
def Alone (s : World) : Prop := s.orphans = 0 ∧ ∀ slot, s.writers slot ≠ .running

/-- This writer does not run, nor does one that was left behind. -/
def Apart (slot : Slot) (s : World) : Prop := s.orphans = 0 ∧ s.writers slot ≠ .running

/-- An attempt that is over: no writer runs, or one was never started. -/
def Concluded (s : World) : Prop :=
  s.orphans = 0 ∧ ((∀ slot, s.writers slot ≠ .running) ∨ ∃ slot, started (s.writers slot) = false)

lemma Alone.fewer {s t : World} (hs : Alone s) (h : Fewer s t) : Alone t :=
  ⟨h.no_orphans hs.1, fun slot => h.not_running (hs.2 slot)⟩

lemma Apart.fewer {slot : Slot} {s t : World} (hs : Apart slot s) (h : Fewer s t) : Apart slot t :=
  ⟨h.no_orphans hs.1, h.not_running hs.2⟩

lemma Concluded.fewer {s t : World} (hs : Concluded s) (h : Fewer s t) : Concluded t := by
  refine ⟨h.no_orphans hs.1, ?_⟩
  rcases hs.2 with hall | ⟨slot, hslot⟩
  · exact .inl fun slot => h.not_running (hall slot)
  · exact .inr ⟨slot, (h.started slot).trans hslot⟩

lemma Alone.concluded {s : World} (h : Alone s) : Concluded s := ⟨h.1, .inl h.2⟩

lemma mem_left {s : World} {slot : Slot} : slot ∈ s.left ↔ s.writers slot = .running := by
  have hmem : slot ∈ writerIds := by cases slot <;> decide
  rw [World.left, List.mem_filter]
  cases s.writers slot <;> simp [hmem]

lemma left_nodup (s : World) : s.left.Nodup :=
  List.Nodup.filter _ (by decide)

lemma left_length_le (s : World) : s.left.length ≤ 3 := List.length_filter_le _ writerIds

lemma left_eq_nil {s : World} (h : ∀ slot, s.writers slot ≠ .running) : s.left = [] :=
  List.eq_nil_iff_forall_not_mem.mpr fun slot hmem => h slot (mem_left.mp hmem)

lemma left_length_lt {s : World} {slot : Slot} (h : s.writers slot ≠ .running) :
    s.left.length < 3 := by
  refine lt_of_le_of_ne (left_length_le s) fun heq => h ?_
  have hall : s.left = writerIds :=
    List.filter_eq_self.mpr (List.length_filter_eq_length_iff.mp heq)
  exact mem_left.mp (hall ▸ (by cases slot <;> decide))

lemma roomFor_of_alone {s : World} {o : Call} (hs : Alone s) (ho : aside o = true) :
    roomFor s o := by
  cases o with
  | execute input =>
      refine ⟨?_, fun slot _ => hs.2 slot⟩
      rw [left_eq_nil hs.2, hs.1]
      decide
  | start slot input => cases ho
  | _ => trivial

lemma roomFor_of_apart {slot : Slot} {s : World} {o : Call} (hs : Apart slot s)
    (ho : modest o = true) : roomFor s o := by
  cases o with
  | execute input =>
      refine ⟨?_, fun slot' hrole => ?_⟩
      · rw [hs.1]
        exact left_length_lt hs.2
      · rw [modest, hrole] at ho
        cases ho
  | start slot input => cases ho
  | _ => trivial

lemma roomFor_of_idleCall {s : World} {o : Call} (ho : idleCall o = true) : roomFor s o := by
  cases o with
  | execute input => cases ho
  | start slot input => cases ho
  | _ => trivial

/-! ### What the parts of a run ask for -/

/-- The program makes only calls of this kind. -/
structure Only (P : Call → Bool) {α : Type} (p : Io α) : Prop where
  does : p.Does (P · = true) fun _ => True

section Only

variable {α β : Type} {P : Call → Bool}

lemma only_pure (a : α) : Only P (pure a : Io α) := ⟨trivial⟩

lemma only_fail (e : Err) : Only P (Prog.fail e : Io α) := ⟨trivial⟩

lemma Only.bind {p : Io α} {f : α → Io β} (hp : Only P p) (hf : ∀ a, Only P (f a)) :
    Only P (p >>= f) :=
  ⟨hp.does.bind fun a _ => (hf a).does⟩

lemma Only.attempt {p : Io α} (hp : Only P p) : Only P (p.attempt : Io (Except Err α)) :=
  ⟨hp.does.attempt.mono fun _ _ => trivial⟩

lemma Only.ask {o : Call} {f : o.Ret → Io β} (ho : P o = true) (hf : ∀ r, Only P (f r)) :
    Only P (Controller.ask o >>= f) :=
  ⟨ho, fun r => (hf r).does⟩

lemma only_ofExcept (x : Except Err α) : Only P (Prog.ofExcept x : Io α) :=
  ⟨Prog.does_ofExcept x⟩

lemma Only.valid {x : Except String α} {f : α → Io β} (hf : ∀ a, Only P (f a)) :
    Only P (Controller.valid x >>= f) :=
  (only_ofExcept _).bind hf

lemma Only.port {x : Except String α} {f : α → Io β} (hf : ∀ a, Only P (f a)) :
    Only P (Controller.port x >>= f) :=
  (only_ofExcept _).bind hf

lemma only_port (x : Except String α) : Only P (port x) := only_ofExcept _

end Only

section Parts

variable {P : Call → Bool} {cfg : Config} {at' : Attempt} {prior : List Evidence}

section Clock

variable (hnow : P .now = true)

include hnow

lemma only_now : Only P now := by
  refine Only.ask hnow fun r => ?_
  cases r with
  | none => exact only_fail _
  | some t => exact only_pure t

lemma only_remainingMs (deadlineAt : ℕ) : Only P (remainingMs cfg deadlineAt) := by
  refine (only_now hnow).bind fun t => ?_
  split_ifs
  · exact only_fail _
  · exact only_pure _

lemma only_executionSeconds (deadlineAt : ℕ) : Only P (executionSeconds cfg deadlineAt) := by
  refine (only_remainingMs hnow deadlineAt).bind fun ms => ?_
  split_ifs
  · exact only_fail _
  · exact only_pure _

end Clock

section Modest

variable (hP : ∀ o, modest o = true → P o = true)

include hP

lemma only_runAgent (deadlineAt : ℕ) (input : AgentInput)
    (hinput : ∀ seconds, P (.execute { input with timeoutSeconds := seconds }) = true) :
    Only P (runAgent cfg deadlineAt input) := by
  refine (only_remainingMs (hP _ rfl) deadlineAt).bind fun _ => ?_
  refine (only_executionSeconds (hP _ rfl) deadlineAt).bind fun seconds => ?_
  exact Only.ask (hinput seconds) fun r => only_ofExcept _

lemma only_recordWorkResult (w : Work) : Only P (recordWorkResult at' w) :=
  Only.ask (hP _ rfl) fun _ => Only.ask (hP _ rfl) fun r => only_port r

lemma only_recordGate (receipt : Fields) : Only P (recordGate at' receipt) :=
  Only.ask (hP _ rfl) fun _ => Only.ask (hP _ rfl) fun r => only_port r

lemma only_commitWriterResult (slot : Slot) (workspace : Json) (receipt : WriterReceipt) :
    Only P (commitWriterResult cfg at' slot workspace receipt) := by
  refine (only_remainingMs (hP _ rfl) _).bind fun _ => ?_
  refine Only.ask (hP _ rfl) fun _ => Only.port fun _ => Only.valid fun _ => ?_
  exact (only_recordWorkResult hP _).bind fun _ => only_pure _

lemma only_checkWriterResult (slot : Slot) (w : Work) (inbox : List Json) (cursor : ℕ) :
    Only P (checkWriterResult cfg at' slot w inbox cursor) := by
  refine Only.ask (hP _ rfl) fun _ => Only.port fun _ => ?_
  refine Only.valid fun _ => Only.valid fun _ => Only.valid fun _ => ?_
  refine (only_runAgent hP _ _ fun _ => hP _ rfl).bind fun _ => ?_
  refine Only.valid fun _ => Only.valid fun receipt => ?_
  refine (only_recordGate hP _).bind fun _ => ?_
  split_ifs
  · exact only_pure _
  · exact only_fail _

lemma only_createWorktrees (slots : List Slot) (workspace : Slot → Json) :
    Only P (createWorktrees at' slots workspace) := by
  induction slots generalizing workspace with
  | nil => exact only_pure _
  | cons slot slots ih =>
      refine Only.ask (hP _ rfl) fun _ => Only.port fun _ => Only.valid fun _ => ?_
      exact Only.valid fun _ => Only.valid fun _ => Only.valid fun _ => ih _

lemma only_noteFirst (p : Progress) (e : Err) : Only P (noteFirst p e) :=
  Only.ask (hP _ rfl) fun _ => only_pure _

lemma only_takeRequest (workspace : Slot → Json) (p : Progress) (slot : Slot)
    (receipt : WriterReceipt) (request : Request) :
    Only P (takeRequest cfg at' workspace p slot receipt request) := by
  refine Only.ask (hP _ rfl) fun active => ?_
  split
  · exact only_noteFirst hP _ _
  · refine (only_commitWriterResult hP _ _ _).bind fun checkpoint => ?_
    refine (only_checkWriterResult hP _ _ _ _).bind fun _ => ?_
    refine Only.ask (hP _ rfl) fun still => ?_
    split_ifs
    · exact only_noteFirst hP _ _
    · refine Only.ask (hP _ rfl) fun _ => Only.port fun _ => Only.valid fun _ => ?_
      exact Only.ask (hP _ rfl) fun _ => Only.port fun _ => only_pure _

lemma only_takeReceipt (workspace : Slot → Json) (p : Progress) (slot : Slot) (raw : Json) :
    Only P (takeReceipt cfg at' workspace p slot raw) := by
  refine Only.valid fun receipt => ?_
  dsimp only
  split
  · exact only_noteFirst hP _ _
  · exact only_takeRequest hP _ _ _ _ _
  · exact only_noteFirst hP _ _
  · exact only_pure _

lemma only_commitAll (workspace : Slot → Json) (initial : Slot → Option WriterReceipt)
    (slots : List Slot) (done : Slot → Option Work) :
    Only P (commitAll cfg at' workspace initial slots done) := by
  induction slots generalizing done with
  | nil => exact only_pure _
  | cons slot slots ih =>
      unfold commitAll
      split
      · exact ih done
      · split_ifs
        · exact ih done
        · exact (only_commitWriterResult hP _ _ _).bind fun _ => ih _

lemma only_checkAll (completed : Slot → Option Work) (slots : List Slot)
    (accepted : Slot → Option Work) (failure : Option Err) :
    Only P (checkAll cfg at' completed slots accepted failure) := by
  induction slots generalizing accepted failure with
  | nil =>
      cases failure with
      | none => exact only_pure _
      | some e => exact only_fail e
  | cons slot slots ih =>
      unfold checkAll
      split
      · exact ih accepted failure
      · refine (only_checkWriterResult hP _ _ _ _).attempt.bind fun r => ?_
        cases r with
        | ok _ => exact ih _ _
        | error e => exact Only.ask (hP _ rfl) fun _ => ih _ _

lemma only_conformance (gate : Gate) (candidateSha viewId : String) :
    Only P (conformance cfg at' gate candidateSha viewId) := by
  refine Only.valid fun _ => ?_
  refine (only_runAgent hP _ _ fun _ => hP _ rfl).bind fun _ => ?_
  refine Only.valid fun _ => Only.valid fun receipt => ?_
  refine (only_recordGate hP _).bind fun _ => ?_
  split_ifs
  · exact only_pure _
  · exact only_fail _

lemma only_candidateView (integrated : Fields) (candidateSha : String) :
    Only P (candidateView at' integrated candidateSha) := by
  unfold candidateView
  split_ifs
  · exact Only.valid fun _ => Only.valid fun _ => Only.valid fun _ => only_pure _
  · refine Only.ask (hP _ rfl) fun _ => Only.port fun _ => ?_
    exact Only.valid fun _ => Only.valid fun _ => Only.valid fun _ => only_pure _

lemma only_gates (commits : List Work) : Only P (gates cfg at' commits) := by
  refine (only_remainingMs (hP _ rfl) _).bind fun _ => ?_
  refine Only.ask (hP _ rfl) fun _ => Only.port fun _ => ?_
  refine Only.valid fun _ => Only.valid fun _ => ?_
  refine (only_candidateView hP _ _).bind fun _ => ?_
  refine Only.ask (hP _ rfl) fun _ => Only.port fun _ => Only.valid fun _ => ?_
  refine (only_conformance hP _ _ _).bind fun _ => ?_
  refine (only_conformance hP _ _ _).bind fun _ => ?_
  refine (only_remainingMs (hP _ rfl) _).bind fun _ => ?_
  refine Only.ask (hP _ rfl) fun _ => Only.port fun _ => Only.valid fun _ => ?_
  refine (only_recordGate hP _).bind fun _ => ?_
  refine Only.ask (hP _ rfl) fun _ => Only.port fun _ => Only.valid fun _ => ?_
  refine (only_recordGate hP _).bind fun _ => ?_
  exact (only_recordGate hP _).bind fun _ => only_pure _

lemma only_commitsOf (accepted : Slot → Option Work) :
    Only P (match commitsOf accepted with
      | none => Prog.fail (.invalid "attempt did not produce three accepted writer results")
      | some commits => gates cfg at' commits) := by
  split
  · exact only_fail _
  · exact only_gates hP _

lemma only_makePlan (baseSha : String) (existingDirectories : Json) (n deadlineAt : ℕ) :
    Only P (makePlan cfg baseSha existingDirectories n deadlineAt prior) := by
  refine (only_remainingMs (hP _ rfl) _).bind fun _ => ?_
  refine Only.ask (hP _ rfl) fun _ => Only.port fun _ => ?_
  refine Only.ask (hP _ rfl) fun _ => Only.port fun _ => Only.valid fun _ => ?_
  refine (only_runAgent hP _ _ fun _ => hP _ rfl).bind fun _ => ?_
  refine Only.valid fun _ => Only.valid fun _ => Only.ask (hP _ rfl) fun _ => ?_
  refine Only.valid fun _ => Only.ask (hP _ rfl) fun _ => Only.port fun _ => ?_
  exact Only.ask (hP _ rfl) fun _ => Only.port fun _ => only_pure _

end Modest

lemma only_executeWriter (slot : Slot) (workspace : Json) (inbox : List Json)
    (executionId base : String) :
    Only aside (executeWriter cfg at' prior slot workspace inbox executionId base) :=
  Only.valid fun _ => only_runAgent (fun _ => aside_of_modest) _ _ fun _ => rfl

lemma only_resume (workspace : Slot → Json) (initial : Slot → Option WriterReceipt)
    (request : InboxRequest) (accepted : Slot → Option Work) :
    Only aside (resume cfg at' prior workspace initial request accepted) := by
  have hmodest : ∀ o, modest o = true → aside o = true := fun _ => aside_of_modest
  refine Only.ask rfl fun _ => Only.port fun _ => Only.valid fun _ => Only.valid fun _ => ?_
  refine (only_executeWriter _ _ _ _ _).bind fun _ => ?_
  refine Only.valid fun _ => Only.valid fun _ => ?_
  refine (only_commitWriterResult hmodest _ _ _).bind fun _ => ?_
  refine (only_checkWriterResult hmodest _ _ _ _).bind fun _ => ?_
  refine Only.valid fun _ => Only.ask rfl fun _ => Only.port fun _ => Only.valid fun _ => ?_
  refine (only_executeWriter _ _ _ _ _).bind fun _ => ?_
  refine Only.valid fun _ => Only.valid fun _ => ?_
  refine (only_commitWriterResult hmodest _ _ _).bind fun _ => ?_
  exact (only_checkWriterResult hmodest _ _ _ _).bind fun _ => only_pure _

lemma only_prepare : Only idleCall (prepare cfg) := by
  refine Only.ask rfl fun _ => Only.port fun _ => ?_
  refine Only.ask rfl fun _ => Only.port fun _ => ?_
  refine Only.valid fun _ => Only.valid fun _ => Only.valid fun _ => ?_
  refine Only.ask rfl fun _ => Only.port fun _ => Only.valid fun _ => ?_
  split_ifs
  · refine Only.ask rfl fun _ => Only.port fun _ => ?_
    refine (only_remainingMs rfl _).bind fun _ => ?_
    refine Only.ask rfl fun _ => Only.port fun _ => Only.valid fun _ => ?_
    exact Only.ask rfl fun _ => Only.port fun _ => only_pure _
  · exact only_pure _

lemma only_conclude (r : Except Err String) : Only idleCall (conclude r) := by
  cases r with
  | ok c => exact Only.ask rfl fun _ => only_pure c
  | error e =>
      refine ⟨rfl, fun _ => ⟨rfl, fun _ => ⟨rfl, fun r => ?_⟩⟩⟩
      cases r <;> refine ⟨rfl, fun r => ?_⟩ <;> cases r <;> trivial

end Parts

/-- Where there is room for whatever the program asks for, it leaves fewer writers. -/
lemma safe_aside {α : Type} {P : Call → Bool} {I : World → Prop} {p : Io α} (hp : Only P p)
    (haside : ∀ o, P o = true → aside o = true)
    (hroom : ∀ s o, I s → P o = true → roomFor s o)
    (hI : ∀ s t, I s → Fewer s t → I t) {s : World} (hs : I s) :
    Safe unbrokenEnv roomFor p s fun _ t => Fewer s t := by
  obtain ⟨hp⟩ := hp
  induction p generalizing s with
  | ret a => exact Fewer.refl s
  | fail e => exact Fewer.refl s
  | call o k ih =>
      refine ⟨hroom s o hs hp.1, fun r t hstep => ?_⟩
      have hfewer := step_aside (haside o hp.1) hstep
      exact (ih r (hI s t hs hfewer) (hp.2 r)).mono fun _ _ => hfewer.trans

section States

variable {α : Type} {p : Io α} {s : World}

lemma safe_alone (hp : Only aside p) (hs : Alone s) :
    Safe unbrokenEnv roomFor p s fun _ t => Fewer s t :=
  safe_aside hp (fun _ h => h) (fun _ _ => roomFor_of_alone) (fun _ _ => Alone.fewer) hs

lemma safe_apart {slot : Slot} (hp : Only modest p) (hs : Apart slot s) :
    Safe unbrokenEnv roomFor p s fun _ t => Fewer s t :=
  safe_aside hp (fun _ => aside_of_modest) (fun _ _ => roomFor_of_apart) (fun _ _ => Apart.fewer)
    hs

lemma safe_idle (hp : Only idleCall p) :
    Safe unbrokenEnv roomFor p s fun _ t => Fewer s t :=
  safe_aside hp (fun _ => aside_of_idleCall) (fun _ _ _ => roomFor_of_idleCall)
    (fun _ _ _ _ => trivial) trivial

end States

/-! ### The writers -/

/-- These slots have a writer now, which runs or has settled. -/
structure Launched (l : List Slot) (s t : World) : Prop where
  orphans : t.orphans = 0
  started : ∀ slot, started (t.writers slot) = (started (s.writers slot) || decide (slot ∈ l))

lemma launched_of_setWriter {s s' t : World} {slot : Slot} (status : Status)
    (hs : s.orphans = 0) (hfewer : Fewer s s') (hstatus : started status = true)
    (horphans : t.orphans = s'.orphans)
    (hwriters : t.writers = (s'.setWriter slot status).writers) : Launched [slot] s t := by
  refine ⟨horphans.trans (hfewer.no_orphans hs), fun other => ?_⟩
  rw [hwriters, ← hfewer.started other]
  by_cases heq : other = slot
  · subst heq
    simp [World.setWriter, hstatus]
  · simp [World.setWriter, heq]

lemma step_start {s t : World} {slot : Slot} {input : AgentInput} {r : Unit}
    (h : unbrokenEnv.step s (.start slot input) r t) (hs : s.orphans = 0) :
    Launched [slot] s t := by
  obtain ⟨l, s', hsettles, -, -, rfl⟩ := h
  exact launched_of_setWriter .running hs hsettles.fewer rfl rfl rfl

lemma step_reject {s t : World} {slot : Slot} {e : Err} {r : Unit}
    (h : unbrokenEnv.step s (.reject slot e) r t) (hs : s.orphans = 0) :
    Launched [slot] s t := by
  obtain ⟨l, s', hsettles, -, -, rfl⟩ := h
  exact launched_of_setWriter (.settled (.error e)) hs hsettles.fewer rfl rfl rfl

lemma Launched.of_fewer {l : List Slot} {s t u : World} (h : Fewer s t) (h' : Launched l t u) :
    Launched l s u :=
  ⟨h'.orphans, fun slot => by rw [h'.started slot, h.started slot]⟩

lemma Launched.append {l l' : List Slot} {s t u : World} (h : Launched l s t)
    (h' : Launched l' t u) : Launched (l ++ l') s u := by
  refine ⟨h'.orphans, fun slot => ?_⟩
  rw [h'.started slot, h.started slot, Bool.or_assoc]
  simp [List.mem_append]

lemma not_running_of_started {s : World} {slot : Slot} (h : started (s.writers slot) = false) :
    s.writers slot ≠ .running := by
  intro hrun
  rw [hrun] at h
  cases h

section Writers

variable {cfg : Config} {at' : Attempt} {prior : List Evidence} {s : World}

lemma safe_launch (slot : Slot) (input : AgentInput) (hs : s.orphans = 0)
    (hslot : started (s.writers slot) = false) :
    Safe unbrokenEnv roomFor (launch cfg at' slot input) s fun r t =>
      r = .ok () ∧ Launched [slot] s t := by
  have hseconds : Only modest (executionSeconds cfg at'.deadlineAt) :=
    only_executionSeconds rfl _
  unfold launch
  rw [safe_bind, safe_attempt]
  refine (safe_apart hseconds ⟨hs, not_running_of_started hslot⟩).mono ?_
  rintro (e | seconds) t hfewer
  · refine ⟨trivial, fun r u hstep => ⟨rfl, ?_⟩⟩
    exact (step_reject hstep (hfewer.no_orphans hs)).of_fewer hfewer
  · have hidle := hfewer.not_running (not_running_of_started hslot)
    refine ⟨⟨?_, hidle⟩, fun r u hstep => ⟨rfl, ?_⟩⟩
    · rw [hfewer.no_orphans hs]
      exact left_length_lt hidle
    · exact (step_start hstep (hfewer.no_orphans hs)).of_fewer hfewer

lemma safe_launchAll (ready : List (Slot × AgentInput)) (hs : s.orphans = 0)
    (hnodup : (ready.map Prod.fst).Nodup)
    (hready : ∀ slot ∈ ready.map Prod.fst, started (s.writers slot) = false) :
    Safe unbrokenEnv roomFor (launchAll cfg at' ready) s fun r t =>
      r = .ok () ∧ Launched (ready.map Prod.fst) s t := by
  induction ready generalizing s with
  | nil => exact ⟨rfl, hs, fun slot => by simp⟩
  | cons p ready ih =>
      obtain ⟨hfirst, hrest⟩ := List.forall_mem_cons.mp hready
      obtain ⟨hnot, hnodup⟩ := List.nodup_cons.mp hnodup
      refine Safe.bind (safe_launch p.1 p.2 hs hfirst) ?_ fun _ _ h => nomatch h.1
      rintro ⟨⟩ t ⟨-, hlaunched⟩
      refine (ih hlaunched.orphans hnodup fun slot hslot => ?_).mono ?_
      · have hne : slot ≠ p.1 := fun heq => hnot (heq ▸ hslot)
        rw [hlaunched.started slot, hrest slot hslot]
        simp [hne]
      · rintro r u ⟨hr, hlaunched'⟩
        exact ⟨hr, hlaunched.append hlaunched'⟩

/-- Either all writers are started or the program fails with one that is not. -/
lemma safe_startWriters (workspace : Slot → Json) (slots : List Slot)
    (ready : List (Slot × AgentInput)) (hs : Alone s)
    (hslots : ready.map Prod.fst ++ slots = writerIds)
    (hidle : ∀ slot, started (s.writers slot) = false) :
    Safe unbrokenEnv roomFor (startWriters cfg at' prior workspace slots ready) s fun r t =>
      t.orphans = 0 ∧ ∀ e, r = .error e → ∃ slot, started (t.writers slot) = false := by
  have hnodup : (ready.map Prod.fst ++ slots).Nodup := hslots ▸ (by decide)
  obtain ⟨hready, -, hdisjoint⟩ := List.nodup_append.mp hnodup
  induction slots generalizing s ready with
  | nil =>
      refine (safe_launchAll ready hs.1 hready fun slot _ => hidle slot).mono ?_
      rintro r t ⟨rfl, hlaunched⟩
      exact ⟨hlaunched.orphans, nofun⟩
  | cons slot slots ih =>
      have hinput : Only aside (do
          let input ← valid (writerInput cfg at' prior slot (workspace slot) []
            (attemptId at' slot.name) at'.baseSha)
          let _ ← remainingMs cfg at'.deadlineAt
          pure input : Io AgentInput) :=
        Only.valid fun input =>
          (only_remainingMs rfl _).bind fun _ => only_pure input
      unfold startWriters
      rw [safe_bind, safe_attempt]
      refine (safe_alone hinput hs).mono ?_
      rintro (e | input) t hfewer <;> dsimp only
      · have hidle' := fun slot => (hfewer.started slot).trans (hidle slot)
        refine Safe.bind (safe_launchAll ready (hfewer.no_orphans hs.1) hready
          fun slot _ => hidle' slot) ?_ fun _ _ h => nomatch h.1
        rintro ⟨⟩ u ⟨-, hlaunched⟩
        refine ⟨hlaunched.orphans, fun _ _ => ⟨slot, ?_⟩⟩
        have hnot : slot ∉ ready.map Prod.fst := fun hmem =>
          hdisjoint slot hmem slot List.mem_cons_self rfl
        rw [hlaunched.started slot, hidle' slot, Bool.false_or]
        exact decide_eq_false hnot
      · have hslots' : (ready ++ [(slot, input)]).map Prod.fst ++ slots = writerIds := by
          simpa using hslots
        have hnodup' : ((ready ++ [(slot, input)]).map Prod.fst ++ slots).Nodup :=
          hslots' ▸ (by decide)
        obtain ⟨hready', -, hdisjoint'⟩ := List.nodup_append.mp hnodup'
        exact ih _ (hs.fewer hfewer) hslots' (fun slot => (hfewer.started slot).trans (hidle slot))
          hnodup' hready' hdisjoint'

/-- Noting an error does not fail. -/
lemma safe_noteError_fewer (p : Progress) (e : Err) (s : World) :
    Safe unbrokenEnv roomFor (noteError p e) s fun r t => (∃ p', r = .ok p') ∧ Fewer s t := by
  refine ⟨trivial, fun _ t hstep => ?_⟩
  have hfewer := step_aside rfl hstep
  show Safe _ _ (if terminalInterruption e = true then _ else _) _ _
  split_ifs
  · exact ⟨trivial, fun _ u hstep' => ⟨⟨_, rfl⟩, hfewer.trans (step_aside rfl hstep')⟩⟩
  · exact ⟨⟨_, rfl⟩, hfewer⟩

/-- The writers that run are among those that are waited for. -/
def Pending (pending : List Slot) (s : World) : Prop :=
  s.orphans = 0 ∧ ∀ slot, s.writers slot = .running → slot ∈ pending

lemma Pending.fewer {pending : List Slot} {t : World} (h : Pending pending s) (hfewer : Fewer s t) :
    Pending pending t := by
  refine ⟨hfewer.no_orphans h.1, fun slot hrun => h.2 slot ?_⟩
  rcases hfewer.writers slot with heq | ⟨hrun', -⟩
  · exact heq.symm.trans hrun
  · exact hrun'

/-- The writer that the race gives has settled, so that there is room for one other agent. -/
lemma step_race {pending : List Slot} {t : World} {slot : Slot} {out : Except Err Json}
    (h : unbrokenEnv.step s (.race pending) (slot, out) t) (hs : Pending pending s) :
    slot ∈ pending ∧ Apart slot t ∧ Pending (pending.erase slot) t := by
  obtain ⟨l, s', hsettles, -, ⟨hmem, hsettled⟩, rfl⟩ := h
  have hp := hs.fewer hsettles.fewer
  have hsettled : (s'.next (.race pending) (slot, out)).writers slot = .settled out := hsettled
  refine ⟨hmem, ⟨hp.1, by rw [hsettled]; nofun⟩, hp.1, fun other hrun => ?_⟩
  refine (List.mem_erase_of_ne ?_).mpr (hp.2 other hrun)
  rintro rfl
  rw [hsettled] at hrun
  cases hrun

lemma safe_settleWriters_room (workspace : Slot → Json) (k : ℕ) (pending : List Slot) (p : Progress)
    (hk : pending.length = k) (hs : Pending pending s) :
    Safe unbrokenEnv roomFor (settleWriters cfg at' workspace k pending p) s
      fun _ t => Alone t := by
  induction k generalizing s pending p with
  | zero =>
      obtain rfl := List.length_eq_zero_iff.mp hk
      exact ⟨hs.1, fun slot hrun => absurd (hs.2 slot hrun) List.not_mem_nil⟩
  | succ k ih =>
      unfold settleWriters
      refine ⟨trivial, ?_⟩
      rintro ⟨slot, out⟩ t hstep
      obtain ⟨hmem, hapart, hpending⟩ := step_race hstep hs
      have hlength : (pending.erase slot).length = k := by
        rw [List.length_erase_of_mem hmem, hk, Nat.add_sub_cancel]
      have hnote : ∀ (e : Err) (u : World), Fewer t u → Safe unbrokenEnv roomFor
          (noteError p e >>= settleWriters cfg at' workspace k (pending.erase slot)) u
          fun _ t => Alone t := by
        intro e u hfewer
        refine Safe.bind (safe_noteError_fewer p e u) ?_ fun _ _ h => by
          obtain ⟨_, hok⟩ := h.1
          cases hok
        rintro p' v ⟨-, hfewer'⟩
        exact ih _ p' hlength (hpending.fewer (hfewer.trans hfewer'))
      cases out with
      | error e => exact hnote e t (Fewer.refl t)
      | ok raw =>
          show Safe _ _ (if p.firstError.isSome = true then _ else _) _ _
          split_ifs
          · exact ih _ p hlength hpending
          · have htake : Only modest (takeReceipt cfg at' workspace p slot raw) :=
              only_takeReceipt (fun _ h => h) _ _ _ _
            rw [safe_bind, safe_attempt]
            refine (safe_apart htake hapart).mono ?_
            rintro (e | p') u hfewer
            · exact hnote e u hfewer
            · exact ih _ p' hlength (hpending.fewer hfewer)

end Writers

/-! ### Attempts -/

section Attempts

variable {cfg : Config} {at' : Attempt} {prior : List Evidence} {baseSha : String}
  {existingDirectories : Json} {s : World}

lemma pending_all (h : s.orphans = 0) : Pending writerIds s :=
  ⟨h, fun slot _ => by cases slot <;> decide⟩

/-- What is left of an attempt when its writers have settled. -/
lemma only_settled (cfg : Config) (hmodest : ∀ o, modest o = true → aside o = true)
    (at' : Attempt) (prior : List Evidence) (workspace : Slot → Json) (p : Progress) :
    Only aside (match p.firstError with
        | some e => Prog.fail e
        | none => do
          match writerIds.find? fun slot => (p.initial slot).isNone with
          | some slot =>
            let name := slot.name
            Prog.fail (.invalid s!"writer {name} did not return a receipt")
          | none => do
            let completed ← commitAll cfg at' workspace p.initial writerIds fun _ => none
            let accepted ← checkAll cfg at' completed writerIds (fun _ => none) none
            let accepted ← match p.inboxRequest with
              | some request => resume cfg at' prior workspace p.initial request accepted
              | none => pure accepted
            match commitsOf accepted with
            | none => Prog.fail (.invalid "attempt did not produce three accepted writer results")
            | some commits => gates cfg at' commits : Io String) := by
  split
  · exact only_fail _
  · split
    · exact only_fail _
    · refine (only_commitAll hmodest _ _ _ _).bind fun completed => ?_
      refine (only_checkAll hmodest _ _ _ _).bind fun accepted => ?_
      dsimp only
      split
      · exact (only_resume _ _ _ _).bind fun accepted => only_commitsOf hmodest accepted
      · exact only_commitsOf hmodest accepted

lemma safe_runAttempt (hs : Alone s) (hidle : ∀ slot, started (s.writers slot) = false) :
    Safe unbrokenEnv roomFor (runAttempt cfg at' prior) s fun _ t => Concluded t := by
  have hmodest : ∀ o, modest o = true → aside o = true := fun _ => aside_of_modest
  refine Safe.bind (safe_alone (only_createWorktrees hmodest _ _) hs) ?_
    fun _ t h => (hs.fewer h).concluded
  intro workspace t hfewer
  refine Safe.bind (safe_alone (p := ask (.appendEvent (.writersStarted at'.n)))
    ⟨rfl, fun _ => trivial⟩ (hs.fewer hfewer)) ?_ fun _ u h => (hs.fewer (hfewer.trans h)).concluded
  intro r u hfewer'
  refine Safe.bind (safe_alone (only_port r) (hs.fewer (hfewer.trans hfewer'))) ?_
    fun _ v h => (hs.fewer ((hfewer.trans hfewer').trans h)).concluded
  rintro ⟨⟩ v hfewer''
  have hall := (hfewer.trans hfewer').trans hfewer''
  refine Safe.bind (safe_startWriters workspace writerIds [] (hs.fewer hall) rfl
    fun slot => (hall.started slot).trans (hidle slot)) ?_ ?_
  · rintro ⟨⟩ w ⟨horphans, -⟩
    refine Safe.bind (safe_settleWriters_room workspace 3 writerIds {} rfl
      (pending_all horphans)) ?_ fun _ _ h => h.concluded
    intro p w' halone
    have hrest := only_settled cfg hmodest at' prior workspace p
    exact (safe_alone hrest halone).mono fun _ _ h => (halone.fewer h).concluded
  · rintro e w ⟨horphans, hsome⟩
    exact ⟨horphans, .inr (hsome e rfl)⟩

lemma safe_attemptOnce (n deadlineAt : ℕ) (hs : Alone s)
    (hidle : ∀ slot, started (s.writers slot) = false) :
    Safe unbrokenEnv roomFor (attemptOnce cfg baseSha existingDirectories n deadlineAt prior) s
      fun _ t => Concluded t := by
  have hplan : Only aside
      (makePlan cfg baseSha existingDirectories n deadlineAt prior) :=
    only_makePlan (fun _ => aside_of_modest) _ _ _ _
  refine Safe.bind (safe_alone hplan hs) ?_ fun _ t h => (hs.fewer h).concluded
  intro plan t hfewer
  refine Safe.bind (safe_runAttempt (hs.fewer hfewer)
    fun slot => (hfewer.started slot).trans (hidle slot)) ?_ fun _ _ h => h
  intro candidateSha u hended
  have hready : Only idleCall (do
      let r ← ask (.appendEvent (.publicationReady n baseSha candidateSha cfg.branch))
      port r
      pure candidateSha : Io String) :=
    Only.ask rfl fun _ => Only.port fun _ => only_pure candidateSha
  exact (safe_idle hready).mono fun _ _ h => hended.fewer h

/-- Where the attempt before has started all of its writers or none, nothing is left of it. -/
lemma step_begin_alone {n : ℕ} {t : World} {r : Unit} (h : unbrokenEnv.step s (.begin n) r t)
    (hs : Concluded s) : Alone t ∧ ∀ slot, started (t.writers slot) = false := by
  obtain ⟨l, s', hsettles, hsame, -, rfl⟩ := h
  have hended := hs.fewer hsettles.fewer
  have hrest : ∀ slot, s'.writers slot ≠ .running := by
    rcases hended.2 with hall | ⟨slot, hslot⟩
    · exact hall
    · intro other
      refine not_running_of_started ?_
      rw [hsettles.fewer.started other, hsame other slot, ← hsettles.fewer.started slot]
      exact hslot
  refine ⟨⟨?_, fun _ => nofun⟩, fun _ => rfl⟩
  show s'.orphans + s'.left.length = 0
  rw [hended.1, left_eq_nil hrest]
  rfl

lemma safe_attemptsFrom_room (k n : ℕ) (prior : List Evidence) (hs : Concluded s) :
    Safe unbrokenEnv roomFor (attemptsFrom cfg baseSha existingDirectories k n prior) s
      fun _ _ => True := by
  induction k generalizing s n prior with
  | zero => trivial
  | succ k ih =>
      unfold attemptsFrom
      refine Safe.bind (safe_idle (only_now rfl)) ?_ fun _ _ _ => trivial
      intro time t hfewer
      refine ⟨trivial, fun _ u hstep => ?_⟩
      obtain ⟨halone, hidle⟩ := step_begin_alone hstep (hs.fewer hfewer)
      show Safe _ _ ((attemptOnce _ _ _ _ _ _).attempt >>= _) _ _
      rw [safe_bind, safe_attempt]
      refine (safe_attemptOnce n _ halone hidle).mono ?_
      rintro (e | candidateSha) v hended
      · refine ⟨trivial, fun kept w hstep₁ => ⟨trivial, fun r x hstep₂ => ?_⟩⟩
        cases r with
        | error message => trivial
        | ok _ =>
            show Safe _ _ (if (terminalInterruption e || n == cfg.template.maxAttempts) = true
              then _ else _) _ _
            split_ifs
            · trivial
            · exact ih _ _ (hended.fewer ((step_aside rfl hstep₁).trans (step_aside rfl hstep₂)))
      · trivial

lemma safe_run_room (input : PodInput) (hs : Alone s) :
    Safe unbrokenEnv roomFor (runEngineeringPod input) s fun _ _ => True := by
  have hconfigure : Only idleCall (configure input) :=
    Only.valid fun _ => (only_now rfl).bind fun _ => Only.valid fun _ => only_pure _
  refine Safe.bind (safe_idle hconfigure) ?_ fun _ _ _ => trivial
  intro cfg t hfewer
  rw [runPod_eq, safe_bind, safe_attempt]
  refine Safe.mono (Q := fun _ _ => True) ?_
    fun r u _ => (safe_idle (only_conclude r)).mono fun _ _ _ => trivial
  refine Safe.bind (safe_idle only_prepare) ?_ fun _ _ _ => trivial
  rintro ⟨base, directories⟩ u hfewer'
  exact safe_attemptsFrom_room _ _ _ (hs.fewer (hfewer.trans hfewer')).concluded

end Attempts

/-! ### The number of agents -/

section Number

variable {s t : World}

/-- The writers that run, with those that were left behind. -/
def total (s : World) : ℕ := s.left.length + s.orphans

lemma left_length_le_of_subset (h : t.left ⊆ s.left) : t.left.length ≤ s.left.length :=
  (List.subperm_of_subset (left_nodup t) h).length_le

lemma total_fewer (h : Fewer s t) : total t ≤ total s := by
  refine Nat.add_le_add (left_length_le_of_subset fun slot hmem => ?_) h.orphans
  rcases h.writers slot with heq | ⟨hrun, -⟩
  · exact mem_left.mpr (heq.symm.trans (mem_left.mp hmem))
  · exact mem_left.mpr hrun

lemma total_start (s : World) (slot : Slot) (input : AgentInput) (r : Unit) :
    total (s.next (.start slot input) r) ≤ total s + 1 := by
  have hsub : (s.next (.start slot input) r).left ⊆ slot :: s.left := by
    intro other hmem
    by_cases heq : other = slot
    · exact heq ▸ List.mem_cons_self
    · refine List.mem_cons_of_mem _ (mem_left.mpr ?_)
      exact (if_neg heq).symm.trans (mem_left.mp hmem)
  have hlength := (List.subperm_of_subset (left_nodup _) hsub).length_le
  have horphans : (s.next (.start slot input) r).orphans = s.orphans := rfl
  rw [List.length_cons] at hlength
  rw [total, total, horphans]
  omega

lemma total_reject (s : World) (slot : Slot) (e : Err) (r : Unit) :
    total (s.next (.reject slot e) r) ≤ total s := by
  refine Nat.add_le_add (left_length_le_of_subset fun other hmem => mem_left.mpr ?_) le_rfl
  have hrun := mem_left.mp hmem
  have hwriters : (s.next (.reject slot e) r).writers other =
      if other = slot then .settled (.error e) else s.writers other := rfl
  rw [hwriters] at hrun
  split_ifs at hrun
  exact hrun

lemma total_begin (s : World) (n : ℕ) (r : Unit) : total (s.next (.begin n) r) = total s := by
  have hleft : (s.next (.begin n) r).left = [] := left_eq_nil fun _ => nofun
  rw [total, hleft]
  exact (Nat.zero_add _).trans (Nat.add_comm _ _)

/-- Where there is room for what is called, there are never more than three. -/
lemma step_total {o : Call} {r : o.Ret} (hpre : roomFor s o) (h : unbrokenEnv.step s o r t)
    (hs : total s ≤ 3) : total t ≤ 3 := by
  cases haside : aside o with
  | true => exact (total_fewer (step_aside haside h)).trans hs
  | false =>
      obtain ⟨l, s', hsettles, -, -, rfl⟩ := h
      have hs' := total_fewer hsettles.fewer
      cases o with
      | start slot input =>
          have hroom : total s < 3 := hpre.1
          have hstart := total_start s' slot input r
          omega
      | reject slot e => exact (total_reject s' slot e r).trans (hs'.trans hs)
      | begin n => exact (total_begin s' n r).le.trans (hs'.trans hs)
      | race pending => exact hs'.trans hs
      | _ => cases haside

/-- **At most three agents work at a time.** In every run in which an attempt begins only where
the one before has started all of its writers or none, whatever the agents answer and in whichever
order they settle, at most three executions run at any moment and at most one for the writer of
each slot; three is what the gateway is made for. -/
theorem at_most_three_at_work {input : PodInput} {p : Io String} {s : World}
    (h : Exec unbrokenEnv (runEngineeringPod input) {} p s) :
    (atWork p s ≤ 3 ∧ ∀ slot, onSlot slot p s ≤ 1) ∧
      (0 < atWork p s → modelConcurrency input.template = 3) := by
  have hstart : Alone ({} : World) := ⟨rfl, fun _ => nofun⟩
  have hsafe := safe_run_room input hstart
  have htotal : total s ≤ 3 :=
    hsafe.inv (fun _ _ _ _ hpre hstep => step_total hpre hstep) (by decide) h
  have hcount : ∀ slot, s.left.countP (· = slot) ≤ 1 := fun slot =>
    List.nodup_iff_count_le_one.mp (left_nodup s) slot
  refine ⟨?_, fun hwork => ?_⟩
  · cases hexec : executing p with
    | none =>
        refine ⟨by rw [atWork, hexec]; exact htotal, fun slot => ?_⟩
        rw [onSlot, hexec]
        exact hcount slot
    | some running =>
        obtain ⟨k, rfl⟩ : ∃ k, p = .call (.execute running) k := by
          unfold executing at hexec
          split at hexec
          · rename_i input' k
            obtain rfl := Option.some.inj hexec
            exact ⟨k, rfl⟩
          · cases hexec
        obtain ⟨hroom, hslots⟩ : roomFor s (.execute running) := hsafe.allowed h
        refine ⟨by rw [atWork, hexec]; exact hroom, fun slot => ?_⟩
        rw [onSlot, hexec]
        by_cases hrole : running.role = .writer slot
        · have hnot : slot ∉ s.left := fun hmem => hslots slot hrole (mem_left.mp hmem)
          have hzero : s.left.countP (· = slot) = 0 := List.count_eq_zero.mpr hnot
          simp [hzero, hrole]
        · have hone := hcount slot
          simpa [hrole] using hone
  · cases hcheck : checkInput input with
    | ok checked =>
        have hcheck : checkInput input = .ok (checked.1, checked.2) := hcheck
        exact modelConcurrency_eq (template_of_checkInput hcheck)
    | error message =>
        have hrun : runEngineeringPod input = Prog.fail (.invalid message) := by
          rw [runEngineeringPod, configure, hcheck]
          rfl
        rw [hrun] at h
        cases h
        cases hwork

end Number

/-- All writers of the attempt before were started, or none. -/
def allAlike (s : World) : Call → Bool
  | .begin _ => writerIds.all fun a => writerIds.all fun b =>
      started (s.writers a) == started (s.writers b)
  | _ => true

lemma unbroken_of_allAlike {s : World} {o : Call} {r : o.Ret}
    {l : List (Option Slot × Except String Json)} (h : allAlike s o = true) : unbroken s o r l := by
  cases o with
  | begin n =>
      intro a b
      have ha := List.all_eq_true.mp h a (by cases a <;> decide)
      have hb := List.all_eq_true.mp ha b (by cases b <;> decide)
      exact beq_iff_eq.mp hb
  | _ => exact trivial

/-- A run in which the three writers have just been started. -/
theorem three_at_work_good_ports : ∃ p s,
    Exec unbrokenEnv (runEngineeringPod podInput) {} p s ∧ atWork p s = 3 ∧
      (∀ slot, onSlot slot p s ≤ 1) ∧ modelConcurrency podInput.template = 3 := by
  have hrun : (follow (fun s o _ => (goodPorts.may s o && allAlike s o) = true) goodPorts.after
      goodPorts.reply 28 (runEngineeringPod podInput) {}).any
        (fun x => atWork x.1 x.2 == 3) = true := by
    delta runEngineeringPod runPod workflow attemptsFrom
    delta attemptsFrom._f attemptOnce makePlan runAttempt startWriters
    delta startWriters._f writerInput
    rw [buildPrompt_eq_quickPrompt]
    decide +kernel
  obtain ⟨⟨p, s⟩, hfollow, hthree⟩ := (Option.any_eq_true _ _).mp hrun
  have hexec : Exec unbrokenEnv (runEngineeringPod podInput) {} p s := by
    refine exec_of_follow (fun s o h => ?_) hfollow
    obtain ⟨hmay, halike⟩ := Bool.and_eq_true_iff.mp h
    exact Ports.step_reply hmay (unbroken_of_allAlike halike)
  have hthree : atWork p s = 3 := beq_iff_eq.mp hthree
  obtain ⟨⟨-, hslots⟩, hgateway⟩ := at_most_three_at_work hexec
  exact ⟨p, s, hexec, hthree, hslots, hgateway (by omega)⟩

/-! ### A writer that is left behind -/

/-- The program gets to a call at which more than three writers run, or is through as described. -/
structure Crowded {α : Type} (p : Io α) (s : World) (Q : Except Err α → World → Prop) : Prop where
  might : Might env (fun s _ => 3 < total s) p s Q

/-- The writers and the record of the attempt are as they were. -/
structure Like (s t : World) : Prop where
  writers : t.writers = s.writers
  orphans : t.orphans = s.orphans
  kept : keptOf t.record = keptOf s.record

lemma Like.refl (s : World) : Like s s := ⟨rfl, rfl, rfl⟩

lemma Like.trans {s t u : World} (h : Like s t) (h' : Like t u) : Like s u :=
  ⟨h'.writers.trans h.writers, h'.orphans.trans h.orphans, h'.kept.trans h.kept⟩

/-- A call with any answer, by which nothing is put on record. -/
def unkept : Call → Bool
  | .keepPlan _ | .keepWork _ | .keepGate _ | .active _ | .settleAll | .kept => false
  | o => aside o

lemma like_next {s : World} {o : Call} (ho : unkept o = true) (r : o.Ret) :
    Like s (s.next o r) ∧ can s o r := by
  have haside : aside o = true := by cases o <;> first | rfl | cases ho
  obtain ⟨horphans, hwriters⟩ := effect_aside (s := s) haside r
  have hrecord : (s.next o r).record = ⟨o, r⟩ :: s.record := by
    cases o <;> first | rfl | cases ho
  have hnone : planKept ⟨o, r⟩ = none ∧ workKept ⟨o, r⟩ = none ∧ gateKept ⟨o, r⟩ = none := by
    cases o <;> first | exact ⟨rfl, rfl, rfl⟩ | cases ho
  refine ⟨⟨hwriters, horphans, ?_⟩, by cases o <;> trivial⟩
  rw [hrecord]
  exact keptOf_cons hnone.1 hnone.2.1 hnone.2.2

section Crowded

variable {α β : Type} {s : World} {Q : Except Err β → World → Prop} {cfg : Config}
  {deadlineAt : ℕ}

lemma crowded_pure {a : β} (h : Q (.ok a) s) : Crowded (pure a) s Q := ⟨h⟩

lemma crowded_fail {e : Err} (h : Q (.error e) s) : Crowded (Prog.fail e) s Q := ⟨h⟩

/-- What follows a program goes on where that one ended. -/
lemma crowded_bind {p : Io α} {f : α → Io β}
    (h : Crowded p s fun r t => match r with
      | .ok a => Crowded (f a) t Q
      | .error e => Q (.error e) t) : Crowded (p >>= f) s Q := by
  refine ⟨(might_bind p f s Q).mpr (h.might.mono ?_)⟩
  rintro (e | a) t ht
  · exact ht
  · exact ht.might

lemma Crowded.unbind {p : Io α} {f : α → Io β} (h : Crowded (p >>= f) s Q) :
    Crowded p s fun r t => match r with
      | .ok a => Crowded (f a) t Q
      | .error e => Q (.error e) t := by
  refine ⟨((might_bind p f s Q).mp h.might).mono ?_⟩
  rintro (e | a) t ht
  · exact ht
  · exact ⟨ht⟩

lemma crowded_attempt {p : Io α} {f : Except Err α → Io β}
    (h : Crowded p s fun r t => Crowded (f r) t Q) : Crowded (p.attempt >>= f) s Q :=
  crowded_bind ⟨(might_attempt p s _).mpr h.might⟩

lemma crowded_ask {o : Call} {f : o.Ret → Io β} (ho : unkept o = true) (r : o.Ret)
    (h : ∀ t, Like s t → Crowded (f r) t Q) : Crowded (ask o >>= f) s Q := by
  obtain ⟨hlike, hcan⟩ := like_next (s := s) ho r
  exact ⟨.inr ⟨r, s.next o r, ⟨[], s, .nil s, trivial, hcan, rfl⟩, (h _ hlike).might⟩⟩

lemma crowded_valid {x : Except String α} {a : α} {f : α → Io β} (hx : x = .ok a)
    (h : Crowded (f a) s Q) : Crowded (valid x >>= f) s Q := by
  rw [hx]
  exact h

lemma crowded_port {x : Except String α} {a : α} {f : α → Io β} (hx : x = .ok a)
    (h : Crowded (f a) s Q) : Crowded (port x >>= f) s Q := by
  rw [hx]
  exact h

lemma crowded_remainingMs {Q : Except Err ℕ → World → Prop}
    (hleft : 10000 ≤ min cfg.deadlineAt deadlineAt)
    (h : ∀ t, Like s t → Q (.ok (min cfg.deadlineAt deadlineAt)) t) :
    Crowded (remainingMs cfg deadlineAt) s Q := by
  refine crowded_bind (crowded_ask rfl (some 0) fun t hlike => crowded_pure ?_)
  dsimp only
  rw [if_neg (by omega)]
  exact crowded_pure (h t hlike)

lemma crowded_executionSeconds {Q : Except Err ℕ → World → Prop}
    (hleft : 10000 ≤ min cfg.deadlineAt deadlineAt)
    (h : ∀ seconds t, Like s t → Q (.ok seconds) t) :
    Crowded (executionSeconds cfg deadlineAt) s Q := by
  refine crowded_bind (crowded_remainingMs hleft fun t hlike => ?_)
  dsimp only
  rw [if_neg (by omega)]
  exact crowded_pure (h _ t hlike)

/-- An agent that answers. -/
lemma crowded_runAgent {f : Json → Io β} {input : AgentInput} (raw : Json)
    (hleft : 10000 ≤ min cfg.deadlineAt deadlineAt)
    (h : ∀ t, Like s t → Crowded (f raw) t Q) :
    Crowded (runAgent cfg deadlineAt input >>= f) s Q := by
  refine crowded_bind (crowded_bind (crowded_remainingMs hleft fun t h₁ => ?_))
  refine crowded_bind (crowded_executionSeconds hleft fun seconds u h₂ => ?_)
  exact crowded_ask rfl (.ok raw) fun v h₃ => crowded_pure (h v (h₁.trans (h₂.trans h₃)))

lemma crowded_createWorktrees {at' : Attempt} {f : (Slot → Json) → Io β} (slots : List Slot)
    (workspace : Slot → Json) (h : ∀ workspace t, Like s t → Crowded (f workspace) t Q) :
    Crowded (createWorktrees at' slots workspace >>= f) s Q := by
  induction slots generalizing s workspace with
  | nil => exact h workspace s (Like.refl s)
  | cons slot slots ih =>
      refine crowded_bind ?_
      refine crowded_ask rfl (portAnswer (.createWorktree at'.n slot at'.baseSha)) fun t hlike => ?_
      have hid : named [("id", .str slot.name), ("root", .str "/work"),
          ("writeDirectories", .arr [])] "id" ("workspace " ++ slot.name ++ " ID is required") =
            .ok slot.name := by cases slot <;> rfl
      refine crowded_port rfl (crowded_valid rfl (crowded_valid hid ?_))
      refine crowded_valid rfl (crowded_valid rfl ?_)
      exact (ih _ fun workspace u hlike' => h workspace u (hlike.trans hlike')).unbind

lemma crowded_keepPlan {plan : Json} {f : Unit → Io β} (h : ∀ t, t.writers = s.writers →
    t.orphans = s.orphans → keptOf t.record = (some plan, (keptOf s.record).2) →
      Crowded (f ()) t Q) : Crowded (ask (.keepPlan plan) >>= f) s Q := by
  have hkept : keptOf (s.next (.keepPlan plan) ()).record =
      (some plan, (keptOf s.record).2) := by
    have hrecord : (s.next (.keepPlan plan) ()).record = ⟨.keepPlan plan, ()⟩ :: s.record := rfl
    have hplan : planKept ⟨.keepPlan plan, ()⟩ = some plan := rfl
    have hwork : workKept ⟨.keepPlan plan, ()⟩ = none := rfl
    have hgate : gateKept ⟨.keepPlan plan, ()⟩ = none := rfl
    rw [hrecord, keptOf, keptOf]
    simp [hplan, hwork, hgate]
  exact ⟨.inr ⟨(), s.next (.keepPlan plan) (), ⟨[], s, .nil s, trivial, trivial, rfl⟩,
    (h (s.next (.keepPlan plan) ()) rfl rfl hkept).might⟩⟩

/-- A planner whose plan is accepted. -/
lemma crowded_makePlan {baseSha : String} {directories : Json} {n : ℕ} {prior : List Evidence}
    {f : Plan → Io β} {l : Fields} {plan : Plan} {prompt : Prompt}
    (hprompt : buildPrompt (cfg.prompt .planner) "planner" (plannerDetails cfg baseSha n prior) =
      .ok prompt) (hreceipt : receiptOf (.obj l) "attempt plan" = .ok l)
    (hplan : validateAttemptPlan cfg.lib (.obj l) cfg.templateJson (.str baseSha) directories =
      .ok plan) (hn : plan.attempt = n) (hleft : 10000 ≤ min cfg.deadlineAt deadlineAt)
    (h : ∀ t, t.writers = s.writers → t.orphans = s.orphans →
      keptOf t.record = (some plan.json, (keptOf s.record).2) → Crowded (f plan) t Q) :
    Crowded (makePlan cfg baseSha directories n deadlineAt prior >>= f) s Q := by
  refine crowded_bind (crowded_bind (crowded_remainingMs hleft fun t h₁ => ?_))
  refine crowded_ask rfl (.ok ()) fun t h₂ => crowded_port rfl ?_
  refine crowded_ask rfl (.ok (.obj [])) fun t h₃ => crowded_port rfl ?_
  refine crowded_valid hprompt (crowded_runAgent (.obj l) hleft fun t h₄ => ?_)
  refine crowded_valid hreceipt (crowded_valid hplan ?_)
  have hlike := ((h₁.trans h₂).trans h₃).trans h₄
  refine crowded_keepPlan fun t hwriters horphans hkept => ?_
  refine crowded_valid (require_eq.mpr hn) ?_
  refine crowded_ask rfl (.ok ()) fun t h₅ => crowded_port rfl ?_
  refine crowded_ask rfl (.ok ()) fun t h₆ => crowded_port rfl (crowded_pure ?_)
  have hlike' := h₅.trans h₆
  refine h t ((hlike'.writers.trans hwriters).trans hlike.writers)
    ((hlike'.orphans.trans horphans).trans hlike.orphans) ?_
  rw [hlike'.kept, hkept, hlike.kept]

/-- These writers run besides. -/
structure Runs (l : List Slot) (s t : World) : Prop where
  writers : ∀ slot, t.writers slot = if slot ∈ l then .running else s.writers slot
  orphans : t.orphans = s.orphans
  kept : keptOf t.record = keptOf s.record

lemma Runs.of_like {l : List Slot} {s t u : World} (h : Like s t) (h' : Runs l t u) : Runs l s u :=
  ⟨fun slot => by rw [h'.writers slot, h.writers], h'.orphans.trans h.orphans,
    h'.kept.trans h.kept⟩

lemma Runs.append {l l' : List Slot} {s t u : World} (h : Runs l s t) (h' : Runs l' t u) :
    Runs (l ++ l') s u := by
  refine ⟨fun slot => ?_, h'.orphans.trans h.orphans, h'.kept.trans h.kept⟩
  rw [h'.writers slot, h.writers slot]
  by_cases hl : slot ∈ l <;> by_cases hl' : slot ∈ l' <;> simp [hl, hl']

variable {at' : Attempt} {prior : List Evidence}

lemma crowded_launch {slot : Slot} {input : AgentInput} {f : Unit → Io β}
    (hleft : 10000 ≤ min cfg.deadlineAt at'.deadlineAt)
    (h : ∀ t, Runs [slot] s t → Crowded (f ()) t Q) :
    Crowded (launch cfg at' slot input >>= f) s Q := by
  refine crowded_bind (crowded_attempt (crowded_executionSeconds hleft fun seconds t hlike => ?_))
  refine ⟨.inr ⟨(), t.next (.start slot { input with timeoutSeconds := seconds }) (),
    ⟨[], t, .nil t, trivial, trivial, rfl⟩, ?_⟩⟩
  refine h _ (.of_like hlike ⟨fun other => ?_, rfl, keptOf_cons rfl rfl rfl⟩)
  by_cases heq : other = slot
  · subst heq
    simp [World.next, effect, World.setWriter]
  · simp [World.next, effect, World.setWriter, heq]

lemma crowded_launchAll {ready : List (Slot × AgentInput)} {f : Unit → Io β}
    (hleft : 10000 ≤ min cfg.deadlineAt at'.deadlineAt)
    (h : ∀ t, Runs (ready.map Prod.fst) s t → Crowded (f ()) t Q) :
    Crowded (launchAll cfg at' ready >>= f) s Q := by
  induction ready generalizing s with
  | nil => exact h s ⟨fun slot => by simp, rfl, rfl⟩
  | cons p ready ih =>
      refine crowded_bind (crowded_launch hleft fun t h₁ => ?_)
      exact (ih fun u h₂ => h u (h₁.append h₂)).unbind

/-- The writers are started up to the first whose prompt is too long. -/
lemma crowded_startWriters {workspace : Slot → Json} {ready : List (Slot × AgentInput)}
    {f : Unit → Io β} (slots : List Slot) (slot : Slot) (rest : List Slot) (message : String)
    (hleft : 10000 ≤ min cfg.deadlineAt at'.deadlineAt)
    (hfits : ∀ slot ∈ slots, ∃ input, writerInput cfg at' prior slot (workspace slot) []
      (attemptId at' slot.name) at'.baseSha = .ok input)
    (hlong : writerInput cfg at' prior slot (workspace slot) [] (attemptId at' slot.name)
      at'.baseSha = .error message)
    (h : ∀ t, Runs (ready.map Prod.fst ++ slots) s t → Q (.error (.invalid message)) t) :
    Crowded (startWriters cfg at' prior workspace (slots ++ slot :: rest) ready >>= f) s Q := by
  induction slots generalizing s ready with
  | nil =>
      rw [List.nil_append]
      unfold startWriters
      refine crowded_bind (crowded_attempt ?_)
      rw [hlong]
      refine crowded_fail ?_
      exact crowded_launchAll hleft fun t ht => crowded_fail (h t (by simpa using ht))
  | cons first slots ih =>
      obtain ⟨⟨input, hinput⟩, hfits⟩ := List.forall_mem_cons.mp hfits
      rw [List.cons_append]
      unfold startWriters
      refine crowded_bind (crowded_attempt (crowded_valid hinput ?_))
      refine crowded_bind (crowded_remainingMs hleft fun t hlike => crowded_pure ?_)
      refine (ih hfits fun u hu => h u (.of_like hlike ?_)).unbind
      simpa using hu

/-- The writers of the attempt before run on. -/
lemma crowded_begin {n : ℕ} {f : Unit → Io β} (h : ∀ t, t.orphans = s.orphans + s.left.length →
    (∀ slot, t.writers slot = .idle) → t.record = [] → Crowded (f ()) t Q) :
    Crowded (ask (.begin n) >>= f) s Q :=
  ⟨.inr ⟨(), s.next (.begin n) (), ⟨[], s, .nil s, trivial, trivial, rfl⟩,
    (h (s.next (.begin n) ()) rfl (fun _ => rfl) rfl).might⟩⟩

lemma crowded_kept {f : Option Json × List Json × List Fields → Io β}
    (h : ∀ t, t.writers = s.writers → t.orphans = s.orphans → Crowded (f (keptOf s.record)) t Q) :
    Crowded (ask .kept >>= f) s Q :=
  ⟨.inr ⟨keptOf s.record, s.next .kept (keptOf s.record), ⟨[], s, .nil s, trivial, rfl, rfl⟩,
    (h (s.next .kept (keptOf s.record)) rfl rfl).might⟩⟩

lemma crowded_now {f : ℕ → Io β} (h : ∀ t, Like s t → Crowded (f 0) t Q) :
    Crowded (now >>= f) s Q :=
  crowded_bind (crowded_ask rfl (some 0) fun t hlike => crowded_pure (h t hlike))

lemma crowded_prepare {Q : Except Err (String × Json) → World → Prop}
    (hprofile : cfg.template.verificationProfile ≠ .piPalantir)
    (h : ∀ t, Like s t → Q (.ok (sampleSha, sampleDirectories)) t) :
    Crowded (prepare cfg) s Q := by
  refine crowded_ask rfl (.ok ()) fun t h₁ => crowded_port rfl ?_
  refine crowded_ask rfl (portAnswer .prepareAssignment) fun u h₂ => crowded_port rfl ?_
  refine crowded_valid rfl (crowded_valid rfl (crowded_valid rfl ?_))
  refine crowded_ask rfl (.ok (.obj [])) fun v h₃ => crowded_port rfl (crowded_valid rfl ?_)
  rw [if_neg hprofile]
  exact crowded_pure (h v ((h₁.trans h₂).trans h₃))

end Crowded

/-! #### A pod with a long assignment -/

/-- The bytes of a prompt without instructions for an assignment of no letters. -/
def bareBytes (phase : String) (rest : Fields) : ℕ :=
  promptBytes "" phase (("assignment", .obj (PodStore.letterAssignment 0)) :: rest)

lemma promptBytes_letters (instructions phase : String) (n : ℕ) (rest : Fields) :
    promptBytes instructions phase (("assignment", .obj (PodStore.letterAssignment n)) :: rest) =
      Wire.len instructions + n + bareBytes phase rest := by
  have hn := PodStore.bytes_letterAssignment n
  have hempty : Wire.len "" = 0 := rfl
  simp only [bareBytes, promptBytes, List.map_append, List.map_cons, List.sum_append,
    List.sum_cons, Sizes.prettyFieldBytes]
  omega

/-- What a writer is told besides the assignment. -/
def writerRest (plan : Plan) (prior : List Evidence) (slot : Slot) : Fields :=
  [("plan", plan.json), ("workItem", workItemJson plan slot), ("inbox", .arr []),
    ("executionBaseSha", .str sampleSha)] ++ optional "retry" (retryContext prior slot)

/-- What a planner is told besides the assignment. -/
def plannerRest (n : ℕ) (prior : List Evidence) : Fields :=
  [("attempt", Wire.ofNat n), ("baseSha", .str sampleSha),
    ("priorAttempts", .arr (prior.map Evidence.json))]

/-- A pod with so many letters of assignment and so many of instructions for the tests. -/
structure Long (n m : ℕ) (cfg : Config) : Prop where
  lib : cfg.lib = plainLib
  templateJson : cfg.templateJson = sampleTemplate
  assignment : cfg.assignment = .obj (PodStore.letterAssignment n)
  prompt : ∀ role, cfg.prompt role =
    if role = .writer .qaTests then Task.letters m else "Work."

section Long

variable {n m : ℕ} {cfg : Config} (hcfg : Long n m cfg)

include hcfg

lemma limited_writer (at' : Attempt) (hbase : at'.baseSha = sampleSha) (prior : List Evidence)
    (slot : Slot) (workspace : Json) (id : String) :
    Limited (writerInput cfg at' prior slot workspace [] id at'.baseSha)
      (Wire.len (cfg.prompt (.writer slot)) + n +
        bareBytes "writer" (writerRest at'.plan prior slot)) 258048
      "pod writer prompt exceeds 258048 bytes" := by
  have hkeys : ((("assignment", Json.obj (PodStore.letterAssignment n)) ::
      writerRest at'.plan prior slot).map Prod.fst).Nodup ∧
      ∀ key ∈ (("assignment", Json.obj (PodStore.letterAssignment n)) ::
        writerRest at'.plan prior slot).map Prod.fst, key ∉ ["version", "phase", "authority"] := by
    unfold writerRest
    cases retryContext prior slot <;> simp [optional]
  have hlimited : Limited (buildPrompt (cfg.prompt (.writer slot)) "writer" _)
      (promptBytes (cfg.prompt (.writer slot)) "writer" _) _ _ :=
    limited_buildPrompt hkeys.1 hkeys.2
  rw [promptBytes_letters] at hlimited
  unfold writerInput
  rw [hcfg.assignment, hbase]
  refine ⟨fun h => ?_, fun h => ?_⟩
  · obtain ⟨prompt, hprompt⟩ := hlimited.1 h
    exact ⟨_, bind_eq_ok.mpr ⟨prompt, hprompt, rfl⟩⟩
  · exact (congrArg (fun x => x >>= _) (hlimited.2 h)).trans rfl

lemma fits_planner (attempt : ℕ) (prior : List Evidence)
    (h : 5 + n + bareBytes "planner" (plannerRest attempt prior) ≤ 258048) : ∃ prompt,
      buildPrompt (cfg.prompt .planner) "planner" (plannerDetails cfg sampleSha attempt prior) =
        .ok prompt := by
  have hlimited : Limited (buildPrompt "Work." "planner" (("assignment",
      Json.obj (PodStore.letterAssignment n)) :: plannerRest attempt prior)) _ _ _ :=
    limited_buildPrompt (by simp [plannerRest]) (by simp [plannerRest])
  rw [promptBytes_letters] at hlimited
  rw [hcfg.prompt, plannerDetails, hcfg.assignment]
  exact hlimited.1 h

end Long

/-! ##### How long prompts are at most -/

lemma bareBytes_le (phase : String) (rest : Fields) : bareBytes phase rest ≤
    contextHeading.utf8ByteSize + Sizes.atMostFields 2 (promptHeader phase ++
      ("assignment", .obj (PodStore.letterAssignment 0)) :: rest) + 2 := by
  have hempty : Wire.len "" = 0 := rfl
  have hfields := Sizes.bytes_prettyFields_le 2 (promptHeader phase ++
    ("assignment", .obj (PodStore.letterAssignment 0)) :: rest)
  rw [bareBytes, promptBytes, hempty, Sizes.len_eq_utf8ByteSize]
  omega

/-- What an attempt leaves when the prompt of a writer is too long. -/
def brokenOff (plan : Plan) : Evidence where
  attempt := 1
  plan := some plan.json
  workResults := []
  gates := []
  reason := (Err.invalid "pod writer prompt exceeds 258048 bytes").reason

/-- The sample plan, for this attempt. -/
def planFor (attempt : String) : Fields :=
  match samplePlan with
  | .obj l => PodStore.put "attempt" (.num attempt) l
  | _ => []

/-- A prompt that is told this is not long. -/
def short (phase : String) (rest : Fields) : Bool :=
  decide (contextHeading.utf8ByteSize + Sizes.atMostFields 2 (promptHeader phase ++
    ("assignment", .obj (PodStore.letterAssignment 0)) :: rest) + 2 ≤ 20000)

lemma le_of_short {phase : String} {rest : Fields} (h : short phase rest = true) :
    bareBytes phase rest ≤ 20000 :=
  (bareBytes_le phase rest).trans (of_decide_eq_true h)

/-- Plans for two attempts, none of which has long prompts. -/
structure Brief (p q : Plan) : Prop where
  first : p.attempt = 1
  second : q.attempt = 2
  planner : bareBytes "planner" (plannerRest 1 []) ≤ 20000
  again : bareBytes "planner" (plannerRest 2 [brokenOff p]) ≤ 20000
  writers : ∀ slot, bareBytes "writer" (writerRest p [] slot) ≤ 20000
  writersAgain : ∀ slot, bareBytes "writer" (writerRest q [brokenOff p] slot) ≤ 20000

lemma brief_decided : (match validateAttemptPlan plainLib (.obj (planFor "1")) sampleTemplate
      (.str sampleSha) sampleDirectories, validateAttemptPlan plainLib (.obj (planFor "2"))
      sampleTemplate (.str sampleSha) sampleDirectories with
    | .ok p, .ok q => decide (p.attempt = 1) && decide (q.attempt = 2) &&
      short "planner" (plannerRest 1 []) && short "planner" (plannerRest 2 [brokenOff p]) &&
      (writerIds.all fun slot => short "writer" (writerRest p [] slot)) &&
      writerIds.all fun slot => short "writer" (writerRest q [brokenOff p] slot)
    | _, _ => false) = true := by decide +kernel

lemma exists_brief : ∃ p q,
    validateAttemptPlan plainLib (.obj (planFor "1")) sampleTemplate (.str sampleSha)
      sampleDirectories = .ok p ∧
    validateAttemptPlan plainLib (.obj (planFor "2")) sampleTemplate (.str sampleSha)
      sampleDirectories = .ok q ∧ Brief p q := by
  have hok := brief_decided
  split at hok
  · rename_i p q hp hq
    simp only [Bool.and_eq_true, decide_eq_true_eq, List.all_eq_true] at hok
    obtain ⟨⟨⟨⟨⟨h₁, h₂⟩, h₃⟩, h₄⟩, h₅⟩, h₆⟩ := hok
    have hmem : ∀ slot, slot ∈ writerIds := by rintro (_ | _ | _) <;> decide
    exact ⟨p, q, hp, hq, h₁, h₂, le_of_short h₃, le_of_short h₄,
      fun slot => le_of_short (h₅ slot (hmem slot)), fun slot => le_of_short (h₆ slot (hmem slot))⟩
  · cases hok

/-! ##### The run -/

lemma len_letters (m : ℕ) : Wire.len (Task.letters m) = m := by
  have hsize : Char.utf8Size 'a' = 1 := by decide
  rw [Wire.len, Wire.bytes, Task.letters, String.toList_ofList, List.map_replicate,
    List.sum_replicate, hsize, nsmul_eq_mul, Nat.mul_one, Nat.cast_id]

def tooLong : Err := .invalid "pod writer prompt exceeds 258048 bytes"

section Run

variable {s : World} {n m : ℕ} {cfg : Config} {prior : List Evidence} {deadlineAt : ℕ}
  {Q : Except Err String → World → Prop}

/-- An attempt starts both engineers and breaks off, since the prompt for the tests is too long. -/
lemma crowded_attemptOnce {attempt : ℕ} {l : Fields} {plan : Plan} (hcfg : Long n m cfg)
    (hn : n + 20005 ≤ 258048) (hm : 258048 < n + m)
    (hplanner : bareBytes "planner" (plannerRest attempt prior) ≤ 20000)
    (hwriters : ∀ slot, bareBytes "writer" (writerRest plan prior slot) ≤ 20000)
    (hreceipt : receiptOf (.obj l) "attempt plan" = .ok l)
    (hplan : validateAttemptPlan plainLib (.obj l) sampleTemplate (.str sampleSha)
      sampleDirectories = .ok plan) (hattempt : plan.attempt = attempt)
    (hleft : 10000 ≤ min cfg.deadlineAt deadlineAt)
    (h : ∀ t, (∀ slot, t.writers slot = if slot ∈ [.engineeringA, .engineeringB] then .running
        else s.writers slot) → t.orphans = s.orphans →
      keptOf t.record = (some plan.json, (keptOf s.record).2) → Q (.error tooLong) t) :
    Crowded (attemptOnce cfg sampleSha sampleDirectories attempt deadlineAt prior) s Q := by
  obtain ⟨prompt, hprompt⟩ := fits_planner hcfg attempt prior (by omega)
  have hvalid : validateAttemptPlan cfg.lib (.obj l) cfg.templateJson (.str sampleSha)
      sampleDirectories = .ok plan := by rw [hcfg.lib, hcfg.templateJson, hplan]
  have hwork : Wire.len "Work." = 5 := by decide
  refine crowded_makePlan hprompt hreceipt hvalid hattempt hleft fun t hsame horphans hkept => ?_
  refine crowded_bind (crowded_createWorktrees _ _ fun workspace u h₁ => ?_)
  refine crowded_ask rfl (.ok ()) fun v h₂ => crowded_port rfl ?_
  refine crowded_startWriters [.engineeringA, .engineeringB] .qaTests []
    "pod writer prompt exceeds 258048 bytes" hleft ?_ ?_ fun w hruns => ?_
  · intro slot hslot
    refine (limited_writer hcfg _ rfl prior slot (workspace slot) _).1 ?_
    have hfits := hwriters slot
    have hshort : cfg.prompt (.writer slot) = "Work." := by
      rw [hcfg.prompt, if_neg]
      rintro heq
      cases heq
      simp at hslot
    rw [hshort, hwork]
    show 5 + n + bareBytes "writer" (writerRest plan prior slot) ≤ 258048
    omega
  · refine (limited_writer hcfg _ rfl prior .qaTests (workspace .qaTests) _).2 ?_
    rw [hcfg.prompt, if_pos rfl, len_letters]
    omega
  · have hlike := h₁.trans h₂
    refine h w (fun slot => ?_) (hruns.orphans.trans (hlike.orphans.trans horphans)) ?_
    · rw [hruns.writers slot, hlike.writers, hsame]
      rfl
    · rw [hruns.kept, hlike.kept, hkept]

/-- The second attempt begins beside the two writers of the first, and starts two more. -/
lemma crowded_attemptsFrom (hcfg : Long n m cfg) (hn : n + 20005 ≤ 258048) (hm : 258048 < n + m)
    (hattempts : cfg.template.maxAttempts = 2) (hattempt : 10 ≤ cfg.template.attemptSeconds)
    (hdeadline : 10000 ≤ cfg.deadlineAt) :
    Crowded (attemptsFrom cfg sampleSha sampleDirectories 2 1 []) s Q := by
  obtain ⟨p, q, hp, hq, hbrief⟩ := exists_brief
  have hterminal : terminalInterruption tooLong = false := by decide +kernel
  have hboth : ∀ {t : World}, (∀ slot, slot ∈ [Slot.engineeringA, .engineeringB] →
      t.writers slot = .running) → 2 ≤ t.left.length := by
    intro t ht
    have hsub : [Slot.engineeringA, .engineeringB] ⊆ t.left := fun slot hslot =>
      mem_left.mpr (ht slot hslot)
    exact (List.subperm_of_subset (by decide) hsub).length_le
  unfold attemptsFrom
  refine crowded_now fun _ _ => crowded_begin fun t _ _ hrecord => ?_
  refine crowded_attempt (crowded_attemptOnce hcfg hn hm hbrief.planner hbrief.writers rfl hp
    hbrief.first (by omega) fun u hwriters _ hkept => ?_)
  have hempty : keptOf u.record = (some p.json, [], []) := by
    rw [hkept, hrecord]
    rfl
  refine crowded_kept fun v hv _ => ?_
  rw [hempty]
  refine crowded_ask rfl (.ok ()) fun w hw => crowded_port rfl ?_
  rw [if_neg (by rw [hterminal, hattempts]; decide)]
  unfold attemptsFrom
  refine crowded_now fun x hx => crowded_begin fun y horphans _ _ => ?_
  refine crowded_attempt (crowded_attemptOnce hcfg hn hm hbrief.again hbrief.writersAgain rfl hq
    hbrief.second (by omega) fun z hwriters' horphans' _ => ⟨.inl ?_⟩)
  have hbefore : 2 ≤ x.left.length := hboth fun slot hslot => by
    rw [hx.writers, hw.writers, hv, hwriters, if_pos hslot]
  have hnow : 2 ≤ z.left.length := hboth fun slot hslot => by
    rw [hwriters', if_pos hslot]
  show 3 < z.left.length + z.orphans
  omega

end Run

/-- A pod with a long assignment and, for the tests, a long prompt. -/
def longInput (n m : ℕ) : PodInput :=
  { podInput with
    assignment := .obj (PodStore.letterAssignment n)
    prompts := .obj (promptKeys.map fun key =>
      (key, .str (if key = "qa-tests" then Task.letters m else "Work."))) }

/-- The template of the sample, as far as the run depends on it. -/
lemma exists_template : ∃ template, validatePodTemplate plainLib sampleTemplate = .ok template ∧
    template.maxAttempts = 2 ∧ 10 ≤ template.attemptSeconds ∧ 10 ≤ template.workflowSeconds ∧
    template.workflowSeconds ≤ 43200 ∧ template.verificationProfile ≠ .piPalantir := by
  have hok : (match validatePodTemplate plainLib sampleTemplate with
      | .ok template => decide (template.maxAttempts = 2 ∧ 10 ≤ template.attemptSeconds ∧
          10 ≤ template.workflowSeconds ∧ template.workflowSeconds ≤ 43200 ∧
          template.verificationProfile ≠ .piPalantir)
      | .error _ => false) = true := by decide +kernel
  split at hok
  · exact ⟨_, ‹_›, of_decide_eq_true hok⟩
  · cases hok

lemma promptsFrom_eq_ok {l : Fields} {keys : List String}
    (h : ∀ key ∈ keys, ∃ s, field l key = .str s ∧ s.toList.all isBlank = false ∧
      Wire.len s ≤ 32 * 1024 ∧ s.toList.any isUnsafe = false) : promptsFrom l keys = .ok () := by
  induction keys with
  | nil => rfl
  | cons key keys ih =>
      obtain ⟨⟨s, hs, hblank, hlen, hsafe⟩, hrest⟩ := List.forall_mem_cons.mp h
      unfold promptsFrom
      simp only [hs]
      rw [require_eq.mpr ⟨hblank, hlen⟩, require_eq.mpr hsafe]
      exact ih hrest

def longPrompts (m : ℕ) : Fields :=
  promptKeys.map fun key => (key, .str (if key = "qa-tests" then Task.letters m else "Work."))

lemma validatePrompts_long {n m : ℕ} (hpos : 0 < m) (hm : m ≤ 32 * 1024) :
    validatePrompts (longInput n m).prompts = .ok (longPrompts m) := by
  have hfield : ∀ key ∈ promptKeys, field (longPrompts m) key =
      .str (if key = "qa-tests" then Task.letters m else "Work.") := by
    intro key hkey
    simp only [promptKeys, List.mem_cons, List.not_mem_nil, or_false] at hkey
    rcases hkey with rfl | rfl | rfl | rfl | rfl | rfl | rfl <;> rfl
  have hkeys : (longPrompts m).length = promptKeys.length ∧
      promptKeys.all (fun key => ((longPrompts m).lookup key).isSome) = true := by
    refine ⟨List.length_map _, List.all_eq_true.mpr fun key hkey => ?_⟩
    simp only [promptKeys, List.mem_cons, List.not_mem_nil, or_false] at hkey
    rcases hkey with rfl | rfl | rfl | rfl | rfl | rfl | rfl <;> rfl
  have hprompts : promptsFrom (longPrompts m) promptKeys = .ok () := by
    refine promptsFrom_eq_ok fun key hkey => ⟨_, hfield key hkey, ?_⟩
    split_ifs
    · have hblank : isBlank 'a' = false := by decide
      have hsafe : isUnsafe 'a' = false := by decide
      refine ⟨?_, (len_letters m).trans_le hm, ?_⟩
      · rw [Task.letters, String.toList_ofList, List.all_replicate, hblank]
        simp [hpos.ne']
      · rw [Task.letters, String.toList_ofList, List.any_replicate, hsafe]
        simp
    · exact ⟨by decide +kernel, by decide +kernel, by decide +kernel⟩
  exact bind_eq_ok.mpr ⟨_, rfl, bind_eq_ok.mpr ⟨(), require_eq.mpr hkeys,
    bind_eq_ok.mpr ⟨(), hprompts, rfl⟩⟩⟩

lemma crowded_run {n m : ℕ} (hn : n + 20005 ≤ 258048) (hm : 258048 < n + m) (hm' : m ≤ 32 * 1024) :
    Crowded (runEngineeringPod (longInput n m)) {} fun _ _ => False := by
  obtain ⟨template, htemplate, hattempts, hattempt, hworkflow, hlimit, hprofile⟩ := exists_template
  have hdigest : isSha256 podInput.templateDigest = true := by decide +kernel
  have hcheck : checkInput (longInput n m) = .ok (template, longPrompts m) := by
    refine bind_eq_ok.mpr ⟨template, htemplate, bind_eq_ok.mpr
      ⟨longPrompts m, validatePrompts_long (by omega) hm', bind_eq_ok.mpr ⟨_, rfl, ?_⟩⟩⟩
    exact bind_eq_ok.mpr ⟨(), require_eq.mpr hdigest, rfl⟩
  have hdeadline : deadlineOf 0 (0 + template.workflowSeconds * 1000)
      (longInput n m).deadlineAt = .ok (template.workflowSeconds * 1000) := by
    refine bind_eq_ok.mpr ⟨(), require_eq.mpr ?_, ?_⟩
    · unfold maxSafeInteger
      omega
    · rw [Nat.zero_add]
      rfl
  have hprompt : ∀ role : Role, (PodStore.strOf ((longPrompts m).lookup role.key)).getD "" =
      if role = .writer .qaTests then Task.letters m else "Work." := by
    rintro (_ | (_ | _ | _) | _ | (_ | _)) <;> rfl
  refine crowded_bind (crowded_valid hcheck (crowded_now fun s _ => ?_))
  refine crowded_valid hdeadline (crowded_pure ?_)
  refine crowded_attempt (crowded_bind (crowded_prepare hprofile fun t _ => ?_))
  show Crowded (attemptsFrom _ sampleSha sampleDirectories template.maxAttempts 1 []) t _
  rw [hattempts]
  refine crowded_attemptsFrom ⟨rfl, rfl, rfl, hprompt⟩ hn hm hattempts hattempt ?_
  show 10000 ≤ template.workflowSeconds * 1000
  omega

lemma exists_crowded {n m : ℕ} (hn : n + 20005 ≤ 258048) (hm : 258048 < n + m)
    (hm' : m ≤ 32 * 1024) : ∃ p s,
      Exec env (runEngineeringPod (longInput n m)) {} p s ∧ 3 < atWork p s := by
  obtain ⟨o, k, s, hexec, hmany⟩ := (crowded_run hn hm hm').might.exec
  exact ⟨_, s, hexec, hmany.trans_le (Nat.le_add_right _ _)⟩

/-- **Four agents may work at a time.** The first attempt starts both engineers and breaks off,
since the prompt for the tests is too long; the second starts both once more while the first two
still run. -/
theorem four_at_work : modelConcurrency (longInput 238043 24000).template = 3 ∧ ∃ p s,
    Exec env (runEngineeringPod (longInput 238043 24000)) {} p s ∧ 3 < atWork p s :=
  ⟨by decide, exists_crowded (by omega) (by omega) (by omega)⟩

end Bimo.Controller
