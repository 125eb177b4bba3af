import Bimo.InboxIds

/-!
What an enqueue says about itself.

An enqueue writes the message file first and the inbox after it, and looks at the room in the
inbox in between. What it answers comes from the first of the two: that the file was not there.
After an attempt that got no further than the file, the next one puts the id into the inbox and
says that it was there already; and an enqueue that finds no room says so with the file written.

Here every file operation may fail, and one that fails may have done its work: a file is renamed
into place before its directory is synced.
-/

namespace Bimo.Store

open Factory (FactoryState)

/-! ### File operations that fail -/

structure Failure where
  error : IoError
  /-- The work was done all the same. -/
  landed : Bool
  deriving DecidableEq, Repr

/-- The operations that fail. -/
abbrev Faults := Call → Option Failure

def Call.failed (e : IoError) : (c : Call) → c.Ret
  | .unlock => ()
  | .lock | .writeState _ | .ensureLayout | .writeMessage _ | .writeInbox _ _ | .writeProcessed _ _
  | .linkTerminal _ _ | .linkToolResult _ _ _ | .append _ => Except.error e
  | .readState => Except.error e
  | .readMessage _ => Except.error e
  | .readInbox _ => Except.error e
  | .readProcessed _ _ => Except.error e
  | .readTerminal _ => Except.error e
  | .readToolResult _ _ => Except.error e

namespace Disk

def answerWith (F : Faults) (d : Disk) (c : Call) : c.Ret :=
  match F c with
  | some f => c.failed f.error
  | none => d.answer c

def nextWith (F : Faults) (d : Disk) (c : Call) (x : c.Ret) : Disk :=
  match F c with
  | some f => if f.landed then d.apply c else d
  | none => d.next c x

/-- The outcome of a store program where some operations fail. -/
def runWith {α : Type} (F : Faults) (d : Disk) (p : Io α) : Except IoError α × Disk :=
  p.run (answerWith F) (nextWith F) d

variable {α : Type} {F : Faults} {d : Disk} {m : MessageEnvelope}

lemma answerWith_some {c : Call} {f : Failure} (h : F c = some f) :
    d.answerWith F c = c.failed f.error := by
  unfold answerWith
  rw [h]

lemma answerWith_none {c : Call} (h : F c = none) : d.answerWith F c = d.answer c := by
  unfold answerWith
  rw [h]

/-- A call that writes nothing leaves the disk as it is, whether it fails or not. -/
lemma nextWith_same {c : Call} (h : d.apply c = d) (x : c.Ret) : d.nextWith F c x = d := by
  unfold nextWith next
  split
  · rw [h, ite_self]
  · rw [h, ite_self]

lemma runWith_tryCall (c : Call) (f : c.Ret → Except IoError α) :
    d.runWith F (tryCall c f) = (f (d.answerWith F c), d.nextWith F c (d.answerWith F c)) := by
  unfold runWith tryCall
  rw [run_bind]
  simp [ask]

lemma runWith_locked (p : Io α) :
    d.runWith F (locked p) = match F .lock with
      | some f => (.error f.error, d)
      | none => d.runWith F p := by
  have hlock : d.runWith F lock = (d.answerWith F .lock, d) :=
    (runWith_tryCall .lock id).trans (Prod.ext rfl (nextWith_same rfl _))
  have hunlock : ∀ t : Disk, t.runWith F unlock = (.ok (), t) := fun t =>
    Prod.ext rfl (nextWith_same rfl _)
  unfold runWith at hlock hunlock ⊢
  unfold locked
  rw [run_bind, hlock]
  cases hF : F .lock with
  | some f =>
    rw [answerWith_some hF]
    rfl
  | none =>
    rw [answerWith_none hF]
    dsimp only [answer]
    rw [run_bind, run_attempt]
    dsimp only
    rw [run_bind, hunlock]
    simp only [run_ofExcept]

/-- The message file is there already, with this message or another, or it is written. -/
lemma runWith_storeMessage :
    d.runWith F (storeMessage m) = match F (.readMessage m.id) with
      | some f => (.error f.error, d)
      | none => match d.messages m.id with
        | some old =>
          if old ≠ m then (.error ⟨.alreadyExists, "message id reused with different content"⟩, d)
          else (.ok true, d)
        | none => match F (.writeMessage m) with
          | some f => (.error f.error, if f.landed then d.apply (.writeMessage m) else d)
          | none => (.ok false, d.apply (.writeMessage m)) := by
  have hread : d.runWith F (tryCall (.readMessage m.id) id) =
      (d.answerWith F (.readMessage m.id), d) :=
    (runWith_tryCall _ _).trans (Prod.ext rfl (nextWith_same rfl _))
  have hwrite : d.runWith F (tryCall (.writeMessage m) id) =
      (d.answerWith F (.writeMessage m), d.nextWith F (.writeMessage m) _) := runWith_tryCall _ _
  unfold runWith at hread hwrite ⊢
  unfold storeMessage
  rw [run_bind, hread]
  cases hR : F (.readMessage m.id) with
  | some f =>
    rw [answerWith_some hR]
    rfl
  | none =>
    rw [answerWith_none hR]
    dsimp only [answer]
    cases d.messages m.id with
    | some old =>
      dsimp only
      split_ifs <;> rfl
    | none =>
      dsimp only
      rw [run_bind, hwrite]
      cases hW : F (.writeMessage m) with
      | some f =>
        rw [answerWith_some hW]
        simp only [Call.failed, nextWith, hW]
      | none =>
        rw [answerWith_none hW]
        simp only [nextWith, hW]
        rfl

lemma runWith_pendingMessageIds {pod : String} (hpod : validateComponent pod "pod" = .ok ()) :
    d.runWith F (pendingMessageIds pod) = (match F (.readInbox pod) with
      | some f => .error f.error
      | none => if (inboxIds (d.inbox pod)).length > 4096 then
          .error ⟨.invalidData, "pending message queue exceeds 4096 entries"⟩
        else .ok (inboxIds (d.inbox pod)), d) := by
  have hread : d.runWith F (tryCall (.readInbox pod) id) = (d.answerWith F (.readInbox pod), d) :=
    (runWith_tryCall _ _).trans (Prod.ext rfl (nextWith_same rfl _))
  unfold runWith at hread ⊢
  unfold pendingMessageIds
  rw [hpod, run_bind, run_ofExcept]
  dsimp only
  rw [run_bind, hread]
  cases hR : F (.readInbox pod) with
  | some f =>
    rw [answerWith_some hR]
    rfl
  | none =>
    rw [answerWith_none hR]
    dsimp only [answer]
    split_ifs <;> rfl

/-- What a message would make of the inbox of its destination. -/
def nextInbox (d : Disk) (m : MessageEnvelope) : String :=
  inboxText (inboxIds (d.inbox m.destination) ++ [m.id])

/-- The inbox can't be read, or is full, or lists the id, or the id is put at its end. -/
lemma runWith_queueMessage (hm : checkMessage m = .ok ()) :
    d.runWith F (queueMessage m) = match F (.readInbox m.destination) with
      | some f => (.error f.error, d)
      | none =>
        if (inboxIds (d.inbox m.destination)).length > 4096 then
          (.error ⟨.invalidData, "pending message queue exceeds 4096 entries"⟩, d)
        else if m.id ∈ inboxIds (d.inbox m.destination) then (.ok (), d)
        else if (inboxIds (d.inbox m.destination)).length ≥ 4096 then
          (.error ⟨.invalidInput, "pending message queue is full"⟩, d)
        else match F (.writeInbox m.destination (d.nextInbox m)) with
          | some f => (.error f.error,
            if f.landed then d.apply (.writeInbox m.destination (d.nextInbox m)) else d)
          | none => (.ok (), d.apply (.writeInbox m.destination (d.nextInbox m))) := by
  have hread := runWith_pendingMessageIds (F := F) (d := d)
    (validateComponent_of_checkMessage hm "pod")
  have hwrite : d.runWith F (tryCall (.writeInbox m.destination (d.nextInbox m)) id) =
      (d.answerWith F (.writeInbox m.destination (d.nextInbox m)),
        d.nextWith F (.writeInbox m.destination (d.nextInbox m)) _) := runWith_tryCall _ _
  unfold runWith at hread hwrite ⊢
  unfold queueMessage
  rw [run_bind, hread]
  cases hR : F (.readInbox m.destination) with
  | some f => rfl
  | none =>
    dsimp only
    by_cases hlong : (inboxIds (d.inbox m.destination)).length > 4096
    · rw [if_pos hlong, if_pos hlong]
    rw [if_neg hlong, if_neg hlong]
    dsimp only
    by_cases hmem : m.id ∈ inboxIds (d.inbox m.destination)
    · rw [if_pos hmem, if_neg fun h => h.1 hmem, if_neg (not_not.mpr hmem)]
      rfl
    rw [if_neg hmem]
    by_cases hfull : (inboxIds (d.inbox m.destination)).length ≥ 4096
    · rw [if_pos hfull, if_pos ⟨hmem, hfull⟩]
      rfl
    rw [if_neg hfull, if_neg fun h => hfull h.2, if_pos hmem]
    refine hwrite.trans ?_
    cases hW : F (.writeInbox m.destination (d.nextInbox m)) with
    | some f =>
      rw [answerWith_some hW]
      exact Prod.ext rfl (by simp only [nextWith, hW])
    | none =>
      rw [answerWith_none hW]
      simp only [nextWith, hW]
      rfl

/-- The call gets as far as the message file. -/
structure Reaches (F : Faults) (d : Disk) (m : MessageEnvelope) : Prop where
  lock : F .lock = none
  checked : checkMessage m = .ok ()
  read : F .readState = none
  declared : ∃ s, d.state = some s ∧ m.destination ∈ s.pods
  layout : F .ensureLayout = none

lemma runWith_enqueueMessage (h : Reaches F d m) :
    d.runWith F (enqueueMessage m) =
      match d.runWith F (storeMessage m) with
      | (.ok old, t) =>
        match t.runWith F (queueMessage m) with
        | (.ok _, t) => (.ok !old, t)
        | (.error e, t) => (.error e, t)
      | (.error e, t) => (.error e, t) := by
  obtain ⟨hlock, hm, hread, ⟨s, hs, hdecl⟩, hlayout⟩ := h
  have hstate : d.runWith F readState = (.ok (some s), d) := by
    refine (runWith_tryCall .readState id).trans (Prod.ext ?_ (nextWith_same rfl _))
    rw [answerWith_none hread]
    exact congrArg Except.ok hs
  have hens : d.runWith F (tryCall .ensureLayout id) = (.ok (), d) := by
    refine (runWith_tryCall .ensureLayout id).trans (Prod.ext ?_ (nextWith_same rfl _))
    rw [answerWith_none hlayout]
    rfl
  unfold enqueueMessage
  rw [runWith_locked, hlock]
  unfold runWith at *
  unfold enqueueMessageLocked
  rw [run_bind, hm, run_ofExcept]
  dsimp only
  rw [run_bind, hstate]
  dsimp only
  rw [if_neg (not_not.mpr hdecl), run_bind, hens]
  dsimp only
  rw [run_bind]
  obtain ⟨x, t⟩ := (storeMessage m).run (answerWith F) (nextWith F) d
  cases x with
  | error e => rfl
  | ok old =>
    dsimp only
    rw [run_bind]
    obtain ⟨y, t'⟩ := (queueMessage m).run (answerWith F) (nextWith F) t
    cases y <;> rfl

/-- A call that stops before the message file changes nothing. -/
lemma runWith_enqueueMessage_refused (h : ¬Reaches F d m) :
    ∃ e, d.runWith F (enqueueMessage m) = (.error e, d) := by
  have hstate : d.runWith F readState = (d.answerWith F .readState, d) :=
    (runWith_tryCall .readState id).trans (Prod.ext rfl (nextWith_same rfl _))
  have hens : d.runWith F (tryCall .ensureLayout id) = (d.answerWith F .ensureLayout, d) :=
    (runWith_tryCall .ensureLayout id).trans (Prod.ext rfl (nextWith_same rfl _))
  unfold enqueueMessage
  rw [runWith_locked]
  cases hlock : F .lock with
  | some f => exact ⟨f.error, rfl⟩
  | none =>
  unfold runWith at *
  unfold enqueueMessageLocked
  dsimp only
  rw [run_bind, run_ofExcept]
  cases hm : checkMessage m with
  | error e => exact ⟨e, rfl⟩
  | ok _ =>
  dsimp only
  rw [run_bind, hstate]
  cases hread : F .readState with
  | some f =>
    rw [answerWith_some hread]
    exact ⟨f.error, rfl⟩
  | none =>
  rw [answerWith_none hread]
  dsimp only [answer]
  cases hs : d.state with
  | none => exact ⟨_, rfl⟩
  | some s =>
  dsimp only
  by_cases hdecl : m.destination ∈ s.pods
  swap
  · rw [if_pos hdecl]
    exact ⟨_, rfl⟩
  rw [if_neg (not_not.mpr hdecl), run_bind, hens]
  cases hlayout : F .ensureLayout with
  | some f =>
    rw [answerWith_some hlayout]
    exact ⟨f.error, rfl⟩
  | none => exact absurd ⟨hlock, hm, hread, ⟨s, hs, hdecl⟩, hlayout⟩ h

/-! ### What is promised and when it is kept -/

/-- The call answers that it queued the message just when it brought the id into the inbox, and
a call that fails leaves the messages and the inboxes as they were. -/
def Honest (F : Faults) (d : Disk) (m : MessageEnvelope) : Prop :=
  let out := d.runWith F (enqueueMessage m)
  (out.1 = .ok true ↔ m.id ∉ inboxIds (d.inbox m.destination) ∧
    m.id ∈ inboxIds (out.2.inbox m.destination)) ∧
  ∀ e, out.1 = .error e → out.2.messages = d.messages ∧
    ∀ pod, inboxIds (out.2.inbox pod) = inboxIds (d.inbox pod)

/-- There is no message file, and either it can't be written or the id gets into the inbox. -/
def Fresh (F : Faults) (d : Disk) (m : MessageEnvelope) : Prop :=
  match F (.writeMessage m) with
  | some f => f.landed = false
  | none => F (.readInbox m.destination) = none ∧ m.id ∉ inboxIds (d.inbox m.destination) ∧
    (inboxIds (d.inbox m.destination)).length < 4096 ∧
    F (.writeInbox m.destination (d.nextInbox m)) = none ∧ m.id ∈ inboxIds (some (d.nextInbox m))

/-- The message file is there, and nothing is to be done for the inbox or nothing comes of it. -/
def Repeated (F : Faults) (d : Disk) (m : MessageEnvelope) : Prop :=
  F (.readInbox m.destination) = none → m.id ∉ inboxIds (d.inbox m.destination) →
  (inboxIds (d.inbox m.destination)).length < 4096 →
  match F (.writeInbox m.destination (d.nextInbox m)) with
  | some f => f.landed = true →
    inboxIds (some (d.nextInbox m)) = inboxIds (d.inbox m.destination)
  | none => m.id ∉ inboxIds (some (d.nextInbox m))

/-- When an enqueue is honest. -/
structure InStep (F : Faults) (d : Disk) (m : MessageEnvelope) : Prop where
  fresh : d.messages m.id = none → Fresh F d m
  repeated : d.messages m.id = some m → Repeated F d m

lemma honest_of_error {e : IoError} (h : d.runWith F (enqueueMessage m) = (.error e, d)) :
    Honest F d m := by
  unfold Honest
  rw [h]
  exact ⟨⟨nofun, fun h => absurd h.2 h.1⟩, fun _ _ => ⟨rfl, fun _ => rfl⟩⟩

/-- A call that fails with the message file written anew. -/
lemma not_honest_of_written {e : IoError} {t : Disk} (hnone : d.messages m.id = none)
    (h : d.runWith F (enqueueMessage m) = (.error e, t)) (ht : t.messages m.id = some m) :
    ¬Honest F d m := by
  intro hh
  have hsame := (hh.2 e (by rw [h])).1
  rw [h] at hsame
  dsimp only at hsame
  rw [hsame, hnone] at ht
  cases ht

lemma honest_iff_fresh (hreach : Reaches F d m) (hread : F (.readMessage m.id) = none)
    (hnone : d.messages m.id = none) : Honest F d m ↔ Fresh F d m := by
  have hrun := runWith_enqueueMessage hreach
  rw [runWith_storeMessage, hread, hnone] at hrun
  dsimp only at hrun
  have hwritten : (d.apply (.writeMessage m)).messages m.id = some m := Function.update_self ..
  unfold Fresh
  cases hW : F (.writeMessage m) with
  | some f =>
    rw [hW] at hrun
    dsimp only at hrun ⊢
    cases hf : f.landed with
    | false =>
      rw [hf] at hrun
      exact iff_of_true (honest_of_error hrun) rfl
    | true =>
      rw [hf] at hrun
      exact iff_of_false (not_honest_of_written hnone hrun hwritten) nofun
  | none =>
    rw [hW] at hrun
    dsimp only at hrun ⊢
    rw [runWith_queueMessage hreach.checked] at hrun
    have hinbox : (d.apply (.writeMessage m)).inbox = d.inbox := rfl
    have hnext : (d.apply (.writeMessage m)).nextInbox m = d.nextInbox m := rfl
    rw [hinbox, hnext] at hrun
    cases hR : F (.readInbox m.destination) with
    | some f =>
      rw [hR] at hrun
      exact iff_of_false (not_honest_of_written hnone hrun hwritten) fun h => nomatch h.1
    | none =>
    rw [hR] at hrun
    dsimp only at hrun
    by_cases hlong : (inboxIds (d.inbox m.destination)).length > 4096
    · rw [if_pos hlong] at hrun
      exact iff_of_false (not_honest_of_written hnone hrun hwritten) fun h => by
        have := h.2.2.1
        omega
    rw [if_neg hlong] at hrun
    by_cases hmem : m.id ∈ inboxIds (d.inbox m.destination)
    · rw [if_pos hmem] at hrun
      refine iff_of_false (fun hh => ?_) fun h => h.2.1 hmem
      exact (hh.1.mp (by rw [hrun]; rfl)).1 hmem
    rw [if_neg hmem] at hrun
    by_cases hfull : (inboxIds (d.inbox m.destination)).length ≥ 4096
    · rw [if_pos hfull] at hrun
      exact iff_of_false (not_honest_of_written hnone hrun hwritten) fun h => by
        have := h.2.2.1
        omega
    rw [if_neg hfull] at hrun
    cases hI : F (.writeInbox m.destination (d.nextInbox m)) with
    | some f =>
      rw [hI] at hrun
      refine iff_of_false (not_honest_of_written hnone hrun ?_) fun h => nomatch h.2.2.2.1
      cases f.landed <;> exact hwritten
    | none =>
      rw [hI] at hrun
      have hafter : (d.runWith F (enqueueMessage m)).2.inbox m.destination =
          some (d.nextInbox m) := by
        rw [hrun]
        exact Function.update_self ..
      have hok : (d.runWith F (enqueueMessage m)).1 = .ok true := by rw [hrun]; rfl
      refine ⟨fun hh => ⟨rfl, hmem, not_le.mp hfull, rfl, ?_⟩, fun h => ⟨?_, fun e he => ?_⟩⟩
      · rw [← hafter]
        exact (hh.1.mp hok).2
      · exact iff_of_true hok ⟨hmem, by rw [hafter]; exact h.2.2.2.2⟩
      · rw [hok] at he
        cases he

lemma honest_iff_repeated (hreach : Reaches F d m) (hread : F (.readMessage m.id) = none)
    (hsome : d.messages m.id = some m) : Honest F d m ↔ Repeated F d m := by
  have hrun := runWith_enqueueMessage hreach
  rw [runWith_storeMessage, hread, hsome] at hrun
  dsimp only at hrun
  rw [if_neg (not_not.mpr rfl)] at hrun
  dsimp only at hrun
  rw [runWith_queueMessage hreach.checked] at hrun
  unfold Repeated
  cases hR : F (.readInbox m.destination) with
  | some f =>
    rw [hR] at hrun
    exact iff_of_true (honest_of_error hrun) nofun
  | none =>
  rw [hR] at hrun
  dsimp only at hrun
  by_cases hlong : (inboxIds (d.inbox m.destination)).length > 4096
  · rw [if_pos hlong] at hrun
    exact iff_of_true (honest_of_error hrun) fun _ _ hlt => absurd hlt (by omega)
  rw [if_neg hlong] at hrun
  by_cases hmem : m.id ∈ inboxIds (d.inbox m.destination)
  · rw [if_pos hmem] at hrun
    refine iff_of_true ?_ fun _ hn => absurd hmem hn
    unfold Honest
    rw [hrun]
    exact ⟨⟨nofun, fun h => absurd hmem h.1⟩, nofun⟩
  rw [if_neg hmem] at hrun
  by_cases hfull : (inboxIds (d.inbox m.destination)).length ≥ 4096
  · rw [if_pos hfull] at hrun
    exact iff_of_true (honest_of_error hrun) fun _ _ hlt => absurd hlt (not_lt.mpr hfull)
  rw [if_neg hfull] at hrun
  have hafter : (d.apply (.writeInbox m.destination (d.nextInbox m))).inbox m.destination =
      some (d.nextInbox m) := Function.update_self ..
  cases hI : F (.writeInbox m.destination (d.nextInbox m)) with
  | some f =>
    rw [hI] at hrun
    dsimp only at hrun ⊢
    cases hf : f.landed with
    | false =>
      rw [hf] at hrun
      exact iff_of_true (honest_of_error hrun) fun _ _ _ => nofun
    | true =>
      rw [hf] at hrun
      unfold Honest
      rw [hrun]
      refine ⟨fun h _ _ _ _ => ?_, fun h => ?_⟩
      · rw [← hafter]
        exact (h.2 _ rfl).2 m.destination
      · have hids := h rfl hmem (not_le.mp hfull) rfl
        refine ⟨⟨nofun, fun hin => ?_⟩, fun _ _ => ⟨rfl, fun pod => ?_⟩⟩
        · dsimp only at hin
          rw [if_pos rfl, hafter, hids] at hin
          exact absurd hin.2 hmem
        · dsimp only
          rw [if_pos rfl]
          by_cases hpod : pod = m.destination
          · rw [hpod, hafter, hids]
          · exact congrArg inboxIds (Function.update_of_ne hpod _ _)
  | none =>
    rw [hI] at hrun
    unfold Honest
    rw [hrun]
    dsimp only
    rw [hafter]
    refine ⟨fun h _ _ _ hin => ?_, fun h => ⟨⟨nofun, fun hin => ?_⟩, nofun⟩⟩
    · exact absurd (h.1.mpr ⟨hmem, hin⟩) nofun
    · exact absurd hin.2 (h rfl hmem (not_le.mp hfull))

/-- **When an enqueue says what it did.** In any state, whichever file operations fail, an
enqueue is honest if and only if it stops before the message file, or the file holds another
message, or one of two: there is no file yet, and it can't be written or everything after it goes
well and the id gets listed; or the file is there and the inbox is not extended. -/
theorem enqueue_honest_iff : Honest F d m ↔
    (Reaches F d m → F (.readMessage m.id) = none → InStep F d m) := by
  by_cases hreach : Reaches F d m
  swap
  · obtain ⟨e, he⟩ := runWith_enqueueMessage_refused hreach
    exact iff_of_true (honest_of_error he) fun h => absurd h hreach
  have hrun := runWith_enqueueMessage hreach
  rw [runWith_storeMessage] at hrun
  cases hread : F (.readMessage m.id) with
  | some f =>
    rw [hread] at hrun
    exact iff_of_true (honest_of_error hrun) fun _ h => nomatch h
  | none =>
  cases hold : d.messages m.id with
  | none =>
    rw [honest_iff_fresh hreach hread hold]
    exact ⟨fun h _ _ => ⟨fun _ => h, fun hs => (nomatch hold.symm.trans hs)⟩,
      fun h => (h hreach rfl).fresh hold⟩
  | some old =>
    by_cases hsame : old = m
    · subst hsame
      rw [honest_iff_repeated hreach hread hold]
      exact ⟨fun h _ _ => ⟨fun hs => (nomatch hold.symm.trans hs), fun _ => h⟩,
        fun h => (h hreach rfl).repeated hold⟩
    · rw [hread, hold] at hrun
      dsimp only at hrun
      rw [if_pos hsame] at hrun
      exact iff_of_true (honest_of_error hrun) fun _ _ => ⟨fun hs => (nomatch hold.symm.trans hs),
        fun hs => absurd (Option.some.inj (hold.symm.trans hs)) hsame⟩

/-- The inbox of one pod can't be written. -/
def inboxFails (pod : String) : Faults
  | .writeInbox p _ =>
    if p = pod then some ⟨⟨.other, "No space left on device"⟩, false⟩ else none
  | _ => none

/-- The disk after an enqueue that failed between its two files. -/
def halfQueued : Disk :=
  (Disk.runWith (inboxFails "p") { state := some onePod } (enqueueMessage (letter "a"))).2

/-- The next enqueue of the letter puts it into the inbox and says that it was there. -/
theorem retry_says_already_queued :
    (halfQueued.runWith (fun _ => none) (enqueueMessage (letter "a"))).1 = .ok false ∧
      ¬Honest (fun _ => none) halfQueued (letter "a") := by
  have hanswer : (halfQueued.runWith (fun _ => none) (enqueueMessage (letter "a"))).1 =
      .ok false := by decide
  refine ⟨hanswer, fun h => ?_⟩
  have hqueued := h.1.mpr ⟨by decide, by decide⟩
  rw [hanswer] at hqueued
  cases hqueued

end Disk

end Bimo.Store
