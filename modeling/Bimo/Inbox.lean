import Mathlib.Data.Finset.Card
import Bimo.Store

/-!
The capacity of an inbox.

An enqueue reads the pod's inbox file back, refuses a new id when it lists 4096 ids already,
and writes the whole list with the new id at the end. Completing a delivery leaves a marker in
another directory and the inbox file as it is. So what the limit counts is every id that was
ever queued, and over a long run it refuses messages although nothing is waiting.
-/

namespace Bimo.Store

open Factory (FactoryState PodState)

/-! ### Lines -/

/-- A text that ends in a newline is read apart from what follows. -/
lemma linesFrom_append (a b line : List Char) :
    linesFrom (a ++ '\n' :: b) line = linesFrom (a ++ ['\n']) line ++ linesFrom b [] := by
  induction a generalizing line with
  | nil => simp [linesFrom]
  | cons c a ih =>
      simp only [List.cons_append, linesFrom]
      split_ifs with hc
      · rw [ih [], List.cons_append]
      · exact ih (c :: line)

/-- A line without a newline in it is read back as one line. -/
lemma linesFrom_line {a : List Char} (h : '\n' ∉ a) (line : List Char) :
    linesFrom (a ++ ['\n']) line = [String.ofList (chomp (a.reverse ++ line)).reverse] := by
  induction a generalizing line with
  | nil => simp [linesFrom]
  | cons c a ih =>
      obtain ⟨hc, ha⟩ := List.ne_and_not_mem_of_not_mem_cons h
      simp only [List.cons_append, linesFrom, if_neg (Ne.symm hc), ih ha, List.reverse_cons,
        List.append_assoc, List.cons_append, List.nil_append]

/-- No line read back has a newline in it. -/
lemma newline_notMem_linesFrom (cs : List Char) {line : List Char} (h : '\n' ∉ line) :
    ∀ s ∈ linesFrom cs line, '\n' ∉ s.toList := by
  induction cs generalizing line with
  | nil =>
      simp only [linesFrom]
      split_ifs with hl
      · simp
      · simpa using h
  | cons c cs ih =>
      simp only [linesFrom]
      split_ifs with hc
      · refine List.forall_mem_cons.mpr ⟨?_, ih (by simp)⟩
        unfold chomp
        split_ifs
        · simpa using mt List.mem_of_mem_tail h
        · simpa using h
      · exact ih (by simp [Ne.symm hc, h])

lemma all_isSpace_chomp (cs : List Char) : (chomp cs).all isSpace = cs.all isSpace := by
  unfold chomp
  split_ifs with h
  · match cs, h with
    | c :: cs, h =>
        obtain rfl : c = '\r' := Option.some.inj h
        simp [show isSpace '\r' = true from rfl]
  · rfl

/-- What an id adds to an inbox: one line, or none if it is blank, or more if it has line
breaks in it. -/
def lineCount (id : String) : ℕ := (inboxIds (some (id ++ "\n"))).length

lemma inboxIds_cons (id : String) (ids : List String) :
    inboxIds (some (inboxText (id :: ids))) =
      inboxIds (some (id ++ "\n")) ++ inboxIds (some (inboxText ids)) := by
  have htext : (inboxText (id :: ids)).toList = id.toList ++ '\n' :: (inboxText ids).toList := by
    simp [inboxText, String.toList_join]
  have hline : (id ++ "\n").toList = id.toList ++ ['\n'] := by simp
  unfold inboxIds lines
  dsimp only
  rw [htext, hline, linesFrom_append, List.filter_append]

/-- A line as it stands in an inbox. -/
def IsLine (id : String) : Prop := '\n' ∉ id.toList ∧ isBlank id = false

lemma isLine_of_mem {text : Option String} {id : String} (h : id ∈ inboxIds text) : IsLine id := by
  match text, h with
  | some t, h =>
      obtain ⟨hmem, hb⟩ := List.mem_filter.mp h
      exact ⟨newline_notMem_linesFrom _ (by simp) id hmem, by simpa using hb⟩

lemma lineCount_of_isLine {id : String} (h : IsLine id) : lineCount id = 1 := by
  have hline : (id ++ "\n").toList = id.toList ++ ['\n'] := by simp
  have hb : isBlank (String.ofList (chomp id.toList.reverse).reverse) = false := by
    rw [← h.2]
    simp [isBlank, all_isSpace_chomp]
  simp only [lineCount, inboxIds, lines, hline, linesFrom_line h.1, List.append_nil]
  rw [List.filter_cons_of_pos (by simp [hb])]
  rfl

/-- An inbox that is read back and written again with one more id. -/
lemma length_inboxIds_concat {ids : List String} (h : ∀ x ∈ ids, IsLine x) (id : String) :
    (inboxIds (some (inboxText (ids ++ [id])))).length = ids.length + lineCount id := by
  induction ids with
  | nil =>
      rw [List.nil_append, inboxIds_cons, List.length_append]
      have hnil : inboxIds (some (inboxText [])) = [] := by decide
      rw [hnil]
      simp [lineCount]
  | cons x ids ih =>
      obtain ⟨hx, hids⟩ := List.forall_mem_cons.mp h
      have hone := lineCount_of_isLine hx
      unfold lineCount at hone
      rw [List.cons_append, inboxIds_cons, List.length_append, ih hids, hone, List.length_cons]
      omega

lemma inboxIds_clean {id : String} (h : clean id = true) : inboxIds (some (id ++ "\n")) = [id] := by
  unfold clean at h
  rw [Bool.and_eq_true, decide_eq_true_eq, List.all_eq_true] at h
  obtain ⟨hne, hspace⟩ := h
  have hmark : ∀ c, isSpace c = true → c ∉ id.toList := by
    intro c hc hmem
    simpa [hc] using hspace c hmem
  have hline : (id ++ "\n").toList = id.toList ++ ['\n'] := by simp
  have hchomp : chomp id.toList.reverse = id.toList.reverse := by
    unfold chomp
    rw [if_neg fun hhead => hmark '\r' rfl (List.mem_reverse.mp (List.mem_of_head? hhead))]
  have hblank : isBlank id = false := by
    have hnil : id.toList ≠ [] := fun hnil => hne (String.toList_inj.mp hnil)
    obtain ⟨c, hc⟩ := List.exists_mem_of_ne_nil _ hnil
    unfold isBlank
    rw [List.all_eq_false]
    exact ⟨c, hc, fun hs => hmark c hs hc⟩
  simp only [inboxIds, lines, hline]
  rw [linesFrom_line (hmark '\n' rfl), List.append_nil, hchomp, List.reverse_reverse,
    String.ofList_toList]
  exact List.filter_cons_of_pos (by simp [hblank])

/-- A clean id that is written to an inbox is read back. -/
lemma mem_inboxIds_inboxText {ids : List String} {id : String} (h : clean id = true)
    (hmem : id ∈ ids) : id ∈ inboxIds (some (inboxText ids)) := by
  induction ids with
  | nil => cases hmem
  | cons x ids ih =>
      rw [inboxIds_cons, List.mem_append]
      rcases List.mem_cons.mp hmem with rfl | hmem
      · exact .inl (by rw [inboxIds_clean h]; exact List.mem_singleton.mpr rfl)
      · exact .inr (ih hmem)

/-! ### One enqueue -/

namespace Disk

/-- The outcome of a store program where no file operation fails. -/
def run {α : Type} (d : Disk) (p : Io α) : Except IoError α × Disk := p.run answer next d

variable {α : Type} {d : Disk}

lemma run_tryCall (c : Call) (f : c.Ret → Except IoError α) :
    d.run (tryCall c f) = (f (d.answer c), d.next c (d.answer c)) := by
  unfold run tryCall
  rw [run_bind]
  simp [ask]

lemma run_locked (p : Io α) : d.run (locked p) = d.run p := by
  have hlock : d.run lock = (.ok (), d) := run_tryCall .lock id
  unfold run at hlock ⊢
  unfold locked
  rw [run_bind, hlock]
  dsimp only
  rw [run_bind, run_attempt]
  dsimp only
  rw [run_bind, unlock]
  simp only [ask, run_ofExcept]
  rfl

lemma run_pendingMessageIds {pod : String} (hpod : validateComponent pod "pod" = .ok ()) :
    d.run (pendingMessageIds pod) =
      (if (inboxIds (d.inbox pod)).length > 4096 then
        .error ⟨.invalidData, "pending message queue exceeds 4096 entries"⟩
      else .ok (inboxIds (d.inbox pod)), d) := by
  have hread := run_tryCall (d := d) (.readInbox pod) id
  unfold run at hread ⊢
  unfold pendingMessageIds
  rw [hpod, run_bind]
  simp only [run_ofExcept]
  rw [run_bind, hread]
  dsimp only [answer, id]
  split_ifs <;> rfl

lemma run_storeMessage (m : MessageEnvelope) :
    d.run (storeMessage m) =
      match d.messages m.id with
      | some old =>
        if old ≠ m then (.error ⟨.alreadyExists, "message id reused with different content"⟩, d)
        else (.ok true, d)
      | none => (.ok false, d.apply (.writeMessage m)) := by
  have hread : d.run (tryCall (.readMessage m.id) id) = (.ok (d.messages m.id), d) :=
    run_tryCall _ _
  have hwrite : d.run (tryCall (.writeMessage m) id) = (.ok (), d.apply (.writeMessage m)) :=
    run_tryCall _ _
  unfold run at hread hwrite ⊢
  unfold storeMessage
  rw [run_bind, hread]
  cases d.messages m.id with
  | some old =>
      dsimp only
      split_ifs <;> rfl
  | none =>
      dsimp only
      rw [run_bind, hwrite]
      rfl

/-- The inbox is too long to be read, or full, or the id is put at its end unless it is there. -/
lemma run_queueMessage {m : MessageEnvelope} (hm : checkMessage m = .ok ()) :
    let ids := inboxIds (d.inbox m.destination)
    d.run (queueMessage m) =
      if ids.length > 4096 then
        (.error ⟨.invalidData, "pending message queue exceeds 4096 entries"⟩, d)
      else if m.id ∉ ids ∧ ids.length ≥ 4096 then
        (.error ⟨.invalidInput, "pending message queue is full"⟩, d)
      else if m.id ∉ ids then
        (.ok (), d.apply (.writeInbox m.destination (inboxText (ids ++ [m.id]))))
      else (.ok (), d) := by
  have hread := run_pendingMessageIds (d := d) (validateComponent_of_checkMessage hm "pod")
  have hwrite : d.run (tryCall (.writeInbox m.destination
      (inboxText (inboxIds (d.inbox m.destination) ++ [m.id]))) id) = (.ok (), _) :=
    run_tryCall _ _
  unfold run at hread hwrite ⊢
  unfold queueMessage
  rw [run_bind, hread]
  dsimp only
  split_ifs with hlong hfull hnew
  · rfl
  · dsimp only
    rw [if_pos hfull]
    rfl
  · dsimp only
    rw [if_neg hfull, if_neg (not_not.mpr hnew)]
    rfl
  · dsimp only
    rw [if_neg hfull, if_pos hnew]
    exact hwrite

/-- An enqueue of a message that passes its checks, to a declared pod. -/
lemma run_enqueueMessage {m : MessageEnvelope} {s : FactoryState} (hm : checkMessage m = .ok ())
    (hstate : d.state = some s) (hdecl : m.destination ∈ s.pods) :
    d.run (enqueueMessage m) =
      match d.run (storeMessage m) with
      | (.ok old, t) =>
        match t.run (queueMessage m) with
        | (.ok _, t) => (.ok !old, t)
        | (.error e, t) => (.error e, t)
      | (.error e, t) => (.error e, t) := by
  have hread : d.run readState = (.ok d.state, d) := run_tryCall _ _
  rw [hstate] at hread
  have hlayout : d.run (tryCall .ensureLayout id) = (.ok (), d) := run_tryCall _ _
  unfold enqueueMessage
  rw [run_locked]
  unfold run at *
  unfold enqueueMessageLocked
  rw [run_bind, hm]
  simp only [run_ofExcept]
  rw [run_bind, hread]
  dsimp only
  rw [if_neg (not_not.mpr hdecl), run_bind, hlayout]
  dsimp only
  rw [run_bind]
  obtain ⟨x, t⟩ := (storeMessage m).run answer next d
  cases x with
  | error e => rfl
  | ok old =>
      dsimp only
      rw [run_bind]
      obtain ⟨y, t'⟩ := (queueMessage m).run answer next t
      cases y <;> rfl

/-- An enqueue that stops before anything is written. -/
lemma run_enqueueMessage_refused {m : MessageEnvelope}
    (h : ∀ s, checkMessage m = .ok () → d.state = some s → m.destination ∉ s.pods) :
    ∃ e, d.run (enqueueMessage m) = (.error e, d) := by
  have hread : d.run readState = (.ok d.state, d) := run_tryCall _ _
  unfold enqueueMessage
  rw [run_locked]
  unfold run at *
  unfold enqueueMessageLocked
  rw [run_bind]
  simp only [run_ofExcept]
  cases hm : checkMessage m with
  | error e => exact ⟨e, rfl⟩
  | ok _ =>
      dsimp only
      rw [run_bind, hread]
      cases hs : d.state with
      | none => exact ⟨_, rfl⟩
      | some s =>
          dsimp only
          rw [if_pos (h s hm hs)]
          exact ⟨_, rfl⟩

/-- The program came through, and the id was not in the destination's inbox before. -/
def queues {α : Type} (d : Disk) (m : MessageEnvelope) (p : Io α) : Bool :=
  (d.run p).1.isOk && decide (m.id ∉ inboxIds (d.inbox m.destination))

/-- What is left after queueing a message: the inbox as it was, or read back and written with
the id at its end. -/
def Queued (d : Disk) (m : MessageEnvelope) (p : Io α) : Prop :=
  (d.run p).2.processed = d.processed ∧
  (d.run p).2.inbox = if d.queues m p then Function.update d.inbox m.destination
      (some (inboxText (inboxIds (d.inbox m.destination) ++ [m.id]))) else d.inbox

lemma queued_queueMessage {m : MessageEnvelope} (hm : checkMessage m = .ok ()) :
    d.Queued m (queueMessage m) := by
  unfold Queued queues
  rw [run_queueMessage hm]
  split_ifs <;> simp_all [Except.isOk, Except.toBool, apply]

lemma queued_enqueueMessage (m : MessageEnvelope) : d.Queued m (enqueueMessage m) := by
  by_cases h : checkMessage m = .ok () ∧ ∃ s, d.state = some s ∧ m.destination ∈ s.pods
  · obtain ⟨hm, s, hs, hdecl⟩ := h
    have hrun := run_enqueueMessage hm hs hdecl
    rw [run_storeMessage] at hrun
    -- the message file is written before the inbox is looked at
    have hqueue : ∀ t : Disk, t.processed = d.processed → t.inbox = d.inbox → ∀ b : Bool,
        d.run (enqueueMessage m) = (match t.run (queueMessage m) with
          | (.ok _, t) => (.ok b, t)
          | (.error e, t) => (.error e, t)) → d.Queued m (enqueueMessage m) := by
      intro t hproc hinbox b hb
      have ht := queued_queueMessage (d := t) hm
      unfold Queued queues at ht ⊢
      rw [hb]
      rw [hproc, hinbox] at ht
      generalize t.run (queueMessage m) = out at ht ⊢
      obtain ⟨x, t'⟩ := out
      cases x <;> exact ht
    cases hmsg : d.messages m.id with
    | none =>
        rw [hmsg] at hrun
        exact hqueue (d.apply (.writeMessage m)) rfl rfl true hrun
    | some old =>
        rw [hmsg] at hrun
        dsimp only at hrun
        split_ifs at hrun with hold
        · unfold Queued queues
          rw [hrun]
          exact ⟨rfl, by simp [Except.isOk, Except.toBool]⟩
        · exact hqueue d rfl rfl false hrun
  · have hrefused : ∀ s, checkMessage m = .ok () → d.state = some s → m.destination ∉ s.pods :=
      fun s hm hs hd => h ⟨hm, s, hs, hd⟩
    obtain ⟨e, he⟩ := run_enqueueMessage_refused hrefused
    unfold Queued queues
    rw [he]
    exact ⟨rfl, by simp [Except.isOk, Except.toBool]⟩

/-- An enqueue of a fresh message goes through as long as the inbox lists fewer than 4096 ids. -/
lemma run_enqueueMessage_fresh {m : MessageEnvelope} {s : FactoryState}
    (hm : checkMessage m = .ok ()) (hstate : d.state = some s) (hdecl : m.destination ∈ s.pods)
    (hfresh : d.messages m.id = none) (hnew : m.id ∉ inboxIds (d.inbox m.destination)) :
    (d.run (enqueueMessage m)).1 = .ok true ↔ (inboxIds (d.inbox m.destination)).length < 4096 := by
  rw [run_enqueueMessage hm hstate hdecl, run_storeMessage, hfresh]
  dsimp only
  rw [run_queueMessage hm]
  have hinbox : (d.apply (.writeMessage m)).inbox = d.inbox := rfl
  rw [hinbox]
  split_ifs with hlong hfull
  · simp only [false_iff]
    omega
  · simp only [false_iff]
    omega
  · have hroom : (inboxIds (d.inbox m.destination)).length < 4096 := by
      by_contra hge
      exact hfull ⟨hnew, by omega⟩
    simpa using hroom

/-- A pod process the state file names completes a delivery. -/
lemma run_markProcessed_current {i : SessionIdentity} {id : String} {s : FactoryState}
    {pod : PodState} (hstate : d.state = some s) (hpod : s.pods[i.pod]? = some pod)
    (hcur : s.generation = i.factoryGeneration ∧ pod.session = some i.session)
    (hp : validateComponent i.pod "pod" = .ok ())
    (hid : validateComponent id "message id" = .ok ()) :
    d.run (markProcessed i id) = (.ok (), d.apply (.writeProcessed i.pod id)) := by
  have hread : d.run readState = (.ok d.state, d) := run_tryCall _ _
  rw [hstate] at hread
  have hwrite : d.run (tryCall (.writeProcessed i.pod id) fun x => x) =
      (.ok (), d.apply (.writeProcessed i.pod id)) := run_tryCall _ _
  have hneg : ¬(s.generation ≠ i.factoryGeneration ∨ pod.session ≠ some i.session) := by
    rw [not_or, not_not, not_not]
    exact hcur
  unfold markProcessed
  rw [run_locked]
  unfold run at *
  rw [hp, run_bind, run_ofExcept]
  dsimp only
  rw [hid, run_bind, run_ofExcept]
  dsimp only
  rw [run_bind, hread]
  dsimp only
  rw [hpod]
  dsimp only
  rw [if_neg hneg, hwrite]

/-- Completing a delivery changes nothing but markers. -/
lemma run_markProcessed (i : SessionIdentity) (id : String) :
    (d.run (markProcessed i id)).2.inbox = d.inbox := by
  have hread : d.run readState = (.ok d.state, d) := run_tryCall _ _
  have hwrite : d.run (tryCall (.writeProcessed i.pod id) fun x => x) =
      (.ok (), d.apply (.writeProcessed i.pod id)) := run_tryCall _ _
  unfold markProcessed
  rw [run_locked]
  unfold run at *
  rw [run_bind, run_ofExcept]
  cases validateComponent i.pod "pod" with
  | error e => rfl
  | ok _ =>
      dsimp only
      rw [run_bind, run_ofExcept]
      cases validateComponent id "message id" with
      | error e => rfl
      | ok _ =>
          dsimp only
          rw [run_bind, hread]
          cases d.state with
          | none => rfl
          | some s =>
              dsimp only
              cases s.pods[i.pod]? with
              | none => rfl
              | some pod =>
                  dsimp only
                  split_ifs
                  · rfl
                  · rw [hwrite]
                    rfl

end Disk

/-! ### Runs -/

/-- What happens to the store: a message is sent, a delivery is completed by a pod process, the
state file is replaced by an apply. -/
inductive Event
  | enqueue (m : MessageEnvelope)
  | complete (i : SessionIdentity) (id : String)
  | apply (state : FactoryState)

/-- The store, and the ids put at the end of each pod's inbox so far. -/
structure Served where
  disk : Disk
  queued : String → List String := fun _ => []

namespace Served

def step (s : Served) : Event → Served
  | .enqueue m =>
    { disk := (s.disk.run (enqueueMessage m)).2
      queued :=
        if s.disk.queues m (enqueueMessage m) then
          Function.update s.queued m.destination (s.queued m.destination ++ [m.id])
        else s.queued }
  | .complete i id => { s with disk := (s.disk.run (markProcessed i id)).2 }
  | .apply state => { s with disk := { s.disk with state := some state } }

/-- What a run of events from a disk comes to. -/
def after (d : Disk) (es : List Event) : Served := es.foldl step { disk := d }

/-- The messages queued for a pod that are not yet processed. -/
def unprocessed (s : Served) (pod : String) : Finset String :=
  (s.queued pod).toFinset.filter fun id => s.disk.processed pod id = false

/-- An inbox lists all that was ever queued. -/
def Listed (s : Served) : Prop :=
  ∀ pod, (inboxIds (s.disk.inbox pod)).length = ((s.queued pod).map lineCount).sum

lemma listed_step {s : Served} (h : s.Listed) (e : Event) : (s.step e).Listed := by
  intro pod
  cases e with
  | enqueue m =>
      have hinbox := (Disk.queued_enqueueMessage (d := s.disk) m).2
      simp only [step, hinbox]
      split_ifs with hq
      · by_cases hp : pod = m.destination
        · subst hp
          have hlen := length_inboxIds_concat
            (fun x (hx : x ∈ inboxIds (s.disk.inbox m.destination)) => isLine_of_mem hx) m.id
          rw [Function.update_self, Function.update_self, hlen, h m.destination]
          simp
        · rw [Function.update_of_ne hp, Function.update_of_ne hp]
          exact h pod
      · exact h pod
  | complete i id =>
      simp only [step, Disk.run_markProcessed]
      exact h pod
  | apply state => exact h pod

lemma listed_after {d : Disk} (hempty : ∀ pod, d.inbox pod = none) (es : List Event) :
    (after d es).Listed := by
  induction es using List.reverseRecOn with
  | nil =>
      intro pod
      simp only [after, List.foldl_nil, hempty pod]
      rfl
  | append_singleton es e ih =>
      unfold after at ih ⊢
      rw [List.foldl_append]
      exact listed_step ih e

end Served

/-- **The limit counts what was ever queued.** After any run from empty inboxes, an enqueue of a
valid fresh message to a declared pod is as the limit on pending work would have it just when
fewer than 4096 lines were ever queued for the pod, or 4096 messages are in fact pending. -/
theorem enqueue_succeeds_iff {d : Disk} (hempty : ∀ pod, d.inbox pod = none) (es : List Event)
    {m : MessageEnvelope} {state : FactoryState} (hm : checkMessage m = .ok ())
    (hstate : (Served.after d es).disk.state = some state) (hdecl : m.destination ∈ state.pods)
    (hfresh : (Served.after d es).disk.messages m.id = none)
    (hnew : m.id ∉ inboxIds ((Served.after d es).disk.inbox m.destination)) :
    let s := Served.after d es
    ((s.unprocessed m.destination).card < 4096 →
        (s.disk.run (enqueueMessage m)).1 = .ok true) ↔
      ((s.queued m.destination).map lineCount).sum < 4096 ∨
        4096 ≤ (s.unprocessed m.destination).card := by
  intro s
  have hlisted : s.Listed := Served.listed_after hempty es
  rw [Disk.run_enqueueMessage_fresh hm hstate hdecl hfresh hnew, hlisted m.destination,
    imp_iff_not_or, not_lt, or_comm]

/-! ### A pod that completes all it is sent -/

def onePod : FactoryState where
  generation := 1
  factoryName := "f"
  pods := (∅ : Std.TreeMap String PodState).insert "p" { name := "p", session := some "s" }

def worker : SessionIdentity := { factoryGeneration := 1, pod := "p", session := "s" }

/-- The `n`-th id. -/
def nth (n : ℕ) : String := "m" ++ toString n

def letter (id : String) : MessageEnvelope :=
  { id, source := "p", destination := "p", kind := "message", payload := "" }

/-- Messages sent and completed, one after the other. -/
def completions : ℕ → List Event
  | 0 => []
  | n + 1 => completions n ++ [.enqueue (letter (nth n)), .complete worker (nth n)]

lemma toList_nth (n : ℕ) : (nth n).toList = 'm' :: Nat.toDigits 10 n := by
  rw [nth, String.toList_append, Nat.toString_eq_repr, Nat.toList_repr]
  rfl

lemma of_mem_nth {n : ℕ} {c : Char} (h : c ∈ (nth n).toList) : c = 'm' ∨ c.isDigit = true := by
  rw [toList_nth] at h
  exact (List.mem_cons.mp h).imp_right (Nat.isDigit_of_mem_toDigits (by decide) (by decide))

lemma validateComponent_nth (n : ℕ) (l : String) : validateComponent (nth n) l = .ok () := by
  have hmem : 'm' ∈ (nth n).toList := by
    rw [toList_nth]
    exact List.mem_cons_self
  have hne : ∀ v : String, 'm' ∉ v.toList → nth n ≠ v := by
    rintro v hv rfl
    exact hv hmem
  unfold validateComponent
  rw [if_neg]
  rintro (h | h | h | h | h)
  · exact hne _ (by decide) h
  · exact hne _ (by decide) h
  · exact hne _ (by decide) h
  · exact absurd (of_mem_nth h) (by decide)
  · exact absurd (of_mem_nth h) (by decide)

lemma checkMessage_letter (n : ℕ) : checkMessage (letter (nth n)) = .ok () := by
  have hpod : ∀ l, validateComponent "p" l = .ok () := validateComponent_label (l := "") (by decide)
  have hkind : isKind "message" = true := by decide
  have hlen : Wire.len "" = 0 := by decide
  simp [checkMessage, validateMessage, letter, validateComponent_nth, hpod, hkind, hlen]
  rfl

lemma nth_injective : Function.Injective nth := by
  intro a b h
  have htail := congrArg String.toList h
  rw [toList_nth, toList_nth, List.cons.injEq, ← Nat.toList_repr, ← Nat.toList_repr,
    String.toList_inj] at htail
  exact Nat.repr_injective htail.2

lemma inboxIds_nth (n : ℕ) : inboxIds (some (nth n ++ "\n")) = [nth n] := by
  refine inboxIds_clean ?_
  unfold clean
  rw [Bool.and_eq_true, decide_eq_true_eq, List.all_eq_true]
  refine ⟨fun h => ?_, fun c hc => ?_⟩
  · have hnil := congrArg String.toList h
    rw [toList_nth] at hnil
    cases hnil
  · have hrange : 48 ≤ c.toNat ∧ c.toNat ≤ 109 ∧ c.toNat ≠ 133 := by
      rcases of_mem_nth hc with rfl | hdigit
      · decide
      · simp only [Char.isDigit, Bool.and_eq_true, decide_eq_true_eq,
          UInt32.le_iff_toNat_le] at hdigit
        have hlast : c.toNat ≤ 57 := hdigit.2
        have hfirst : 48 ≤ c.toNat := hdigit.1
        omega
    simp only [isSpace, Bool.not_eq_true', Bool.or_eq_false_iff, beq_eq_false_iff_ne,
      Bool.and_eq_false_iff, decide_eq_false_iff_not]
    omega

lemma inboxIds_nths (l : List ℕ) : inboxIds (some (inboxText (l.map nth))) = l.map nth := by
  induction l with
  | nil => decide
  | cons n l ih => rw [List.map_cons, inboxIds_cons, inboxIds_nth, ih, List.singleton_append]

/-- What is there after the first `n` messages. -/
structure Completed (n : ℕ) (s : Served) : Prop where
  state : s.disk.state = some onePod
  inbox : inboxIds (s.disk.inbox "p") = (List.range n).map nth
  messages : ∀ id, (∀ j < n, id ≠ nth j) → s.disk.messages id = none
  queued : s.queued "p" = (List.range n).map nth
  processed : ∀ j < n, s.disk.processed "p" (nth j) = true

lemma completed_step {n : ℕ} {s : Served} (hn : n < 4096) (h : Completed n s) :
    Completed (n + 1) ((s.step (.enqueue (letter (nth n)))).step (.complete worker (nth n))) := by
  have hfresh : s.disk.messages (nth n) = none :=
    h.messages _ fun j hj he => hj.ne (nth_injective he).symm
  have hnew : nth n ∉ inboxIds (s.disk.inbox "p") := by
    rw [h.inbox]
    simp [nth_injective.eq_iff]
  have hdecl : (letter (nth n)).destination ∈ onePod.pods := by simp [onePod, letter]
  have hlen : (inboxIds (s.disk.inbox "p")).length = n := by simp [h.inbox]
  -- the message is put at the end of the inbox
  obtain ⟨d, hd⟩ : ∃ d, d = (s.disk.apply (.writeMessage (letter (nth n)))).apply
      (.writeInbox "p" (inboxText ((List.range n).map nth ++ [nth n]))) := ⟨_, rfl⟩
  have henq : s.disk.run (enqueueMessage (letter (nth n))) = (.ok true, d) := by
    have hqueue := Disk.run_queueMessage (d := s.disk.apply (.writeMessage (letter (nth n))))
      (checkMessage_letter n)
    have hinbox : (s.disk.apply (.writeMessage (letter (nth n)))).inbox = s.disk.inbox := rfl
    simp only [hinbox] at hqueue
    rw [if_neg (by simp only [letter]; omega), if_neg (by simp only [letter]; omega),
      if_pos (show (letter (nth n)).id ∉ inboxIds (s.disk.inbox (letter (nth n)).destination)
        from hnew)] at hqueue
    rw [Disk.run_enqueueMessage (checkMessage_letter n) h.state hdecl, Disk.run_storeMessage,
      show (letter (nth n)).id = nth n from rfl, hfresh]
    dsimp only
    rw [hqueue, hd, ← h.inbox]
    rfl
  -- and its delivery completed
  have hpod : onePod.pods[worker.pod]? = some { name := "p", session := some "s" } := by
    simp [onePod, worker]
  have hdone := Disk.run_markProcessed_current (d := d) (by rw [hd]; exact h.state) hpod
    ⟨rfl, rfl⟩ (by decide) (validateComponent_nth n _)
  have hq : s.disk.queues (letter (nth n)) (enqueueMessage (letter (nth n))) = true := by
    unfold Disk.queues
    rw [henq]
    exact decide_eq_true hnew
  simp only [Served.step, henq, hdone, hq, if_true]
  refine ⟨?_, ?_, fun id hid => ?_, ?_, fun j hj => ?_⟩
  · rw [hd]
    exact h.state
  · have htext := inboxIds_nths (List.range (n + 1))
    rw [List.range_succ, List.map_append] at htext ⊢
    simpa [hd, Disk.apply] using htext
  · have hne : id ≠ nth n := hid n (Nat.lt_succ_self n)
    simpa [hd, Disk.apply, letter, hne] using h.messages id fun j hj => hid j (by omega)
  · simp [letter, h.queued, List.range_succ]
  · rcases Nat.lt_succ_iff_lt_or_eq.mp hj with hj | rfl
    · have hne : nth j ≠ nth n := nth_injective.ne hj.ne
      simpa [hd, Disk.apply, write, worker, hne] using h.processed j hj
    · simp [Disk.apply, write, worker]

lemma completed_after {n : ℕ} (hn : n ≤ 4096) :
    Completed n (.after { state := some onePod } (completions n)) := by
  induction n with
  | zero => exact ⟨rfl, rfl, fun _ _ => rfl, rfl, fun _ h => absurd h (Nat.not_lt_zero _)⟩
  | succ n ih =>
      have hstep := completed_step (by omega) (ih (by omega))
      simpa only [Served.after, completions, List.foldl_append, List.foldl_cons, List.foldl_nil]
        using hstep

/-- Another message is new all the while. -/
lemma Completed.fresh {n : ℕ} {s : Served} (h : Completed n s) :
    s.disk.messages "y" = none ∧ "y" ∉ inboxIds (s.disk.inbox "p") := by
  have hne : ∀ j, "y" ≠ nth j := by
    intro j hj
    have hlist := congrArg String.toList hj
    rw [toList_nth] at hlist
    exact absurd (List.cons.inj hlist).1 (by decide)
  refine ⟨h.messages "y" fun j _ => hne j, ?_⟩
  rw [h.inbox]
  simpa using fun j _ => (hne j).symm

/-- Three messages were sent and completed, and there is one more. -/
theorem enqueue_succeeds_later :
    let s := Served.after { state := some onePod } (completions 3)
    ((s.unprocessed "p").card < 4096 →
        (s.disk.run (enqueueMessage (letter "y"))).1 = .ok true) ↔
      ((s.queued "p").map lineCount).sum < 4096 ∨ 4096 ≤ (s.unprocessed "p").card := by
  have h := completed_after (n := 3) (by decide)
  exact enqueue_succeeds_iff (m := letter "y") (fun _ => rfl) (completions 3) (by decide) h.state
    (by simp [onePod, letter]) h.fresh.1 h.fresh.2

/-- After 4096 messages, all completed, the next one is refused. -/
theorem enqueue_refused_when_idle :
    ¬∀ (es : List Event) (m : MessageEnvelope) (state : FactoryState),
      checkMessage m = .ok () →
      (Served.after { state := some onePod } es).disk.state = some state →
      m.destination ∈ state.pods →
      (Served.after { state := some onePod } es).disk.messages m.id = none →
      m.id ∉ inboxIds ((Served.after { state := some onePod } es).disk.inbox m.destination) →
      ((Served.after { state := some onePod } es).unprocessed m.destination).card < 4096 →
      ((Served.after { state := some onePod } es).disk.run (enqueueMessage m)).1 = .ok true := by
  intro hall
  obtain ⟨es, h⟩ : ∃ es, Completed 4096 (.after { state := some onePod } es) :=
    ⟨_, completed_after (le_refl 4096)⟩
  have hdecl : (letter "y").destination ∈ onePod.pods := by simp [onePod, letter]
  obtain ⟨hfresh, hnew⟩ := h.fresh
  have hidle : (Served.after { state := some onePod } es).unprocessed (letter "y").destination
      = ∅ := by
    unfold Served.unprocessed
    simp only [letter, h.queued]
    rw [Finset.filter_eq_empty_iff]
    intro id hid
    obtain ⟨j, hj, rfl⟩ := List.mem_map.mp (List.mem_toFinset.mp hid)
    simp [h.processed j (List.mem_range.mp hj)]
  have hok := hall es (letter "y") onePod (by decide) h.state hdecl hfresh hnew
    (by rw [hidle, Finset.card_empty]; omega)
  have hlen := (Disk.run_enqueueMessage_fresh (by decide) h.state hdecl hfresh hnew).mp hok
  simp [letter, h.inbox] at hlen

end Bimo.Store
