import Mathlib.Algebra.Order.BigOperators.Group.List
import Mathlib.Algebra.Order.Group.Nat
import Bimo.Inbox

/-!
What a pod's inbox gives back.

The ids of an inbox are lines of a file, and every enqueue reads the lines and writes them again
with one more. An id is taken if it can stand in a path. It comes back as it was if and only if
it is a line that reading keeps whole: no newline in it, no carriage return at its end, and not
all white space. Each time the file is read and written an id that ends in carriage returns
loses one of them.
-/

namespace Bimo.Store

open Factory (FactoryState PodState)

/-! ### A line that is kept whole -/

/-- The id is a line that is read back as it was written. -/
def Whole (id : String) : Prop := IsLine id ∧ id.toList.getLast? ≠ some '\r'

instance (id : String) : Decidable (IsLine id) := inferInstanceAs (Decidable (_ ∧ _))

instance (id : String) : Decidable (Whole id) := inferInstanceAs (Decidable (_ ∧ _))

/-- A line as it is read back. -/
def kept (id : String) : String := String.ofList (chomp id.toList.reverse).reverse

lemma kept_cr {id : String} {cs : List Char} (h : id.toList = cs ++ ['\r']) :
    (kept id).toList = cs := by
  simp [kept, h, chomp]

lemma kept_of_getLast? {id : String} (h : id.toList.getLast? ≠ some '\r') : kept id = id := by
  have hhead : id.toList.reverse.head? ≠ some '\r' := by rwa [List.head?_reverse]
  unfold kept chomp
  rw [if_neg hhead, List.reverse_reverse, String.ofList_toList]

lemma inboxIds_line {id : String} (h : '\n' ∉ id.toList) :
    inboxIds (some (id ++ "\n")) = [kept id].filter fun line => !isBlank line := by
  have hline : (id ++ "\n").toList = id.toList ++ ['\n'] := by simp
  simp only [inboxIds, lines, hline, linesFrom_line h, List.append_nil]
  rfl

/-- Lines without newlines are read one by one. -/
lemma inboxIds_inboxText {ids : List String} (h : ∀ id ∈ ids, '\n' ∉ id.toList) :
    inboxIds (some (inboxText ids)) = (ids.map kept).filter fun line => !isBlank line := by
  induction ids with
  | nil => decide
  | cons id ids ih =>
    obtain ⟨hid, hids⟩ := List.forall_mem_cons.mp h
    rw [inboxIds_cons, inboxIds_line hid, ih hids, ← List.filter_append]
    rfl

lemma inboxIds_whole {ids : List String} (h : ∀ id ∈ ids, Whole id) :
    inboxIds (some (inboxText ids)) = ids := by
  rw [inboxIds_inboxText fun id hid => (h id hid).1.1]
  have hmap : ids.map kept = ids :=
    (List.map_congr_left fun id hid => kept_of_getLast? (h id hid).2).trans (List.map_id ids)
  rw [hmap]
  exact List.filter_eq_self.mpr fun id hid => by simp [(h id hid).1.2]

/-! ### An enqueue that comes through -/

namespace Disk

variable {d t : Disk} {m : MessageEnvelope} {b : Bool}

/-- What an enqueue that comes back well found and left. -/
structure Enqueues (d : Disk) (m : MessageEnvelope) (b : Bool) (t : Disk) : Prop where
  checked : checkMessage m = .ok ()
  same : d.messages m.id = none ∨ d.messages m.id = some m
  answered : b = (d.messages m.id).isNone
  messages : t.messages = Function.update d.messages m.id (some m)
  inbox : t.inbox = if m.id ∈ inboxIds (d.inbox m.destination) then d.inbox
    else Function.update d.inbox m.destination
      (some (inboxText (inboxIds (d.inbox m.destination) ++ [m.id])))
  room : m.id ∉ inboxIds (d.inbox m.destination) →
    (inboxIds (d.inbox m.destination)).length < 4096
  short : (inboxIds (d.inbox m.destination)).length ≤ 4096
  rest : t.state = d.state ∧ t.processed = d.processed ∧ t.terminals = d.terminals

lemma queue_ok (hm : checkMessage m = .ok ()) (h : (d.run (queueMessage m)).1 = .ok ()) :
    (d.run (queueMessage m)).2.messages = d.messages ∧
    ((d.run (queueMessage m)).2.inbox = if m.id ∈ inboxIds (d.inbox m.destination) then d.inbox
      else Function.update d.inbox m.destination
        (some (inboxText (inboxIds (d.inbox m.destination) ++ [m.id])))) ∧
    (m.id ∉ inboxIds (d.inbox m.destination) →
      (inboxIds (d.inbox m.destination)).length < 4096) ∧
    (inboxIds (d.inbox m.destination)).length ≤ 4096 ∧
    (d.run (queueMessage m)).2.state = d.state ∧
    (d.run (queueMessage m)).2.processed = d.processed ∧
    (d.run (queueMessage m)).2.terminals = d.terminals := by
  rw [run_queueMessage hm] at h ⊢
  split_ifs at h ⊢ with hlong hfull hold
  · exact ⟨rfl, rfl, fun hn => absurd hold hn, not_lt.mp hlong, rfl, rfl, rfl⟩
  · exact ⟨rfl, rfl, fun _ => not_le.mp (not_and.mp hfull hold), not_lt.mp hlong, rfl, rfl, rfl⟩

/-- Whether the message file is there already or is written now, the inbox is the same. -/
lemma enqueues_of_queued {u : Disk} (hm : checkMessage m = .ok ()) (hinbox : u.inbox = d.inbox)
    (hrest : u.state = d.state ∧ u.processed = d.processed ∧ u.terminals = d.terminals)
    (hmessages : u.messages = Function.update d.messages m.id (some m))
    (hsame : d.messages m.id = none ∨ d.messages m.id = some m) (old : Bool)
    (h : (match u.run (queueMessage m) with
      | (.ok _, t) => (.ok !old, t)
      | (.error e, t) => (.error e, t)) = ((.ok b, t) : Except IoError Bool × Disk))
    (hold : (!old) = (d.messages m.id).isNone) : Enqueues d m b t := by
  have hu := queue_ok (d := u) hm
  generalize u.run (queueMessage m) = out at h hu
  obtain ⟨e | _, t'⟩ := out
  · cases h
  · obtain ⟨hb, rfl⟩ := Prod.mk.inj h
    obtain rfl := Except.ok.inj hb
    obtain ⟨hmess, hbox, hroom, hshort, hstate, hprocessed, hterminals⟩ := hu rfl
    rw [hinbox] at hbox hroom hshort
    exact ⟨hm, hsame, hold, hmess.trans hmessages, hbox, hroom, hshort, hstate.trans hrest.1,
      hprocessed.trans hrest.2.1, hterminals.trans hrest.2.2⟩

lemma enqueues_of_run (h : d.run (enqueueMessage m) = (.ok b, t)) : Enqueues d m b t := by
  by_cases hreach : checkMessage m = .ok () ∧ ∃ s, d.state = some s ∧ m.destination ∈ s.pods
  swap
  · obtain ⟨e, he⟩ := run_enqueueMessage_refused (d := d) (m := m)
      fun s hm hs hd => hreach ⟨hm, s, hs, hd⟩
    rw [he] at h
    cases h
  obtain ⟨hm, s, hs, hdecl⟩ := hreach
  rw [run_enqueueMessage hm hs hdecl, run_storeMessage] at h
  cases hmsg : d.messages m.id with
  | none =>
    rw [hmsg] at h
    exact enqueues_of_queued (u := d.apply (.writeMessage m)) hm rfl ⟨rfl, rfl, rfl⟩ rfl
      (.inl hmsg) false h (by rw [hmsg]; rfl)
  | some old =>
    rw [hmsg] at h
    dsimp only at h
    split_ifs at h with hold
    · cases h
    · obtain rfl := not_not.mp hold
      refine enqueues_of_queued (u := d) hm rfl ⟨rfl, rfl, rfl⟩ ?_ (.inr hmsg) true h (by rw [hmsg]; rfl)
      rw [← hmsg, Function.update_eq_self]

/-- The inbox of a pod, before and after. -/
lemma Enqueues.inbox_apply (h : Enqueues d m b t) (pod : String) :
    t.inbox pod = if m.destination = pod ∧ m.id ∉ inboxIds (d.inbox pod) then
      some (inboxText (inboxIds (d.inbox pod) ++ [m.id])) else d.inbox pod := by
  rw [h.inbox]
  by_cases hpod : m.destination = pod
  · subst hpod
    by_cases hmem : m.id ∈ inboxIds (d.inbox m.destination) <;> simp [hmem]
  · have hother : ∀ x, Function.update d.inbox m.destination x pod = d.inbox pod :=
      fun x => Function.update_of_ne (Ne.symm hpod) x d.inbox
    split_ifs with hmem hc hc
    · exact absurd hc.1 hpod
    · rfl
    · exact absurd hc.1 hpod
    · exact hother _

end Disk

/-! ### Enqueues in a row -/

/-- Enqueues one after the other, each of which comes back well. -/
def Sends : Disk → List MessageEnvelope → Disk → Prop
  | d, [], t => d = t
  | d, m :: ms, t => ∃ b u, d.run (enqueueMessage m) = (.ok b, u) ∧ Sends u ms t

/-- The ids sent to a pod. -/
def idsTo (pod : String) (ms : List MessageEnvelope) : List String :=
  (ms.filter (·.destination = pod)).map (·.id)

/-- Each element once, where it is first. -/
def distinct (ids : List String) : List String :=
  ids.foldl (fun seen id => if id ∈ seen then seen else seen ++ [id]) []

lemma distinct_concat (ids : List String) (id : String) :
    distinct (ids ++ [id]) = if id ∈ distinct ids then distinct ids else distinct ids ++ [id] := by
  unfold distinct
  rw [List.foldl_append]
  rfl

lemma mem_distinct {ids : List String} {x : String} : x ∈ distinct ids ↔ x ∈ ids := by
  induction ids using List.reverseRecOn with
  | nil => rfl
  | append_singleton ids id ih =>
    rw [distinct_concat]
    split_ifs with h
    · rw [ih, List.mem_append, List.mem_singleton]
      exact ⟨.inl, fun hx => hx.elim (fun hmem => hmem) (by rintro rfl; exact ih.mp h)⟩
    · rw [List.mem_append, ih, List.mem_append]

lemma nodup_distinct (ids : List String) : (distinct ids).Nodup := by
  induction ids using List.reverseRecOn with
  | nil => exact List.nodup_nil
  | append_singleton ids id ih =>
    rw [distinct_concat]
    split_ifs with h
    · exact ih
    · exact List.nodup_append.mpr ⟨ih, List.nodup_singleton id, fun x hx y hy hxy =>
        h (List.mem_singleton.mp hy ▸ hxy ▸ hx)⟩

lemma mem_idsTo {pod id : String} {ms : List MessageEnvelope} :
    id ∈ idsTo pod ms ↔ ∃ m ∈ ms, m.destination = pod ∧ m.id = id := by
  simp [idsTo, and_assoc]

lemma idsTo_cons (pod : String) (m : MessageEnvelope) (ms : List MessageEnvelope) :
    idsTo pod (m :: ms) = (if m.destination = pod then [m.id] else []) ++ idsTo pod ms := by
  unfold idsTo
  by_cases h : m.destination = pod <;> simp [h]

variable {pod : String} {d t : Disk} {ms : List MessageEnvelope}

lemma idsTo_append (pod : String) (ms ns : List MessageEnvelope) :
    idsTo pod (ms ++ ns) = idsTo pod ms ++ idsTo pod ns := by
  simp [idsTo]

/-- An id that is kept whole is listed as it was sent. -/
lemma listed_step {u : Disk} {m : MessageEnvelope} {b : Bool} {seen : List String}
    (h : d.Enqueues m b u) (hlisted : inboxIds (d.inbox pod) = distinct seen)
    (hshort : (distinct seen).length ≤ 4096) (hseen : ∀ id ∈ seen, Whole id)
    (hm : m.destination = pod → Whole m.id) :
    inboxIds (u.inbox pod) = distinct (seen ++ idsTo pod [m]) ∧
      (distinct (seen ++ idsTo pod [m])).length ≤ 4096 := by
  have hu := h.inbox_apply pod
  rw [idsTo_cons, idsTo, List.filter_nil, List.map_nil, List.append_nil, hu, hlisted]
  by_cases hpod : m.destination = pod
  · rw [if_pos hpod]
    have hroom := h.room
    rw [hpod, hlisted] at hroom
    by_cases hmem : m.id ∈ distinct seen
    · rw [distinct_concat, if_pos hmem, if_neg fun hc => hc.2 hmem]
      exact ⟨hlisted, hshort⟩
    · have hnew : distinct (seen ++ [m.id]) = distinct seen ++ [m.id] := by
        rw [distinct_concat, if_neg hmem]
      have hall : ∀ id ∈ distinct (seen ++ [m.id]), Whole id := fun id hid =>
        (List.mem_append.mp (mem_distinct.mp hid)).elim (hseen id) fun h1 =>
          List.mem_singleton.mp h1 ▸ hm hpod
      rw [if_pos ⟨hpod, hmem⟩, ← hnew]
      refine ⟨inboxIds_whole hall, ?_⟩
      rw [hnew, List.length_append]
      exact hroom hmem
  · rw [if_neg hpod, List.append_nil, if_neg fun hc => hpod hc.1]
    exact ⟨hlisted, hshort⟩

lemma whole_idsTo_append {seen : List String} {m : MessageEnvelope}
    (hseen : ∀ id ∈ seen, Whole id) (hm : m.destination = pod → Whole m.id) :
    ∀ id ∈ seen ++ idsTo pod [m], Whole id := by
  intro id hid
  rcases List.mem_append.mp hid with hid | hid
  · exact hseen id hid
  · obtain ⟨n, hn, hdest, rfl⟩ := mem_idsTo.mp hid
    obtain rfl := List.mem_singleton.mp hn
    exact hm hdest

/-- Ids that are kept whole are listed as they were sent. -/
lemma listed_of_whole {seen : List String} (h : Sends d ms t)
    (hlisted : inboxIds (d.inbox pod) = distinct seen) (hshort : (distinct seen).length ≤ 4096)
    (hseen : ∀ id ∈ seen, Whole id) (hms : ∀ m ∈ ms, m.destination = pod → Whole m.id) :
    inboxIds (t.inbox pod) = distinct (seen ++ idsTo pod ms) ∧
      (distinct (seen ++ idsTo pod ms)).length ≤ 4096 := by
  induction ms generalizing d seen with
  | nil =>
    obtain rfl : d = t := h
    rw [idsTo, List.filter_nil, List.map_nil, List.append_nil]
    exact ⟨hlisted, hshort⟩
  | cons m ms ih =>
    obtain ⟨b, u, hrun, hrest⟩ := h
    have hm := hms m List.mem_cons_self
    obtain ⟨hu, hlen⟩ := listed_step (Disk.enqueues_of_run hrun) hlisted hshort hseen hm
    have hids := ih hrest hu hlen (whole_idsTo_append hseen hm)
      fun n hn => hms n (List.mem_cons_of_mem _ hn)
    rwa [List.append_assoc, ← idsTo_append, List.singleton_append] at hids

/-- The entry is what is left of an id that was sent: the id without some carriage returns at its
end, and without at least one if it ended in one. -/
def LeftOf (sent : List String) (entry : String) : Prop :=
  ∃ x ∈ sent, ∃ k, x.toList = entry.toList ++ List.replicate k '\r' ∧
    (k = 0 → entry.toList.getLast? ≠ some '\r')

lemma leftOf_kept {sent : List String} {entry : String} {k : ℕ} {x : String} (hx : x ∈ sent)
    (heq : x.toList = entry.toList ++ List.replicate k '\r') : LeftOf sent (kept entry) := by
  by_cases hlast : entry.toList.getLast? = some '\r'
  · obtain ⟨cs, hcs⟩ := List.getLast?_eq_some_iff.mp hlast
    refine ⟨x, hx, k + 1, ?_, nofun⟩
    rw [heq, kept_cr hcs, hcs, List.append_assoc, List.replicate_succ]
    rfl
  · rw [kept_of_getLast? hlast]
    exact ⟨x, hx, k, heq, fun _ => hlast⟩

lemma LeftOf.mono {sent sent' : List String} {entry : String} (h : LeftOf sent entry)
    (hsub : sent ⊆ sent') : LeftOf sent' entry := by
  obtain ⟨x, hx, hk⟩ := h
  exact ⟨x, hsub hx, hk⟩

lemma leftOf_step {u : Disk} {m : MessageEnvelope} {b : Bool} {seen : List String}
    (h : d.Enqueues m b u) (hleft : ∀ entry ∈ inboxIds (d.inbox pod), LeftOf seen entry)
    (hm : m.destination = pod → '\n' ∉ m.id.toList) :
    ∀ entry ∈ inboxIds (u.inbox pod), LeftOf (seen ++ idsTo pod [m]) entry := by
  intro entry hentry
  rw [h.inbox_apply pod] at hentry
  split_ifs at hentry with hadd
  · have hown : m.id ∈ idsTo pod [m] := mem_idsTo.mpr ⟨m, List.mem_singleton_self m, hadd.1, rfl⟩
    have hlines : ∀ id ∈ inboxIds (d.inbox pod) ++ [m.id], '\n' ∉ id.toList := fun id hid =>
      (List.mem_append.mp hid).elim (fun h1 => (isLine_of_mem h1).1)
        fun h1 => List.mem_singleton.mp h1 ▸ hm hadd.1
    rw [inboxIds_inboxText hlines] at hentry
    obtain ⟨id, hid, rfl⟩ := List.mem_map.mp (List.mem_filter.mp hentry).1
    rcases List.mem_append.mp hid with hold | hnew
    · obtain ⟨x, hx, k, heq, -⟩ := hleft id hold
      exact leftOf_kept (List.mem_append_left _ hx) heq
    · obtain rfl := List.mem_singleton.mp hnew
      exact leftOf_kept (k := 0) (List.mem_append_right _ hown) (List.append_nil _).symm
  · exact (hleft entry hentry).mono (List.subset_append_left _ _)

/-- What is listed is left of the ids that were sent, as long as none of them has a newline. -/
lemma leftOf_of_sends {seen : List String} (h : Sends d ms t)
    (hleft : ∀ entry ∈ inboxIds (d.inbox pod), LeftOf seen entry)
    (hms : ∀ m ∈ ms, m.destination = pod → '\n' ∉ m.id.toList) :
    ∀ entry ∈ inboxIds (t.inbox pod), LeftOf (seen ++ idsTo pod ms) entry := by
  induction ms generalizing d seen with
  | nil =>
    obtain rfl : d = t := h
    exact fun entry hentry => (hleft entry hentry).mono (List.subset_append_left _ _)
  | cons m ms ih =>
    obtain ⟨b, u, hrun, hrest⟩ := h
    have hu := leftOf_step (Disk.enqueues_of_run hrun) hleft (hms m List.mem_cons_self)
    have hids := ih hrest hu fun n hn => hms n (List.mem_cons_of_mem _ hn)
    rwa [List.append_assoc, ← idsTo_append, List.singleton_append] at hids

/-- Ids that are all listed are all whole: the longest of those that end in a carriage return
would be left of a longer one. -/
lemma whole_of_listed {ids : List String} (hline : ∀ id ∈ ids, IsLine id)
    (hleft : ∀ id ∈ ids, LeftOf ids id) : ∀ id ∈ ids, Whole id := by
  have hno : ∀ n, ∀ id ∈ ids, id.toList.getLast? = some '\r' →
      (ids.map (·.toList.length)).sum < id.toList.length + n → False := by
    intro n
    induction n with
    | zero =>
      intro id hid _ hlen
      have hle := List.le_sum_of_mem (List.mem_map_of_mem (f := (·.toList.length)) hid)
      omega
    | succ n ih =>
      intro id hid hlast hlen
      obtain ⟨x, hx, k, heq, hzero⟩ := hleft id hid
      have hk : k ≠ 0 := fun h0 => hzero h0 hlast
      obtain ⟨j, rfl⟩ := Nat.exists_eq_succ_of_ne_zero hk
      have hxlen : x.toList.length = id.toList.length + (j + 1) := by simp [heq]
      refine ih x hx ?_ (by omega)
      rw [heq, List.replicate_succ', ← List.append_assoc, List.getLast?_concat]
  exact fun id hid => ⟨hline id hid, fun hlast => hno _ id hid hlast (Nat.lt_add_of_pos_left
    (List.length_pos_iff.mpr fun hnil => by simp [hnil] at hlast))⟩

/-! ### Reading the messages back -/

/-- A message file stays as it was written. -/
lemma messages_step {u : Disk} {m : MessageEnvelope} {b : Bool} (h : d.Enqueues m b u) :
    (∀ id n, d.messages id = some n → u.messages id = some n) ∧ u.messages m.id = some m := by
  have hu : u.messages m.id = some m := by rw [h.messages, Function.update_self]
  refine ⟨fun id n hn => ?_, hu⟩
  by_cases hid : id = m.id
  · subst hid
    rw [hu, ← hn]
    exact (h.same.resolve_left (by rw [hn]; exact nofun)).symm
  · rw [h.messages, Function.update_of_ne hid]
    exact hn

lemma messages_of_sends (h : Sends d ms t) :
    (∀ id m, d.messages id = some m → t.messages id = some m) ∧
      ∀ m ∈ ms, t.messages m.id = some m ∧ checkMessage m = .ok () := by
  induction ms generalizing d with
  | nil =>
    obtain rfl : d = t := h
    exact ⟨fun _ _ hm => hm, fun m hm => absurd hm List.not_mem_nil⟩
  | cons m ms ih =>
    obtain ⟨b, u, hrun, hrest⟩ := h
    have henq := Disk.enqueues_of_run hrun
    obtain ⟨hold, hnew⟩ := messages_step henq
    obtain ⟨hkeep, hsent⟩ := ih hrest
    refine ⟨fun id n hn => hkeep id n (hold id n hn), ?_⟩
    rintro n (- | ⟨_, hn⟩)
    · exact ⟨hkeep m.id m hnew, henq.checked⟩
    · exact hsent n hn

lemma validateMessage_own (m : MessageEnvelope) :
    validateMessage m (some m.id) = validateMessage m none := by
  simp [validateMessage]

lemma run_readMessage {m : MessageEnvelope} (hm : checkMessage m = .ok ())
    (h : t.messages m.id = some m) : (t.run (readMessage m.id)).1 = .ok m := by
  have hread : t.run (tryCall (.readMessage m.id) fun x => x) = (.ok (t.messages m.id), t) :=
    Disk.run_tryCall _ _
  obtain ⟨_, hvalid, hrest⟩ := bind_eq_ok.mp hm
  obtain ⟨_, hid, -⟩ := bind_eq_ok.mp hrest
  unfold Disk.run at hread ⊢
  unfold readMessage
  rw [run_bind, hid, run_ofExcept]
  dsimp only
  rw [run_bind, hread, h]
  dsimp only
  rw [run_bind, validateMessage_own, hvalid, run_ofExcept]
  rfl

/-- **An inbox gives back what was put into it if its ids are whole lines.** After enqueues that
all come back well, from an empty inbox, the pending ids of a pod are the ids sent to it, each
once and where it was first, and each of them has its message, if and only if every id is a line
that is read back as it was written. -/
theorem inbox_round_trip (hpod : validateComponent pod "pod" = .ok ())
    (hempty : d.inbox pod = none) (h : Sends d ms t) :
    ((t.run (pendingMessageIds pod)).1 = .ok (distinct (idsTo pod ms)) ∧
      ∀ id ∈ distinct (idsTo pod ms), ∃ m ∈ ms, m.id = id ∧ (t.run (readMessage id)).1 = .ok m) ↔
    ∀ m ∈ ms, m.destination = pod → Whole m.id := by
  rw [Disk.run_pendingMessageIds hpod]
  have hnone : inboxIds (d.inbox pod) = distinct [] := by rw [hempty]; rfl
  constructor
  · rintro ⟨hids, -⟩
    dsimp only at hids
    split_ifs at hids
    have hlisted := Except.ok.inj hids
    have hline : ∀ id ∈ idsTo pod ms, IsLine id := fun id hid =>
      isLine_of_mem (hlisted ▸ mem_distinct.mpr hid)
    have hleft := @leftOf_of_sends pod d t ms [] h (by rw [hnone]; exact fun _ he => by cases he)
      fun m hm hdest => (hline m.id (mem_idsTo.mpr ⟨m, hm, hdest, rfl⟩)).1
    have hwhole := whole_of_listed hline fun id hid =>
      hleft id (hlisted ▸ mem_distinct.mpr hid)
    exact fun m hm hdest => hwhole m.id (mem_idsTo.mpr ⟨m, hm, hdest, rfl⟩)
  · intro hwhole
    obtain ⟨hlisted, hshort⟩ := @listed_of_whole pod d t ms [] h hnone (Nat.zero_le _)
      (fun _ hid => by cases hid) hwhole
    rw [List.nil_append] at hlisted hshort
    rw [hlisted]
    refine ⟨if_neg (by omega), fun id hid => ?_⟩
    obtain ⟨m, hm, -, rfl⟩ := mem_idsTo.mp (mem_distinct.mp hid)
    obtain ⟨hstored, hchecked⟩ := (messages_of_sends h).2 m hm
    exact ⟨m, hm, rfl, run_readMessage hchecked hstored⟩

/-- The disk after one letter to an empty inbox. -/
def afterLetter (id : String) : Disk :=
  (Disk.run { state := some onePod } (enqueueMessage (letter id))).2

lemma sends_letter {id : String}
    (h : (Disk.run { state := some onePod } (enqueueMessage (letter id))).1 = .ok true) :
    Sends { state := some onePod } [letter id] (afterLetter id) :=
  ⟨true, afterLetter id, Prod.ext h rfl, rfl⟩

lemma run_letter {id : String} (hm : checkMessage (letter id) = .ok ()) :
    (Disk.run { state := some onePod } (enqueueMessage (letter id))).1 = .ok true :=
  (Disk.run_enqueueMessage_fresh hm rfl (by simp [onePod, letter]) rfl List.not_mem_nil).mpr
    (Nat.zero_lt_succ _)

/-- The disk after these letters. -/
def afterLetters (ids : List String) : Disk :=
  ids.foldl (fun d id => (d.run (enqueueMessage (letter id))).2) { state := some onePod }

/-- Three letters, one of them sent twice. -/
theorem inbox_round_trip_sample :
    ((afterLetters ["a", "b", "a", "c"]).run (pendingMessageIds "p")).1 = .ok ["a", "b", "c"] ∧
      ∀ id ∈ ["a", "b", "c"], ∃ m ∈ ["a", "b", "a", "c"].map letter, m.id = id ∧
        ((afterLetters ["a", "b", "a", "c"]).run (readMessage id)).1 = .ok m := by
  have hsends : Sends { state := some onePod } (["a", "b", "a", "c"].map letter)
      (afterLetters ["a", "b", "a", "c"]) :=
    ⟨true, afterLetters ["a"], Prod.ext (by decide +kernel) rfl,
      true, afterLetters ["a", "b"], Prod.ext (by decide +kernel) rfl,
      false, afterLetters ["a", "b", "a"], Prod.ext (by decide +kernel) rfl,
      true, _, Prod.ext (by decide +kernel) rfl, rfl⟩
  exact (@inbox_round_trip "p" { state := some onePod } _ _ (by decide) rfl hsends).mpr (by decide)

/-- An id with a newline in it comes back as two, and neither has a message. -/
theorem newline_id_splits :
    Sends { state := some onePod } [letter "a\nb"] (afterLetter "a\nb") ∧
      ((afterLetter "a\nb").run (pendingMessageIds "p")).1 = .ok ["a", "b"] ∧
      ¬((afterLetter "a\nb").run (readMessage "a")).1.isOk := by
  refine ⟨sends_letter (run_letter (by decide)), ?_, ?_⟩
  · decide
  · decide

end Bimo.Store
