import Bimo.CommandRuns

/-!
The factory's state file under its commands and pod processes.

What is known stays known: messages, terminals and tool results are written once, and an inbox
only grows, since who writes one has read it under the lock. The state file is different. An
apply and a pod process write it in the section they read it in. A `status` never takes the
lock, and a `destroy` reads before it does, so either can put an old state back.
-/

namespace Bimo.Runs

open Factory (FactoryState PodState PodManifest Manifest generationOf)
open Store (MessageEnvelope inboxIds inboxText)
open Wire (Frame)

variable {digest : String → String} {s t : Site} {g g' : Doing} {o : Call} {r : o.Ret}

/-! ### What a step can do -/

/-- What a call does to the site, where it does anything. -/
inductive Effect (s : Site) : Call → Site → Prop
  | none {o : Call} : Effect s o s
  | state {o : Call} {x : FactoryState} (h : writes o = some x) :
      Effect s o { s with disk := { s.disk with state := some x } }
  | message (m : MessageEnvelope) :
      Effect s (.inr (.inr (.writeMessage m))) { s with disk := s.disk.apply (.writeMessage m) }
  | inbox (pod text : String) :
      Effect s (.inr (.inr (.writeInbox pod text)))
        { s with disk := s.disk.apply (.writeInbox pod text) }
  | processed (pod id : String) :
      Effect s (.inr (.inr (.writeProcessed pod id)))
        { s with disk := s.disk.apply (.writeProcessed pod id) }
  | terminal (id : String) (f : Frame) (h : s.disk.terminals id = Option.none) :
      Effect s (.inr (.inr (.linkTerminal id f)))
        { s with disk := s.disk.apply (.linkTerminal id f) }
  | result (session id : String) (x : Store.ToolRecord)
      (h : s.disk.toolResults session id = Option.none) :
      Effect s (.inr (.inr (.linkToolResult session id x)))
        { s with disk := s.disk.apply (.linkToolResult session id x) }
  | received (f : Frame) :
      Effect s (.inr (.inl .receive)) { s with received := f :: s.received }

lemma effect_wrote {ε : Type} {d : Store.Disk} {x : Except ε Unit}
    (he : Effect s o { s with disk := d }) (h : Wrote s t d x) : Effect s o t := by
  rcases h with rfl | ⟨-, rfl⟩
  · exact he
  · exact .none

lemma effect_linked {ε : Type} {d : Store.Disk} {x : Except ε Unit} {there : Bool}
    (he : there = false → Effect s o { s with disk := d }) (h : Linked s t d there x) :
    Effect s o t := by
  rcases h with ⟨hthere, rfl⟩ | ⟨-, rfl⟩
  · exact he hthere
  · exact .none

lemma effect_of_eq (h : t = s) : Effect s o t := by
  rw [h]
  exact .none

lemma step_effect (h : env.step s o r t) : Effect s o t := by
  match o, r, h with
  | .inl (.writeState x), _, h => exact effect_wrote (.state rfl) h
  | .inl .readState, _, h => exact effect_of_eq h.1
  | .inl .lock, _, h | .inl .readJournal, _, h | .inl (.append _), _, h
  | .inl (.identityAlive _), _, h | .inl (.preflight _ _), _, h | .inl (.session _), _, h
  | .inl (.writeConfig _ _ _ _), _, h | .inl (.spawn _ _ _), _, h | .inl (.handshake _ _), _, h
  | .inl (.startTime _), _, h | .inl (.stopGroup _), _, h => exact effect_of_eq h
  | .inr (.inl .receive), none, h => exact effect_of_eq h
  | .inr (.inl .receive), some .other, h => exact effect_of_eq h
  | .inr (.inl .receive), some (.frame f _), h => exact h ▸ .received f
  | .inr (.inl (.launch _)), _, h | .inr (.inl .exited), _, h | .inr (.inl (.send _)), _, h
  | .inr (.inl (.ready _ _)), _, h => exact effect_of_eq h
  | .inr (.inr (.writeState x)), _, h => exact effect_wrote (.state rfl) h
  | .inr (.inr (.writeMessage m)), _, h => exact effect_wrote (.message m) h
  | .inr (.inr (.writeInbox pod text)), _, h => exact effect_wrote (.inbox pod text) h
  | .inr (.inr (.writeProcessed pod id)), _, h => exact effect_wrote (.processed pod id) h
  | .inr (.inr (.linkTerminal id f)), _, h =>
      exact effect_linked (fun hn => .terminal id f (by simpa using hn)) h
  | .inr (.inr (.linkToolResult session id x)), _, h =>
      exact effect_linked (fun hn => .result session id x (by simpa using hn)) h
  | .inr (.inr .readState), _, h | .inr (.inr (.readMessage _)), _, h
  | .inr (.inr (.readInbox _)), _, h | .inr (.inr (.readProcessed _ _)), _, h
  | .inr (.inr (.readTerminal _)), _, h | .inr (.inr (.readToolResult _ _)), _, h =>
      exact effect_of_eq h.1
  | .inr (.inr .lock), _, h | .inr (.inr .unlock), _, h | .inr (.inr .ensureLayout), _, h
  | .inr (.inr (.append _)), _, h => exact effect_of_eq h

/-! ### What is known stays so -/

/-- A message is kept under its id. -/
def Keyed (s : Site) : Prop := ∀ id m, s.disk.messages id = some m → m.id = id

/-- What a process knows is so, and nobody else writes what it has read under the lock. -/
structure Knows (s : Site) (g : Doing) : Prop where
  known : ∀ x ∈ g.known, s.holds x
  inbox : ∀ pod text, g.inbox = some (pod, text) → s.disk.inbox pod = text
  absent : ∀ id, g.absent = some id → s.disk.messages id = none
  guarded : g.inbox ≠ none ∨ g.absent ≠ none → g.locked = true

/-- Two processes do not hold the lock at once. -/
def Apart (g g' : Doing) : Prop := ¬(g.locked = true ∧ g'.locked = true)

abbrev Base := Threads.Each Keyed Knows Apart

/-- No call of anyone undoes a fact. -/
lemma holds_step (hpre : Allowed digest g o) (hg : Knows s g) (h : env.step s o r t) {x : Fact}
    (hx : s.holds x) : t.holds x := by
  cases step_effect h with
  | none => exact hx
  | state _ => cases x <;> exact hx
  | processed pod id => cases x <;> exact hx
  | received f =>
      cases x with
      | received f' => exact List.mem_cons_of_mem _ hx
      | terminal id | stored m | listed pod id | result session id y => exact hx
  | message m =>
      cases x with
      | stored m' =>
          have hne : m'.id ≠ m.id := by
            intro he
            have hnone := hg.absent m.id hpre.2.1
            rw [← he] at hnone
            exact absurd (hx.symm.trans hnone) (by simp)
          change Function.update s.disk.messages m.id (some m) m'.id = some m'
          rw [Function.update_of_ne hne]
          exact hx
      | received f | terminal id | listed pod id | result session id y => exact hx
  | inbox pod text =>
      cases x with
      | listed pod' id =>
          intro hc
          obtain ⟨-, old, new, hold, rfl⟩ := hpre
          change id ∈ inboxIds (Function.update s.disk.inbox pod
            (some (inboxText (inboxIds old ++ [new]))) pod')
          by_cases hp : pod' = pod
          · subst hp
            rw [Function.update_self]
            refine Store.mem_inboxIds_inboxText hc (List.mem_append_left _ ?_)
            rw [← hg.inbox _ _ hold]
            exact hx hc
          · rw [Function.update_of_ne hp]
            exact hx hc
      | received f | terminal id | stored m | result session id y => exact hx
  | terminal id f hnone =>
      cases x with
      | terminal id' =>
          change Function.update s.disk.terminals id (some f) id' ≠ none
          by_cases hid : id' = id
          · subst hid
            simp
          · rw [Function.update_of_ne hid]
            exact hx
      | received f | stored m | listed pod id | result session id y => exact hx
  | result session id y hnone =>
      cases x with
      | result session' id' y' =>
          change Store.write s.disk.toolResults session id (some y) session' id' = some y'
          unfold Store.write
          by_cases hs : session' = session
          · subst hs
            rw [Function.update_self]
            have hne : id' ≠ id := by
              rintro rfl
              exact absurd (hx.symm.trans hnone) (by simp)
            rw [Function.update_of_ne hne]
            exact hx
          · rw [Function.update_of_ne hs]
            exact hx
      | received f | terminal id | stored m | listed pod id => exact hx

lemma keyed_step (hs : Keyed s) (h : env.step s o r t) : Keyed t := by
  cases step_effect h with
  | message m =>
      intro id m' hm'
      change Function.update s.disk.messages m.id (some m) id = some m' at hm'
      by_cases hid : id = m.id
      · subst hid
        rw [Function.update_self] at hm'
        rw [Option.some.inj hm']
      · rw [Function.update_of_ne hid] at hm'
        exact hs id m' hm'
  | none | state | inbox | processed | terminal | result | received => exact hs

lemma Knows.learn (h : Knows s g) {facts : List Fact} (hf : ∀ x ∈ facts, s.holds x) :
    Knows s (g.learn facts) where
  known x hx := (List.mem_append.mp hx).elim (hf x) (h.known x)
  inbox := h.inbox
  absent := h.absent
  guarded := h.guarded

/-- A process that has nothing in its hands any more. -/
lemma Knows.free (h : Knows s g) (hk : g'.known = g.known) (hi : g'.inbox = none)
    (ha : g'.absent = none) : Knows s g' where
  known x hx := h.known x (hk ▸ hx)
  inbox pod text hp := absurd (hi.symm.trans hp) (by simp)
  absent id hid := absurd (ha.symm.trans hid) (by simp)
  guarded hg := absurd hg (by simp [hi, ha])

/-- What a process knows is so after anyone's step that leaves its hands alone. -/
lemma Knows.keep (hg' : Knows s g') (hpre : Allowed digest g o) (hg : Knows s g)
    (h : env.step s o r t)
    (hinbox : ∀ pod text, g'.inbox = some (pod, text) → t.disk.inbox pod = s.disk.inbox pod)
    (hmsg : ∀ id, g'.absent = some id → t.disk.messages id = s.disk.messages id) : Knows t g' where
  known x hx := holds_step hpre hg h (hg'.known x hx)
  inbox pod text hp := (hinbox pod text hp).trans (hg'.inbox pod text hp)
  absent id hid := (hmsg id hid).trans (hg'.absent id hid)
  guarded := hg'.guarded

/-- The calls that write an inbox or a message are made under the lock. -/
lemma locked_of_changes (hpre : Allowed digest g o) (h : env.step s o r t)
    (hne : t.disk.inbox ≠ s.disk.inbox ∨ t.disk.messages ≠ s.disk.messages) : g.locked = true := by
  cases step_effect h with
  | message m => exact hpre.1
  | inbox pod text => exact hpre.1
  | none | state | processed | terminal | result | received =>
      exact absurd hne (not_or.mpr ⟨not_not.mpr rfl, not_not.mpr rfl⟩)

/-- Who does not hold the lock with another leaves the other's hands alone. -/
lemma knows_other (hpre : Allowed digest g o) (hg : Knows s g) (h : env.step s o r t)
    (hg' : Knows s g') (hapart : Apart g g') : Knows t g' := by
  by_cases hl : g'.locked = true
  · have hun : ¬(t.disk.inbox ≠ s.disk.inbox ∨ t.disk.messages ≠ s.disk.messages) :=
      fun hne => hapart ⟨locked_of_changes hpre h hne, hl⟩
    simp only [not_or, not_not] at hun
    exact hg'.keep hpre hg h (fun _ _ _ => by rw [hun.1]) fun _ _ => by rw [hun.2]
  · have hfree : g'.inbox = none ∧ g'.absent = none := by
      by_contra hne
      exact hl (hg'.guarded (by tauto))
    exact hg'.keep hpre hg h (fun _ _ hp => absurd (hfree.1.symm.trans hp) (by simp))
      fun _ hid => absurd (hfree.2.symm.trans hid) (by simp)

lemma Knows.read (h : Knows s g) (x : Option FactoryState) : Knows s (g.read x) := by
  unfold Doing.read
  split_ifs
  · exact ⟨h.known, h.inbox, h.absent, h.guarded⟩
  · exact h

/-- A process is told the truth by its own calls to the store. -/
lemma knows_noteStore {c : Store.Call} {x : c.Ret} (hs : Keyed s) (hpre : AllowedStore digest g c)
    (hg : Knows s g) (h : stepStore s c x t) : Knows t (noteStore g c x) := by
  have hstep : env.step s (.inr (.inr c)) x t := h
  have hfacts : ∀ y ∈ g.known, t.holds y := fun y hy =>
    holds_step (show Allowed digest g (.inr (.inr c)) from hpre) hg hstep (hg.known y hy)
  have hkeep : (∀ pod text, g.inbox = some (pod, text) → t.disk.inbox pod = s.disk.inbox pod) →
      (∀ id, g.absent = some id → t.disk.messages id = s.disk.messages id) → Knows t g :=
    hg.keep (o := .inr (.inr c)) hpre hg hstep
  match c, x, h with
  | .lock, .ok _, h =>
      subst h
      exact hg.free rfl rfl rfl
  | .lock, .error _, h | .ensureLayout, _, h | .append _, _, h =>
      subst h
      exact hg
  | .unlock, _, h =>
      subst h
      exact hg.free rfl rfl rfl
  | .readState, .ok y, h =>
      obtain ⟨rfl, -⟩ := h
      exact hg.read y
  | .readState, .error _, h =>
      obtain ⟨rfl, -⟩ := h
      exact hg
  | .writeState y, x, h =>
      have ht : Knows t g := by
        rcases h with rfl | ⟨-, rfl⟩
        · exact hkeep (fun _ _ _ => rfl) fun _ _ => rfl
        · exact hg
      exact ⟨ht.known, ht.inbox, ht.absent, ht.guarded⟩
  | .readMessage id, .ok (some m), h =>
      obtain ⟨rfl, hm⟩ := h
      refine hg.learn fun y hy => ?_
      obtain rfl := List.mem_singleton.mp hy
      have hmsg : t.disk.messages id = some m := (hm _ rfl).symm
      change t.disk.messages m.id = some m
      rw [hs id m hmsg]
      exact hmsg
  | .readMessage id, .ok none, h =>
      obtain ⟨rfl, hm⟩ := h
      simp only [noteStore]
      split_ifs with hl
      · refine ⟨hg.known, hg.inbox, fun id' hid => ?_, fun _ => hl⟩
        obtain rfl : id = id' := Option.some.inj hid
        exact (hm _ rfl).symm
      · exact hg
  | .readMessage id, .error _, h =>
      obtain ⟨rfl, -⟩ := h
      exact hg
  | .writeMessage m, .ok _, h =>
      obtain rfl : t = { s with disk := s.disk.apply (.writeMessage m) } := by
        rcases h with rfl | ⟨hne, -⟩
        · rfl
        · exact absurd rfl hne
      refine ⟨fun y hy => ?_, hg.inbox, by rintro _ ⟨⟩, fun _ => hpre.1⟩
      rcases List.mem_cons.mp hy with rfl | hy
      · exact Function.update_self _ _ _
      · exact hfacts y hy
  | .writeMessage m, .error _, h =>
      refine ⟨fun y hy => ?_, fun pod text hp => ?_, by rintro _ ⟨⟩, fun _ => hpre.1⟩
      · exact hfacts y hy
      · rcases h with rfl | ⟨-, rfl⟩ <;> exact hg.inbox pod text hp
  | .readInbox pod, .ok text, h =>
      obtain ⟨rfl, hm⟩ := h
      have htext : t.disk.inbox pod = text := (hm _ rfl).symm
      have hlearn : Knows t (g.learn ((inboxIds text).map (.listed pod))) := by
        refine hg.learn fun y hy => ?_
        obtain ⟨id, hid, rfl⟩ := List.mem_map.mp hy
        intro _
        rw [htext]
        exact hid
      simp only [noteStore]
      split_ifs with hl
      · refine ⟨hlearn.known, fun pod' text' hp => ?_, hlearn.absent, fun _ => hl⟩
        obtain ⟨rfl, rfl⟩ := Prod.mk.inj (Option.some.inj hp)
        exact htext
      · exact hlearn
  | .readInbox pod, .error _, h =>
      obtain ⟨rfl, -⟩ := h
      exact hg
  | .writeInbox pod text, .ok _, h =>
      obtain rfl : t = { s with disk := s.disk.apply (.writeInbox pod text) } := by
        rcases h with rfl | ⟨hne, -⟩
        · rfl
        · exact absurd rfl hne
      refine ⟨fun y hy => ?_, by rintro _ _ ⟨⟩, hg.absent, fun _ => hpre.1⟩
      rcases List.mem_append.mp hy with hy | hy
      · obtain ⟨id, hid, rfl⟩ := List.mem_map.mp hy
        intro _
        change id ∈ inboxIds (Function.update s.disk.inbox pod (some text) pod)
        rw [Function.update_self]
        exact hid
      · exact hfacts y hy
  | .writeInbox pod text, .error _, h =>
      refine ⟨fun y hy => ?_, by rintro _ _ ⟨⟩, fun id hid => ?_, fun _ => hpre.1⟩
      · exact hfacts y hy
      · rcases h with rfl | ⟨-, rfl⟩ <;> exact hg.absent id hid
  | .readProcessed _ _, _, h =>
      obtain ⟨rfl, -⟩ := h
      exact hg
  | .writeProcessed _ _, _, h =>
      rcases h with rfl | ⟨-, rfl⟩
      · exact hkeep (fun _ _ _ => rfl) fun _ _ => rfl
      · exact hg
  | .readTerminal id, .ok (some f), h =>
      obtain ⟨rfl, hm⟩ := h
      refine hg.learn fun y hy => ?_
      obtain rfl := List.mem_singleton.mp hy
      have hf : t.disk.terminals id = some f := (hm _ rfl).symm
      change t.disk.terminals id ≠ none
      rw [hf]
      rintro ⟨⟩
  | .readTerminal id, .ok none, h | .readTerminal id, .error _, h =>
      obtain ⟨rfl, -⟩ := h
      exact hg
  | .linkTerminal id f, .ok _, h =>
      obtain rfl : t = { s with disk := s.disk.apply (.linkTerminal id f) } := by
        rcases h with ⟨-, rfl⟩ | ⟨hne, -⟩
        · rfl
        · exact absurd rfl hne
      refine (hkeep (fun _ _ _ => rfl) fun _ _ => rfl).learn fun y hy => ?_
      obtain rfl := List.mem_singleton.mp hy
      change Function.update s.disk.terminals id (some f) id ≠ none
      rw [Function.update_self]
      rintro ⟨⟩
  | .linkTerminal id f, .error _, h =>
      rcases h with ⟨-, rfl⟩ | ⟨-, rfl⟩
      · exact hkeep (fun _ _ _ => rfl) fun _ _ => rfl
      · exact hg
  | .readToolResult session id, .ok (some y), h =>
      obtain ⟨rfl, hm⟩ := h
      refine hg.learn fun z hz => ?_
      obtain rfl := List.mem_singleton.mp hz
      exact (hm _ rfl).symm
  | .readToolResult _ _, .ok none, h | .readToolResult _ _, .error _, h =>
      obtain ⟨rfl, -⟩ := h
      exact hg
  | .linkToolResult session id y, .ok _, h =>
      obtain rfl : t = { s with disk := s.disk.apply (.linkToolResult session id y) } := by
        rcases h with ⟨-, rfl⟩ | ⟨hne, -⟩
        · rfl
        · exact absurd rfl hne
      refine (hkeep (fun _ _ _ => rfl) fun _ _ => rfl).learn fun z hz => ?_
      obtain rfl := List.mem_singleton.mp hz
      change Store.write s.disk.toolResults session id (some y) session id = some y
      simp [Store.write]
  | .linkToolResult _ _ _, .error _, h =>
      rcases h with ⟨-, rfl⟩ | ⟨-, rfl⟩
      · exact hkeep (fun _ _ _ => rfl) fun _ _ => rfl
      · exact hg

lemma knows_note (hs : Keyed s) (hpre : Allowed digest g o) (hg : Knows s g)
    (h : env.step s o r t) : Knows t (note g o r) := by
  match o, r, h with
  | .inr (.inr c), r, h => exact knows_noteStore hs hpre hg h
  | .inr (.inl .receive), some (.frame f size), h =>
      have hstep : env.step s (.inr (.inl .receive)) (some (.frame f size)) t := h
      obtain rfl : t = { s with received := f :: s.received } := h
      have hfacts : ∀ x ∈ [Fact.received f],
          ({ s with received := f :: s.received } : Site).holds x := by
        intro x hx
        obtain rfl := List.mem_singleton.mp hx
        exact List.mem_cons_self ..
      have ht := (hg.keep hpre hg hstep (fun _ _ _ => rfl) fun _ _ => rfl).learn hfacts
      exact ⟨ht.known, ht.inbox, ht.absent, ht.guarded⟩
  | .inr (.inl .receive), none, h | .inr (.inl .receive), some .other, h
  | .inr (.inl (.launch _)), _, h | .inr (.inl .exited), _, h | .inr (.inl (.send _)), _, h
  | .inr (.inl (.ready _ _)), _, h =>
      obtain rfl : t = s := h
      exact hg
  | .inl .lock, .ok _, h =>
      obtain rfl : t = s := h
      exact hg.free rfl rfl rfl
  | .inl .readState, .ok x, h =>
      obtain ⟨rfl, -⟩ := h
      exact hg.read x
  | .inl .readState, .error _, h =>
      obtain ⟨rfl, -⟩ := h
      exact hg
  | .inl (.writeState x), r, h =>
      have ht : Knows t g := by
        refine hg.keep hpre hg h (fun _ _ _ => ?_) fun _ _ => ?_ <;>
          rcases h with rfl | ⟨-, rfl⟩ <;> rfl
      exact ⟨ht.known, ht.inbox, ht.absent, ht.guarded⟩
  | .inl .lock, .error _, h | .inl .readJournal, _, h | .inl (.append _), _, h
  | .inl (.identityAlive _), _, h | .inl (.preflight _ _), _, h | .inl (.session _), _, h
  | .inl (.writeConfig _ _ _ _), _, h | .inl (.spawn _ _ _), _, h | .inl (.handshake _ _), _, h
  | .inl (.startTime _), _, h | .inl (.stopGroup _), _, h =>
      obtain rfl : t = s := h
      exact hg

/-! ### The lock and the state file -/

/-- The state a call has read. -/
def reads : (o : Call) → o.Ret → Option (Option FactoryState)
  | .inl .readState, .ok x => some x
  | .inr (.inr .readState), .ok x => some x
  | _, _ => none

/-- What a call tells of the lock and of the state file. -/
inductive Hears (g : Doing) (o : Call) (r : o.Ret) (g' : Doing) : Prop
  | lock (ht : takes o r = true) (hw : writes o = none) (hl : g'.locked = true)
      (hs : g'.seen = if g.role.bare then g.seen else none)
  | unlock (hl : g'.locked = false) (hs : g'.seen = none)
  | read (x : Option FactoryState) (hx : reads o r = some x) (hl : g'.locked = g.locked)
      (hs : g'.seen = (g.read x).seen)
  | write (hw : writes o ≠ none) (hl : g'.locked = g.locked) (hs : g'.seen = none)
  | other (hw : writes o = none) (hl : g'.locked = g.locked) (hs : g'.seen = g.seen)

lemma role_read (x : Option FactoryState) : (g.read x).role = g.role := by
  unfold Doing.read
  split_ifs <;> rfl

lemma locked_read (x : Option FactoryState) : (g.read x).locked = g.locked := by
  unfold Doing.read
  split_ifs <;> rfl

lemma hears_noteStore (c : Store.Call) (x : c.Ret) :
    (noteStore g c x).role = g.role ∧ Hears g (.inr (.inr c)) x (noteStore g c x) := by
  match c, x with
  | .lock, .ok _ => exact ⟨rfl, .lock rfl rfl rfl rfl⟩
  | .unlock, _ => exact ⟨rfl, .unlock rfl rfl⟩
  | .readState, .ok y => exact ⟨role_read y, .read y rfl (locked_read y) rfl⟩
  | .writeState y, _ => exact ⟨rfl, .write nofun rfl rfl⟩
  | .readMessage id, .ok none =>
      simp only [noteStore]
      split_ifs
      · exact ⟨rfl, .other rfl rfl rfl⟩
      · exact ⟨rfl, .other rfl rfl rfl⟩
  | .readInbox pod, .ok text =>
      simp only [noteStore]
      split_ifs
      · exact ⟨rfl, .other rfl rfl rfl⟩
      · exact ⟨rfl, .other rfl rfl rfl⟩
  | .lock, .error _ | .readState, .error _ | .ensureLayout, _ | .append _, _
  | .readMessage _, .ok (some _) | .readMessage _, .error _ | .writeMessage _, .ok _
  | .writeMessage _, .error _ | .readInbox _, .error _ | .writeInbox _ _, .ok _
  | .writeInbox _ _, .error _ | .readProcessed _ _, _ | .writeProcessed _ _, _
  | .readTerminal _, .ok (some _) | .readTerminal _, .ok none | .readTerminal _, .error _
  | .linkTerminal _ _, .ok _ | .linkTerminal _ _, .error _ | .readToolResult _ _, .ok (some _)
  | .readToolResult _ _, .ok none | .readToolResult _ _, .error _
  | .linkToolResult _ _ _, .ok _ | .linkToolResult _ _ _, .error _ =>
      exact ⟨rfl, .other rfl rfl rfl⟩

lemma hears_note (o : Call) (r : o.Ret) :
    (note g o r).role = g.role ∧ Hears g o r (note g o r) := by
  match o, r with
  | .inr (.inr c), r => exact hears_noteStore c r
  | .inl .lock, .ok _ => exact ⟨rfl, .lock rfl rfl rfl rfl⟩
  | .inl .readState, .ok x => exact ⟨role_read x, .read x rfl (locked_read x) rfl⟩
  | .inl (.writeState x), _ => exact ⟨rfl, .write nofun rfl rfl⟩
  | .inr (.inl .receive), some (.frame f size) => exact ⟨rfl, .other rfl rfl rfl⟩
  | .inr (.inl .receive), none | .inr (.inl .receive), some .other | .inr (.inl (.launch _)), _
  | .inr (.inl .exited), _ | .inr (.inl (.send _)), _ | .inr (.inl (.ready _ _)), _
  | .inl .lock, .error _ | .inl .readState, .error _ | .inl .readJournal, _ | .inl (.append _), _
  | .inl (.identityAlive _), _ | .inl (.preflight _ _), _ | .inl (.session _), _
  | .inl (.writeConfig _ _ _ _), _ | .inl (.spawn _ _ _), _ | .inl (.handshake _ _), _
  | .inl (.startTime _), _ | .inl (.stopGroup _), _ => exact ⟨rfl, .other rfl rfl rfl⟩

lemma role_note : (note g o r).role = g.role := (hears_note o r).1

lemma locked_note (h : (note g o r).locked = true) : g.locked = true ∨ takes o r = true := by
  cases (hears_note (g := g) o r).2 with
  | lock ht hw hl hs => exact .inr ht
  | unlock hl hs => exact absurd (hl.symm.trans h) (by decide)
  | read x hx hl hs => exact .inl (hl ▸ h)
  | write hw hl hs => exact .inl (hl ▸ h)
  | other hw hl hs => exact .inl (hl ▸ h)

/-- The lock is held by one process at a time. -/
lemma apart_note {ns : ℕ → Option Doing} {i j : ℕ} (hM : Exclusive s ns i o r) (hij : j ≠ i)
    (hj : ns j = some g') (h : Apart g g') : Apart (note g o r) g' := by
  rintro ⟨hl, hl'⟩
  rcases locked_note hl with hl | ht
  · exact h ⟨hl, hl'⟩
  · exact absurd (hM ht j g' hij hj) (by simp [hl'])

lemma Apart.symm (h : Apart g g') : Apart g' g := fun hl => h ⟨hl.2, hl.1⟩

/-- The state file is written by calls that say so. -/
lemma state_step (h : env.step s o r t) :
    t.disk.state = s.disk.state ∨ ∃ x, writes o = some x ∧ t.disk.state = some x := by
  cases step_effect h with
  | @state _ x hx => exact .inr ⟨x, hx, rfl⟩
  | none | message | inbox | processed | terminal | result | received => exact .inl rfl

lemma follows_of_writes (hpre : Allowed digest g o) {x : FactoryState} (hx : writes o = some x) :
    Follows g x := by
  rcases o with c | w | c
  · cases c with
    | writeState y =>
        obtain rfl : y = x := Option.some.inj hx
        exact hpre
    | _ => cases hx
  · cases w <;> cases hx
  · cases c with
    | writeState y =>
        obtain rfl : y = x := Option.some.inj hx
        exact hpre
    | _ => cases hx

lemma reads_step (h : env.step s o r t) {x : Option FactoryState} (hx : reads o r = some x) :
    t = s ∧ x = s.disk.state := by
  rcases o with c | w | c
  · cases c with
    | readState =>
        match r, h with
        | .ok y, h =>
            obtain rfl : y = x := Option.some.inj hx
            exact ⟨h.1, h.2 _ rfl⟩
        | .error e, h => cases hx
    | _ => cases hx
  · cases w <;> cases hx
  · cases c with
    | readState =>
        match r, h with
        | .ok y, h =>
            obtain rfl : y = x := Option.some.inj hx
            exact ⟨h.1, h.2 _ rfl⟩
        | .error e, h => cases hx
    | _ => cases hx

/-- What a process has read of the state file is what is there. In the strict sense that goes
for those that read it without the lock too. -/
structure Sees (strict : Prop) (s : Site) (g : Doing) : Prop where
  fresh : ∀ x, g.seen = some x → strict ∨ g.role.bare = false → x = s.disk.state
  guarded : g.role.bare = false → g.seen ≠ none → g.locked = true

variable {strict : Prop}

lemma Sees.congr (h : Sees strict s g) (hrole : g'.role = g.role) (hseen : g'.seen = g.seen)
    (hlocked : g.locked = true → g'.locked = true) (hstate : t.disk.state = s.disk.state) :
    Sees strict t g' where
  fresh x hx hb := (h.fresh x (hseen ▸ hx) (hrole ▸ hb)).trans hstate.symm
  guarded hb hx := hlocked (h.guarded (hrole ▸ hb) (hseen ▸ hx))

lemma sees_of_none (h : g.seen = none) : Sees strict s g where
  fresh x hx _ := absurd (h.symm.trans hx) (by simp)
  guarded _ hx := absurd h hx

lemma state_eq_of_writes_none (h : env.step s o r t) (hw : writes o = none) :
    t.disk.state = s.disk.state := by
  rcases state_step h with he | ⟨x, hx, -⟩
  · exact he
  · exact absurd (hw.symm.trans hx) (by simp)

lemma sees_note (hg : Sees strict s g) (h : env.step s o r t) : Sees strict t (note g o r) := by
  obtain ⟨hrole, hears⟩ := hears_note (g := g) o r
  cases hears with
  | lock ht hw hl hs =>
      have hstate := state_eq_of_writes_none h hw
      by_cases hb : g.role.bare = true
      · rw [if_pos hb] at hs
        exact hg.congr hrole hs (fun _ => hl) hstate
      · rw [if_neg hb] at hs
        exact sees_of_none hs
  | unlock hl hs => exact sees_of_none hs
  | write hw hl hs => exact sees_of_none hs
  | other hw hl hs =>
      exact hg.congr hrole hs (fun h => hl.trans h) (state_eq_of_writes_none h hw)
  | read x hx hl hs =>
      obtain ⟨rfl, rfl⟩ := reads_step h hx
      unfold Doing.read at hs
      split_ifs at hs with hlb
      · rw [Bool.or_eq_true] at hlb
        refine ⟨fun y hy _ => ?_, fun hb _ => ?_⟩
        · exact (Option.some.inj (hs.symm.trans hy)).symm
        · rw [hrole] at hb
          rw [hl]
          exact hlb.resolve_right (by simp [hb])
      · exact hg.congr hrole hs (fun h => hl.trans h) rfl

/-! ### Runs without lost updates -/

/-- The lock excludes, and no write of the state file falls between another process's read and
its write where one of the two is a `status` or a `destroy`. -/
def Orderly : Threads.Condition Call Call.Ret Site Doing := fun s ns i o r =>
  Exclusive s ns i o r ∧ (writes o ≠ none → ∀ j g g', j ≠ i → ns i = some g → ns j = some g' →
    g'.seen ≠ none → g.role.bare = false ∧ g'.role.bare = false)

abbrev InOrder := Threads.Each (fun _ => True) (Sees True) Apart

variable {fingerprint : PodManifest → Except String String}

lemma bare_of_status (h : g.role = .status) : g.role.bare = true := by rw [h]; rfl

/-- A pending read of another's is not overtaken by a write. -/
lemma sees_other {ns : ℕ → Option Doing} {i j : ℕ} (hM : Orderly s ns i o r)
    (hpre : Allowed digest g o) (h : env.step s o r t) (hij : j ≠ i) (hi : ns i = some g)
    (hj : ns j = some g') (hg' : Sees True s g') (hapart : Apart g g') : Sees True t g' := by
  by_cases hseen : g'.seen = none
  · exact sees_of_none hseen
  · refine hg'.congr rfl rfl id ?_
    rcases state_step h with he | ⟨x, hx, -⟩
    · exact he
    · -- both would hold the lock
      obtain ⟨hb, hb'⟩ := hM.2 (by rw [hx]; exact nofun) j g g' hij hi hj hseen
      have hfollows : Follows g x := follows_of_writes hpre hx
      obtain ⟨-, -, -, hlock | hstatus, -⟩ := hfollows
      · exact absurd ⟨hlock, hg'.guarded hb' hseen⟩ hapart
      · exact absurd (bare_of_status hstatus) (by simp [hb])

/-- A process that has just begun has nothing in its hands. -/
lemma apart_begin (role : Role) : Apart { role := role } g' ∧ Apart g' { role := role } :=
  ⟨fun h => Bool.false_ne_true h.1, fun h => Bool.false_ne_true h.2⟩

lemma inOrder_keeps {runs : Command → Prop} :
    Threads.Keeps (factory fingerprint digest runs) Orderly (Allowed digest) (fun _ => True)
      InOrder where
  start s ns i g p hi hb h := by
    obtain ⟨c, -, rfl, -⟩ := hb
    refine h.set trivial (fun j x _ hj hx => ⟨hx, ?_⟩) (sees_of_none rfl)
    exact (apart_begin c.role).symm
  call s ns i g o r t hi hpre ht hM h := by
    refine h.set trivial (fun j x hji hj hx => ?_) (sees_note (h.one i g hi) ht)
    have hapart := h.two i j g x hji.symm hi hj
    have hnote := apart_note hM.1 hji hj hapart
    exact ⟨sees_other hM hpre ht hji hi hj hx hapart, hnote.symm, hnote⟩
  leave s ns i g hi _ h := h.drop i
  idle s ns t ht := ht.elim

/-- **No lost update, where no unlocked read is overtaken.** In every run of applies, destroys,
statuses, sends and pod processes in which no write falls between the read and the write of a
`status` or a `destroy`, nor a `status` write between those of anyone else, a process that is
about to write the state file has read what is there, and no step lowers the generation. -/
theorem state_file_follows {runs : Command → Prop} {s : Site}
    {c : Threads.Config Call Call.Ret String Unit Site Doing}
    (h : Threads.Run (factory fingerprint digest runs) Orderly (.empty s) c) :
    (∀ i g o k x, c.threads i = some (g, .call o k) → writes o = some x →
      g.seen = some c.shared.disk.state) ∧
    ∀ c', Threads.Step (factory fingerprint digest runs) Orderly c c' →
      generationOf c.shared.disk.state ≤ generationOf c'.shared.disk.state := by
  have hgood : Threads.Good (factory fingerprint digest runs) (fun _ _ _ => True) (Allowed digest)
      (fun _ _ => True) InOrder c := by
    refine Threads.good _ ?_ safe_begins (fun _ _ _ _ => trivial) inOrder_keeps ?_ h
    · intro s ns i g o r t _ _ _ _
      trivial
    · exact .empty trivial
  have hwrite : ∀ i g o k x, c.threads i = some (g, .call o k) → writes o = some x →
      Follows g x ∧ g.seen = some c.shared.disk.state := by
    intro i g o k x hi hx
    have hpre := (safe_call_of o k g _).mp (hgood.2 i g _ hi)
    have hfollows := follows_of_writes hpre.1 hx
    obtain ⟨y, hy, -⟩ := id hfollows
    have hfresh := (hgood.1.one i g (by simp [Threads.Config.notes, hi])).fresh y hy (.inl trivial)
    exact ⟨hfollows, hfresh ▸ hy⟩
  refine ⟨fun i g o k x hi hx => (hwrite i g o k x hi hx).2, fun c' hstep => ?_⟩
  cases hstep with
  | start hi hb => exact le_rfl
  | leave hi hp => exact le_rfl
  | idle ht => exact ht.elim
  | @call i g o k r t hi hr hM =>
      rcases state_step hr with he | ⟨x, hx, he⟩
      · exact (congrArg generationOf he).ge
      · obtain ⟨⟨y, hy, hgen, -⟩, hseen⟩ := hwrite i g o k x hi hx
        obtain rfl : y = c.shared.disk.state := Option.some.inj (hy.symm.trans hseen)
        change generationOf c.shared.disk.state ≤ generationOf t.disk.state
        rw [he]
        exact hgen

/-! ### A status that puts the old state back -/

/-- No other of the first `n` has a read pending next to an unlocked one. -/
def orderly (n : ℕ) (c : Threads.Config Call Call.Ret String Unit Site Doing) (i : ℕ)
    (o : Call) : Bool :=
  exclusive n c i o && ((writes o).isNone || (List.range n).all fun j => j == i ||
    (c.notes j).all fun g' => g'.seen.isNone ||
      (c.notes i).all fun g => !g.role.bare && !g'.role.bare)

lemma orderly_of {n : ℕ} {c : Threads.Config Call Call.Ret String Unit Site Doing} {i : ℕ}
    {o : Call} {r : o.Ret} (hn : ∀ j, n ≤ j → c.threads j = none) (h : orderly n c i o = true) :
    Orderly c.shared c.notes i o r := by
  unfold orderly at h
  rw [Bool.and_eq_true] at h
  refine ⟨exclusive_of hn h.1, fun hw j g g' hji hi hj hseen => ?_⟩
  have hjn : j < n := by
    by_contra hge
    simp [Threads.Config.notes, hn j (not_lt.mp hge)] at hj
  have hall := h.2
  rw [Bool.or_eq_true, Option.isNone_iff_eq_none, or_iff_right hw, List.all_eq_true] at hall
  have hg := hall j (List.mem_range.mpr hjn)
  simpa [hji, hi, hj, hseen] using hg

/-- A pod whose process is gone. -/
def gone : PodState where
  name := "p"
  pid := some 5
  processGroup := some 5
  session := some "s"
  launchFingerprint := some "l"
  processStartTime := some 1
  status := .ready

def firstGeneration : FactoryState where
  generation := 1
  factoryName := "f"
  pods := (∅ : Std.TreeMap String PodState).insert "p" gone

def onePodManifest : Manifest where
  name := "f"
  pods := [{ name := "p", engine := "e", command := ["/bin/e"], heartbeatTimeoutMs := 1000 }]
  distinct := by simp

def site : Site := { disk := { state := some firstGeneration } }

def turns (n i : ℕ) : List ℕ := List.replicate n i

/-- An apply, then a status of what it left. -/
theorem state_file_follows_in_turn :
    ∃ c, Threads.Run (factory (fun _ => .ok "l2") id fun _ => True) Orderly (.empty site) c ∧
      generationOf c.shared.disk.state = 2 ∧
      (∀ i g o k x, c.threads i = some (g, .call o k) → writes o = some x →
        g.seen = some c.shared.disk.state) ∧
      ∀ c', Threads.Step (factory (fun _ => .ok "l2") id fun _ => True) Orderly c c' →
        generationOf c.shared.disk.state ≤ generationOf c'.shared.disk.state := by
  have hrun : (demo (fun _ => .ok "l2") id (fun _ => none) (orderly 2) site
      [.status, .apply onePodManifest] (turns 13 1 ++ turns 3 0)).any (fun c =>
        decide (generationOf c.shared.disk.state = 2)) = true := by decide +kernel
  obtain ⟨c, hc, hx⟩ := (Option.any_eq_true _ _).mp hrun
  have hreach : Threads.Run (factory (fun _ => .ok "l2") id fun _ => True) Orderly (.empty site)
      c := by
    refine run_demo (fun _ _ => trivial) ?_ hc
    exact fun _ _ _ hn hok => orderly_of hn hok
  exact ⟨c, hreach, of_decide_eq_true hx, state_file_follows hreach⟩

/-- The state a command is about to write. -/
def pending (c : Threads.Config Call Call.Ret String Unit Site Doing) (i : ℕ) :
    Option FactoryState :=
  match c.threads i with
  | some (_, .call (.inl (.writeState x)) _) => some x
  | _ => none

/-- A pending write may be made. -/
lemma step_pending {c : Threads.Config Call Call.Ret String Unit Site Doing} {i : ℕ}
    {x : FactoryState} {runs : Command → Prop} (h : pending c i = some x) :
    ∃ c', Threads.Step (factory fingerprint digest runs) Exclusive c c' ∧
      c'.shared.disk.state = some x := by
  unfold pending at h
  split at h
  · rename_i g y k hi
    obtain rfl : y = x := Option.some.inj h
    refine ⟨_, .call (r := Except.ok ()) hi (.inl rfl) ?_, rfl⟩
    exact nofun
  · cases h

/-- A status reads generation 1, an apply goes all the way to generation 2, and the status
writes generation 1 back over it. -/
theorem status_lowers_generation :
    ∃ c c', Threads.Run (factory (fun _ => .ok "l2") id fun _ => True) Exclusive (.empty site) c ∧
      Threads.Step (factory (fun _ => .ok "l2") id fun _ => True) Exclusive c c' ∧
      generationOf c.shared.disk.state = 2 ∧ generationOf c'.shared.disk.state = 1 := by
  have hrun : (demo (fun _ => .ok "l2") id (fun _ => none) (exclusive 2) site
      [.status, .apply onePodManifest] (turns 1 0 ++ turns 13 1 ++ turns 2 0)).any (fun c =>
        decide (generationOf c.shared.disk.state = 2) &&
        (pending c 0).any fun x => decide (x.generation = 1)) = true := by decide +kernel
  obtain ⟨c, hc, hx⟩ := (Option.any_eq_true _ _).mp hrun
  rw [Bool.and_eq_true, decide_eq_true_eq] at hx
  obtain ⟨x, hpending, hgen⟩ := (Option.any_eq_true _ _).mp hx.2
  obtain ⟨c', hstep, hstate⟩ := step_pending hpending
  refine ⟨c, c', ?_, hstep, hx.1, ?_⟩
  · refine run_demo (fun _ _ => trivial) ?_ hc
    exact fun _ _ _ hn hok => exclusive_of hn hok
  · rw [hstate]
    exact of_decide_eq_true hgen

end Bimo.Runs
