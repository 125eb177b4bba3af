import Bimo.FactoryRuns
import Bimo.Inbox

/-!
What a pod process does, whatever the others do.

`Allowed` says where each call stands in terms of the process's own note. Outside a section
under the lock a note only grows by facts that stay so, which is what makes the sections of a
delivery follow each other.
-/

namespace Bimo.Runs

open Factory (FactoryState PodState PodManifest Manifest)
open Store (MessageEnvelope SessionIdentity ToolRecord IoError inboxIds inboxText)
open Pod (PodProcessConfig SendMessageArgs effectMessage argsDigest)
open Wire (Json Frame Machine)

variable {digest : String → String} {α β : Type}

/-- A program of the store, from a note on. -/
abbrev SafeStore (digest : String → String) (p : Store.Io α) (g : Doing)
    (Q : Except IoError α → Doing → Prop) : Prop :=
  Safe (.of (fun _ _ _ => True) noteStore) (AllowedStore digest) p g Q

lemma safe_tryCall {c : Store.Call} {f : c.Ret → Except IoError α} {g : Doing}
    {Q : Except IoError α → Doing → Prop} (hpre : AllowedStore digest g c)
    (h : ∀ x, Q (f x) (noteStore g c x)) : SafeStore digest (Store.tryCall c f) g Q := by
  refine (safe_ask_of _ _ _ _).mpr ⟨hpre, fun x _ => ?_⟩
  rw [safe_ofExcept]
  exact h x

/-! ### Notes between sections -/

/-- Nothing read under the lock is in the process's hands. -/
structure Doing.Idle (g : Doing) : Prop where
  plain : g.role.bare = false
  locked : g.locked = false
  seen : g.seen = none
  inbox : g.inbox = none
  absent : g.absent = none

/-- The note after a section: more is known. -/
def Grown (g g' : Doing) : Prop := ∃ facts, g' = g.learn facts

/-- A note inside a section that began with `g`. -/
def Within (g g' : Doing) : Prop := g'.locked = true ∧ ∃ facts, g'.unlock = g.learn facts

variable {g g' g'' : Doing}

lemma Grown.refl (g : Doing) : Grown g g := ⟨[], rfl⟩

lemma Grown.trans (h : Grown g g') (h' : Grown g' g'') : Grown g g'' := by
  obtain ⟨l, rfl⟩ := h
  obtain ⟨l', rfl⟩ := h'
  exact ⟨l' ++ l, by simp [Doing.learn]⟩

lemma Grown.known (h : Grown g g') {x : Fact} (hx : x ∈ g.known) : x ∈ g'.known := by
  obtain ⟨l, rfl⟩ := h
  exact List.mem_append_right _ hx

lemma Grown.role (h : Grown g g') : g'.role = g.role := by
  obtain ⟨l, rfl⟩ := h
  rfl

lemma Grown.asked (h : Grown g g') : g'.asked = g.asked := by
  obtain ⟨l, rfl⟩ := h
  rfl

lemma Grown.idle (h : Grown g g') (hg : g.Idle) : g'.Idle := by
  obtain ⟨l, rfl⟩ := h
  exact ⟨hg.plain, hg.locked, hg.seen, hg.inbox, hg.absent⟩

lemma Doing.Idle.lock (hg : g.Idle) : g.lock = { g with locked := true } := by
  obtain ⟨hp, hl, hs, hi, ha⟩ := hg
  cases g
  simp_all [Doing.lock]

lemma Doing.Idle.unlock (hg : g.Idle) : ({ g with locked := true } : Doing).unlock = g := by
  obtain ⟨hp, hl, hs, hi, ha⟩ := hg
  cases g
  simp_all [Doing.unlock]

lemma within_start (hg : g.Idle) : Within g { g with locked := true } :=
  ⟨rfl, [], hg.unlock⟩

/-- A section under the lock. -/
lemma safe_locked {p : Store.Io α} {R : α → List Fact → Prop} (hg : g.Idle)
    (h : SafeStore digest p { g with locked := true } fun r g' =>
      Within g g' ∧ ∀ a, r = .ok a → R a g'.known) :
    SafeStore digest (Store.locked p) g fun r g' => Grown g g' ∧ ∀ a, r = .ok a → R a g'.known := by
  unfold Store.locked Store.lock
  refine (safe_bind _ _ _ _).mpr (safe_tryCall trivial fun x => ?_)
  match x with
  | .error e => exact ⟨.refl g, nofun⟩
  | .ok _ =>
      change Safe _ _ _ g.lock _
      rw [hg.lock]
      refine (safe_bind _ _ _ _).mpr ((safe_attempt _ _ _).mpr (h.mono fun r g' hr => ?_))
      obtain ⟨⟨hlocked, facts, hfacts⟩, hR⟩ := hr
      refine (safe_ask_of _ _ _ _).mpr ⟨trivial, fun _ _ => ?_⟩
      rw [safe_ofExcept]
      exact ⟨⟨facts, hfacts⟩, hR⟩

/-! ### Inside a section -/

lemma Within.role (h : Within g g') : g'.role = g.role := by
  obtain ⟨-, facts, hfacts⟩ := h
  have hrole : g'.unlock.role = (g.learn facts).role := by rw [hfacts]
  exact hrole

lemma Within.known (h : Within g g') {x : Fact} (hx : x ∈ g.known) : x ∈ g'.known := by
  obtain ⟨-, facts, hfacts⟩ := h
  have hk : g'.known = facts ++ g.known := congrArg Doing.known hfacts
  rw [hk]
  exact List.mem_append_right _ hx

lemma Within.learn (h : Within g g') (facts : List Fact) : Within g (g'.learn facts) := by
  obtain ⟨hl, old, hfacts⟩ := h
  refine ⟨hl, facts ++ old, ?_⟩
  have hlearn : (g'.learn facts).unlock = g'.unlock.learn facts := rfl
  rw [hlearn, hfacts]
  simp [Doing.learn]

lemma Within.read (h : Within g g') (s : Option FactoryState) :
    g'.read s = { g' with seen := some s } ∧ Within g (g'.read s) := by
  have hread : g'.read s = { g' with seen := some s } := by simp [Doing.read, h.1]
  rw [hread]
  exact ⟨rfl, h⟩

/-- The state is read, and a program of the section goes on from it. -/
lemma safe_readState (h : Within g g') {f : Option FactoryState → Store.Io α}
    {Q : Except IoError α → Doing → Prop} (herr : ∀ e, Q (.error e) g')
    (hok : ∀ s, SafeStore digest (f s) { g' with seen := some s } Q) :
    SafeStore digest (Store.readState >>= f) g' Q := by
  unfold Store.readState
  refine (safe_bind _ _ _ _).mpr (safe_tryCall trivial fun x => ?_)
  match x with
  | .error e => exact herr e
  | .ok s =>
      change Safe _ _ _ (g'.read s) _
      rw [(h.read s).1]
      exact hok s

lemma safe_assertWorkerIdentityLocked (h : Within g g') (i : SessionIdentity) :
    SafeStore digest (Store.assertWorkerIdentityLocked i) g' fun _ g'' => Within g g'' := by
  unfold Store.assertWorkerIdentityLocked
  refine safe_readState h (fun _ => h) fun s => ?_
  cases s with
  | none => exact h
  | some s =>
      dsimp only
      split_ifs
      · exact h
      · exact h

lemma subset_learn (g : Doing) (facts : List Fact) : g.known ⊆ (g.learn facts).known :=
  List.subset_append_right _ _

lemma safe_pendingMessageIds (h : Within g g') (pod : String) :
    SafeStore digest (Store.pendingMessageIds pod) g' fun r g'' => Within g g'' ∧
      g'.known ⊆ g''.known ∧ ∀ ids, r = .ok ids → ∃ text, ids = inboxIds text ∧
        g''.inbox = some (pod, text) ∧ ∀ id ∈ ids, .listed pod id ∈ g''.known := by
  unfold Store.pendingMessageIds
  refine (safe_bind _ _ _ _).mpr ((safe_ofExcept _ _ _).mpr ?_)
  cases Store.validateComponent pod "pod" with
  | error e => exact ⟨h, List.Subset.refl _, nofun⟩
  | ok _ =>
      refine (safe_bind _ _ _ _).mpr (safe_tryCall trivial fun x => ?_)
      match x with
      | .error e => exact ⟨h, List.Subset.refl _, nofun⟩
      | .ok text =>
          have hnote : noteStore g' (.readInbox pod) (.ok text) =
              { g'.learn ((inboxIds text).map (.listed pod)) with inbox := some (pod, text) } := by
            simp [noteStore, Doing.learn, h.1]
          have hw := h.learn ((inboxIds text).map (.listed pod))
          have hsub := subset_learn g' ((inboxIds text).map (.listed pod))
          dsimp only [id]
          rw [hnote]
          split_ifs
          · exact ⟨hw, hsub, nofun⟩
          · refine ⟨hw, hsub, fun ids hids => ⟨text, (Except.ok.inj hids).symm, rfl, fun id hid => ?_⟩⟩
            rw [← Except.ok.inj hids] at hid
            exact List.mem_append_left _ (List.mem_map_of_mem hid)

lemma safe_storeMessage (h : Within g g') {m : MessageEnvelope} (hm : Asked digest g.known m) :
    SafeStore digest (Store.storeMessage m) g' fun r g'' => Within g g'' ∧
      ∀ b, r = .ok b → .stored m ∈ g''.known := by
  unfold Store.storeMessage
  refine (safe_bind _ _ _ _).mpr (safe_tryCall trivial fun x => ?_)
  match x with
  | .error e => exact ⟨h, nofun⟩
  | .ok (some old) =>
      have hw := h.learn [.stored old]
      dsimp only [id]
      split_ifs with hold
      · exact ⟨hw, nofun⟩
      · refine ⟨hw, fun _ _ => ?_⟩
        rw [← not_not.mp hold]
        exact List.mem_append_left _ (List.mem_singleton.mpr rfl)
  | .ok none =>
      have hnote : noteStore g' (.readMessage m.id) (.ok none) = { g' with absent := some m.id } := by
        simp [noteStore, h.1]
      dsimp only [id]
      rw [hnote]
      refine (safe_bind _ _ _ _).mpr (safe_tryCall ⟨h.1, rfl, ?_⟩ fun y => ?_)
      · rcases hm with hm | ⟨f, a, i, d, hf, hrest⟩
        · exact .inl hm
        · exact .inr ⟨f, a, i, d, h.known hf, hrest⟩
      · match y with
        | .error e => exact ⟨h, nofun⟩
        | .ok _ => exact ⟨h.learn [.stored m], fun _ _ => List.mem_cons_self ..⟩

lemma safe_queueMessage (h : Within g g') (m : MessageEnvelope) :
    SafeStore digest (Store.queueMessage m) g' fun r g'' => Within g g'' ∧
      g'.known ⊆ g''.known ∧
      ∀ u, r = .ok u → Store.clean m.id = true → .listed m.destination m.id ∈ g''.known := by
  unfold Store.queueMessage
  refine Safe.bind (safe_pendingMessageIds h m.destination) ?_ ?_
  · intro ids t ht
    obtain ⟨hw, hsub, hids⟩ := ht
    obtain ⟨text, htext, hinbox, hlisted⟩ := hids ids rfl
    split_ifs with hfull hmem
    · exact ⟨hw, hsub, nofun⟩
    · exact ⟨hw, hsub, fun _ _ _ => hlisted _ hmem⟩
    · refine safe_tryCall ⟨hw.1, text, m.id, hinbox, by rw [htext]⟩ fun x => ?_
      match x with
      | .error e => exact ⟨hw, hsub, nofun⟩
      | .ok _ =>
          refine ⟨hw.learn _, List.Subset.trans hsub (subset_learn _ _), fun _ _ hc => ?_⟩
          refine List.mem_append_left _ (List.mem_map.mpr ⟨m.id, ?_, rfl⟩)
          exact Store.mem_inboxIds_inboxText hc (by simp)
  · intro e t ht
    exact ⟨ht.1, ht.2.1, nofun⟩

/-- The message is in the store, and in the inbox of who it is for. -/
def Queued (m : MessageEnvelope) (known : List Fact) : Prop :=
  .stored m ∈ known ∧ (Store.clean m.id = true → .listed m.destination m.id ∈ known)

lemma safe_enqueueMessageLocked (h : Within g g') {m : MessageEnvelope}
    (hm : Asked digest g.known m) :
    SafeStore digest (Store.enqueueMessageLocked m) g' fun r g'' => Within g g'' ∧
      ∀ b, r = .ok b → Queued m g''.known := by
  unfold Store.enqueueMessageLocked
  refine (safe_bind _ _ _ _).mpr ((safe_ofExcept _ _ _).mpr ?_)
  cases Store.checkMessage m with
  | error e => exact ⟨h, nofun⟩
  | ok _ =>
      refine safe_readState h (fun _ => ⟨h, nofun⟩) fun s => ?_
      cases s with
      | none => exact ⟨h, nofun⟩
      | some s =>
          dsimp only
          split_ifs
          · refine (safe_bind _ _ _ _).mpr (safe_tryCall trivial fun x => ?_)
            match x with
            | .error e => exact ⟨h, nofun⟩
            | .ok _ =>
                have h' : Within g { g' with seen := some (some s) } := h
                refine Safe.bind (safe_storeMessage h' hm) ?_ fun e t ht => ⟨ht.1, nofun⟩
                intro old t ht
                refine Safe.bind (safe_queueMessage ht.1 m) ?_ fun e t ht => ⟨ht.1, nofun⟩
                intro u t' ht'
                exact ⟨ht'.1, fun _ _ => ⟨ht'.2.1 (ht.2 old rfl), ht'.2.2 u rfl⟩⟩
          · exact ⟨h, nofun⟩

/-! ### The sections -/

lemma safe_record (hg : g.Idle) (event id : String) (call effect : Option String) :
    SafeStore digest (Store.record event id call effect) g fun _ g' => Grown g g' := by
  refine (safe_locked (R := fun _ _ => True) hg ?_).mono fun _ _ h => h.1
  refine safe_tryCall trivial fun x => ⟨within_start hg, fun _ _ => trivial⟩

lemma safe_assertWorkerIdentity (hg : g.Idle) (i : SessionIdentity) :
    SafeStore digest (Store.assertWorkerIdentity i) g fun _ g' => Grown g g' := by
  refine (safe_locked (R := fun _ _ => True) hg ?_).mono fun _ _ h => h.1
  exact (safe_assertWorkerIdentityLocked (within_start hg) i).mono
    fun _ _ h => ⟨h, fun _ _ => trivial⟩

lemma safe_enqueueMessage (hg : g.Idle) {m : MessageEnvelope} (hm : Asked digest g.known m) :
    SafeStore digest (Store.enqueueMessage m) g fun r g' => Grown g g' ∧
      ∀ b, r = .ok b → Queued m g'.known :=
  safe_locked hg (safe_enqueueMessageLocked (within_start hg) hm)

lemma safe_enqueueMessageForWorker (hg : g.Idle) {m : MessageEnvelope}
    (hm : Asked digest g.known m) (i : SessionIdentity) :
    SafeStore digest (Store.enqueueMessageForWorker m i) g fun r g' => Grown g g' ∧
      ∀ b, r = .ok b → Queued m g'.known := by
  refine safe_locked hg ?_
  refine Safe.bind (safe_assertWorkerIdentityLocked (within_start hg) i) ?_ ?_
  · intro _ t ht
    exact safe_enqueueMessageLocked ht hm
  · intro e t ht
    exact ⟨ht, nofun⟩

lemma current_of {s : FactoryState} {i : SessionIdentity} {pod : PodState}
    (hgen : s.generation = i.factoryGeneration) (hpod : s.pods[i.pod]? = some pod)
    (hsession : pod.session = some i.session) : Store.current s i = true := by
  simp [Store.current, hgen, hpod, hsession]

lemma safe_updatePodDelivery (hg : g.Idle) {i : SessionIdentity} (hrole : g.role = .pod i)
    (active terminal : Option String) (status : Factory.PodStatus) :
    SafeStore digest (Store.updatePodDelivery i active terminal status) g
      fun _ g' => Grown g g' := by
  refine (safe_locked (R := fun _ _ => True) hg ?_).mono fun _ _ h => h.1
  have hw := within_start hg
  refine safe_readState hw (fun _ => ⟨hw, fun _ _ => trivial⟩) fun s => ?_
  cases s with
  | none => exact ⟨hw, fun _ _ => trivial⟩
  | some s =>
      dsimp only
      split_ifs with hgen
      · exact ⟨hw, fun _ _ => trivial⟩
      · cases hpod : s.pods[i.pod]? with
        | none => exact ⟨hw, fun _ _ => trivial⟩
        | some pod =>
            dsimp only
            split_ifs with hsession
            · exact ⟨hw, fun _ _ => trivial⟩
            · refine safe_tryCall ⟨some s, rfl, le_refl _, .inl rfl, fun j hj => ⟨s, rfl, ?_⟩⟩
                fun _ => ⟨hw, fun _ _ => trivial⟩
              obtain rfl : i = j := Role.pod.inj (hrole.symm.trans hj)
              exact current_of (not_not.mp hgen) hpod (not_not.mp hsession)

lemma safe_markProcessed (hg : g.Idle) {i : SessionIdentity} (hrole : g.role = .pod i)
    {id : String} (hid : .terminal id ∈ g.known) :
    SafeStore digest (Store.markProcessed i id) g fun _ g' => Grown g g' := by
  refine (safe_locked (R := fun _ _ => True) hg ?_).mono fun _ _ h => h.1
  have hw := within_start hg
  refine (safe_bind _ _ _ _).mpr ((safe_ofExcept _ _ _).mpr ?_)
  cases Store.validateComponent i.pod "pod" with
  | error e => exact ⟨hw, fun _ _ => trivial⟩
  | ok _ =>
      refine (safe_bind _ _ _ _).mpr ((safe_ofExcept _ _ _).mpr ?_)
      cases Store.validateComponent id "message id" with
      | error e => exact ⟨hw, fun _ _ => trivial⟩
      | ok _ =>
          refine safe_readState hw (fun _ => ⟨hw, fun _ _ => trivial⟩) fun s => ?_
          cases s with
          | none => exact ⟨hw, fun _ _ => trivial⟩
          | some s =>
              dsimp only
              cases hpod : s.pods[i.pod]? with
              | none => exact ⟨hw, fun _ _ => trivial⟩
              | some pod =>
                  dsimp only
                  split_ifs with hstale
                  · exact ⟨hw, fun _ _ => trivial⟩
                  · rw [not_or, not_not, not_not] at hstale
                    have hcur := current_of hstale.1 hpod hstale.2
                    exact safe_tryCall ⟨rfl, hid, i, s, hrole, rfl, rfl, hcur⟩
                      fun _ => ⟨hw, fun _ _ => trivial⟩

/-! ### Between the sections -/

lemma grown_learn (g : Doing) (facts : List Fact) : Grown g (g.learn facts) := ⟨facts, rfl⟩

lemma safe_isProcessed (g : Doing) (pod id : String) :
    SafeStore digest (Store.isProcessed pod id) g fun _ g' => Grown g g' := by
  unfold Store.isProcessed
  refine (safe_bind _ _ _ _).mpr ((safe_ofExcept _ _ _).mpr ?_)
  cases Store.validateComponent pod "pod" with
  | error e => exact .refl g
  | ok _ =>
      refine (safe_bind _ _ _ _).mpr ((safe_ofExcept _ _ _).mpr ?_)
      cases Store.validateComponent id "message id" with
      | error e => exact .refl g
      | ok _ => exact safe_tryCall trivial fun _ => .refl g

lemma safe_readMessage (hg : g.Idle) (id : String) :
    SafeStore digest (Store.readMessage id) g fun _ g' => Grown g g' := by
  unfold Store.readMessage
  refine (safe_bind _ _ _ _).mpr ((safe_ofExcept _ _ _).mpr ?_)
  cases Store.validateComponent id "message id" with
  | error e => exact .refl g
  | ok _ =>
      refine (safe_bind _ _ _ _).mpr (safe_tryCall trivial fun x => ?_)
      match x with
      | .error e => exact .refl g
      | .ok none =>
          have hnote : noteStore g (.readMessage id) (.ok none) = g := by
            simp [noteStore, hg.locked]
          dsimp only
          rw [hnote]
          exact .refl g
      | .ok (some m) =>
          have hgrown := grown_learn g [.stored m]
          refine (safe_bind _ _ _ _).mpr ((safe_ofExcept _ _ _).mpr ?_)
          cases Store.validateMessage m (some id) with
          | error e => exact hgrown
          | ok _ => exact hgrown

lemma safe_pendingMessageIds_idle (hg : g.Idle) (pod : String) :
    SafeStore digest (Store.pendingMessageIds pod) g fun _ g' => Grown g g' := by
  unfold Store.pendingMessageIds
  refine (safe_bind _ _ _ _).mpr ((safe_ofExcept _ _ _).mpr ?_)
  cases Store.validateComponent pod "pod" with
  | error e => exact .refl g
  | ok _ =>
      refine (safe_bind _ _ _ _).mpr (safe_tryCall trivial fun x => ?_)
      match x with
      | .error e => exact .refl g
      | .ok text =>
          have hnote : noteStore g (.readInbox pod) (.ok text) =
              g.learn ((inboxIds text).map (.listed pod)) := by
            simp [noteStore, Doing.learn, hg.locked]
          dsimp only [id]
          rw [hnote]
          have hgrown := grown_learn g ((inboxIds text).map (.listed pod))
          split_ifs
          · exact hgrown
          · exact hgrown

lemma safe_readState_idle (hg : g.Idle) :
    SafeStore digest Store.readState g fun _ g' => Grown g g' := by
  refine safe_tryCall trivial fun x => ?_
  match x with
  | .error e => exact .refl g
  | .ok s =>
      have hnote : noteStore g .readState (.ok s) = g := by
        simp [noteStore, Doing.read, hg.locked, hg.plain]
      rw [hnote]
      exact .refl g

/-- A record that is created once: when it is there, whoever made it, `F` is known. -/
lemma safe_atomicCreate {read : Store.Io (Option β)} {same : β → Bool} {link : Store.Io Unit}
    {F : List Fact → Prop}
    (hread : ∀ g', Grown g g' → SafeStore digest read g' fun r g'' => Grown g' g'' ∧
      ∀ x, r = .ok (some x) → same x = true → F g''.known)
    (hlink : ∀ g', Grown g g' → SafeStore digest link g' fun r g'' => Grown g' g'' ∧
      (r = .ok () → F g''.known)) :
    SafeStore digest (Pod.atomicCreate read same link) g fun r g' => Grown g g' ∧
      ∀ u, r = .ok u → F g'.known := by
  unfold Pod.atomicCreate
  refine Safe.bind (hread g (.refl g)) ?_ fun e t ht => ⟨ht.1, nofun⟩
  intro x t ht
  obtain ⟨ht, hx⟩ := ht
  cases x with
  | some old =>
      dsimp only
      split_ifs with hsame
      · exact ⟨ht, fun _ _ => hx old rfl hsame⟩
      · exact ⟨ht, nofun⟩
  | none =>
      refine (safe_bind _ _ _ _).mpr ((safe_attempt _ _ _).mpr ((hlink t ht).mono ?_))
      intro r t' ht'
      obtain ⟨ht', hr⟩ := ht'
      cases r with
      | ok _ => exact ⟨ht.trans ht', fun _ _ => hr rfl⟩
      | error e =>
          dsimp only
          split_ifs
          · refine Safe.bind (hread t' (ht.trans ht')) ?_ ?_
            · intro y t'' ht''
              cases y with
              | none => exact ⟨(ht.trans ht').trans ht''.1, nofun⟩
              | some old =>
                  dsimp only
                  split_ifs with hsame
                  · exact ⟨(ht.trans ht').trans ht''.1, fun _ _ => ht''.2 old rfl hsame⟩
                  · exact ⟨(ht.trans ht').trans ht''.1, nofun⟩
            · intro e t'' ht''
              exact ⟨(ht.trans ht').trans ht''.1, nofun⟩
          · exact ⟨ht.trans ht', nofun⟩

lemma safe_readTerminal (g : Doing) (id : String) :
    SafeStore digest (Pod.readTerminal id) g fun r g' => Grown g g' ∧
      ∀ f, r = .ok (some f) → .terminal id ∈ g'.known := by
  refine safe_tryCall trivial fun x => ?_
  match x with
  | .error e => exact ⟨.refl g, fun _ hr => by cases hr⟩
  | .ok none => exact ⟨.refl g, fun _ hr => by cases hr⟩
  | .ok (some f) => exact ⟨grown_learn g _, fun _ _ => List.mem_cons_self ..⟩

lemma safe_createTerminal (g : Doing) (id : String) (f : Frame) :
    SafeStore digest (Pod.createTerminal id f) g fun r g' => Grown g g' ∧
      ∀ u, r = .ok u → .terminal id ∈ g'.known := by
  refine safe_atomicCreate (F := fun known => .terminal id ∈ known) ?_ ?_
  · intro g' _
    exact (safe_readTerminal g' id).mono fun r t ht => ⟨ht.1, fun x hx _ => ht.2 x hx⟩
  · intro g' _
    refine safe_tryCall trivial fun x => ?_
    match x with
    | .error e => exact ⟨.refl g', nofun⟩
    | .ok _ => exact ⟨grown_learn g' _, fun _ => List.mem_cons_self ..⟩

lemma safe_readToolResult (g : Doing) (session id : String) :
    SafeStore digest (Pod.readToolResult session id) g fun r g' => Grown g g' ∧
      ∀ x, r = .ok (some x) → .result session id x ∈ g'.known := by
  refine safe_tryCall trivial fun x => ?_
  match x with
  | .error e => exact ⟨.refl g, nofun⟩
  | .ok none => exact ⟨.refl g, nofun⟩
  | .ok (some r) =>
      refine ⟨grown_learn g _, fun y hy => ?_⟩
      obtain rfl : r = y := Option.some.inj (Except.ok.inj hy)
      exact List.mem_cons_self ..

lemma Effected.mono {known known' : List Fact} {f : Frame} (h : Effected digest known f)
    (hsub : ∀ x ∈ known, x ∈ known') : Effected digest known' f := by
  intro a d ha hd
  obtain ⟨i, hi, hstored, hlisted⟩ := h a d ha hd
  exact ⟨i, hi, hsub _ hstored, fun hc => hsub _ (hlisted hc)⟩

lemma safe_createToolResult {session id : String} {r : ToolRecord} {f : Frame}
    (hf : .received f ∈ g.known) (hsession : f.session = session) (hid : f.toolCallId = some id)
    (hr : r.argsDigest = argsDigest digest f) (heff : Effected digest g.known f) :
    SafeStore digest (Pod.createToolResult session id r) g fun x g' => Grown g g' ∧
      ∀ u, x = .ok u → ∃ old, .result session id old ∈ g'.known ∧
        old.argsDigest = argsDigest digest f := by
  refine safe_atomicCreate
    (F := fun known => ∃ old, .result session id old ∈ known ∧ old.argsDigest = argsDigest digest f)
    ?_ ?_
  · intro g' _
    refine (safe_readToolResult g' session id).mono fun x t ht => ⟨ht.1, fun old hold hsame => ?_⟩
    have hdigest := (Bool.and_eq_true _ _).mp hsame
    exact ⟨old, ht.2 old hold, (of_decide_eq_true hdigest.1).trans hr⟩
  · intro g' hg'
    have hsub : ∀ x ∈ g.known, x ∈ g'.known := fun x hx => hg'.known hx
    refine safe_tryCall ⟨f, hsub _ hf, hsession, hid, hr, heff.mono hsub⟩ fun x => ?_
    match x with
    | .error e => exact ⟨.refl g', nofun⟩
    | .ok _ => exact ⟨grown_learn g' _, fun _ => ⟨r, List.mem_cons_self .., hr⟩⟩

/-! ### The pod process -/

/-- A program of a pod process, from a note on; where it ends well, `P` holds. -/
abbrev SafePod (digest : String → String) (p : Pod.Io α) (g : Doing)
    (P : α → Doing → Prop) : Prop :=
  Safe (.of (fun _ _ _ => True) fun g (c : Pod.Call) r => note g (.inr c) r)
    (fun g c => Allowed digest g (.inr c)) p g fun r g' => ∀ a, r = .ok a → P a g'

/-- What a program of the store does, the pod process does with it. -/
lemma safe_store {p : Store.Io α} {text : String → String} {R : α → List Fact → Prop}
    (h : SafeStore digest p g fun r g' => Grown g g' ∧ ∀ a, r = .ok a → R a g'.known) :
    SafePod digest (Pod.store p text) g fun a g' => Grown g g' ∧ R a g'.known := by
  refine (safe_inr_of _ _ _).mpr ((safe_mapErr _ _ _ _).mpr ?_)
  refine Safe.mono h fun r t ht a ha => ⟨ht.1, ht.2 a ?_⟩
  cases r with
  | ok b => exact congrArg Except.ok (Except.ok.inj ha)
  | error e => cases ha

variable {P : β → Doing → Prop}

lemma safe_pod_bind {p : Pod.Io α} {f : α → Pod.Io β} {R : α → Doing → Prop}
    (hp : SafePod digest p g R) (hf : ∀ a t, R a t → SafePod digest (f a) t P) :
    SafePod digest (p >>= f) g P :=
  Safe.bind hp (fun a t h => hf a t (h a rfl)) fun _ _ _ => nofun

lemma safe_store_then {p : Store.Io α} {text : String → String} {f : α → Pod.Io β}
    {R : α → List Fact → Prop}
    (hp : SafeStore digest p g fun r g' => Grown g g' ∧ ∀ a, r = .ok a → R a g'.known)
    (hf : ∀ a t, Grown g t → R a t.known → SafePod digest (f a) t P) :
    SafePod digest (Pod.store p text >>= f) g P :=
  safe_pod_bind (safe_store hp) fun a t h => hf a t h.1 h.2

/-- `safe_store_then`, where nothing but growth is of interest. -/
lemma safe_store_grows {p : Store.Io α} {text : String → String} {f : α → Pod.Io β}
    (hp : SafeStore digest p g fun _ g' => Grown g g')
    (hf : ∀ a t, Grown g t → SafePod digest (f a) t P) :
    SafePod digest (Pod.store p text >>= f) g P :=
  safe_store_then (R := fun _ _ => True) (hp.mono fun _ _ h => ⟨h, fun _ _ => trivial⟩)
    fun a t h _ => hf a t h

lemma safe_check_then {x : Except String α} {f : α → Pod.Io β}
    (hf : ∀ a, x = .ok a → SafePod digest (f a) g P) :
    SafePod digest (.ofExcept x >>= f) g P := by
  cases x with
  | ok a => exact hf a rfl
  | error e => exact nofun

/-- A pod process between two sections. -/
structure Ready (cfg : PodProcessConfig) (g : Doing) : Prop where
  idle : g.Idle
  role : g.role = .pod cfg.identity

variable {cfg : PodProcessConfig}

lemma Grown.ready (h : Grown g g') (hg : Ready cfg g) : Ready cfg g' :=
  ⟨h.idle hg.idle, h.role.trans hg.role⟩

/-- The worker's call that is being answered. -/
structure Answering (cfg : PodProcessConfig) (request : String) (f : Frame) (g : Doing) :
    Prop extends Ready cfg g where
  asked : g.asked = some f
  received : .received f ∈ g.known
  request : f.requestId = some request
  pod : f.pod = cfg.pod.name
  session : f.session = cfg.session

variable {request : String} {f : Frame}

lemma Grown.answering (h : Grown g g') (hg : Answering cfg request f g) :
    Answering cfg request f g' where
  toReady := h.ready hg.toReady
  asked := h.asked.trans hg.asked
  received := h.known hg.received
  request := hg.request
  pod := hg.pod
  session := hg.session

lemma safe_sendMessageTool (hg : Answering cfg request f g)
    (hname : (f.payload.get "name").bind Json.asStr = some "pod.send_message") (id : String) :
    SafePod digest (Pod.sendMessageTool digest cfg request id f) g
      fun _ g' => Grown g g' ∧ Effected digest g'.known f := by
  unfold Pod.sendMessageTool
  refine safe_check_then fun args hargs => ?_
  have hcall : sendCall f = some args := by
    unfold sendCall
    rw [if_pos hname, hargs]
    rfl
  refine safe_check_then fun _ _ => ?_
  refine safe_store_grows (safe_record hg.idle _ _ _ _) fun _ t ht => ?_
  have hm : Asked digest t.known (effectMessage digest cfg.identity request args) :=
    .inr ⟨f, args, cfg.identity, request, ht.known hg.received, hcall, hg.pod, hg.request, rfl⟩
  refine safe_store_then (safe_enqueueMessageForWorker (ht.idle hg.idle) hm _) fun _ t' ht' hq => ?_
  refine safe_store_grows (safe_record (ht'.idle (ht.idle hg.idle)) _ _ _ _) fun _ t'' ht'' => ?_
  intro _ _
  refine ⟨(ht.trans ht').trans ht'', fun a d ha hd => ?_⟩
  obtain rfl : args = a := Option.some.inj (hcall.symm.trans ha)
  obtain rfl : request = d := Option.some.inj (hg.request.symm.trans hd)
  exact ⟨cfg.identity, hg.pod.symm, ht''.known hq.1, fun hc => ht''.known (hq.2 hc)⟩

lemma safe_readStateTool (hg : Ready cfg g) (id : String) :
    SafePod digest (Pod.readStateTool cfg request id) g fun _ g' => Grown g g' := by
  unfold Pod.readStateTool
  refine safe_check_then fun _ _ => ?_
  refine safe_store_grows (safe_record hg.idle _ _ _ _) fun _ t ht => ?_
  refine safe_store_grows (safe_readState_idle (ht.idle hg.idle)) fun s t' ht' => ?_
  cases s with
  | none => exact nofun
  | some s => exact fun _ _ => ht.trans ht'

lemma safe_runTool (hg : Answering cfg request f g) (id : String) :
    SafePod digest (Pod.runTool digest cfg request id f) g
      fun _ g' => Grown g g' ∧ Effected digest g'.known f := by
  unfold Pod.runTool
  split
  · exact nofun
  · rename_i name hname
    refine safe_check_then fun _ _ => ?_
    split_ifs with hread hsend
    · refine Safe.mono (safe_readStateTool hg.toReady id) fun r t ht a ha => ⟨ht a ha, ?_⟩
      -- a call for another tool asks for no effect
      intro args d hargs
      have hnone : sendCall f = none := by
        unfold sendCall
        rw [if_neg]
        rw [hname, hread]
        decide
      rw [hnone] at hargs
      cases hargs
    · exact safe_sendMessageTool hg (by rw [hname, hsend]) id
    · exact nofun

lemma safe_executeTool (hg : Answering cfg request f g) :
    SafePod digest (Pod.executeTool digest cfg request f) g fun _ g' => Grown g g' ∧
      ∃ id r, f.toolCallId = some id ∧ .result f.session id r ∈ g'.known ∧
        r.argsDigest = argsDigest digest f := by
  unfold Pod.executeTool
  split
  · exact nofun
  · rename_i id hid
    refine safe_check_then fun _ _ => ?_
    refine safe_store_grows (safe_assertWorkerIdentity hg.idle _) fun _ t ht => ?_
    refine safe_store_then (R := fun x known => ∀ r, x = some r → .result cfg.session id r ∈ known)
      ((safe_readToolResult t cfg.session id).mono fun r u hu =>
        ⟨hu.1, fun a ha x hx => hu.2 x (by rw [ha, hx])⟩) fun x u hu hx => ?_
    cases x with
    | some old =>
        dsimp only
        split_ifs with hdigest
        · exact nofun
        · refine fun _ _ => ⟨ht.trans hu, id, old, hid, ?_, not_not.mp hdigest⟩
          rw [hg.session]
          exact hx old rfl
    | none =>
        have hu' := (ht.trans hu).answering hg
        refine safe_pod_bind (safe_runTool hu' id) fun y v hv => ?_
        refine safe_store_then
          (R := fun _ known => ∃ old, .result cfg.session id old ∈ known ∧
            old.argsDigest = argsDigest digest f)
          (safe_createToolResult (hv.1.known hu'.received) hg.session hid rfl hv.2)
          fun _ w hw hr => ?_
        obtain ⟨r, hr, hdigest⟩ := hr
        have hw' : Grown g w := (ht.trans hu).trans (hv.1.trans hw)
        refine safe_store_grows (safe_record (hw'.idle hg.idle) _ _ _ _) fun _ z hz => ?_
        refine fun _ _ => ⟨hw'.trans hz, id, r, hid, ?_, hdigest⟩
        rw [hg.session]
        exact hz.known hr

/-- Sending a frame tells a process nothing. -/
lemma safe_sendControlFrame {i : SessionIdentity} {seq : ℕ} {kind : Wire.FrameType}
    {requestId toolCallId : Option String} {payload : Json} {max : ℕ}
    {Q : Except String Unit → Doing → Prop}
    (hsend : ∀ frame, Pod.controlFrame i seq kind requestId toolCallId payload max = .ok frame →
      AllowedWorker digest g (.send frame)) (hQ : ∀ r, Q r g) :
    Safe (.of (fun _ _ _ => True) fun g (c : Pod.Call) r => note g (.inr c) r)
      (fun g c => Allowed digest g (.inr c))
      (Pod.sendControlFrame i seq kind requestId toolCallId payload max) g Q := by
  unfold Pod.sendControlFrame
  refine (safe_bind _ _ _ _).mpr ((safe_ofExcept _ _ _).mpr ?_)
  cases hframe : Pod.controlFrame i seq kind requestId toolCallId payload max with
  | error e => exact hQ _
  | ok frame =>
      refine (safe_ask_of _ _ _ _).mpr ⟨hsend frame hframe, fun x _ => ?_⟩
      exact (safe_ofExcept _ _ _).mpr (hQ _)

/-- A frame to the worker has the kind and the ids it was built with. -/
lemma controlFrame_eq {i : SessionIdentity} {seq : ℕ} {kind : Wire.FrameType}
    {requestId toolCallId : Option String} {payload : Json} {max : ℕ} {frame : Frame}
    (h : Pod.controlFrame i seq kind requestId toolCallId payload max = .ok frame) :
    frame.kind = kind ∧ frame.requestId = requestId ∧ frame.toolCallId = toolCallId := by
  unfold Pod.controlFrame at h
  dsimp only at h
  split_ifs at h
  obtain rfl := Except.ok.inj h
  exact ⟨rfl, rfl, rfl⟩

/-- Frames that are no tool results may be sent anywhere. -/
lemma allowed_send_other {i : SessionIdentity} {seq : ℕ} {kind : Wire.FrameType}
    {requestId toolCallId : Option String} {payload : Json} {max : ℕ} (hkind : kind ≠ .toolResult)
    (frame : Frame)
    (hframe : Pod.controlFrame i seq kind requestId toolCallId payload max = .ok frame) :
    AllowedWorker digest g (.send frame) :=
  fun hk => absurd ((controlFrame_eq hframe).1.symm.trans hk) hkind

lemma safe_persistTerminal (g : Doing) (request : String) (f : Frame) :
    SafePod digest (Pod.persistTerminal request f) g
      fun _ g' => Grown g g' ∧ .terminal request ∈ g'.known := by
  unfold Pod.persistTerminal
  refine (safe_bind _ _ _ _).mpr ((safe_inr_of _ _ _).mpr ((safe_attempt _ _ _).mpr ?_))
  refine Safe.mono (safe_createTerminal g request _) fun r t ht => ?_
  cases r with
  | ok u => exact fun _ _ => ⟨ht.1, ht.2 u rfl⟩
  | error e =>
      dsimp only
      split_ifs
      · refine safe_store_then (R := fun x known => ∀ f, x = some f → .terminal request ∈ known)
          ((safe_readTerminal t request).mono fun r u hu =>
            ⟨hu.1, fun a ha x hx => hu.2 x (by rw [ha, hx])⟩) fun x u hu hx => ?_
        cases x with
        | none => exact nofun
        | some old =>
            dsimp only
            split_ifs
            · exact nofun
            · exact fun _ _ => ⟨ht.1.trans hu, hx old rfl⟩
      · exact nofun

lemma safe_complete (hg : Ready cfg g) (machine : Machine) :
    SafePod digest (Pod.complete cfg request machine f) g fun _ g' => Ready cfg g' := by
  unfold Pod.complete
  refine safe_store_grows (safe_assertWorkerIdentity hg.idle _) fun _ t₁ h₁ => ?_
  refine safe_pod_bind (safe_persistTerminal t₁ request f) fun _ t₂ h₂ => ?_
  have hg₂ := (h₁.trans h₂.1).ready hg
  refine safe_store_grows (safe_record hg₂.idle _ _ _ _) fun _ t₃ h₃ => ?_
  have hg₃ := h₃.ready hg₂
  refine safe_store_grows (safe_updatePodDelivery hg₃.idle hg₃.role _ _ _) fun _ t₄ h₄ => ?_
  have hg₄ := h₄.ready hg₃
  have hdone : .terminal request ∈ t₄.known := h₄.known (h₃.known h₂.2)
  refine safe_store_grows (safe_markProcessed hg₄.idle hg₄.role hdone) fun _ t₅ h₅ => ?_
  have hg₅ := h₅.ready hg₄
  refine safe_store_grows (safe_record hg₅.idle _ _ _ _) fun _ t₆ h₆ => ?_
  have hg₆ := h₆.ready hg₅
  refine safe_check_then fun _ _ => ?_
  refine safe_store_grows (safe_updatePodDelivery hg₆.idle hg₆.role _ _ _) fun _ t₇ h₇ => ?_
  exact fun _ _ => h₇.ready hg₆

lemma safe_timeOut (hg : Ready cfg g) (machine : Machine) (seq : ℕ) :
    SafePod digest (Pod.timeOut cfg request machine seq : Pod.Io β) g P := by
  unfold Pod.timeOut
  refine safe_check_then fun _ _ => ?_
  refine (safe_bind _ _ _ _).mpr ((safe_attempt _ _ _).mpr ?_)
  refine safe_sendControlFrame (allowed_send_other (by decide)) fun r => ?_
  refine safe_store_grows (safe_record hg.idle _ _ _ _) fun _ t ht => ?_
  have hg' := ht.ready hg
  refine safe_store_grows (safe_updatePodDelivery hg'.idle hg'.role _ _ _) fun _ t' ht' => ?_
  exact nofun

lemma acceptFrame_eq {cfg : PodProcessConfig} {request : String} {machine machine' : Machine}
    {f f' : Frame} {size : ℕ}
    (h : Pod.acceptFrame cfg request machine (.frame f size) = .ok (f', machine')) :
    f' = f ∧ f.requestId = some request ∧ f.pod = cfg.pod.name ∧ f.session = cfg.session := by
  obtain ⟨x, hparse, hrest⟩ := bind_eq_ok.mp h
  obtain ⟨_, hworker, hmachine⟩ := bind_eq_ok.mp hrest
  have hx : x = f := by
    cases hp : Pod.parseLine (.frame f size) cfg.pod.maxFrameBytes with
    | error e =>
        rw [hp] at hparse
        cases hparse
    | ok y =>
        rw [hp] at hparse
        obtain rfl : y = x := Except.ok.inj hparse
        unfold Pod.parseLine Wire.parse at hp
        dsimp only at hp
        split_ifs at hp
        obtain ⟨_, -, hp⟩ := bind_eq_ok.mp hp
        exact (Except.ok.inj hp).symm
  subst hx
  unfold Pod.validateWorkerFrame at hworker
  split_ifs at hworker with hsame
  simp only [not_or, not_not] at hsame
  dsimp only at hmachine
  split_ifs at hmachine with hreq
  · cases hmachine
  · obtain ⟨_, -, hret⟩ := bind_eq_ok.mp hmachine
    obtain ⟨rfl, -⟩ := Prod.mk.inj (Except.ok.inj hret)
    exact ⟨rfl, not_not.mp hreq, hsame.2.2.1, hsame.2.2.2⟩

lemma safe_turn (hg : Ready cfg g) (fuel : ℕ) (machine : Machine) (seq calls : ℕ) :
    SafePod digest (Pod.turn digest cfg request fuel machine seq calls) g
      fun _ g' => Ready cfg g' := by
  induction fuel generalizing g machine seq calls with
  | zero => exact nofun
  | succ fuel ih =>
      refine (safe_ask_of _ _ _ _).mpr ⟨trivial, fun line _ => ?_⟩
      match line with
      | none => exact safe_timeOut hg machine seq
      | some .other => exact nofun
      | some (.frame f size) =>
          have hready : Ready cfg { g.learn [.received f] with asked := some f } :=
            ⟨⟨hg.idle.plain, hg.idle.locked, hg.idle.seen, hg.idle.inbox, hg.idle.absent⟩, hg.role⟩
          refine safe_check_then fun x hx => ?_
          obtain ⟨f', machine'⟩ := x
          obtain ⟨rfl, hreq, hpod, hsession⟩ := acceptFrame_eq hx
          have hans : Answering cfg request f' { g.learn [.received f'] with asked := some f' } :=
            ⟨hready, rfl, List.mem_cons_self .., hreq, hpod, hsession⟩
          dsimp only
          split
          · exact ih hready machine' seq calls
          · split_ifs
            · exact nofun
            · exact nofun
            · refine safe_pod_bind (safe_executeTool hans) fun result t ht => ?_
              obtain ⟨ht, id, r, hid, hr, hdigest⟩ := ht
              have ht' := ht.answering hans
              refine (safe_bind _ _ _ _).mpr (safe_sendControlFrame (fun frame hframe _ => ?_) ?_)
              · obtain ⟨-, hfreq, hfid⟩ := controlFrame_eq hframe
                exact ⟨f', id, r, ht'.asked, ht'.received, hid, hfid.trans hid,
                  hfreq.trans hreq.symm, hr, hdigest⟩
              · intro x
                cases x with
                | error e => exact nofun
                | ok _ => exact ih ht'.toReady machine' (seq + 1) (calls + 1)
          · exact safe_pod_bind (safe_complete hready machine') fun _ t ht _ _ => ht
          · exact nofun

lemma safe_startDelivery (hg : Ready cfg g) (machine : Machine) (seq : ℕ) (m : MessageEnvelope) :
    SafePod digest (Pod.startDelivery cfg machine seq m) g fun _ g' => Ready cfg g' := by
  unfold Pod.startDelivery
  refine safe_check_then fun _ _ => ?_
  refine safe_store_grows (safe_record hg.idle _ _ _ _) fun _ t₁ h₁ => ?_
  have hg₁ := h₁.ready hg
  refine safe_store_grows (safe_updatePodDelivery hg₁.idle hg₁.role _ _ _) fun _ t₂ h₂ => ?_
  have hg₂ := h₂.ready hg₁
  refine (safe_bind _ _ _ _).mpr (safe_sendControlFrame (allowed_send_other (by decide)) ?_)
  intro x
  cases x with
  | error e => exact nofun
  | ok _ => exact fun _ _ => hg₂

lemma safe_deliver (hg : Ready cfg g) (fuel : ℕ) (machine : Machine) (seq : ℕ) (id : String) :
    SafePod digest (Pod.deliver digest cfg fuel machine seq id) g fun _ g' => Ready cfg g' := by
  unfold Pod.deliver
  refine safe_store_grows (safe_isProcessed g _ _) fun done t₁ h₁ => ?_
  have hg₁ := h₁.ready hg
  split_ifs
  · exact fun _ _ => hg₁
  · refine safe_store_grows (safe_readMessage hg₁.idle id) fun m t₂ h₂ => ?_
    have hg₂ := h₂.ready hg₁
    split_ifs
    · exact fun _ _ => hg₂
    · exact safe_pod_bind (safe_startDelivery hg₂ machine seq m) fun machine t₃ hg₃ =>
        safe_turn hg₃ fuel machine (seq + 1) 0

lemma safe_deliverAll (hg : Ready cfg g) (fuel : ℕ) (ids : List String) (machine : Machine)
    (seq : ℕ) :
    SafePod digest (Pod.deliverAll digest cfg fuel ids machine seq) g
      fun _ g' => Ready cfg g' := by
  induction ids generalizing g machine seq with
  | nil => exact fun _ _ => hg
  | cons id ids ih =>
      exact safe_pod_bind (safe_deliver hg fuel machine seq id) fun x t ht => ih ht x.1 x.2

lemma safe_serve (hg : Ready cfg g) (fuel : ℕ) (machine : Machine) (seq : ℕ) :
    SafePod digest (Pod.serve digest cfg fuel machine seq) g fun _ _ => True := by
  induction fuel generalizing g machine seq with
  | zero => exact nofun
  | succ fuel ih =>
      refine (safe_ask_of _ _ _ _).mpr ⟨trivial, fun exited _ => ?_⟩
      match exited with
      | true => exact nofun
      | false =>
          refine safe_store_grows (safe_pendingMessageIds_idle hg.idle _) fun ids t ht => ?_
          exact safe_pod_bind (safe_deliverAll (ht.ready hg) fuel ids machine seq)
            fun x u hu => ih hu x.1 x.2

/-- A call to the worker that tells nothing. -/
lemma safe_tryAsk_then {w : Pod.Worker} {x : w.Ret → Except String α} {f : α → Pod.Io β}
    (hpre : AllowedWorker digest g w) (hnote : ∀ r, noteWorker g w r = g)
    (hf : ∀ a, SafePod digest (f a) g P) : SafePod digest (Pod.tryAsk w x >>= f) g P := by
  refine safe_pod_bind (R := fun _ t => t = g) ?_ fun a t ht => ht ▸ hf a
  refine (safe_ask_of _ _ _ _).mpr ⟨hpre, fun r _ => ?_⟩
  exact (safe_ofExcept _ _ _).mpr fun _ _ => hnote r

lemma safe_commandPodProcess (cfg : PodProcessConfig) (fuel : ℕ) :
    SafePod digest (Pod.commandPodProcess digest cfg fuel) { role := .pod cfg.identity }
      fun _ _ => True := by
  have hg : Ready cfg { role := .pod cfg.identity } := ⟨⟨rfl, rfl, rfl, rfl, rfl⟩, rfl⟩
  -- what follows the worker's first line
  have hserve : ∀ (t : Doing) (line : Option Pod.Line), Ready cfg t → SafePod digest (do
      let machine ← .ofExcept (Pod.acceptHello cfg line)
      Pod.sendControlFrame cfg.identity 1 .helloAck none none
        (.obj [("capabilities", .arr (cfg.pod.capabilities.map .str)),
          ("max_frame_bytes", Wire.ofNat cfg.pod.maxFrameBytes)]) cfg.pod.maxFrameBytes
      Pod.tryAsk (.ready cfg.pod.name cfg.session) id
      Pod.serve digest cfg fuel machine 2) t fun _ _ => True := by
    intro t line ht
    refine safe_check_then fun machine _ => ?_
    refine (safe_bind _ _ _ _).mpr (safe_sendControlFrame (allowed_send_other (by decide)) ?_)
    intro x
    cases x with
    | error e => exact nofun
    | ok _ => exact safe_tryAsk_then trivial (fun _ => rfl) fun _ => safe_serve ht fuel machine 2
  unfold Pod.commandPodProcess
  refine safe_store_grows (safe_tryCall trivial fun _ => .refl _) fun _ t₁ h₁ => ?_
  have hg₁ := h₁.ready hg
  split_ifs
  · exact nofun
  · refine safe_tryAsk_then trivial (fun _ => rfl) fun _ => ?_
    refine (safe_ask_of _ _ _ _).mpr ⟨trivial, fun line _ => ?_⟩
    match line with
    | none => exact hserve t₁ none hg₁
    | some .other => exact hserve t₁ (some .other) hg₁
    | some (.frame f size) =>
        refine hserve { t₁.learn [.received f] with asked := some f } (some (.frame f size)) ?_
        exact ⟨⟨hg₁.idle.plain, hg₁.idle.locked, hg₁.idle.seen, hg₁.idle.inbox, hg₁.idle.absent⟩,
          hg₁.role⟩

end Bimo.Runs
