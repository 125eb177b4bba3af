import Bimo.FabricWatch
import Bimo.Local

/-!
What an agent's directory says after any sequence of applies and destroys, each stopped
anywhere.

An operation is stopped by a crash or by an error it returns. Two invariants are carried
through every call an operation may make: `Spared` (what the record says is live is not
something recovery would destroy) and `Kept` (what was touched and not destroyed is listed
somewhere). Both fail in one place, after the record of a new generation is written and before
the journal has its commit, so both theorems ask that no operation stops there.
-/

namespace Bimo.Fabric

variable {X : Type} {XRet : X → Type}

inductive Operation
  | apply (loaded : LoadedSpec)
  | destroy

def Operation.run (F : Fabric X XRet) (agent : String) : Operation → Eff X XRet FabricError Unit
  | .apply loaded => F.apply loaded >>= fun _ => pure ()
  | .destroy => F.destroy agent >>= fun _ => pure ()

/-- An operation begins: an apply of a spec of the agent's name, or a destroy. -/
def Begins (F : Fabric X XRet) (agent : String) (w : World) (p : Eff X XRet FabricError Unit)
    (w' : World) : Prop :=
  ∃ op : Operation, (∀ loaded, op = .apply loaded → loaded.spec.name = agent) ∧
    p = op.run F agent ∧ w' = { w with phase := .recovering, gone := [], tried := [] }

lemma Begins.keeps {F : Fabric X XRet} {agent : String} {w w' : World}
    {p : Eff X XRet FabricError Unit} (h : Begins F agent w p w') :
    Keeps p w' fun _ _ => True := by
  obtain ⟨op, -, rfl, rfl⟩ := h
  cases op with
  | apply loaded =>
      exact Safe.bind (keeps_apply loaded rfl) (fun _ _ _ => trivial) fun _ _ _ => trivial
  | destroy => exact Safe.bind (keeps_destroy rfl) (fun _ _ _ => trivial) fun _ _ _ => trivial

/-- The record names a generation the journal has not committed yet. -/
def InWindow (w : World) : Prop := ∃ g S, w.phase = .recorded g S

def Phase.isStarting : Phase → Bool
  | .starting _ _ => true
  | _ => false

/-- The ids touched by the generation being started. -/
def Phase.touched : Phase → List String
  | .starting _ T => T
  | _ => []

def Phase.isRecorded : Phase → Bool
  | .recorded _ _ => true
  | _ => false

lemma not_inWindow {w : World} (h : w.phase.isRecorded = false) : ¬ InWindow w := by
  rintro ⟨g, S, hw⟩
  simp [hw, Phase.isRecorded] at h

/-- Every entry but four leaves the phase as it is. -/
lemma Phase.after_eq {p : Phase} {e : JournalEntry} (h1 : e.event ≠ .intent)
    (h2 : e.event ≠ .commit) (h3 : touchedId e = none) : p.after e = p := by
  cases he : e.event <;> cases p <;> simp_all [Phase.after]

lemma World.append_touch_phase {w : World} {e : JournalEntry} {g : ℕ} {T : List String}
    (he : e.event = .touching ∨ e.event = .created) (hw : w.phase = .starting g T) :
    (w.append e).phase = .starting g ((touchedId e).toList ++ T) := by
  rcases he with he | he <;> simp [World.append, Phase.after, he, hw]

lemma touchedId_eq_some {e : JournalEntry} {r : Resource} {g : ℕ}
    (he : e.event = .touching ∨ e.event = .created) (hr : e.resource = some r)
    (hg : e.generation = some g) : touchedId e = some r.id := by
  rcases he with he | he <;> simp [touchedId, he, hr, hg]

/-! ### Recovery spares the live generation -/

/-- Resource ids are unique within the substrate: what is touched, and what a create hands
back, bears no id of a resource the record says is live. -/
def Unique (w : World) : (c : Call ⊕ X) → Sum.elim Call.Ret XRet c → Prop
  | .inl (.append _ e), _ => ∀ id ∈ touchedId e, ∀ r ∈ liveResources w.record, r.id ≠ id
  | .inl (.writeRecord _ n), _ => w.phase.isStarting →
      ∀ x ∈ n.resources, ∀ r ∈ liveResources w.record, r.id ≠ x.id
  | _, _ => True

instance (w : World) (c : Call ⊕ X) (x : Sum.elim Call.Ret XRet c) : Decidable (Unique w c x) :=
  match c with
  | .inl (.append _ e) =>
    inferInstanceAs (Decidable (∀ id ∈ touchedId e, ∀ r ∈ liveResources w.record, r.id ≠ id))
  | .inl (.writeRecord _ n) => inferInstanceAs (Decidable (w.phase.isStarting →
      ∀ x ∈ n.resources, ∀ r ∈ liveResources w.record, r.id ≠ x.id))
  | .inl (.readRecord _) | .inl (.readJournal _) | .inl (.journalExists _) | .inl (.lock _)
  | .inl (.target _) | .inl (.resolve _ _) | .inl (.controlKey _) | .inl (.prepare _ _)
  | .inl (.probe _) | .inl (.stateCheck _) | .inl (.returned _ _ _) | .inr _ =>
    inferInstanceAs (Decidable True)

structure Spared (w : World) : Prop where
  live : ¬ InWindow w → ∀ id m, pending w.journal id = some m →
    (∃ r ∈ liveResources w.record, r.id = id) → m.reason = .retiring ∨ m.reason = .destroying
  /-- While a generation is started, nothing else is pending. -/
  own : ∀ g, (∃ T, w.phase = .starting g T) ∨ (∃ S, w.phase = .recorded g S) →
    ∀ id m, pending w.journal id = some m → touchedBy w.journal id = some g
  apart : ∀ g S, w.phase = .recorded g S → ∀ r ∈ liveResources w.record, ∀ x ∈ S, x.id ≠ r.id

namespace Spared

variable {w : World} {e : JournalEntry}

/-- An entry that takes nothing but pending resources away. -/
lemma append_sub (h : Spared w) (hphase : w.phase.after e = w.phase)
    (hp : ∀ id m, pending (w.journal ++ [e]) id = some m → pending w.journal id = some m)
    (ht : touchedBy (w.journal ++ [e]) = touchedBy w.journal) : Spared (w.append e) where
  live hw id m hm hr := by
    have hw : ¬ InWindow w := by simpa [InWindow, World.append, hphase] using hw
    exact h.live hw id m (hp id m hm) hr
  own g hg id m hm := by
    simp only [World.append, hphase, ht] at hg hm ⊢
    exact h.own g hg id m (hp id m hm)
  apart g S hS := by
    simp only [World.append, hphase] at hS ⊢
    exact h.apart g S hS

lemma append_touch (h : Spared w) {g : ℕ} {T : List String} {r : Resource}
    (he : e.event = .touching ∨ e.event = .created) (hw : w.phase = .starting g T)
    (hg : e.generation = some g) (hr : e.resource = some r)
    (hfresh : ∀ x ∈ liveResources w.record, x.id ≠ r.id) : Spared (w.append e) := by
  have hT' := World.append_touch_phase he hw
  refine ⟨fun _ id m hm hlive => ?_, fun g' hg' id m hm => ?_, fun g' S hS => ?_⟩
  · simp only [World.append] at hm hlive
    rw [pending_touch he hr hg] at hm
    split_ifs at hm with hid
    · obtain ⟨x, hx, rfl⟩ := hlive
      exact absurd hid.symm (hfresh x hx)
    · exact h.live (by simp [InWindow, hw]) id m hm hlive
  · obtain rfl : g = g' := by simpa [hT'] using hg'
    simp only [World.append] at hm ⊢
    rw [pending_touch he hr hg] at hm
    rw [touchedBy_touch he hr hg]
    split_ifs at hm ⊢
    · rfl
    · exact h.own g (Or.inl ⟨T, hw⟩) id m hm
  · simp [hT'] at hS

lemma append_commit (h : Spared w) {g : ℕ} {S : List Resource} (he : e.event = .commit)
    (hw : w.phase = .recorded g S) (hg : e.generation = some g) (hS : e.retire = S) :
    Spared (w.append e) := by
  have hphase : (w.append e).phase = .committed := by simp [World.append, Phase.after, he]
  refine ⟨fun _ id m hm hlive => ?_, fun g' hg' => ?_, fun g' S' hS' => ?_⟩
  · obtain ⟨r, hr, hid⟩ := hlive
    simp only [World.append] at hm hr
    rcases pending_commit (j := w.journal) he hg id with ⟨x, hx, hxid, -⟩ | ⟨-, hp⟩
    · -- superseded resources are not live any more
      exact absurd (hxid.trans hid.symm) (h.apart g S hw r hr x (hS ▸ hx))
    · rw [hp] at hm
      split_ifs at hm with htouch
      exact absurd (h.own g (Or.inr ⟨S, hw⟩) id m hm) htouch
  · simp [hphase] at hg'
  · simp [hphase] at hS'

lemma append_mark (h : Spared w) {r : Resource}
    (he : e.event = .retiring ∨ e.event = .destroying) (hr : e.resource = some r)
    (hw : w.phase = .recovering ∨ w.phase = .committed) : Spared (w.append e) := by
  have hphase : (w.append e).phase = w.phase := Phase.after_eq
    (by rcases he with he | he <;> simp [he]) (by rcases he with he | he <;> simp [he])
    (by rcases he with he | he <;> simp [touchedId, he])
  refine ⟨fun _ id m hm hlive => ?_, fun g hg => ?_, fun g S hS => ?_⟩
  · simp only [World.append] at hm hlive
    obtain ⟨reason, hre, hreason⟩ : ∃ reason : Reason,
        (reason = .retiring ∧ e.event = .retiring ∨ reason = .destroying ∧ e.event = .destroying) ∧
          (reason = .retiring ∨ reason = .destroying) := by
      rcases he with he | he
      · exact ⟨.retiring, by simp [he], by simp⟩
      · exact ⟨.destroying, by simp [he], by simp⟩
    rw [pending_mark hre hr] at hm
    split_ifs at hm with hid
    · obtain rfl := Option.some.inj hm
      exact hreason
    · exact h.live (by rcases hw with hw | hw <;> simp [InWindow, hw]) id m hm hlive
  · rw [hphase] at hg
    rcases hw with hw | hw <;> simp [hw] at hg
  · rw [hphase] at hS
    rcases hw with hw | hw <;> simp [hw] at hS

lemma append_intent (he : e.event = .intent) (hrem : remains w.journal = []) :
    Spared (w.append e) := by
  have hnone : ∀ id, pending (w.append e).journal id = none := fun id => by
    simp only [World.append]
    rw [pending_quiet (by simp [he, Event.quiet])]
    exact remains_eq_nil.mp hrem id
  refine ⟨fun _ id m hm => ?_, fun g _ id m hm => ?_, fun g S hS => ?_⟩
  · simp [hnone id] at hm
  · simp [hnone id] at hm
  · simp [World.append, Phase.after, he] at hS

/-- **Each journal entry an operation may append keeps the invariant.** -/
lemma append (h : Spared w) (hal : AllowedEntry w e)
    (hfresh : ∀ id, touchedId e = some id → ∀ r ∈ liveResources w.record, r.id ≠ id) :
    Spared (w.append e) := by
  cases he : e.event with
  | intent =>
      simp only [AllowedEntry, he] at hal
      exact append_intent he hal.2.1
  | touching | created =>
      simp only [AllowedEntry, he] at hal
      obtain ⟨g, T, r, hw, hg, hr⟩ := hal
      exact h.append_touch (by simp [he]) hw hg hr
        (hfresh r.id (touchedId_eq_some (by simp [he]) hr hg))
  | commit =>
      simp only [AllowedEntry, he] at hal
      obtain ⟨g, S, hw, hg, hS⟩ := hal
      exact h.append_commit he hw hg hS
  | retiring | destroying =>
      simp only [AllowedEntry, he] at hal
      obtain ⟨⟨r, hr⟩, hw⟩ := hal
      exact h.append_mark (by simp [he]) hr hw
  | cleared =>
      simp only [AllowedEntry, he] at hal
      obtain ⟨r, hr, -⟩ := hal
      refine h.append_sub (Phase.after_eq (by simp [he]) (by simp [he]) (by simp [touchedId, he]))
        (fun id m hm => ?_) (touchedBy_cleared he)
      rw [pending_cleared he hr] at hm
      split_ifs at hm
      exact hm
  | ready | rollback | destroyed | secretsRotated =>
      refine h.append_sub (Phase.after_eq (by simp [he]) (by simp [he]) (by simp [touchedId, he]))
        (fun id m hm => ?_) (touchedBy_quiet (by simp [he, Event.quiet]))
      rwa [pending_quiet (by simp [he, Event.quiet])] at hm

/-- **So does each record an operation may write.** -/
lemma writeRecord (h : Spared w) {n : AgentRecord} (hal : AllowedRecord w n)
    (hfresh : w.phase.isStarting →
      ∀ x ∈ n.resources, ∀ r ∈ liveResources w.record, r.id ≠ x.id) :
    Spared (w.writeRecord n) := by
  rcases hal with ⟨T, hw, hn⟩ | ⟨hw, old, hold, hst, hres⟩ | ⟨hw, hst, -⟩
  · have hphase : (w.writeRecord n).phase = .recorded n.generation (liveResources w.record) := by
      simp [World.writeRecord, hw]
    refine ⟨fun hwin => absurd ⟨_, _, hphase⟩ hwin, fun g hg id m hm => ?_, fun g S hS r hr x hx => ?_⟩
    · obtain rfl : n.generation = g := by simpa [hphase] using hg
      exact h.own n.generation (Or.inl ⟨T, hw⟩) id m hm
    · obtain ⟨rfl, rfl⟩ : n.generation = g ∧ liveResources w.record = S := by
        simpa [hphase] using hS
      have hr : r ∈ n.resources := by simpa [World.writeRecord, liveResources, hn] using hr
      exact hfresh (by simp [hw, Phase.isStarting]) r hr x hx
  · have hlive : liveResources (some n) = liveResources w.record := by
      simp [liveResources, hold, hst, hres]
    have hphase : (w.writeRecord n).phase = w.phase := by simp [World.writeRecord, hw]
    refine ⟨fun _ id m hm hr => ?_, fun g hg => ?_, fun g S hS => ?_⟩
    · simp only [World.writeRecord, hlive] at hm hr
      exact h.live (by simp [InWindow, hw]) id m hm hr
    · simp [hphase, hw] at hg
    · simp [hphase, hw] at hS
  · have hphase : (w.writeRecord n).phase = w.phase := by simp [World.writeRecord, hw]
    refine ⟨fun _ id m hm hr => ?_, fun g hg => ?_, fun g S hS => ?_⟩
    · simp [World.writeRecord, liveResources, hst] at hr
    · simp [hphase, hw] at hg
    · simp [hphase, hw] at hS

lemma recordFailed (h : Spared w) (hw : ¬ InWindow w) : Spared w.recordFailed := by
  have hne : ∀ g T S, w.recordFailed.phase ≠ .starting g T ∧ w.recordFailed.phase ≠ .recorded g S := by
    intro g T S
    unfold World.recordFailed
    cases hp : w.phase <;> simp_all [InWindow]
  refine ⟨fun _ => h.live hw, fun g hg => ?_, fun g S hS => ?_⟩
  · rcases hg with ⟨T, hT⟩ | ⟨S, hS⟩
    · exact absurd hT (hne g T []).1
    · exact absurd hS (hne g [] S).2
  · exact absurd hS (hne g [] S).2

/-- **Each call an operation may make keeps the invariant.** -/
lemma step (h : Spared w) (c : Call ⊕ X) (x : Sum.elim Call.Ret XRet c) (hal : Allowed w c)
    (hun : Unique w c x) : Spared (worldNext X XRet w c x) := by
  match c with
  | .inl (.append _ e) =>
      match x with
      | .ok _ => exact h.append hal hun
      | .error _ => exact h
  | .inl (.writeRecord _ n) =>
      match x with
      | .ok _ => exact h.writeRecord hal hun
      | .error _ =>
          refine h.recordFailed ?_
          rcases hal with ⟨T, hw, -⟩ | ⟨hw, -⟩ | ⟨hw, -⟩ <;> simp [InWindow, hw]
  | .inl (.returned _ _ _) => exact ⟨h.live, h.own, h.apart⟩
  | .inl (.readRecord _) | .inl (.readJournal _) | .inl (.journalExists _) | .inl (.lock _)
  | .inl (.target _) | .inl (.resolve _ _) | .inl (.controlKey _) | .inl (.prepare _ _)
  | .inl (.probe _) | .inl (.stateCheck _) | .inr _ => exact h

end Spared

/-- **Recovery spares the live generation.** In every directory left by a sequence of applies
and destroys, each stopped anywhere but between the record of a new generation and its commit
entry, with resource ids unique: what remains and is listed in a Ready record was being retired
or destroyed. -/
theorem remains_spares_live (F : Fabric X XRet) (agent : String) {w : World}
    (h : Leaves ((world X XRet).given Unique) (Begins F agent) (fun _ w => ¬ InWindow w) {} w) :
    ∀ m ∈ remains w.journal, ∀ r ∈ liveResources w.record, m.resource.id = r.id →
      Begun w.journal r.id := by
  have hinv : ∀ id m, pending w.journal id = some m →
      (∃ r ∈ liveResources w.record, r.id = id) →
        m.reason = .retiring ∨ m.reason = .destroying := by
    refine Leaves.inv (P := Allowed) (J := Spared) (I := fun w => ∀ id m,
      pending w.journal id = some m → (∃ r ∈ liveResources w.record, r.id = id) →
        m.reason = .retiring ∨ m.reason = .destroying) ?_ ?_ ?_ ?_ h
    · intro id m hm
      simp [pending, seen] at hm
    · rintro s c x _ hal ⟨⟨-, rfl⟩, hx⟩ hs
      exact hs.step c x hal hx
    · intro s p s' hb hs
      refine ⟨hb.keeps.given, ?_⟩
      obtain ⟨op, -, -, rfl⟩ := hb
      exact ⟨fun _ => hs, fun g hg => by simp at hg, fun g S hS => by simp at hS⟩
    · exact fun _ t ht hstop => ht.live hstop
  intro m hm r hr hid
  obtain ⟨id, hpend⟩ := mem_remains.mp hm
  obtain rfl : r.id = id := hid.symm.trans (pending_id hpend)
  exact begun_of_pending hpend (hinv r.id m hpend ⟨r, hr, rfl⟩)

/-! ### A run on the local driver -/

section LocalRun

/-- The local driver behind every target name. -/
def onLocal : Fabric Local.Call Local.Call.Ret where
  stateRoot := ".bimo/agents"
  driver _ := Local.driver
  sha256 text := text

/-- Every call answered well. -/
def well (w : World) : (c : Call ⊕ Local.Call) → Sum.elim Call.Ret Local.Call.Ret c
  | .inl (.readRecord _) => Except.ok w.record
  | .inl (.readJournal _) => Except.ok w.journal
  | .inl (.journalExists _) => true
  | .inl (.append _ _) | .inl (.writeRecord _ _) | .inl (.lock _) => Except.ok ()
  | .inl (.target _) | .inl (.prepare _ _) | .inl (.stateCheck _) => Except.ok ()
  | .inl (.resolve _ handle) => Except.ok handle
  | .inl (.controlKey agent) => Except.ok agent
  | .inl (.probe _) => Except.ok (250, "task-1")
  | .inl (.returned _ _ _) => ()
  | .inr .timestampMillis => w.journal.length
  | .inr .freeLocalPort => Except.ok (4000 : ℕ)
  | .inr (.launch _) => Except.ok "iron-proxy"
  | .inr (.recipe _ _ _) => Except.ok "runtime"
  | .inr (.spawnGroup _ session) => Except.ok (⟨100, 100, session, session, 1⟩ : ProcessIdentity)
  | .inr (.waitForPort _ _) | .inr (.stopGroup _) | .inr (.writeSecretFile _ _ _ _) => Except.ok ()
  | .inr (.identityAlive _) => true
  | .inr (.reload _ _ _) => Except.ok ()

def demoSpec : LoadedSpec where
  fingerprint := "f1"
  spec :=
    { name := "a", tenantId := "acme", runtime := "hermes", source := .config "agent.toml",
      secrets := [], egress := [], substrate := "local" }

def demoApply : Eff Local.Call Local.Call.Ret FabricError Unit :=
  Operation.run onLocal "a" (.apply demoSpec)

def demoDestroy : Eff Local.Call Local.Call.Ret FabricError Unit :=
  Operation.run onLocal "a" .destroy

lemma begins_demoApply (w : World) : Begins onLocal "a" w demoApply
    { w with phase := .recovering, gone := [], tried := [] } :=
  ⟨.apply demoSpec, fun _ h => by cases h; rfl, rfl, rfl⟩

lemma begins_demoDestroy (w : World) : Begins onLocal "a" w demoDestroy
    { w with phase := .recovering, gone := [], tried := [] } :=
  ⟨.destroy, nofun, rfl, rfl⟩

abbrev localWorld := world Local.Call Local.Call.Ret

/-- A condition on steps, as a check made along a run. -/
abbrev Checked (M : World → (c : Call ⊕ Local.Call) → Sum.elim Call.Ret Local.Call.Ret c → Prop)
    (w : World) (c : Call ⊕ Local.Call) (x : Sum.elim Call.Ret Local.Call.Ret c) : Prop :=
  worldCan Local.Call Local.Call.Ret w c x ∧ M w c x

abbrev localNext := worldNext Local.Call Local.Call.Ret

lemma step_checked {M : World → (c : Call ⊕ Local.Call) → Sum.elim Call.Ret Local.Call.Ret c → Prop}
    (w : World) (c : Call ⊕ Local.Call) (h : Checked M w c (well w c)) :
    (localWorld.given M).step w c (well w c) (localNext w c (well w c)) :=
  ⟨⟨h.1, rfl⟩, h.2⟩

end LocalRun

/-- The first apply of an agent is stopped after its 28th call, the write of the record. The
record is Ready and everything it lists remains. -/
theorem remains_condemns_live :
    ¬ ∀ w, Leaves (localWorld.given Unique) (Begins onLocal "a") (fun _ _ => True) {} w →
      ∀ m ∈ remains w.journal, ∀ r ∈ liveResources w.record, m.resource.id = r.id →
        Begun w.journal r.id := by
  intro h
  obtain ⟨q, hx⟩ := exec_reach (step_checked (M := Unique)) (n := 28)
    (p := demoApply) (s := {}) (by decide +kernel)
  have hw := h _ (.run .init (begins_demoApply {}) hx trivial)
  generalize hdef : reach (Checked Unique) localNext well 28 demoApply {} = w at hw
  have hboth : ∃ m ∈ remains w.journal, ∃ r ∈ liveResources w.record, m.resource.id = r.id := by
    subst hdef
    decide +kernel
  have hquiet : ∀ e ∈ w.journal, ¬ (e.event = .retiring ∨ e.event = .destroying) := by
    subst hdef
    decide +kernel
  obtain ⟨m, hm, r, hr, hid⟩ := hboth
  obtain ⟨a, e, b, hj, he, -⟩ := hw m hm r hr hid
  exact hquiet e (by simp [hj]) he

/-- An apply that comes back, then a destroy stopped after its first `destroying` line: the
resource is in the Ready record and remains, and its destroy was begun. -/
theorem remains_spares_live_local :
    ∃ w : World, (∃ m ∈ remains w.journal, ∃ r ∈ liveResources w.record, m.resource.id = r.id) ∧
      ∀ m ∈ remains w.journal, ∀ r ∈ liveResources w.record, m.resource.id = r.id →
        Begun w.journal r.id := by
  obtain ⟨q, hx⟩ := exec_reach (step_checked (M := Unique)) (n := 60)
    (p := demoApply) (s := {}) (by decide +kernel)
  have hstop : ¬ InWindow (reach (Checked Unique) localNext well 60 demoApply {}) :=
    not_inWindow (by decide +kernel)
  obtain ⟨q', hx'⟩ := exec_reach (step_checked (M := Unique)) (n := 6)
    (p := demoDestroy) (s := { reach (Checked Unique) localNext well 60 demoApply {} with
      phase := .recovering, gone := [], tried := [] }) (by decide +kernel)
  refine ⟨_, ?_, remains_spares_live onLocal "a" (.run (.run .init (begins_demoApply {}) hx hstop)
    (begins_demoDestroy _) hx' (not_inWindow (by decide +kernel)))⟩
  decide +kernel

/-! ### No resource is lost -/

/-- Two ways to lose a resource do not occur: a destroy that fails while a failed start is
rolled back, and a create that succeeds without handing back all it touched. -/
def Complete (w : World) : (c : Call ⊕ X) → Sum.elim Call.Ret XRet c → Prop
  | .inl (.returned _ _ ok), _ => w.phase.isStarting → ok
  | .inl (.writeRecord _ n), _ => ∀ id ∈ w.phase.touched, ∃ r ∈ n.resources, r.id = id
  | _, _ => True

instance (w : World) (c : Call ⊕ X) (x : Sum.elim Call.Ret XRet c) :
    Decidable (Complete w c x) :=
  match c with
  | .inl (.returned _ _ ok) => inferInstanceAs (Decidable (w.phase.isStarting → ok))
  | .inl (.writeRecord _ n) =>
    inferInstanceAs (Decidable (∀ id ∈ w.phase.touched, ∃ r ∈ n.resources, r.id = id))
  | .inl (.readRecord _) | .inl (.readJournal _) | .inl (.journalExists _) | .inl (.lock _)
  | .inl (.target _) | .inl (.resolve _ _) | .inl (.controlKey _) | .inl (.prepare _ _)
  | .inl (.probe _) | .inl (.stateCheck _) | .inl (.append _ _) | .inr _ =>
    inferInstanceAs (Decidable True)

/-- Something is pending under the id. -/
def Pends (j : List JournalEntry) (id : String) : Prop := ∃ m, pending j id = some m

/-- The record says a resource of that id is live. -/
def Lists (record : Option AgentRecord) (id : String) : Prop :=
  ∃ r ∈ liveResources record, r.id = id

structure Kept (w : World) : Prop where
  owed : ∀ id ∈ w.owed, Pends w.journal id ∨ Lists w.record id ∨
    ∃ g S, w.phase = .recorded g S ∧ ∃ r ∈ S, r.id = id
  gone : ∀ id ∈ w.gone, id ∉ w.owed
  tried : w.phase.isStarting → ∀ id ∈ w.tried, id ∈ w.gone
  own : w.phase.isStarting → ∀ id, Pends w.journal id → id ∈ w.phase.touched
  listed : w.phase.isRecorded → ∀ id, Pends w.journal id → Lists w.record id

namespace Kept

variable {w : World} {e : JournalEntry}

/-- An entry that touches nothing, keeps the phase and takes away only what is gone. -/
lemma append_clear (h : Kept w) (hphase : w.phase.after e = w.phase) (ht : touchedId e = none)
    (hne : e.event ≠ .intent)
    (hsub : w.phase.isStarting ∨ w.phase.isRecorded →
      ∀ id, Pends (w.journal ++ [e]) id → Pends w.journal id)
    (hkeep : ∀ id, Pends w.journal id → Pends (w.journal ++ [e]) id ∨ id ∈ w.gone) :
    Kept (w.append e) := by
  have howed : (w.append e).owed = w.owed := by simp [World.append, ht]
  have hgone : (w.append e).gone = w.gone := by simp [World.append, ht]
  have htried : (w.append e).tried = w.tried := by simp [World.append, ht, hne]
  have hph : (w.append e).phase = w.phase := hphase
  refine ⟨fun id hid => ?_, ?_, ?_, ?_, ?_⟩
  · rw [howed] at hid
    rcases h.owed id hid with hp | hl | hs
    · rcases hkeep id hp with hp | hg
      · exact Or.inl hp
      · exact absurd hid (h.gone id hg)
    · exact Or.inr (Or.inl hl)
    · exact Or.inr (Or.inr (hph ▸ hs))
  · rw [howed, hgone]
    exact h.gone
  · rw [hph, htried, hgone]
    exact h.tried
  · rw [hph]
    exact fun hs id hp => h.own hs id (hsub (Or.inl hs) id hp)
  · rw [hph]
    exact fun hs id hp => h.listed hs id (hsub (Or.inr hs) id hp)

lemma append_touch (h : Kept w) {g : ℕ} {T : List String} {r : Resource}
    (he : e.event = .touching ∨ e.event = .created) (hw : w.phase = .starting g T)
    (hg : e.generation = some g) (hr : e.resource = some r) : Kept (w.append e) := by
  have hid := touchedId_eq_some he hr hg
  have hphase : (w.append e).phase = .starting g (r.id :: T) := by
    rw [World.append_touch_phase he hw, hid]
    rfl
  have hpend : ∀ id, Pends (w.journal ++ [e]) id ↔ id = r.id ∨ Pends w.journal id := by
    intro id
    unfold Pends
    rw [pending_touch he hr hg]
    split_ifs with h
    · simp [h]
    · simp [Ne.symm h]
  have hnot : e.event ≠ .intent := by rcases he with he | he <;> simp [he]
  refine ⟨fun id hmem => ?_, fun id hmem => ?_, fun _ id hmem => ?_, fun _ id hp => ?_, ?_⟩
  · simp only [World.append, hid, Option.toList_some, List.cons_append, List.nil_append,
      List.mem_cons] at hmem
    rcases hmem with rfl | hmem
    · exact Or.inl ((hpend _).mpr (Or.inl rfl))
    · rcases h.owed id hmem with hp | hl | ⟨g', S, hS, -⟩
      · exact Or.inl ((hpend _).mpr (Or.inr hp))
      · exact Or.inr (Or.inl hl)
      · simp [hw] at hS
  · simp only [World.append, hid, List.mem_filter] at hmem ⊢
    simp only [ne_eq, Option.some.injEq, decide_eq_true_eq] at hmem
    simp only [Option.toList_some, List.cons_append, List.nil_append, List.mem_cons, not_or]
    exact ⟨fun heq => hmem.2 heq.symm, h.gone id hmem.1⟩
  · simp only [World.append, hid, hnot, if_false, List.mem_filter] at hmem ⊢
    exact ⟨h.tried (by simp [hw, Phase.isStarting]) id hmem.1, hmem.2⟩
  · rw [hphase]
    rcases (hpend id).mp hp with rfl | hp
    · simp [Phase.touched]
    · have := h.own (by simp [hw, Phase.isStarting]) id hp
      simp only [hw, Phase.touched] at this ⊢
      exact List.mem_cons_of_mem _ this
  · simp [hphase, Phase.isRecorded]

lemma append_commit (h : Kept w) {g : ℕ} {S : List Resource} (he : e.event = .commit)
    (hw : w.phase = .recorded g S) (hg : e.generation = some g) (hS : e.retire = S) :
    Kept (w.append e) := by
  have ht : touchedId e = none := by simp [touchedId, he]
  have hphase : (w.append e).phase = .committed := by simp [World.append, Phase.after, he]
  refine ⟨fun id hmem => ?_, ?_, ?_, ?_, ?_⟩
  · simp only [World.append, ht, Option.toList_none, List.nil_append] at hmem
    rcases h.owed id hmem with hp | hl | ⟨g', S', hS', r, hr, hid⟩
    · exact Or.inr (Or.inl (h.listed (by simp [hw, Phase.isRecorded]) id hp))
    · exact Or.inr (Or.inl hl)
    · obtain ⟨rfl, rfl⟩ : g = g' ∧ S = S' := by simpa [hw] using hS'
      rcases pending_commit (j := w.journal) he hg id with ⟨x, -, -, hp⟩ | ⟨hne, -⟩
      · exact Or.inl ⟨_, hp⟩
      · exact absurd hid (hne r (hS ▸ hr))
  · simpa [World.append, ht] using h.gone
  · simp [hphase, Phase.isStarting]
  · simp [hphase, Phase.isStarting]
  · simp [hphase, Phase.isRecorded]

lemma append_intent (h : Kept w) (he : e.event = .intent) (hw : w.phase = .recovering)
    (hrem : remains w.journal = []) : Kept (w.append e) := by
  have ht : touchedId e = none := by simp [touchedId, he]
  have hphase : (w.append e).phase = .starting (e.generation.getD 0) [] := by
    simp [World.append, Phase.after, he]
  have hnone : ∀ id, ¬ Pends (w.append e).journal id := by
    rintro id ⟨m, hm⟩
    simp only [World.append] at hm
    rw [pending_quiet (by simp [he, Event.quiet]), remains_eq_nil.mp hrem id] at hm
    cases hm
  refine ⟨fun id hmem => ?_, ?_, fun _ id hmem => ?_, fun _ id hp => ?_, fun _ id hp => ?_⟩
  · simp only [World.append, ht, Option.toList_none, List.nil_append] at hmem
    rcases h.owed id hmem with ⟨m, hm⟩ | hl | ⟨g', S', hS', -⟩
    · simp [remains_eq_nil.mp hrem id] at hm
    · exact Or.inr (Or.inl hl)
    · simp [hw] at hS'
  · simpa [World.append, ht] using h.gone
  · simp [World.append, he] at hmem
  · exact absurd hp (hnone id)
  · exact absurd hp (hnone id)

/-- **Each journal entry an operation may append keeps the invariant.** -/
lemma append (h : Kept w) (hal : AllowedEntry w e) : Kept (w.append e) := by
  cases he : e.event with
  | intent =>
      simp only [AllowedEntry, he] at hal
      exact h.append_intent he hal.1 hal.2.1
  | touching | created =>
      simp only [AllowedEntry, he] at hal
      obtain ⟨g, T, r, hw, hg, hr⟩ := hal
      exact h.append_touch (by simp [he]) hw hg hr
  | commit =>
      simp only [AllowedEntry, he] at hal
      obtain ⟨g, S, hw, hg, hS⟩ := hal
      exact h.append_commit he hw hg hS
  | retiring | destroying =>
      simp only [AllowedEntry, he] at hal
      obtain ⟨⟨r, hr⟩, hw⟩ := hal
      refine h.append_clear (Phase.after_eq (by simp [he]) (by simp [he]) (by simp [touchedId, he]))
        (by simp [touchedId, he]) (by simp [he]) ?_ fun id hp => Or.inl ?_
      · rcases hw with hw | hw <;> simp [hw, Phase.isStarting, Phase.isRecorded]
      · rcases pending_append_cases w.journal e id with ⟨heq, -⟩ | hnone | ⟨r', _, heq, -⟩
        · exact ⟨hp.choose, heq.trans hp.choose_spec⟩
        · obtain ⟨reason, hre⟩ : ∃ reason : Reason, reason = .retiring ∧ e.event = .retiring ∨
              reason = .destroying ∧ e.event = .destroying := by
            first | exact ⟨.retiring, Or.inl ⟨rfl, he⟩⟩ | exact ⟨.destroying, Or.inr ⟨rfl, he⟩⟩
          rw [pending_mark hre hr] at hnone
          split_ifs at hnone
          obtain ⟨m, hm⟩ := hp
          simp [hm] at hnone
        · exact ⟨_, heq⟩
  | cleared =>
      simp only [AllowedEntry, he] at hal
      obtain ⟨r, hr, hgone⟩ := hal
      have hgone : r.id ∈ w.gone := by
        rcases hgone with hgone | ⟨⟨g, T, hw⟩, htried⟩
        · exact hgone
        · exact h.tried (by simp [hw, Phase.isStarting]) r.id htried
      refine h.append_clear (Phase.after_eq (by simp [he]) (by simp [he]) (by simp [touchedId, he]))
        (by simp [touchedId, he]) (by simp [he]) (fun _ id hp => ?_) fun id hp => ?_
      · obtain ⟨m, hm⟩ := hp
        rw [pending_cleared he hr] at hm
        split_ifs at hm
        exact ⟨m, hm⟩
      · by_cases hid : r.id = id
        · exact Or.inr (hid ▸ hgone)
        · refine Or.inl ⟨hp.choose, ?_⟩
          rw [pending_cleared he hr]
          simpa [hid] using hp.choose_spec
  | ready | rollback | destroyed | secretsRotated =>
      have hq : e.event.quiet := by simp [he, Event.quiet]
      refine h.append_clear (Phase.after_eq (by simp [he]) (by simp [he]) (by simp [touchedId, he]))
        (by simp [touchedId, he]) (by simp [he]) (fun _ id hp => ?_) fun id hp => Or.inl ?_
      · unfold Pends at hp ⊢
        rwa [pending_quiet hq] at hp
      · unfold Pends
        rwa [pending_quiet hq]

/-- **So does each record an operation may write.** -/
lemma writeRecord (h : Kept w) {n : AgentRecord} (hal : AllowedRecord w n)
    (hall : ∀ id ∈ w.phase.touched, ∃ r ∈ n.resources, r.id = id) : Kept (w.writeRecord n) := by
  rcases hal with ⟨T, hw, hn⟩ | ⟨hw, old, hold, hst, hres⟩ | ⟨hw, hst, hgone⟩
  · have hphase : (w.writeRecord n).phase = .recorded n.generation (liveResources w.record) := by
      simp [World.writeRecord, hw]
    refine ⟨fun id hmem => ?_, h.gone, ?_, ?_, fun _ id hp => ?_⟩
    · rcases h.owed id hmem with hp | hl | ⟨g', S', hS', -⟩
      · exact Or.inl hp
      · exact Or.inr (Or.inr ⟨_, _, hphase, hl⟩)
      · simp [hw] at hS'
    · simp [hphase, Phase.isStarting]
    · simp [hphase, Phase.isStarting]
    · have hT := hall id (h.own (by simp [hw, Phase.isStarting]) id hp)
      simpa [Lists, World.writeRecord, liveResources, hn] using hT
  · have hphase : (w.writeRecord n).phase = w.phase := by simp [World.writeRecord, hw]
    have hlive : Lists (w.writeRecord n).record = Lists w.record := by
      funext id
      simp [Lists, World.writeRecord, liveResources, hold, hst, hres]
    refine ⟨fun id hmem => ?_, h.gone, ?_, ?_, ?_⟩
    · rw [hlive, hphase]
      exact h.owed id hmem
    · simp [hphase, hw, Phase.isStarting]
    · simp [hphase, hw, Phase.isStarting]
    · simp [hphase, hw, Phase.isRecorded]
  · have hphase : (w.writeRecord n).phase = w.phase := by simp [World.writeRecord, hw]
    refine ⟨fun id hmem => ?_, h.gone, ?_, ?_, ?_⟩
    · rcases h.owed id hmem with hp | ⟨r, hr, rfl⟩ | ⟨g', S', hS', -⟩
      · exact Or.inl hp
      · -- what the record listed is gone, so nothing is owed for it
        exact absurd hmem (h.gone r.id (hgone r hr))
      · simp [hw] at hS'
    · simp [hphase, hw, Phase.isStarting]
    · simp [hphase, hw, Phase.isStarting]
    · simp [hphase, hw, Phase.isRecorded]

lemma recordFailed (h : Kept w) (hw : ¬ InWindow w) : Kept w.recordFailed := by
  have hne : w.recordFailed.phase.isStarting = false ∧ w.recordFailed.phase.isRecorded = false := by
    unfold World.recordFailed
    cases hp : w.phase <;> simp_all [InWindow, Phase.isStarting, Phase.isRecorded]
  refine ⟨fun id hmem => ?_, h.gone, ?_, ?_, ?_⟩
  · rcases h.owed id hmem with hp | hl | ⟨g, S, hS, -⟩
    · exact Or.inl hp
    · exact Or.inr (Or.inl hl)
    · exact absurd ⟨g, S, hS⟩ hw
  · simp [hne.1]
  · simp [hne.1]
  · simp [hne.2]

lemma returned (h : Kept w) (r : Resource) (ok : Bool) (hok : w.phase.isStarting → ok) :
    Kept (w.returned r ok) := by
  cases ok with
  | false =>
      refine ⟨h.owed, h.gone, fun hs => ?_, h.own, h.listed⟩
      exact absurd (hok hs) (by simp)
  | true =>
      refine ⟨fun id hmem => ?_, fun id hmem => ?_, fun hs id hmem => ?_, h.own, h.listed⟩
      · exact h.owed id (List.mem_of_mem_filter hmem)
      · simp only [World.returned, if_true, List.mem_cons, List.mem_filter] at hmem ⊢
        rcases hmem with rfl | hmem
        · simp
        · exact fun hid => h.gone id hmem hid.1
      · simp only [World.returned, if_true, List.mem_cons] at hmem ⊢
        exact hmem.imp_right (h.tried hs id)

/-- **Each call an operation may make keeps the invariant.** -/
lemma step (h : Kept w) (c : Call ⊕ X) (x : Sum.elim Call.Ret XRet c) (hal : Allowed w c)
    (hc : Complete w c x) : Kept (worldNext X XRet w c x) := by
  match c with
  | .inl (.append _ e) =>
      match x with
      | .ok _ => exact h.append hal
      | .error _ => exact h
  | .inl (.writeRecord _ n) =>
      match x with
      | .ok _ => exact h.writeRecord hal hc
      | .error _ =>
          refine h.recordFailed ?_
          rcases hal with ⟨T, hw, -⟩ | ⟨hw, -⟩ | ⟨hw, -⟩ <;> simp [InWindow, hw]
  | .inl (.returned _ r ok) => exact h.returned r ok hc
  | .inl (.readRecord _) | .inl (.readJournal _) | .inl (.journalExists _) | .inl (.lock _)
  | .inl (.target _) | .inl (.resolve _ _) | .inl (.controlKey _) | .inl (.prepare _ _)
  | .inl (.probe _) | .inl (.stateCheck _) | .inr _ => exact h

end Kept

/-- **No resource is lost.** In every directory left by a sequence of applies and destroys, each
stopped anywhere but between the record of a new generation and its commit entry, with every
rollback's destroys and every create complete: a resource that was touched and that no destroy
has come back well for is listed in the Ready record or remains. -/
theorem owed_listed_or_remains (F : Fabric X XRet) (agent : String) {w : World}
    (h : Leaves ((world X XRet).given Complete) (Begins F agent) (fun _ w => ¬ InWindow w) {} w) :
    ∀ id ∈ w.owed, Lists w.record id ∨ ∃ m ∈ remains w.journal, m.resource.id = id := by
  have hinv : (∀ id ∈ w.owed, Pends w.journal id ∨ Lists w.record id) := by
    refine Leaves.inv (P := Allowed) (J := Kept)
      (I := fun w => ∀ id ∈ w.owed, Pends w.journal id ∨ Lists w.record id) ?_ ?_ ?_ ?_ h
    · simp
    · rintro s c x _ hal ⟨⟨-, rfl⟩, hx⟩ hs
      exact hs.step c x hal hx
    · intro s p s' hb hs
      refine ⟨hb.keeps.given, ?_⟩
      obtain ⟨op, -, -, rfl⟩ := hb
      exact ⟨fun id hid => (hs id hid).imp_right Or.inl, by simp, by simp, by simp [Phase.isStarting],
        by simp [Phase.isRecorded]⟩
    · intro q t ht hstop id hid
      rcases ht.owed id hid with hp | hl | ⟨g, S, hS, -⟩
      · exact Or.inl hp
      · exact Or.inr hl
      · exact absurd ⟨g, S, hS⟩ hstop
  intro id hid
  rcases hinv id hid with ⟨m, hm⟩ | hl
  · exact Or.inr ⟨m, mem_remains.mpr ⟨id, hm⟩, pending_id hm⟩
  · exact Or.inl hl

/-- An apply that comes back, with both processes of the agent owed and listed. -/
theorem owed_listed_or_remains_local :
    ∃ w : World, w.owed ≠ [] ∧
      ∀ id ∈ w.owed, Lists w.record id ∨ ∃ m ∈ remains w.journal, m.resource.id = id := by
  obtain ⟨q, hx⟩ := exec_reach (step_checked (M := Complete)) (n := 60)
    (p := demoApply) (s := {}) (by decide +kernel)
  refine ⟨_, ?_, owed_listed_or_remains onLocal "a" (.run .init (begins_demoApply {}) hx
    (not_inWindow (by decide +kernel)))⟩
  decide +kernel

/-- The runtime refuses its first task, and neither process group can be stopped. -/
def refused (w : World) : (c : Call ⊕ Local.Call) → Sum.elim Call.Ret Local.Call.Ret c
  | .inl (.probe _) => Except.error { code := .probeFailed, message := "refused" }
  | .inr (.stopGroup _) => Except.error "operation not permitted"
  | c => well w c

lemma step_refused (w : World) (c : Call ⊕ Local.Call) (h : worldCan _ _ w c (refused w c)) :
    localWorld.step w c (refused w c) (localNext w c (refused w c)) := ⟨h, rfl⟩

/-- A start that fails and is rolled back by destroys that fail: the journal calls both
processes cleared, no record lists them, and they run on. -/
theorem rollback_loses_resources :
    ¬ ∀ w, Leaves localWorld (Begins onLocal "a") (fun _ w => ¬ InWindow w) {} w →
      ∀ id ∈ w.owed, Lists w.record id ∨ ∃ m ∈ remains w.journal, m.resource.id = id := by
  intro h
  obtain ⟨q, hx⟩ := exec_reach step_refused (n := 60)
    (p := demoApply) (s := {}) (by decide +kernel)
  have hw := h _ (.run .init (begins_demoApply {}) hx (not_inWindow (by decide +kernel)))
  generalize hdef : reach (worldCan _ _) localNext refused 60 demoApply {} = w at hw
  have hlost : "local:a-g1-1" ∈ w.owed ∧ remains w.journal = [] ∧ liveResources w.record = [] := by
    subst hdef
    decide +kernel
  rcases hw _ hlost.1 with ⟨r, hr, -⟩ | ⟨m, hm, -⟩
  · simp [hlost.2.2] at hr
  · simp [hlost.2.1] at hm

/-! ### Generation numbers

An apply starts a generation by journaling its intent. The numbers are natural here; the
source's are `u64`, and start at one. -/

/-- The generation numbers applies have started, the oldest first. -/
def started (j : List JournalEntry) : List ℕ :=
  j.filterMap fun e => if e.event = .intent then e.generation else none

lemma started_append (j : List JournalEntry) (e : JournalEntry) :
    started (j ++ [e]) = started j ++ (if e.event = .intent then e.generation else none).toList := by
  cases h : (if e.event = .intent then e.generation else none) <;> simp [started, h]

lemma started_append_of_ne {j : List JournalEntry} {e : JournalEntry} (he : e.event ≠ .intent) :
    started (j ++ [e]) = started j := by
  simp [started_append, he]

/-- The next number is past every one in the journal, so past every one started. -/
lemma lt_nextGeneration {j : List JournalEntry} {record : Option AgentRecord} {g : ℕ}
    (hg : g ∈ started j) : g < nextGeneration j record := by
  obtain ⟨e, he, hge⟩ := List.mem_filterMap.mp hg
  have hgen : e.generation = some g := by
    split_ifs at hge
    exact hge
  have hmem : g ∈ j.filterMap (·.generation) := List.mem_filterMap.mpr ⟨e, he, hgen⟩
  have hle : g ≤ (j.filterMap (·.generation)).max (List.ne_nil_of_mem hmem) :=
    List.le_max_of_mem hmem
  rw [nextGeneration, List.foldl_max_eq_max (List.ne_nil_of_mem hmem)]
  omega

/-- **Each call an operation may make keeps the numbers increasing.** -/
lemma started_step {w : World} (h : (started w.journal).Pairwise (· < ·)) (c : Call ⊕ X)
    (x : Sum.elim Call.Ret XRet c) (hal : Allowed w c) :
    (started (worldNext X XRet w c x).journal).Pairwise (· < ·) := by
  rcases c with c | _
  swap
  · exact h
  cases c with
  | append _ e =>
      cases x with
      | error _ => exact h
      | ok _ =>
          show (started (w.journal ++ [e])).Pairwise (· < ·)
          by_cases he : e.event = .intent
          · simp only [Allowed, AllowedEntry, he] at hal
            rw [started_append, if_pos he, hal.2.2]
            refine List.pairwise_append.mpr ⟨h, List.pairwise_singleton _ _, fun g hg n hn => ?_⟩
            rw [List.mem_singleton.mp hn]
            exact lt_nextGeneration hg
          · rwa [started_append_of_ne he]
  | writeRecord _ n =>
      cases x with
      | ok _ => exact h
      | error _ => exact h
  | _ => exact h

/-- **A generation number is never used twice.** In every directory left by a sequence of
applies and destroys, each stopped anywhere, each number an apply started is greater than every
number started before it. -/
theorem generations_increase (F : Fabric X XRet) (agent : String) {w : World}
    (h : Leaves (world X XRet) (Begins F agent) (fun _ _ => True) {} w) :
    (started w.journal).Pairwise (· < ·) := by
  refine Leaves.inv (P := Allowed) (J := fun w => (started w.journal).Pairwise (· < ·))
    (I := fun w => (started w.journal).Pairwise (· < ·)) List.Pairwise.nil ?_ ?_
    (fun _ _ ht _ => ht) h
  · rintro s c x _ hal ⟨-, rfl⟩ hs
    exact started_step hs c x hal
  · intro s p s' hb hs
    refine ⟨hb.keeps, ?_⟩
    obtain ⟨op, -, -, rfl⟩ := hb
    exact hs

/-- An apply that is refused and rolled back, then one that is stopped. -/
theorem generations_increase_local :
    ∃ w : World, started w.journal = [1, 2] ∧ (started w.journal).Pairwise (· < ·) := by
  obtain ⟨q, hx⟩ := exec_reach (E := localWorld) step_refused
    (show (follow (worldCan _ _) localNext refused 60 demoApply {}).isSome = true by
      decide +kernel)
  obtain ⟨q', hx'⟩ := exec_reach (E := localWorld) step_refused
    (show (follow (worldCan _ _) localNext refused 20 demoApply
      { reach (worldCan _ _) localNext refused 60 demoApply {} with
        phase := .recovering, gone := [], tried := [] }).isSome = true by
      decide +kernel)
  refine ⟨_, ?_, generations_increase onLocal "a" (.run (.run .init (begins_demoApply {}) hx
    trivial) (begins_demoApply _) hx' trivial)⟩
  decide +kernel

end Bimo.Fabric
