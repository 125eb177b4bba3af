import Bimo.Fabric

/-!
What one operation of the fabric may do, step by step.

The world is one agent's directory (its record and its journal) with an observer's notes: how
far the operation in progress has come, which destroys have come back well, and which
journaled resources no destroy has come back well for. `Allowed` says of every call when it
may be made; the operations are shown once to keep to it, and every invariant of the agent's
directory is then an invariant of the single calls.
-/

namespace Bimo.Fabric

/-- How far an operation has come. -/
inductive Phase
  /-- Nothing new is journaled: recovery, rotation, or a destroy. -/
  | recovering
  /-- The intent of a generation is journaled; the ids touched since. -/
  | starting (generation : ℕ) (touched : List String)
  /-- The record of the started generation could not be written. -/
  | unrecorded
  /-- The record names the generation, the journal has no commit for it yet. -/
  | recorded (generation : ℕ) (superseded : List Resource)
  | committed
  deriving DecidableEq, Repr

structure World where
  record : Option AgentRecord := none
  journal : List JournalEntry := []
  /-- Ids journaled as touched or created, with no successful destroy since. -/
  owed : List String := []
  phase : Phase := .recovering
  /-- Ids whose destroy came back well in this operation, and not touched since. -/
  gone : List String := []
  /-- Ids whose destroy came back, well or not, since the last intent. -/
  tried : List String := []

def Phase.after (p : Phase) (e : JournalEntry) : Phase :=
  match e.event, p with
  | .intent, _ => .starting (e.generation.getD 0) []
  | .touching, .starting g T | .created, .starting g T =>
    .starting g ((touchedId e).toList ++ T)
  | .commit, _ => .committed
  | _, _ => p

namespace World

def append (w : World) (e : JournalEntry) : World where
  record := w.record
  journal := w.journal ++ [e]
  owed := (touchedId e).toList ++ w.owed
  phase := w.phase.after e
  gone := w.gone.filter fun id => touchedId e ≠ some id
  tried := if e.event = .intent then [] else w.tried.filter fun id => touchedId e ≠ some id

def writeRecord (w : World) (r : AgentRecord) : World :=
  { w with
    record := some r
    phase := match w.phase with
      | .starting g _ => .recorded g (liveResources w.record)
      | p => p }

def recordFailed (w : World) : World :=
  { w with phase := match w.phase with
      | .starting _ _ => .unrecorded
      | p => p }

def returned (w : World) (r : Resource) (ok : Bool) : World :=
  { w with
    owed := if ok then w.owed.filter (· ≠ r.id) else w.owed
    gone := if ok then r.id :: w.gone else w.gone
    tried := r.id :: w.tried }

/-- The answers a call may get. -/
def can (w : World) : (c : Call) → c.Ret → Prop
  | .readRecord _, .ok r => r = w.record
  | .readJournal _, .ok j => j = w.journal
  | _, _ => True

instance decidableCan (w : World) (c : Call) (x : c.Ret) : Decidable (w.can c x) :=
  match c, x with
  | .readRecord _, .ok r => inferInstanceAs (Decidable (r = w.record))
  | .readJournal _, .ok j => inferInstanceAs (Decidable (j = w.journal))
  | .readRecord _, .error _ | .readJournal _, .error _ | .journalExists _, _ | .append _ _, _
  | .writeRecord _ _, _ | .lock _, _ | .target _, _ | .resolve _ _, _ | .controlKey _, _
  | .prepare _ _, _ | .probe _, _ | .stateCheck _, _ | .returned _ _ _, _ =>
    inferInstanceAs (Decidable True)

/-- The world after a call. A line or a record that cannot be written leaves no trace. -/
def next (w : World) : (c : Call) → c.Ret → World
  | .append _ e, .ok _ => w.append e
  | .writeRecord _ r, .ok _ => w.writeRecord r
  | .writeRecord _ _, .error _ => w.recordFailed
  | .returned _ r ok, _ => w.returned r ok
  | _, _ => w

end World

section

variable (X : Type) (XRet : X → Type)

/-- The answers in the world. A driver's own calls may be answered in any way. -/
def worldCan (w : World) : (c : Call ⊕ X) → Sum.elim Call.Ret XRet c → Prop
  | .inl c, x => w.can c x
  | .inr _, _ => True

/-- The world after a call. A driver's own calls change nothing in the agent's directory. -/
def worldNext (w : World) : (c : Call ⊕ X) → Sum.elim Call.Ret XRet c → World
  | .inl c, x => w.next c x
  | .inr _, _ => w

instance (w : World) (c : Call ⊕ X) (x : Sum.elim Call.Ret XRet c) :
    Decidable (worldCan X XRet w c x) :=
  match c with
  | .inl c => w.decidableCan c x
  | .inr _ => inferInstanceAs (Decidable True)

/-- The world as the environment of the fabric's programs. -/
def world : Env (Call ⊕ X) (Sum.elim Call.Ret XRet) World := .of (worldCan X XRet) (worldNext X XRet)

end

/-- When a journal entry may be appended. -/
def AllowedEntry (w : World) (e : JournalEntry) : Prop :=
  match e.event with
  | .intent => w.phase = .recovering ∧ remains w.journal = [] ∧
      e.generation = some (nextGeneration w.journal w.record)
  | .touching | .created => ∃ g T r, w.phase = .starting g T ∧ e.generation = some g ∧
      e.resource = some r
  | .commit => ∃ g S, w.phase = .recorded g S ∧ e.generation = some g ∧ e.retire = S
  | .cleared => ∃ r, e.resource = some r ∧
      (r.id ∈ w.gone ∨ (∃ g T, w.phase = .starting g T) ∧ r.id ∈ w.tried)
  | .retiring | .destroying => (∃ r, e.resource = some r) ∧
      (w.phase = .recovering ∨ w.phase = .committed)
  | _ => True

/-- When the record may be written: for the generation being started, with a new secrets
digest, or as destroyed once every live resource is gone. -/
def AllowedRecord (w : World) (r : AgentRecord) : Prop :=
  (∃ T, w.phase = .starting r.generation T ∧ r.status = .ready) ∨
  (w.phase = .recovering ∧
    ∃ old, w.record = some old ∧ r.status = old.status ∧ r.resources = old.resources) ∨
  (w.phase = .recovering ∧ r.status = .destroyed ∧ ∀ x ∈ liveResources w.record, x.id ∈ w.gone)

def Allowed {X : Type} (w : World) : Call ⊕ X → Prop
  | .inl (.append _ e) => AllowedEntry w e
  | .inl (.writeRecord _ r) => AllowedRecord w r
  | _ => True

variable {X : Type} {XRet : X → Type} {ε α β : Type}

/-- The program keeps to what is allowed. -/
abbrev Keeps (p : Eff X XRet ε α) (w : World) (Q : Except ε α → World → Prop) : Prop :=
  Safe (world X XRet) Allowed p w Q

/-! ### Calls -/

/-- The program only asks. -/
def Quiet (p : Eff X XRet ε α) : Prop := ∀ w, Keeps p w fun _ w' => w = w'

lemma Quiet.keeps {p : Eff X XRet ε α} (h : Quiet p) {w : World}
    {Q : Except ε α → World → Prop} (hQ : ∀ x, Q x w) : Keeps p w Q :=
  (h w).mono fun x _ hw => hw ▸ hQ x

lemma Quiet.ret (a : α) : Quiet (pure a : Eff X XRet ε α) := fun _ => rfl

lemma Quiet.fail (e : ε) : Quiet (.fail e : Eff X XRet ε α) := fun _ => rfl

lemma Quiet.ofExcept (x : Except ε α) : Quiet (.ofExcept x : Eff X XRet ε α) := fun _ => by
  simp [Keeps]

lemma Quiet.bind {p : Eff X XRet ε α} {f : α → Eff X XRet ε β} (hp : Quiet p)
    (hf : ∀ a, Quiet (f a)) : Quiet (p >>= f) := fun w =>
  Safe.bind (hp w) (fun a _ hw => hw ▸ hf a w) fun _ _ hw => hw

lemma Quiet.inr (p : Prog X XRet ε α) : Quiet (p.inr : Eff X XRet ε α) := fun _ =>
  safe_inr (E := world X XRet) (fun _ => trivial) (fun _ _ _ h => h.2) p fun _ => rfl

lemma Quiet.mapErr {ε' : Type} {f : ε → ε'} {p : Eff X XRet ε α} (hp : Quiet p) :
    Quiet (p.mapErr f) := fun w => (safe_mapErr f p w _).mpr (hp w)

/-- The calls that leave the world as it is. -/
lemma Quiet.ask (c : Call) (hok : ∀ (w : World), Allowed (X := X) w (.inl c))
    (h : ∀ (w : World) x, w.next c x = w) : Quiet (ask c : Eff X XRet ε c.Ret) := fun w =>
  (safe_call_of _ _ _ _).mpr ⟨hok w, fun r _ => (h w r).symm⟩

lemma quiet_lock (agent : String) : Quiet (lock agent : Eff X XRet _ _) :=
  .bind (.ask _ (fun _ => trivial) fun _ _ => rfl) fun _ => .ofExcept _

lemma quiet_target (name : String) : Quiet (target name : Eff X XRet _ _) :=
  .bind (.ask _ (fun _ => trivial) fun _ _ => rfl) fun _ => .ofExcept _

lemma quiet_prepare (agent : String) (g : ℕ) : Quiet (prepare agent g : Eff X XRet _ _) :=
  .bind (.ask _ (fun _ => trivial) fun _ _ => rfl) fun _ => .ofExcept _

lemma quiet_probe (endpoint : String) : Quiet (probe endpoint : Eff X XRet _ _) :=
  .bind (.ask _ (fun _ => trivial) fun _ _ => rfl) fun _ => .ofExcept _

lemma quiet_stateCheck (endpoint : String) : Quiet (stateCheck endpoint : Eff X XRet _ _) :=
  .bind (.ask _ (fun _ => trivial) fun _ _ => rfl) fun _ => .ofExcept _

lemma quiet_controlKey (agent : String) : Quiet (controlKey agent : Eff X XRet _ _) :=
  .bind (.ask _ (fun _ => trivial) fun _ _ => rfl) fun _ => .ofExcept _

lemma quiet_agentDir (name : String) : Quiet (agentDir name : Eff X XRet _ _) := by
  unfold agentDir
  split
  · exact .fail _
  · exact .ret _

lemma quiet_checkTenant (record : Option AgentRecord) (spec : AgentSpec) :
    Quiet (checkTenant record spec : Eff X XRet _ _) := by
  unfold checkTenant
  split
  · split
    · exact .fail _
    · exact .ret _
  · exact .ret _

lemma quiet_resolveSecrets (substrate : String) (l : List SecretRef) :
    Quiet (resolveSecrets substrate l : Eff X XRet _ _) := by
  induction l with
  | nil => exact .ret _
  | cons s l ih =>
      refine .bind (.ask _ (fun _ => trivial) fun _ _ => rfl) fun _ => ?_
      exact .bind (.ofExcept _) fun _ => .bind ih fun _ => .ret _

lemma quiet_deadResources (d : Driver X XRet) (l : List Resource) :
    Quiet (deadResources d l) := by
  induction l with
  | nil => exact .ret _
  | cons r l ih => exact .bind (.inr _) fun _ => .bind ih fun _ => .ret _

section Calls

variable {w : World} {agent : String}

lemma keeps_readRecord {Q : Except FabricError (Option AgentRecord) → World → Prop}
    (hok : Q (.ok w.record) w) (herr : ∀ e, Q (.error e) w) :
    Keeps (readRecord agent : Eff X XRet _ _) w Q := by
  refine (safe_call_of _ _ _ _).mpr ⟨trivial, fun x hx => ?_⟩
  match x, hx with
  | .ok _, hx => exact hx ▸ hok
  | .error e, _ => exact herr e

lemma keeps_readJournal {Q : Except FabricError (List JournalEntry) → World → Prop}
    (hok : Q (.ok w.journal) w) (herr : ∀ e, Q (.error e) w) :
    Keeps (readJournal agent : Eff X XRet _ _) w Q := by
  refine (safe_call_of _ _ _ _).mpr ⟨trivial, fun x hx => ?_⟩
  match x, hx with
  | .ok _, hx => exact hx ▸ hok
  | .error e, _ => exact herr e

lemma keeps_write {e : JournalEntry} {Q : Except FabricError Unit → World → Prop}
    (hal : AllowedEntry w e) (hok : Q (.ok ()) (w.append e)) (herr : ∀ x, Q (.error x) w) :
    Keeps (write agent e : Eff X XRet _ _) w Q := by
  refine (safe_call_of _ _ _ _).mpr ⟨hal, fun x _ => ?_⟩
  match x with
  | .ok () => exact hok
  | .error x => exact herr _

lemma keeps_writeRecord {r : AgentRecord} {Q : Except FabricError Unit → World → Prop}
    (hal : AllowedRecord w r) (hok : Q (.ok ()) (w.writeRecord r))
    (herr : ∀ x, Q (.error x) w.recordFailed) : Keeps (writeRecord agent r : Eff X XRet _ _) w Q := by
  refine (safe_call_of _ _ _ _).mpr ⟨hal, fun x _ => ?_⟩
  match x with
  | .ok () => exact hok
  | .error x => exact herr _

variable (F : Fabric X XRet)

lemma keeps_destroyResource {target : String} {r : Resource}
    {Q : Except FabricError Unit → World → Prop} (hok : Q (.ok ()) (w.returned r true))
    (herr : ∀ x, Q (.error x) (w.returned r false)) : Keeps (F.destroyResource target r) w Q := by
  refine Safe.bind (R := fun x w' => (∃ y, x = .ok y) ∧ w = w') ?_ ?_ ?_
  · rw [safe_attempt]
    exact Quiet.keeps (.inr _) fun x => ⟨⟨x, rfl⟩, rfl⟩
  · rintro res w' ⟨-, rfl⟩
    refine (safe_call_of _ _ _ _).mpr ⟨trivial, fun _ _ => ?_⟩
    cases res with
    | ok _ => exact hok
    | error x => exact herr x
  · rintro e w' ⟨⟨y, hy⟩, -⟩
    cases hy

end Calls

/-! ### Recovery -/

section Recovery

variable (F : Fabric X XRet) {agent : String} {w : World}

lemma keeps_clearRemain {journal : Journal} {m : Remain}
    {Q : Except FabricError Unit → World → Prop}
    (hok : Q (.ok ()) ((w.returned m.resource true).append (journal.about .cleared m.resource)))
    (herr : ∀ x w', w'.phase = w.phase → w'.record = w.record → Q (.error x) w') :
    Keeps (F.clearRemain agent journal m) w Q := by
  refine Safe.bind ((quiet_target _) w) ?_ ?_
  · rintro _ _ rfl
    refine Safe.bind (keeps_destroyResource F (Q := fun x w' => match x with
      | .ok _ => w.returned m.resource true = w'
      | .error _ => w.returned m.resource false = w') rfl fun _ => rfl) ?_ ?_
    · rintro _ _ rfl
      refine keeps_write ⟨m.resource, rfl, Or.inl ?_⟩ hok fun x => herr x _ rfl rfl
      simp [World.returned]
    · rintro x _ rfl
      exact herr x _ rfl rfl
  · rintro x _ rfl
    exact herr x _ rfl rfl

/-- **Recovery.** It leaves the record alone, and when it comes back nothing remains. -/
lemma keeps_recover (hp : w.phase = .recovering) {Q : Except FabricError (List Remain) → World → Prop}
    (hQ : ∀ x w', w'.phase = .recovering → w'.record = w.record →
      (∀ found, x = .ok found → remains w'.journal = []) → Q x w') :
    Keeps (F.recover agent) w Q := by
  have herr : ∀ x w', w'.phase = .recovering → w'.record = w.record → Q (.error x) w' :=
    fun x w' h1 h2 => hQ _ _ h1 h2 nofun
  refine Safe.bind (keeps_readJournal (Q := fun x w' => w = w' ∧ ∀ j, x = .ok j → w.journal = j)
    ⟨rfl, by simp⟩ fun _ => ⟨rfl, nofun⟩) ?_ fun x _ h => herr x _ (h.1 ▸ hp) (h.1 ▸ rfl)
  rintro j _ ⟨rfl, hj⟩
  obtain rfl := hj j rfl
  by_cases hempty : remains w.journal = []
  · simp only [hempty, List.isEmpty_nil, if_true]
    exact hQ _ _ hp rfl fun _ _ => hempty
  simp only [List.isEmpty_iff, hempty, if_false]
  refine Safe.bind (R := fun x w' => w'.phase = .recovering ∧ w'.record = w.record ∧
      ∀ y, x = .ok y → remains w'.journal = [])
    (safe_each (I := fun l w' => w'.phase = .recovering ∧ w'.record = w.record ∧
      ∀ id m, pending w'.journal id = some m → m ∈ l) ?_ ?_ _ _
      ⟨hp, rfl, fun id m h => mem_remains.mpr ⟨id, h⟩⟩) ?_ fun x w' h => herr x w' h.1 h.2.1
  · -- each round destroys and clears the first of what is left
    rintro m l w' ⟨h1, h2, h3⟩
    refine keeps_clearRemain F ?_ fun x w'' e1 e2 => ⟨e1.trans h1, e2.trans h2, nofun⟩
    refine ⟨by simp [World.append, World.returned, Phase.after, h1], h2, fun id m' hm' => ?_⟩
    simp only [World.append, World.returned] at hm'
    rw [pending_cleared rfl rfl] at hm'
    split_ifs at hm' with hid
    rcases List.mem_cons.mp (h3 id m' hm') with rfl | h
    · exact absurd (pending_id hm') hid
    · exact h
  · rintro w' ⟨h1, h2, h3⟩
    refine ⟨h1, h2, fun _ _ => remains_eq_nil.mpr fun id => ?_⟩
    by_contra hne
    obtain ⟨m, hm⟩ := Option.ne_none_iff_exists'.mp hne
    simpa using h3 id m hm
  rintro _ w₁ ⟨h1, h2, h3⟩
  have h3 := h3 () rfl
  refine Safe.bind (keeps_readJournal (Q := fun _ w' => w₁ = w') rfl fun _ => rfl) ?_ ?_
  · rintro j _ rfl
    refine Safe.bind (R := fun _ w' => w'.phase = .recovering ∧ w'.record = w.record ∧
      remains w'.journal = []) (safe_each (I := fun _ w' => w'.phase = .recovering ∧
        w'.record = w.record ∧ remains w'.journal = []) ?_ (fun _ h => h) _ _ ⟨h1, h2, h3⟩) ?_ ?_
    · rintro g l w' ⟨h1, h2, h3⟩
      refine keeps_write trivial ⟨?_, h2, ?_⟩ fun _ => ⟨h1, h2, h3⟩
      · simp [World.append, Phase.after, h1]
      · rw [remains_eq_nil] at h3 ⊢
        intro id
        simp only [World.append]
        rw [pending_quiet (by simp [Event.quiet])]
        exact h3 id
    · rintro _ w' ⟨h1, h2, h3⟩
      exact hQ _ _ h1 h2 fun _ _ => h3
    · rintro x w' ⟨h1, h2, -⟩
      exact herr x w' h1 h2
  · rintro x _ rfl
    exact herr x _ h1 h2

end Recovery

/-! ### Starting a generation -/

/-- Generation `g` is being started, under the record `r`. -/
def Starting (g : ℕ) (r : Option AgentRecord) (w : World) : Prop :=
  (∃ T, w.phase = .starting g T) ∧ w.record = r

lemma Starting.append {g : ℕ} {r : Option AgentRecord} {w : World} {e : JournalEntry}
    (h : Starting g r w) (h1 : e.event ≠ .intent) (h2 : e.event ≠ .commit) :
    Starting g r (w.append e) := by
  obtain ⟨⟨T, hT⟩, hr⟩ := h
  refine ⟨?_, hr⟩
  simp only [World.append, hT, Phase.after]
  cases he : e.event <;> simp_all

section Start

variable {F : Fabric X XRet} {agent : String} {w : World} {g : ℕ} {r : Option AgentRecord}

lemma keeps_serve {ε' : Type} (p : Prog (Touch ⊕ X) (Sum.elim Touch.Ret XRet) ε α) {j : Journal}
    (hg : j.generation = g) (hpos : 0 < g) (hw : Starting g r w) :
    Keeps (serve agent p j : Eff X XRet ε' _) w fun _ w' => Starting g r w' := by
  induction p generalizing w j with
  | ret a => exact hw
  | fail e => exact hw
  | call o k ih =>
      cases o with
      | inl t =>
          have hev : t.event = .touching ∨ t.event = .created := by cases t <;> simp [Touch.event]
          have hkeep : (t.keep j).generation = g := by
            cases t with
            | touching x => exact hg
            | created x => rw [← hg]; exact Journal.settle_generation j x
          refine Safe.bind (R := fun _ w' => Starting g r w') ?_ (fun x w' hw' => ?_)
            fun _ _ h => h
          · rw [safe_attempt]
            refine keeps_write ?_ (hw.append ?_ ?_) fun _ => hw
            · obtain ⟨⟨T, hT⟩, -⟩ := hw
              rcases hev with hev | hev <;> simp [AllowedEntry, Touch.entry, hev, hT, hg, hpos]
            · rcases hev with hev | hev <;> simp [Touch.entry, hev]
            · rcases hev with hev | hev <;> simp [Touch.entry, hev]
          · exact ih x hkeep hw'
      | inr o => exact (safe_call_of _ _ _ _).mpr ⟨trivial, fun x _ => ih x hg hw⟩

lemma keeps_startGeneration {loaded : LoadedSpec} {driver : Driver X XRet} {journal : Journal}
    {secrets : List (String × String)} (hg : journal.generation = g) (hpos : 0 < g)
    (hw : Starting g r w) :
    Keeps (startGeneration loaded driver journal secrets) w fun _ w' => Starting g r w' := by
  have quiet : ∀ {γ ε' : Type} {p : Eff X XRet FabricError γ} {f : FabricError → ε'} {w},
      Quiet p → Starting g r w → Keeps (p.mapErr f) w fun _ w' => Starting g r w' :=
    fun hq h => (Quiet.mapErr hq).keeps fun _ => h
  refine Safe.bind (quiet (quiet_prepare _ _) hw) (fun _ w₁ h₁ => ?_) fun _ _ h => h
  refine Safe.bind (keeps_serve _ hg hpos h₁) (fun p w₂ h₂ => ?_) fun _ _ h => h
  refine Safe.bind ((Quiet.ofExcept _).keeps fun _ => h₂) (fun created w₃ h₃ => ?_)
    fun _ _ h => h
  refine Safe.bind (quiet (quiet_probe _) h₃) (fun ready w₄ h₄ => ?_) fun _ _ h => h
  refine Safe.bind (R := fun _ w' => Starting g r w') ?_ (fun _ w₅ h₅ => ?_) fun _ _ h => h
  · rw [safe_mapErr]
    exact keeps_write trivial (h₄.append nofun nofun) fun _ => h₄
  refine Safe.bind (quiet (quiet_stateCheck _) h₅) (fun _ _ h => h) fun _ _ h => h

lemma keeps_undoTouched {journal : Journal} {x : Resource} (hw : Starting g r w) :
    Keeps (F.undoTouched agent journal x) w fun y w' => (∃ u, y = .ok u) ∧ Starting g r w' := by
  refine Safe.bind (R := fun y w' => (∃ u, y = .ok u) ∧ Starting g r w' ∧ x.id ∈ w'.tried) ?_
    (fun _ w₁ h₁ => ?_) ?_
  · rw [safe_attempt]
    exact keeps_destroyResource F ⟨⟨_, rfl⟩, hw, by simp [World.returned]⟩
      fun _ => ⟨⟨_, rfl⟩, hw, by simp [World.returned]⟩
  · obtain ⟨-, hw₁, htried⟩ := h₁
    refine Safe.bind (R := fun y w' => (∃ u, y = .ok u) ∧ Starting g r w') ?_
      (fun _ w₂ h₂ => ⟨⟨_, rfl⟩, h₂.2⟩) ?_
    · rw [safe_attempt]
      obtain ⟨T, hT⟩ := hw₁.1
      exact keeps_write ⟨x, rfl, Or.inr ⟨⟨g, T, hT⟩, htried⟩⟩
        ⟨⟨_, rfl⟩, hw₁.append nofun nofun⟩ fun _ => ⟨⟨_, rfl⟩, hw₁⟩
    · rintro _ _ ⟨⟨_, h⟩, -⟩
      cases h
  · rintro _ _ ⟨⟨_, h⟩, -⟩
    cases h

lemma keeps_undoCreated {target : String} {x : Resource} {Q : Except FabricError Unit → World → Prop}
    (hok : ∀ ok, Q (.ok ()) (w.returned x ok)) : Keeps (F.undoCreated target x) w Q := by
  refine Safe.bind (R := fun y w' => (∃ u, y = .ok u) ∧ Q (.ok ()) w') ?_ (fun _ _ h => h.2) ?_
  · rw [safe_attempt]
    exact keeps_destroyResource F ⟨⟨_, rfl⟩, hok _⟩ fun _ => ⟨⟨_, rfl⟩, hok _⟩
  · rintro _ _ ⟨⟨_, h⟩, -⟩
    cases h

end Start

/-! ### The operations -/

section Operations

variable {F : Fabric X XRet} {agent : String} {w : World}

/-- Journal, destroy, journal again: what a retire and a destroy do with each resource. -/
lemma keeps_marked {e c : JournalEntry} {target : String} {x : Resource}
    {Q : Except FabricError Unit → World → Prop}
    (he : e.event = .retiring ∨ e.event = .destroying) (hx : e.resource = some x)
    (hc : c.event = .cleared) (hcx : c.resource = some x)
    (hp : w.phase = .recovering ∨ w.phase = .committed)
    (hok : ∀ w', w'.phase = w.phase → w'.record = w.record →
      (∀ id ∈ w.gone, id ∈ w'.gone) → x.id ∈ w'.gone → Q (.ok ()) w')
    (herr : ∀ err w', Q (.error err) w') :
    Keeps (do
      write agent e
      F.destroyResource target x
      write agent c) w Q := by
  have hid : ∀ f : JournalEntry, touchedId f = none → ∀ v : World, (v.append f).gone = v.gone := by
    intro f hf v
    simp [World.append, hf]
  have hmark : touchedId e = none := by rcases he with h | h <;> simp [touchedId, h]
  have hclear : touchedId c = none := by simp [touchedId, hc]
  have hphase : ∀ p : Phase, (p.after e).after c = p := by
    intro p
    rcases he with h | h <;> cases p <;> simp [Phase.after, h, hc]
  refine Safe.bind (R := fun y w' => ∀ u, y = .ok u → w.append e = w') ?_ ?_
    fun err _ _ => herr err _
  · refine keeps_write ?_ (fun _ _ => rfl) (by rintro _ _ ⟨⟩)
    rcases he with h | h <;> simp [AllowedEntry, h, hx, hp]
  rintro u _ h
  obtain rfl := h u rfl
  refine Safe.bind (R := fun y w' => ∀ u, y = .ok u → (w.append e).returned x true = w') ?_ ?_
    fun err _ _ => herr err _
  · exact keeps_destroyResource F (fun _ _ => rfl) (by rintro _ _ ⟨⟩)
  rintro u _ h
  obtain rfl := h u rfl
  refine keeps_write ?_ (hok _ ?_ rfl ?_ ?_) fun err => herr err _
  · simp [AllowedEntry, hc, hcx, World.returned]
  · simpa [World.append, World.returned] using hphase w.phase
  · intro id h
    rw [hid c hclear]
    simp [World.returned, hid e hmark, h]
  · rw [hid c hclear]
    simp [World.returned]

lemma keeps_retire {journal : Journal} {previous : Option AgentRecord}
    (hp : w.phase = .committed) :
    Keeps (F.retire agent journal previous) w fun _ _ => True := by
  unfold retire
  split
  · rename_i old
    split_ifs
    · refine Safe.bind (quiet_target _ w) ?_ fun _ _ _ => trivial
      rintro _ _ rfl
      refine Safe.bind (R := fun _ _ => True) (safe_each (I := fun _ w' => w'.phase = .committed)
        ?_ (fun _ _ => trivial) _ _ hp) (fun _ _ _ => trivial) fun _ _ _ => trivial
      rintro x l w₂ h₂
      exact keeps_marked (Or.inl rfl) rfl rfl rfl (Or.inr h₂) (fun _ h _ _ _ => h.trans h₂)
        fun _ _ => trivial
    · trivial
  · trivial

lemma keeps_commit {v : Resolved} {driver : Driver X XRet} {journal : Journal}
    {created : Created} {readyMs : ℕ} {taskId : String} (hpos : 0 < journal.generation)
    (hw : Starting journal.generation v.previous w) :
    Keeps (F.commit v driver journal created readyMs taskId) w fun _ _ => True := by
  obtain ⟨⟨T, hT⟩, hrec⟩ := hw
  refine Safe.bind (R := fun y w' => ∃ z, y = .ok z ∧
    ∀ u, z = .ok u → w.writeRecord (newRecord v driver journal.generation created readyMs taskId)
      = w') ?_ ?_ fun _ _ _ => trivial
  · rw [safe_attempt]
    exact keeps_writeRecord (Or.inl ⟨T, hT, rfl⟩) ⟨_, rfl, fun _ _ => rfl⟩ fun _ => ⟨_, rfl, nofun⟩
  rintro z w₁ ⟨_, h, hz⟩
  obtain rfl := Except.ok.inj h
  cases z with
  | error err =>
      refine Safe.bind (R := fun _ _ => True) (safe_each (I := fun _ _ => True) ?_
        (fun _ _ => trivial) _ _ trivial) (fun _ w₂ _ => ?_) fun _ _ _ => trivial
      · rintro x l w₂ -
        exact keeps_undoCreated fun _ => trivial
      · refine Safe.bind (R := fun _ _ => True) ?_ (fun _ _ _ => trivial) fun _ _ _ => trivial
        rw [safe_attempt]
        exact keeps_write trivial trivial fun _ => trivial
  | ok u =>
      obtain rfl := hz u rfl
      refine Safe.bind (R := fun y w' => ∀ u, y = .ok u → w'.phase = .committed) ?_
        (fun u w₂ h₂ => ?_) fun _ _ _ => trivial
      · refine keeps_write ?_ (fun _ _ => rfl) fun _ => nofun
        refine ⟨journal.generation, liveResources v.previous, ?_, ?_, rfl⟩
        · simp [World.writeRecord, hT, hrec]
        · simp [Journal.entry, hpos]
      · exact Safe.bind (keeps_retire (h₂ u rfl)) (fun _ _ _ => trivial) fun _ _ _ => trivial

lemma keeps_replace {v : Resolved} {driver : Driver X XRet} (hp : w.phase = .recovering)
    (hrec : w.record = v.previous) (hrem : remains w.journal = []) :
    Keeps (F.replace v driver) w fun _ _ => True := by
  refine Safe.bind (keeps_readJournal (Q := fun x w' => w = w' ∧ ∀ j, x = .ok j → w.journal = j)
    ⟨rfl, by simp⟩ fun _ => ⟨rfl, nofun⟩) ?_ fun _ _ _ => trivial
  rintro j _ ⟨rfl, hj⟩
  obtain rfl := hj j rfl
  have hpos : 0 < nextGeneration w.journal v.previous := Nat.succ_pos _
  refine Safe.bind (R := fun y w' => ∀ u, y = .ok u →
    Starting (nextGeneration w.journal v.previous) v.previous w') ?_ ?_ fun _ _ _ => trivial
  · refine keeps_write ⟨hp, hrem, ?_⟩ (fun _ _ => ⟨⟨[], ?_⟩, hrec⟩) nofun
    · simp [Journal.entry, hpos, hrec]
    · simp [World.append, Phase.after, Journal.entry, hpos]
  rintro u w₁ h₁
  have h₁ := h₁ u rfl
  refine Safe.bind (R := fun y w' => (∃ z, y = .ok z) ∧
    Starting (nextGeneration w.journal v.previous) v.previous w') ?_ ?_ fun _ _ _ => trivial
  · rw [safe_attempt]
    exact (keeps_startGeneration rfl hpos h₁).mono fun x w' h => ⟨⟨x, rfl⟩, h⟩
  rintro z w₂ ⟨-, h₂⟩
  rcases z with ⟨err, touched⟩ | ⟨created, readyMs, taskId⟩
  · refine Safe.bind (R := fun _ _ => True) (safe_each (I := fun _ w' =>
      Starting (nextGeneration w.journal v.previous) v.previous w') ?_
      (fun _ _ => trivial) _ _ h₂) (fun _ w₃ _ => ?_) fun _ _ _ => trivial
    · rintro x l w₃ h₃
      refine (keeps_undoTouched h₃).mono fun y w' h => ?_
      obtain ⟨⟨u, rfl⟩, h⟩ := h
      exact h
    · refine Safe.bind (R := fun _ _ => True) ?_ (fun _ _ _ => trivial) fun _ _ _ => trivial
      rw [safe_attempt]
      exact keeps_write trivial trivial fun _ => trivial
  · exact keeps_commit hpos h₂

lemma keeps_rotateSecrets {driver : Driver X XRet} {record : AgentRecord}
    {secrets : List (String × String)} {digest : String} (hp : w.phase = .recovering)
    (hrec : w.record = some record) :
    Keeps (rotateSecrets agent driver record secrets digest) w fun _ _ => True := by
  refine Safe.bind ((Quiet.mapErr (.inr _)) w) ?_ fun _ _ _ => trivial
  rintro _ _ rfl
  refine Safe.bind (R := fun _ _ => True) (keeps_writeRecord
    (Or.inr (Or.inl ⟨hp, record, hrec, rfl, rfl⟩)) trivial fun _ => trivial)
    (fun _ w₁ _ => ?_) fun _ _ _ => trivial
  exact Safe.bind (R := fun _ _ => True) (keeps_write trivial trivial fun _ => trivial)
    (fun _ _ _ => trivial) fun _ _ _ => trivial

lemma keeps_keep {v : Resolved} {driver : Driver X XRet} {record : AgentRecord}
    (hp : w.phase = .recovering) (hrec : w.record = some record) :
    Keeps (keep v driver record) w fun _ _ => True := by
  have hread : ∀ (f : Option AgentRecord → Outcome ApplyResult) (w' : World),
      Keeps (readRecord v.loaded.spec.name >>= fun r => pure (f r) : Eff X XRet _ _) w'
        fun _ _ => True := fun f w' =>
    Safe.bind (R := fun _ _ => True) (keeps_readRecord trivial fun _ => trivial)
      (fun _ _ _ => trivial) fun _ _ _ => trivial
  unfold keep
  simp only
  split_ifs
  · exact Safe.bind (keeps_rotateSecrets hp hrec) (fun _ w₁ _ => hread _ w₁) fun _ _ _ => trivial
  · exact hread _ w

lemma keeps_upToDate {loaded : LoadedSpec} {driver : Driver X XRet}
    {previous : Option AgentRecord} :
    Keeps (upToDate loaded driver previous) w fun y w' =>
      w = w' ∧ ∀ r, y = .ok (some r) → previous = some r := by
  unfold upToDate
  split
  · rename_i record
    split_ifs
    · refine Safe.bind (quiet_deadResources driver record.resources w) ?_ ?_
      · rintro dead _ rfl
        refine ⟨rfl, fun r h => ?_⟩
        by_cases hd : dead.isEmpty
        · simpa [hd] using h
        · simp [hd] at h
      · rintro _ _ rfl
        exact ⟨rfl, by simp⟩
    · exact ⟨rfl, fun _ h => by cases h⟩
  · exact ⟨rfl, fun _ h => by cases h⟩

/-- **An apply keeps to what is allowed**, whatever the driver does and whatever fails. -/
theorem keeps_apply (loaded : LoadedSpec) (hp : w.phase = .recovering) :
    Keeps (F.apply loaded) w fun _ _ => True := by
  refine Safe.bind (quiet_target _ w) ?_ fun _ _ _ => trivial
  rintro _ _ rfl
  refine Safe.bind (quiet_agentDir _ w) ?_ fun _ _ _ => trivial
  rintro _ _ rfl
  refine Safe.bind (quiet_lock _ w) ?_ fun _ _ _ => trivial
  rintro _ _ rfl
  refine Safe.bind (keeps_readRecord (Q := fun x w' => w = w' ∧ ∀ r, x = .ok r → w.record = r)
    ⟨rfl, by simp⟩ fun _ => ⟨rfl, by simp⟩) ?_ fun _ _ _ => trivial
  rintro previous _ ⟨rfl, hprev⟩
  have hprev := hprev previous rfl
  refine Safe.bind (quiet_checkTenant _ _ w) ?_ fun _ _ _ => trivial
  rintro _ _ rfl
  refine Safe.bind (R := fun y w' => ∀ found, y = .ok found → w'.phase = .recovering ∧
    w'.record = previous ∧ remains w'.journal = []) ?_ ?_ fun _ _ _ => trivial
  · exact keeps_recover F hp fun x w' h1 h2 h3 found hx => ⟨h1, h2.trans hprev, h3 found hx⟩
  rintro recovered w₁ h
  obtain ⟨h1, h2, h3⟩ := h recovered rfl
  refine Safe.bind (quiet_resolveSecrets _ _ w₁) ?_ fun _ _ _ => trivial
  rintro secrets _ rfl
  refine Safe.bind (quiet_controlKey _ w₁) ?_ fun _ _ _ => trivial
  rintro controlKey _ rfl
  refine Safe.bind keeps_upToDate ?_ fun _ _ _ => trivial
  rintro current _ ⟨rfl, hcur⟩
  cases current with
  | some record => exact keeps_keep h1 (h2.trans (hcur record rfl))
  | none => exact keeps_replace h1 h2 h3

lemma keeps_destroyRecord {record : AgentRecord} (hp : w.phase = .recovering)
    (hrec : w.record = some record) :
    Keeps (F.destroyRecord agent record) w fun _ _ => True := by
  refine Safe.bind (quiet_target _ w) ?_ fun _ _ _ => trivial
  rintro _ _ rfl
  -- what has left the list is gone
  refine Safe.bind (R := fun y w' => ∀ u, y = .ok u → w'.phase = .recovering ∧
    w'.record = some record ∧ ∀ x ∈ record.resources, x.id ∈ w'.gone)
    (safe_each (I := fun l w' => w'.phase = .recovering ∧ w'.record = some record ∧
      ∀ x ∈ record.resources, x.id ∈ w'.gone ∨ x ∈ l) ?_ ?_ _ _
      ⟨hp, hrec, fun x hx => Or.inr (by simpa using hx)⟩) ?_
    fun _ _ _ => trivial
  · rintro x l w₁ ⟨h1, h2, h3⟩
    refine keeps_marked (Or.inr rfl) rfl rfl rfl (Or.inl h1) (fun w' e1 e2 e3 e4 => ?_)
      fun _ _ => nofun
    refine ⟨e1.trans h1, e2.trans h2, fun y hy => ?_⟩
    rcases h3 y hy with h | h
    · exact Or.inl (e3 _ h)
    · rcases List.mem_cons.mp h with rfl | h
      · exact Or.inl e4
      · exact Or.inr h
  · rintro w₁ ⟨h1, h2, h3⟩ _ _
    exact ⟨h1, h2, fun x hx => by simpa using h3 x hx⟩
  rintro u w₁ h
  obtain ⟨h1, h2, h3⟩ := h u rfl
  refine Safe.bind (R := fun _ _ => True) (keeps_writeRecord (Or.inr (Or.inr ⟨h1, rfl, ?_⟩))
    trivial fun _ => trivial) (fun _ w₂ _ => ?_) fun _ _ _ => trivial
  · intro x hx
    rw [h2] at hx
    simp only [liveResources] at hx
    split_ifs at hx
    · exact h3 x hx
    · cases hx
  · exact keeps_write trivial trivial fun _ => trivial

/-- **A destroy keeps to what is allowed.** -/
theorem keeps_destroy (hp : w.phase = .recovering) :
    Keeps (F.destroy agent) w fun _ _ => True := by
  refine Safe.bind (quiet_agentDir _ w) ?_ fun _ _ _ => trivial
  rintro _ _ rfl
  refine Safe.bind (Quiet.ask (.journalExists agent) (fun _ => trivial) (fun _ _ => rfl) w) ?_
    fun _ _ _ => trivial
  rintro present _ rfl
  split
  · trivial
  refine Safe.bind (quiet_lock _ w) ?_ fun _ _ _ => trivial
  rintro _ _ rfl
  refine Safe.bind (R := fun _ w' => w'.phase = .recovering) ?_ ?_ fun _ _ _ => trivial
  · exact keeps_recover F hp fun x w' h1 _ _ => h1
  rintro recovered w₁ h1
  refine Safe.bind (keeps_readRecord (Q := fun x w' => w₁ = w' ∧ ∀ r, x = .ok r → w₁.record = r)
    ⟨rfl, by simp⟩ fun _ => ⟨rfl, by simp⟩) ?_ fun _ _ _ => trivial
  rintro record _ ⟨rfl, hrec⟩
  have hrec := hrec record rfl
  cases record with
  | none => trivial
  | some record =>
      simp only
      split_ifs
      · trivial
      · exact Safe.bind (keeps_destroyRecord h1 hrec) (fun _ _ _ => trivial) fun _ _ _ => trivial

end Operations

end Bimo.Fabric
