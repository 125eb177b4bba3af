import Bimo.FabricRecovery

/-!
The target a remain names, against the one its resource was created on.

An entry that touches a resource names the target of the apply that creates it, so `home` reads
the creating target off the journal. A remain has its target from the entry that put it down
last: that is the new target where a commit supersedes resources, so an apply that moves an agent
leaves them misplaced until the line that retires each of them, which names the old target again.
-/

namespace Bimo.Fabric

variable {X : Type} {XRet : X → Type}

/-- The target that touched an id last: the one the resource was created on. -/
def home (j : List JournalEntry) (id : String) : Option String :=
  j.foldl (fun t e => if touchedId e = some id then some (e.target.getD "") else t) none

lemma home_append (j : List JournalEntry) (e : JournalEntry) (id : String) :
    home (j ++ [e]) id = if touchedId e = some id then some (e.target.getD "") else home j id := by
  simp [home, List.foldl_append]

lemma home_append_of_none {j : List JournalEntry} {e : JournalEntry} (he : touchedId e = none) :
    home (j ++ [e]) = home j := by
  funext id
  simp [home_append, he]

/-! ### Resources a move has displaced -/

/-- The resources that a commit supersedes on another target than its own. -/
def displacedBy (j : List JournalEntry) (e : JournalEntry) : List String :=
  if e.event = .commit then
    (e.retire.map (·.id)).filter fun id => home j id ≠ some (e.target.getD "")
  else []

/-- The line that retires a resource names the target it was created on. -/
def retires (e : JournalEntry) (id : String) : Prop :=
  e.event = .retiring ∧ e.resource.map (·.id) = some id

instance (e : JournalEntry) (id : String) : Decidable (retires e id) :=
  inferInstanceAs (Decidable (_ ∧ _))

/-- The resources that were displaced and are not retired yet, of a journal whose newest line comes
first. -/
def displacedOf : List JournalEntry → List String
  | [] => []
  | e :: before =>
    displacedBy before.reverse e ++ (displacedOf before).filter fun id => ¬ retires e id

def displaced (j : List JournalEntry) : List String := displacedOf j.reverse

lemma mem_displaced_append {j : List JournalEntry} {e : JournalEntry} {id : String} :
    id ∈ displaced (j ++ [e]) ↔ id ∈ displacedBy j e ∨ id ∈ displaced j ∧ ¬ retires e id := by
  simp [displaced, displacedOf]

/-- Every remain that is not displaced names the target its resource was created on. -/
def Homeward (j : List JournalEntry) : Prop :=
  ∀ m ∈ remains j, m.resource.id ∉ displaced j → home j m.resource.id = some m.target

lemma homeward_iff {j : List JournalEntry} :
    Homeward j ↔ ∀ id m, pending j id = some m → id ∉ displaced j → home j id = some m.target := by
  constructor
  · intro h id m hm hid
    rw [← pending_id hm] at hid ⊢
    exact h m (mem_remains.mpr ⟨id, hm⟩) hid
  · intro h m hm hid
    obtain ⟨id, hpending⟩ := mem_remains.mp hm
    rw [pending_id hpending] at hid ⊢
    exact h id m hpending hid

/-- The entries that put one resource down without touching it. -/
def marks : Event → Bool
  | .retiring | .destroying => true
  | _ => false

/-- The resource such an entry names was created on its target. -/
def Marked (j : List JournalEntry) (e : JournalEntry) : Prop :=
  marks e.event → ∀ r, e.resource = some r → home j r.id = some (e.target.getD "")

/-- **One entry.** Where the one it puts down without touching was created on its target, the
remains still name the right ones, but for those that a commit displaces. -/
lemma Homeward.append {j : List JournalEntry} {e : JournalEntry} (h : Homeward j)
    (he : Marked j e) : Homeward (j ++ [e]) := by
  rw [homeward_iff] at h ⊢
  intro id m hm hid
  rw [mem_displaced_append, not_or, not_and_not_right] at hid
  rw [home_append]
  rcases pending_append_cases j e id with ⟨hp, hne⟩ | hp | ⟨r, reason, hp, hr, hwhy⟩
  · rw [if_neg hne]
    by_cases hdisplaced : id ∈ displaced j
    · -- the line that retires it puts it down again
      obtain ⟨hev, hres⟩ := hid.2 hdisplaced
      obtain ⟨r, hr, rfl⟩ := Option.map_eq_some_iff.mp hres
      rw [pending_mark (k := .retiring) (.inl ⟨rfl, hev⟩) hr, if_pos rfl] at hm
      obtain rfl := Option.some.inj hm
      exact he (by simp [hev, marks]) r hr
    · exact h id m (hp ▸ hm) hdisplaced
  · simp [hp] at hm
  · obtain rfl := Option.some.inj (hp.symm.trans hm)
    rcases hwhy with ⟨-, ht⟩ | ⟨-, hev, hretire⟩ | ⟨hev, hres⟩
    · rw [if_pos ht]
    · have ht : touchedId e = none := by simp [touchedId, hev]
      rw [if_neg (by simp [ht])]
      by_contra hhome
      refine hid.1 ?_
      rw [displacedBy, if_pos hev, List.mem_filter, decide_eq_true_eq]
      exact ⟨List.mem_map.mpr ⟨r, hretire, hr⟩, hhome⟩
    · have ht : touchedId e = none := by
        rcases hev with ⟨-, hev⟩ | ⟨-, hev⟩ <;> simp [touchedId, hev]
      rw [if_neg (by simp [ht]), ← hr]
      exact he (by rcases hev with ⟨-, hev⟩ | ⟨-, hev⟩ <;> simp [hev, marks]) r hres

/-- What a record says is live was created on the record's target. -/
def Homed (j : List JournalEntry) (record : Option AgentRecord) : Prop :=
  ∀ old, record = some old → ∀ r ∈ liveResources (some old), home j r.id = some old.target

/-- When a call may be made. -/
def Placed (w : World) : Call ⊕ X → Prop
  | .inl (.append _ e) => Marked w.journal e
  | .inl (.writeRecord _ n) => Homed w.journal (some n)
  | _ => True

/-- What is touched bears no id of a live resource. -/
def Fresh (w : World) : (c : Call ⊕ X) → Sum.elim Call.Ret XRet c → Prop
  | .inl (.append _ e), _ => ∀ id ∈ touchedId e, ∀ r ∈ liveResources w.record, r.id ≠ id
  | _, _ => True

instance (w : World) (c : Call ⊕ X) (x : Sum.elim Call.Ret XRet c) : Decidable (Fresh w c x) :=
  match c with
  | .inl (.append _ e) =>
    inferInstanceAs (Decidable (∀ id ∈ touchedId e, ∀ r ∈ liveResources w.record, r.id ≠ id))
  | .inl (.writeRecord _ _) | .inl (.readRecord _) | .inl (.readJournal _)
  | .inl (.journalExists _) | .inl (.lock _) | .inl (.target _) | .inl (.resolve _ _)
  | .inl (.controlKey _) | .inl (.prepare _ _) | .inl (.probe _) | .inl (.stateCheck _)
  | .inl (.returned _ _ _) | .inr _ => inferInstanceAs (Decidable True)

/-- An apply has journaled the commit of a move, and not yet the last line that retires what it
superseded. -/
def InMove (w : World) : Prop := displaced w.journal ≠ []

/-- What holds of a directory between any two calls. -/
structure Located (w : World) : Prop where
  remains : Homeward w.journal
  record : Homed w.journal w.record

/-- An entry that touches nothing of the record leaves it where it is. -/
lemma Homed.append {j : List JournalEntry} {record : Option AgentRecord} {e : JournalEntry}
    (h : Homed j record) (hfresh : ∀ id ∈ touchedId e, ∀ r ∈ liveResources record, r.id ≠ id) :
    Homed (j ++ [e]) record := by
  rintro old rfl r hr
  have hne : touchedId e ≠ some r.id := fun ht => hfresh r.id ht r hr rfl
  rw [home_append, if_neg hne]
  exact h old rfl r hr

/-- **Each call keeps what holds of the directory.** -/
lemma Located.step {w : World} (h : Located w) (c : Call ⊕ X) (x : Sum.elim Call.Ret XRet c)
    (hal : Placed w c) (hx : Fresh w c x) : Located (worldNext X XRet w c x) := by
  match c with
  | .inl (.append _ e) =>
      match x with
      | .ok _ => exact ⟨h.remains.append hal, h.record.append hx⟩
      | .error _ => exact h
  | .inl (.writeRecord _ n) =>
      match x with
      | .ok _ => exact ⟨h.remains, hal⟩
      | .error _ => exact ⟨h.remains, h.record⟩
  | .inl (.returned _ _ _) => exact ⟨h.remains, h.record⟩
  | .inl (.readRecord _) | .inl (.readJournal _) | .inl (.journalExists _) | .inl (.lock _)
  | .inl (.target _) | .inl (.resolve _ _) | .inl (.controlKey _) | .inl (.prepare _ _)
  | .inl (.probe _) | .inl (.stateCheck _) | .inr _ => exact h

/-- When the program comes back, `Q` holds of its value and the ids touched until then, those of
`T` before all others. -/
def Touches {α : Type} (Q : α → List String → Prop) :
    List String → Prog (Touch ⊕ X) (Sum.elim Touch.Ret XRet) FabricError α → Prop
  | T, .ret a => Q a T
  | _, .fail _ => True
  | T, .call (.inl t) k => (∀ u, Touches Q (t.resource.id :: T) (k (.ok u))) ∧
      ∀ e, Touches Q T (k (.error e))
  | T, .call (.inr _) k => ∀ x, Touches Q T (k x)

/-- **A driver's promise**: whatever it hands back it has touched. -/
abbrev Journals : List String → Prog (Touch ⊕ X) (Sum.elim Touch.Ret XRet) FabricError Created →
    Prop :=
  Touches fun c T => ∀ r ∈ c.resources, r.id ∈ T

lemma touches_bind {α β : Type} {Q : β → List String → Prop} {T : List String}
    {p : Prog (Touch ⊕ X) (Sum.elim Touch.Ret XRet) FabricError α}
    {f : α → Prog (Touch ⊕ X) (Sum.elim Touch.Ret XRet) FabricError β} :
    Touches Q T (p >>= f) ↔ Touches (fun a T' => Touches Q T' (f a)) T p := by
  induction p generalizing T with
  | ret a => exact Iff.rfl
  | fail e => exact Iff.rfl
  | call o k ih =>
      cases o with
      | inl t => exact and_congr (forall_congr' fun u => ih _) (forall_congr' fun e => ih _)
      | inr o => exact forall_congr' fun x => ih x

lemma touches_ofExcept {α : Type} {Q : α → List String → Prop} {T : List String}
    {x : Except FabricError α} (h : ∀ a, x = .ok a → Q a T) :
    Touches Q T (.ofExcept x : Prog (Touch ⊕ X) (Sum.elim Touch.Ret XRet) FabricError α) := by
  cases x with
  | ok a => exact h a rfl
  | error e => trivial

/-! ### The programs keep to it -/

/-- The world, where every step meets the condition. -/
abbrev FreshWorld (X : Type) (XRet : X → Type) : Env (Call ⊕ X) (Sum.elim Call.Ret XRet) World :=
  (world X XRet).given Fresh

abbrev Places {ε α : Type} (p : Eff X XRet ε α) (w : World) (Q : Except ε α → World → Prop) :
    Prop :=
  Safe (FreshWorld X XRet) Placed p w Q

variable {ε ε' α β : Type}

/-- The record is the same, and every resource is where it was. -/
def Calm (w w' : World) : Prop := w'.record = w.record ∧ home w'.journal = home w.journal

lemma Calm.refl (w : World) : Calm w w := ⟨rfl, rfl⟩

lemma Calm.trans {u v w : World} (h : Calm u v) (h' : Calm v w) : Calm u w :=
  ⟨h'.1.trans h.1, h'.2.trans h.2⟩

lemma Calm.append {w : World} {e : JournalEntry} (he : touchedId e = none) :
    Calm w (w.append e) := ⟨rfl, home_append_of_none he⟩

lemma Calm.homed {w w' : World} {record : Option AgentRecord} (h : Calm w w')
    (hw : Homed w.journal record) : Homed w'.journal record := by
  intro old hold r hr
  rw [h.2]
  exact hw old hold r hr

/-- A program that leaves the record and the homes alone. -/
def Calms (p : Eff X XRet ε α) : Prop := ∀ w, Places p w fun _ w' => Calm w w'

lemma Calms.ret (a : α) : Calms (pure a : Eff X XRet ε α) := fun w => Calm.refl w

lemma Calms.fail (e : ε) : Calms (.fail e : Eff X XRet ε α) := fun w => Calm.refl w

lemma Calms.ofExcept (x : Except ε α) : Calms (.ofExcept x : Eff X XRet ε α) := fun w =>
  (safe_ofExcept x w _).mpr (Calm.refl w)

lemma Calms.bind {p : Eff X XRet ε α} {f : α → Eff X XRet ε β} (hp : Calms p)
    (hf : ∀ a, Calms (f a)) : Calms (p >>= f) := fun w =>
  Safe.bind (hp w) (fun a w' hw => (hf a w').mono fun _ _ h => hw.trans h) fun _ _ h => h

lemma Calms.attempt {p : Eff X XRet ε α} (hp : Calms p) :
    Calms (p.attempt : Eff X XRet ε' (Except ε α)) := fun w => (safe_attempt p w _).mpr (hp w)

lemma Calms.mapErr {f : ε → ε'} {p : Eff X XRet ε α} (hp : Calms p) : Calms (p.mapErr f) :=
  fun w => (safe_mapErr f p w _).mpr (hp w)

lemma Calms.each {f : α → Eff X XRet ε Unit} (hf : ∀ a, Calms (f a)) (l : List α) :
    Calms (Prog.each f l) := by
  induction l with
  | nil => exact .ret _
  | cons a l ih => exact (hf a).bind fun _ => ih

/-- A call that writes neither the journal nor the record. -/
lemma Calms.ask (c : Call) (hok : ∀ w : World, Placed (X := X) w (.inl c))
    (h : ∀ w x, Calm w (w.next c x)) : Calms (ask c : Eff X XRet ε c.Ret) := by
  refine fun w => ⟨hok w, ?_⟩
  rintro r _ ⟨⟨-, rfl⟩, -⟩
  exact h w r

lemma Calms.inr (p : Prog X XRet ε α) : Calms (p.inr : Eff X XRet ε α) := fun w =>
  safe_inr (E := FreshWorld X XRet) (fun _ => trivial) (fun _ _ _ h => h.1.2) p
    fun _ => Calm.refl w

/-- An entry that neither touches nor marks. -/
lemma Calms.write {agent : String} {e : JournalEntry} (ht : touchedId e = none)
    (he : marks e.event = false) : Calms (write agent e : Eff X XRet _ _) := by
  refine .bind (.ask _ (fun w h => by simp [he] at h) fun w x => ?_) fun _ => .ofExcept _
  cases x with
  | ok _ => exact Calm.append ht
  | error _ => exact Calm.refl w

section Quiet

variable (agent name endpoint : String)

lemma calms_lock : Calms (lock agent : Eff X XRet _ _) :=
  .bind (.ask _ (fun _ => trivial) fun w _ => Calm.refl w) fun _ => .ofExcept _

lemma calms_target : Calms (target name : Eff X XRet _ _) :=
  .bind (.ask _ (fun _ => trivial) fun w _ => Calm.refl w) fun _ => .ofExcept _

lemma calms_prepare (g : ℕ) : Calms (prepare agent g : Eff X XRet _ _) :=
  .bind (.ask _ (fun _ => trivial) fun w _ => Calm.refl w) fun _ => .ofExcept _

lemma calms_probe : Calms (probe endpoint : Eff X XRet _ _) :=
  .bind (.ask _ (fun _ => trivial) fun w _ => Calm.refl w) fun _ => .ofExcept _

lemma calms_stateCheck : Calms (stateCheck endpoint : Eff X XRet _ _) :=
  .bind (.ask _ (fun _ => trivial) fun w _ => Calm.refl w) fun _ => .ofExcept _

lemma calms_controlKey : Calms (controlKey agent : Eff X XRet _ _) :=
  .bind (.ask _ (fun _ => trivial) fun w _ => Calm.refl w) fun _ => .ofExcept _

lemma calms_readJournal : Calms (readJournal agent : Eff X XRet _ _) :=
  .bind (.ask _ (fun _ => trivial) fun w _ => Calm.refl w) fun _ => .ofExcept _

lemma calms_readRecord : Calms (readRecord agent : Eff X XRet _ _) :=
  .bind (.ask _ (fun _ => trivial) fun w _ => Calm.refl w) fun _ => .ofExcept _

lemma calms_agentDir : Calms (agentDir name : Eff X XRet _ _) := by
  unfold agentDir
  split
  · exact .fail _
  · exact .ret _

lemma calms_checkTenant (record : Option AgentRecord) (spec : AgentSpec) :
    Calms (checkTenant record spec : Eff X XRet _ _) := by
  unfold checkTenant
  split
  · split
    · exact .fail _
    · exact .ret _
  · exact .ret _

lemma calms_resolveSecrets (l : List SecretRef) :
    Calms (resolveSecrets name l : Eff X XRet _ _) := by
  induction l with
  | nil => exact .ret _
  | cons s l ih =>
      refine .bind (.ask _ (fun _ => trivial) fun w _ => Calm.refl w) fun _ => ?_
      exact .bind (.ofExcept _) fun _ => .bind ih fun _ => .ret _

lemma calms_deadResources (d : Driver X XRet) (l : List Resource) :
    Calms (deadResources d l) := by
  induction l with
  | nil => exact .ret _
  | cons r l ih => exact .bind (.inr _) fun _ => .bind ih fun _ => .ret _

variable (F : Fabric X XRet)

lemma calms_destroyResource (r : Resource) : Calms (F.destroyResource name r) :=
  .bind (.attempt (.inr _)) fun _ =>
    .bind (.ask _ (fun _ => trivial) fun _ _ => ⟨rfl, rfl⟩) fun _ => .ofExcept _

lemma calms_cleared (j : Journal) (r : Resource) :
    Calms (write agent (j.about .cleared r) : Eff X XRet _ _) := .write rfl rfl

/-- **Recovery** destroys and clears, and leaves everything where it was. -/
lemma calms_recover : Calms (F.recover agent) := by
  refine .bind (calms_readJournal _) fun j => ?_
  simp only
  split_ifs
  · exact .ret _
  refine .bind (.each (fun m => ?_) _) fun _ => .bind (calms_readJournal _) fun j' => ?_
  · exact .bind (calms_target _) fun _ => .bind (calms_destroyResource _ F _) fun _ =>
      calms_cleared _ _ _
  · exact .bind (.each (fun g => .write rfl rfl) _) fun _ => .ret _

lemma calms_undoTouched (j : Journal) (r : Resource) : Calms (F.undoTouched agent j r) :=
  .bind (.attempt (calms_destroyResource _ F r)) fun _ =>
    .bind (.attempt (calms_cleared _ _ _)) fun _ => .ret _

lemma calms_undoCreated (r : Resource) : Calms (F.undoCreated name r) :=
  .bind (.attempt (calms_destroyResource _ F r)) fun _ => .ret _

end Quiet

section Programs

variable {F : Fabric X XRet} {agent : String} {w : World}

lemma places_readRecord {Q : Except FabricError (Option AgentRecord) → World → Prop}
    (hok : Q (.ok w.record) w) (herr : ∀ e, Q (.error e) w) :
    Places (readRecord agent : Eff X XRet _ _) w Q := by
  refine ⟨trivial, ?_⟩
  rintro x _ ⟨⟨hx, rfl⟩, -⟩
  match x, hx with
  | .ok _, hx => exact hx ▸ hok
  | .error e, _ => exact herr e

lemma places_write {e : JournalEntry} {Q : Except FabricError Unit → World → Prop}
    (hal : Marked w.journal e)
    (hok : (∀ id ∈ touchedId e, ∀ r ∈ liveResources w.record, r.id ≠ id) → Q (.ok ()) (w.append e))
    (herr : ∀ x, Q (.error x) w) : Places (write agent e : Eff X XRet _ _) w Q := by
  refine ⟨hal, ?_⟩
  rintro x _ ⟨⟨-, rfl⟩, hx⟩
  match x, hx with
  | .ok (), hx => exact hok hx
  | .error e, _ => exact herr _

lemma places_writeRecord {n : AgentRecord} {Q : Except FabricError Unit → World → Prop}
    (hal : Homed w.journal (some n))
    (hok : Q (.ok ()) (w.writeRecord n))
    (herr : ∀ x, Q (.error x) w.recordFailed) :
    Places (writeRecord agent n : Eff X XRet _ _) w Q := by
  refine ⟨hal, ?_⟩
  rintro x _ ⟨⟨-, rfl⟩, hx⟩
  cases x with
  | ok u => exact hok
  | error e => exact herr _

/-! ### Starting a generation -/

/-- An apply to target `t` is starting a generation over the record `r`, and has touched the ids
of `T`. -/
structure StartingOn (t : String) (r : Option AgentRecord) (T : List String) (w : World) : Prop where
  record : w.record = r
  homed : Homed w.journal r
  touched : ∀ id ∈ T, home w.journal id = some t

variable {t : String} {r : Option AgentRecord} {T : List String}

lemma StartingOn.calm {w' : World} (h : StartingOn t r T w) (hc : Calm w w') :
    StartingOn t r T w' :=
  ⟨hc.1.trans h.record, hc.homed h.homed, fun id hid => by rw [hc.2]; exact h.touched id hid⟩

lemma StartingOn.touch {e : JournalEntry} {id : String} (h : StartingOn t r T w)
    (hid : touchedId e = some id) (ht : e.target.getD "" = t)
    (hfresh : ∀ id ∈ touchedId e, ∀ x ∈ liveResources w.record, x.id ≠ id) :
    StartingOn t r (id :: T) (w.append e) := by
  refine ⟨h.record, h.homed.append (h.record ▸ hfresh), fun id' hmem => ?_⟩
  show home (w.journal ++ [e]) id' = some t
  rw [home_append, hid, ht]
  split_ifs with heq
  · rfl
  · rcases List.mem_cons.mp hmem with rfl | hmem
    · exact absurd rfl heq
    · exact h.touched id' hmem

/-- What the driver hands back was created on the target of the journal it was given. -/
lemma places_serve {p : Prog (Touch ⊕ X) (Sum.elim Touch.Ret XRet) FabricError Created}
    {j : Journal} (hp : Journals T p) (hpos : 0 < j.generation) (ht : j.target = t)
    (hw : StartingOn t r T w) :
    Places (serve agent p j : Eff X XRet ε _) w fun x w' => ∃ T', StartingOn t r T' w' ∧
      ∀ c j', x = .ok (.ok c, j') → ∀ y ∈ c.resources, y.id ∈ T' := by
  induction p generalizing w j T with
  | ret a =>
      refine ⟨T, hw, fun c j' hx => ?_⟩
      obtain ⟨hc, -⟩ := Prod.mk.inj (Except.ok.inj hx)
      obtain rfl := Except.ok.inj hc
      exact hp
  | fail e => exact ⟨T, hw, fun c j' hx => by cases (Prod.mk.inj (Except.ok.inj hx)).1⟩
  | call o k ih =>
      cases o with
      | inr o =>
          refine ⟨trivial, ?_⟩
          rintro x _ ⟨⟨-, rfl⟩, -⟩
          exact ih x (hp x) hpos ht hw
      | inl u =>
          have htouched : touchedId (u.entry j) = some u.resource.id := by
            cases u <;> simp [touchedId, Touch.entry, Touch.event, Touch.resource, hpos]
          have hmarks : marks (u.entry j).event = false := by cases u <;> rfl
          have htarget : (u.entry j).target.getD "" = t := by
            rw [← ht]
            exact Journal.entry_target j u.event
          have hkeep : 0 < (u.keep j).generation ∧ (u.keep j).target = t := by
            cases u with
            | touching x => exact ⟨hpos, ht⟩
            | created x =>
                exact ⟨(Journal.settle_generation j x).symm ▸ hpos, (Journal.settle_target j x).trans ht⟩
          refine Safe.bind (R := fun x w' => (∃ v, x = .ok (.ok v) ∧
            StartingOn t r (u.resource.id :: T) w') ∨ ∃ e, x = .ok (.error e) ∧
            StartingOn t r T w') ?_ (fun x w' hx => ?_) ?_
          · rw [safe_attempt]
            refine places_write (fun h => by simp [hmarks] at h) (fun hfresh => ?_) fun e => ?_
            · exact Or.inl ⟨(), rfl, hw.touch htouched htarget hfresh⟩
            · exact Or.inr ⟨e, rfl, hw⟩
          · rcases hx with ⟨v, hv, hw'⟩ | ⟨e, he, hw'⟩
            · obtain rfl := Except.ok.inj hv
              exact ih _ (hp.1 v) hkeep.1 hkeep.2 hw'
            · obtain rfl := Except.ok.inj he
              exact ih _ (hp.2 e) hkeep.1 hkeep.2 hw'
          · rintro e w' (⟨v, hv, -⟩ | ⟨_, hv, -⟩) <;> cases hv

lemma places_startGeneration {loaded : LoadedSpec} {driver : Driver X XRet} {j : Journal}
    {secrets : List (String × String)} (hd : ∀ q, Journals [] (driver.create q))
    (hpos : 0 < j.generation) (ht : j.target = t) (hw : StartingOn t r [] w) :
    Places (startGeneration loaded driver j secrets) w fun x w' => ∃ T', StartingOn t r T' w' ∧
      ∀ c n id, x = .ok (c, n, id) → ∀ y ∈ c.resources, y.id ∈ T' := by
  refine Safe.bind ((calms_prepare _ _).mapErr w) (fun _ w₁ h₁ => ?_)
    fun _ _ h => ⟨[], hw.calm h, nofun⟩
  refine Safe.bind (places_serve (hd _) hpos ht (hw.calm h₁)) ?_
    fun _ _ ⟨T', h, _⟩ => ⟨T', h, nofun⟩
  rintro ⟨x, j'⟩ w₂ ⟨T', h₂, hres⟩
  cases x with
  | error e => exact ⟨T', h₂, nofun⟩
  | ok c =>
      have hres := hres c j' rfl
      refine Safe.bind (R := fun y v => w₂ = v ∧ y = .ok c) ((safe_ofExcept _ _ _).mpr ⟨rfl, rfl⟩)
        ?_ fun _ _ h => by cases h.2
      rintro _ _ ⟨rfl, hc⟩
      obtain rfl := Except.ok.inj hc
      refine Safe.bind (R := fun _ v => Calm w₂ v) ((calms_probe _).mapErr w₂) (fun ready w₃ h₃ => ?_)
        fun _ _ h => ⟨T', h₂.calm h, nofun⟩
      have h₃ := h₂.calm h₃
      refine Safe.bind (R := fun _ v => Calm w₃ v) ((Calms.write rfl rfl).mapErr w₃) (fun _ w₄ h₄ => ?_)
        fun _ _ h => ⟨T', h₃.calm h, nofun⟩
      have h₄ := h₃.calm h₄
      refine Safe.bind (R := fun _ v => Calm w₄ v) ((calms_stateCheck _).mapErr w₄) (fun _ w₅ h₅ => ?_)
        fun _ _ h => ⟨T', h₄.calm h, nofun⟩
      refine ⟨T', h₄.calm h₅, fun c' n id hx y hy => ?_⟩
      obtain ⟨rfl, -⟩ := Prod.mk.inj (Except.ok.inj hx)
      exact hres y hy

/-! ### The operations -/

/-- The entries of a retire and of a destroy, about a resource that was created on the target. -/
lemma places_marked {e c : JournalEntry} {name : String} {x : Resource}
    (he : e.event = .retiring ∨ e.event = .destroying) (hx : e.resource = some x)
    (hc : c.event = .cleared)
    (hhome : home w.journal x.id = some (e.target.getD "")) :
    Places (do
      write agent e
      F.destroyResource name x
      write agent c) w fun _ w' => Calm w w' := by
  have hmark : Marked w.journal e := by
    rintro - y hy
    obtain rfl := Option.some.inj (hx.symm.trans hy)
    exact hhome
  have ht : touchedId e = none := by rcases he with he | he <;> simp [touchedId, he]
  refine Safe.bind (R := fun _ w' => Calm w w') ?_ (fun _ w₁ h₁ => ?_) fun _ _ h => h
  · exact places_write hmark (fun _ => Calm.append ht) fun _ => Calm.refl w
  · have hrest : Calms (F.destroyResource name x >>= fun _ => write agent c) :=
      .bind (calms_destroyResource _ F x) fun _ =>
        .write (by simp [touchedId, hc]) (by simp [hc, marks])
    exact (hrest w₁).mono fun _ _ h => h₁.trans h

/-- A loop over live resources, each still where it was created. -/
lemma places_each_live {old : AgentRecord} {f : Resource → Eff X XRet FabricError Unit}
    {l : List Resource} (hf : ∀ r v, home v.journal r.id = some old.target →
      Places (f r) v fun _ w' => Calm v w')
    (hl : ∀ r ∈ l, home w.journal r.id = some old.target) :
    Places (Prog.each f l) w fun _ w' => Calm w w' := by
  refine safe_each (I := fun rest v => Calm w v ∧ ∀ r ∈ rest, home w.journal r.id =
    some old.target) ?_ (fun _ h => h.1) l w ⟨Calm.refl w, hl⟩
  rintro r rest v ⟨hv, hrest⟩
  have hr : home v.journal r.id = some old.target := by
    rw [hv.2]
    exact hrest r (by simp)
  refine (hf r v hr).mono fun x w' hw' => ?_
  cases x with
  | ok _ => exact ⟨hv.trans hw', fun y hy => hrest y (by simp [hy])⟩
  | error e => exact hv.trans hw'

lemma places_retire {j : Journal} {previous : Option AgentRecord} (hw : Homed w.journal previous) :
    Places (F.retire agent j previous) w fun _ _ => True := by
  unfold retire
  split
  · rename_i old
    split_ifs with hready
    · refine Safe.bind (calms_target _ w) (fun _ w₁ h₁ => ?_) fun _ _ _ => trivial
      have hold := h₁.homed hw old rfl
      simp only [liveResources, hready, if_true] at hold
      refine Safe.bind (places_each_live (fun r v hr => ?_) fun r hr => hold r
        (List.mem_reverse.mp hr)) (fun _ _ _ => trivial) fun _ _ _ => trivial
      exact places_marked (Or.inl rfl) rfl rfl hr
    · trivial
  · trivial

lemma places_commit {v : Resolved} {driver : Driver X XRet} {j : Journal} {created : Created}
    {readyMs : ℕ} {taskId : String} (ht : j.target = v.loaded.spec.substrate)
    (hw : StartingOn j.target v.previous T w) (hres : ∀ y ∈ created.resources, y.id ∈ T) :
    Places (F.commit v driver j created readyMs taskId) w fun _ _ => True := by
  have hnew : Homed w.journal (some (newRecord v driver j.generation created readyMs taskId)) := by
    rintro n hn y hy
    obtain rfl := Option.some.inj hn
    exact (hw.touched y.id (hres y hy)).trans (congrArg some ht)
  refine Safe.bind (R := fun x w' => ∃ z, x = .ok z ∧ w'.journal = w.journal) ?_ ?_
    fun _ _ _ => trivial
  · rw [safe_attempt]
    exact places_writeRecord hnew ⟨_, rfl, rfl⟩ fun _ => ⟨_, rfl, rfl⟩
  rintro z w₁ ⟨_, hz, hjournal⟩
  obtain rfl := Except.ok.inj hz
  cases z with
  | error err =>
      refine Safe.mono (Calms.bind (.each (fun r => calms_undoCreated _ F r) _) (fun _ => ?_) w₁)
        fun _ _ _ => trivial
      exact .bind (.attempt (.write rfl rfl)) fun _ => .fail _
  | ok u =>
      have hprev : Homed w₁.journal v.previous := hjournal ▸ hw.homed
      refine Safe.bind (Calms.write rfl rfl w₁) (fun u w₂ h₂ => ?_) fun _ _ _ => trivial
      exact Safe.bind (places_retire (h₂.homed hprev)) (fun _ _ _ => trivial) fun _ _ _ => trivial

lemma places_replace {v : Resolved} {driver : Driver X XRet}
    (hd : ∀ q, Journals [] (driver.create q)) (hw : Homed w.journal v.previous)
    (hrec : w.record = v.previous) : Places (F.replace v driver) w fun _ _ => True := by
  refine Safe.bind (calms_readJournal _ w) (fun j w₁ h₁ => ?_) fun _ _ _ => trivial
  have hpos : 0 < nextGeneration j v.previous := Nat.succ_pos _
  refine Safe.bind (Calms.write rfl rfl w₁) (fun _ w₂ h₂ => ?_) fun _ _ _ => trivial
  have hcalm := h₁.trans h₂
  have hstart : StartingOn v.loaded.spec.substrate v.previous [] w₂ :=
    ⟨hcalm.1.trans hrec, hcalm.homed hw, by simp⟩
  refine Safe.bind (R := fun x w' => ∃ z, x = .ok z ∧ ∃ T, StartingOn v.loaded.spec.substrate
      v.previous T w' ∧ ∀ c n id, z = .ok (c, n, id) → ∀ y ∈ c.resources, y.id ∈ T) ?_ ?_
    fun _ _ _ => trivial
  · rw [safe_attempt]
    exact (places_startGeneration hd hpos rfl hstart).mono fun x w' h => ⟨x, rfl, h⟩
  rintro z w₃ ⟨_, hz, T, h₃, hres⟩
  obtain rfl := Except.ok.inj hz
  rcases z with ⟨err, touched⟩ | ⟨created, readyMs, taskId⟩
  · refine Safe.mono (Calms.bind (.each (fun r => calms_undoTouched _ F _ r) _) (fun _ => ?_) w₃)
      fun _ _ _ => trivial
    exact .bind (.attempt (.write rfl rfl)) fun _ => .fail _
  · exact places_commit rfl h₃ (hres created readyMs taskId rfl)

lemma places_keep {v : Resolved} {driver : Driver X XRet} {record : AgentRecord}
    (hw : Homed w.journal (some record)) :
    Places (keep v driver record) w fun _ _ => True := by
  have hread : ∀ (f : Option AgentRecord → Outcome ApplyResult) (w' : World),
      Places (readRecord v.loaded.spec.name >>= fun r => pure (f r) : Eff X XRet _ _) w'
        fun _ _ => True := fun f w' =>
    Safe.mono (Calms.bind (calms_readRecord _) (fun _ => .ret _) w') fun _ _ _ => trivial
  have hrotated : ∀ n : AgentRecord, n.target = record.target → n.status = record.status →
      n.resources = record.resources → Homed w.journal (some n) := by
    rintro n ht hst hres m hm r hr
    obtain rfl := Option.some.inj hm
    rw [ht]
    exact hw record rfl r (by simpa [liveResources, hst, hres] using hr)
  unfold keep
  simp only
  split_ifs
  · refine Safe.bind (R := fun _ _ => True) ?_ (fun _ w₁ _ => hread _ w₁) fun _ _ _ => trivial
    refine Safe.bind ((Calms.inr _).mapErr w) (fun _ w₁ h₁ => ?_) fun _ _ _ => trivial
    refine Safe.bind (R := fun _ _ => True) (places_writeRecord
      (h₁.homed (hrotated _ rfl rfl rfl)) trivial fun _ => trivial)
      (fun _ w₂ _ => ?_) fun _ _ _ => trivial
    exact Safe.mono (Calms.bind (.write rfl rfl) (fun _ => .ret _) w₂) fun _ _ _ => trivial
  · exact hread _ w

lemma places_upToDate {loaded : LoadedSpec} {driver : Driver X XRet}
    {previous : Option AgentRecord} :
    Places (upToDate loaded driver previous) w fun x w' =>
      Calm w w' ∧ ∀ r, x = .ok (some r) → previous = some r := by
  unfold upToDate
  split
  · rename_i record
    split_ifs
    · refine Safe.bind (calms_deadResources driver record.resources w) (fun dead w' h => ?_)
        fun _ _ h => ⟨h, fun _ hr => by cases hr⟩
      refine ⟨h, fun r hr => ?_⟩
      by_cases hd : dead.isEmpty
      · simpa [hd] using hr
      · simp [hd] at hr
    · exact ⟨Calm.refl w, fun _ h => by cases h⟩
  · exact ⟨Calm.refl w, fun _ h => by cases h⟩

/-- **An apply** marks resources with the target they were created on. -/
lemma places_apply (hF : ∀ t q, Journals [] ((F.driver t).create q)) (loaded : LoadedSpec)
    (hw : Homed w.journal w.record) : Places (F.apply loaded) w fun _ _ => True := by
  refine Safe.bind (calms_target _ w) (fun _ w₁ h₁ => ?_) fun _ _ _ => trivial
  refine Safe.bind (calms_agentDir _ w₁) (fun _ w₂ h₂ => ?_) fun _ _ _ => trivial
  refine Safe.bind (calms_lock _ w₂) (fun _ w₃ h₃ => ?_) fun _ _ _ => trivial
  have h₃ := (h₁.trans h₂).trans h₃
  refine Safe.bind (places_readRecord (Q := fun x w' => w₃ = w' ∧ ∀ r, x = .ok r → w₃.record = r)
    ⟨rfl, by simp⟩ fun _ => ⟨rfl, by simp⟩) ?_ fun _ _ _ => trivial
  rintro previous _ ⟨rfl, hprev⟩
  have hprev := hprev previous rfl
  refine Safe.bind (calms_checkTenant _ _ w₃) (fun _ w₄ h₄ => ?_) fun _ _ _ => trivial
  refine Safe.bind (calms_recover _ F w₄) (fun found w₅ h₅ => ?_) fun _ _ _ => trivial
  refine Safe.bind (calms_resolveSecrets _ _ w₅) (fun secrets w₆ h₆ => ?_) fun _ _ _ => trivial
  refine Safe.bind (calms_controlKey _ w₆) (fun key w₇ h₇ => ?_) fun _ _ _ => trivial
  refine Safe.bind (R := fun x w' => Calm w₇ w' ∧ ∀ r, x = .ok (some r) → previous = some r) ?_ ?_
    fun _ _ _ => trivial
  · exact places_upToDate
  have hcalm := h₃.trans ((h₄.trans h₅).trans (h₆.trans h₇))
  rintro current w₈ ⟨h₈, hcur⟩
  have hcalm := hcalm.trans h₈
  have hhomed : Homed w₈.journal previous := by
    rw [← hprev, h₃.1]
    exact hcalm.homed hw
  cases current with
  | some record => exact places_keep (hcur record rfl ▸ hhomed)
  | none =>
      refine places_replace (hF _) hhomed ?_
      rw [← hprev, h₃.1, hcalm.1]

lemma places_destroyRecord {record : AgentRecord}
    (hw : ∀ r ∈ record.resources, home w.journal r.id = some record.target) :
    Places (F.destroyRecord agent record) w fun _ _ => True := by
  refine Safe.bind (calms_target _ w) (fun _ w₁ h₁ => ?_) fun _ _ _ => trivial
  refine Safe.bind (@places_each_live _ _ _ record _ _ (fun r v hr => ?_) fun r hr => ?_)
    (fun _ w₂ h₂ => ?_) fun _ _ _ => trivial
  · refine places_marked (Or.inr rfl) rfl rfl ?_
    rw [hr]
    exact congrArg some (Journal.entry_target ⟨record.generation, record.target, []⟩ .destroying).symm
  · rw [h₁.2]
    exact hw r (List.mem_reverse.mp hr)
  · refine Safe.bind (R := fun _ _ => True) (places_writeRecord ?_ trivial
      fun _ => trivial) (fun _ w₃ _ => ?_) fun _ _ _ => trivial
    · rintro n hn r hr
      obtain rfl := Option.some.inj hn
      simp [liveResources] at hr
    · exact Safe.mono (Calms.write rfl rfl w₃) fun _ _ _ => trivial

/-- **A destroy** marks resources with the target they were created on. -/
lemma places_destroy (hw : Homed w.journal w.record) :
    Places (F.destroy agent) w fun _ _ => True := by
  refine Safe.bind (calms_agentDir _ w) (fun _ w₁ h₁ => ?_) fun _ _ _ => trivial
  refine Safe.bind (Calms.ask (.journalExists agent) (fun _ => trivial) (fun w _ => Calm.refl w) w₁)
    (fun present w₂ h₂ => ?_) fun _ _ _ => trivial
  split
  · trivial
  refine Safe.bind (calms_lock _ w₂) (fun _ w₃ h₃ => ?_) fun _ _ _ => trivial
  refine Safe.bind (calms_recover _ F w₃) (fun found w₄ h₄ => ?_) fun _ _ _ => trivial
  have hcalm := (h₁.trans h₂).trans (h₃.trans h₄)
  refine Safe.bind (places_readRecord (Q := fun x w' => w₄ = w' ∧ ∀ r, x = .ok r → w₄.record = r)
    ⟨rfl, by simp⟩ fun _ => ⟨rfl, by simp⟩) ?_ fun _ _ _ => trivial
  rintro record _ ⟨rfl, hrec⟩
  have hrec := hrec record rfl
  cases record with
  | none => trivial
  | some record =>
      simp only
      split_ifs with hst
      · trivial
      refine Safe.bind (places_destroyRecord fun r hr => ?_) (fun _ _ _ => trivial)
        fun _ _ _ => trivial
      have hready : record.status = .ready := by
        cases h : record.status with
        | ready => rfl
        | destroyed => exact absurd h hst
      refine hcalm.homed hw record (hcalm.1.symm.trans hrec) r ?_
      simpa [liveResources, hready] using hr

end Programs

/-- **Remains name the right target.** In every directory left by a sequence of applies and
destroys, each stopped anywhere but between the commit entry of a move and the last line that
retires what it superseded, in which nothing is touched under the id of a live resource: each
remain names the target its resource was created on. -/
theorem remains_name_home (F : Fabric X XRet) (agent : String)
    (hF : ∀ t q, Journals [] ((F.driver t).create q)) {w : World}
    (h : Leaves (FreshWorld X XRet) (Begins F agent) (fun _ w => ¬ InMove w) {} w) :
    ∀ m ∈ remains w.journal, home w.journal m.resource.id = some m.target := by
  have hloc : Located w ∧ displaced w.journal = [] := by
    refine Leaves.inv (P := Placed) (J := Located)
      (I := fun w => Located w ∧ displaced w.journal = [])
      ⟨⟨?_, fun _ h => by cases h⟩, rfl⟩ ?_ ?_ (fun _ _ ht hstop => ⟨ht, not_not.mp hstop⟩) h
    · rw [homeward_iff]
      intro id m hm
      simp [pending, seen] at hm
    · rintro s c x _ hal ⟨⟨-, rfl⟩, hx⟩ hs
      exact hs.step c x hal hx
    · rintro s p s' ⟨op, -, rfl, rfl⟩ ⟨hs, -⟩
      have hs' : Located { s with phase := .recovering, gone := [], tried := [] } :=
        ⟨hs.remains, hs.record⟩
      refine ⟨?_, hs'⟩
      cases op with
      | apply loaded =>
          exact Safe.bind (places_apply hF loaded hs'.record) (fun _ _ _ => trivial)
            fun _ _ _ => trivial
      | destroy =>
          exact Safe.bind (places_destroy hs'.record) (fun _ _ _ => trivial) fun _ _ _ => trivial
  intro m hm
  refine hloc.1.remains m hm ?_
  rw [hloc.2]
  exact List.not_mem_nil

/-! ### On the local driver -/

section LocalDriver

variable {α : Type} {Q : α → List String → Prop} {T : List String}

/-- A local call that may fail. -/
lemma touches_call {β : Type} {c : Local.Call} {f : c.Ret → Except FabricError β}
    {k : β → Local.Create α} (h : ∀ b, Touches Q T (k b)) :
    Touches Q T ((Local.call c >>= fun x => .ofExcept (f x)) >>= k) := by
  rw [touches_bind, touches_bind]
  exact fun x => touches_ofExcept fun b _ => h b

/-- A resource is journaled, or the create ends. -/
lemma touches_journaled {r : Resource} {t : Touch} {k : Unit → Local.Create α}
    (ht : t.resource = r) (h : ∀ u, Touches Q (r.id :: T) (k u)) :
    Touches Q T ((Prog.ask (Sum.inl t) >>= fun x : Except FabricError Unit => .ofExcept x) >>= k) := by
  rw [touches_bind]
  subst ht
  exact ⟨fun u => h u, fun e => trivial⟩

/-- The local driver hands back the two processes it has touched. -/
lemma journals_local (q : CreateRequest) : Journals [] (Local.create q) := by
  refine touches_bind.mpr fun now => touches_bind.mpr ?_
  unfold Local.startLocalProxy Local.freeLocalPort
  refine touches_call fun tunnel => ?_
  refine touches_call fun http => touches_call fun https =>
    touches_call fun management => touches_call fun metrics => touches_call fun program => ?_
  refine touches_journaled rfl fun _ => touches_call fun identity => touches_journaled rfl
    fun _ => touches_call fun _ => ?_
  refine touches_call fun port => touches_call fun recipe => ?_
  refine touches_journaled rfl fun _ => touches_call fun identity' => touches_journaled rfl
    fun _ => ?_
  intro r hr
  simp only [List.mem_cons, List.not_mem_nil, or_false] at hr ⊢
  rcases hr with rfl | rfl
  · exact Or.inr (Or.inr (Or.inl rfl))
  · exact Or.inl rfl

end LocalDriver

/-- The agent of the sample, moved to another target. -/
def movedSpec : LoadedSpec := { demoSpec with spec := { demoSpec.spec with substrate := "other" } }

def movedApply : Eff Local.Call Local.Call.Ret FabricError Unit :=
  Operation.run onLocal "a" (.apply movedSpec)

lemma begins_movedApply (w : World) : Begins onLocal "a" w movedApply
    { w with phase := .recovering, gone := [], tried := [] } :=
  ⟨.apply movedSpec, fun _ h => by cases h; rfl, rfl, rfl⟩

/-- An apply that comes back, and one that moves the agent and is stopped right after its commit
entry: what it superseded is said to be on the new target. -/
theorem superseded_on_new_target :
    ¬ ∀ (F : Fabric Local.Call Local.Call.Ret) (agent : String),
      (∀ t q, Journals [] ((F.driver t).create q)) → ∀ w : World,
      Leaves localWorld (Begins F agent) (fun _ _ => True) {} w →
      ∀ m ∈ remains w.journal, home w.journal m.resource.id = some m.target := by
  intro h
  obtain ⟨q, hx⟩ := exec_reach (E := localWorld) (fun _ _ h => ⟨h, rfl⟩)
    (show (follow (worldCan _ _) localNext well 60 demoApply {}).isSome = true by decide +kernel)
  obtain ⟨q', hx'⟩ := exec_reach (E := localWorld) (fun _ _ h => ⟨h, rfl⟩)
    (show (follow (worldCan _ _) localNext well 29 movedApply
      { reach (worldCan _ _) localNext well 60 demoApply {} with
        phase := .recovering, gone := [], tried := [] }).isSome = true by
      decide +kernel)
  have hw := h onLocal "a" (fun _ q => journals_local q) _ (.run (.run .init (begins_demoApply {})
    hx trivial) (begins_movedApply _) hx' trivial)
  have hwrong : ¬ ∀ m ∈ remains (reach (worldCan _ _) localNext well 29 movedApply
      { reach (worldCan _ _) localNext well 60 demoApply {} with
        phase := .recovering, gone := [], tried := [] }).journal,
      home (reach (worldCan _ _) localNext well 29 movedApply
        { reach (worldCan _ _) localNext well 60 demoApply {} with
          phase := .recovering, gone := [], tried := [] }).journal m.resource.id =
        some m.target := by
    decide +kernel
  exact hwrong hw

/-- An apply that comes back, one that moves the agent and comes back, and a destroy that is stopped
after its first `destroying` line. -/
theorem remains_name_home_local : ∃ w : World, remains w.journal ≠ [] ∧
    w.record.map (·.target) = some "other" ∧
    ∀ m ∈ remains w.journal, home w.journal m.resource.id = some m.target := by
  obtain ⟨q, hx⟩ := exec_reach (step_checked (M := Fresh)) (n := 60)
    (p := demoApply) (s := {}) (by decide +kernel)
  obtain ⟨q', hx'⟩ := exec_reach (step_checked (M := Fresh)) (n := 60)
    (p := movedApply) (s := { reach (Checked Fresh) localNext well 60 demoApply {} with
      phase := .recovering, gone := [], tried := [] }) (by decide +kernel)
  obtain ⟨q'', hx''⟩ := exec_reach (step_checked (M := Fresh)) (n := 6)
    (p := demoDestroy) (s := { reach (Checked Fresh) localNext well 60 movedApply
      { reach (Checked Fresh) localNext well 60 demoApply {} with
        phase := .recovering, gone := [], tried := [] } with
      phase := .recovering, gone := [], tried := [] }) (by decide +kernel)
  refine ⟨_, ?_, ?_, remains_name_home onLocal "a" (fun _ q => journals_local q)
    (.run (.run (.run .init (begins_demoApply {}) hx (not_not.mpr (by decide +kernel)))
      (begins_movedApply _) hx' (not_not.mpr (by decide +kernel))) (begins_demoDestroy _) hx''
        (not_not.mpr (by decide +kernel)))⟩
  · decide +kernel
  · decide +kernel

end Bimo.Fabric
