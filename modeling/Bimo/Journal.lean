import Bimo.Substrate
import Mathlib.Data.List.Induction

/-!
The agent journal and what is read back from it.

`remains` folds the journal into the resources it shows were touched but not committed, or
were being retired or destroyed when the process stopped. The source also keeps a map of open
intents there, which no result depends on; `openIntents` is the one recovery uses.
-/

namespace Bimo

/-- The events the fabric writes. -/
inductive Event
  | intent | touching | created | ready | commit | rollback | retiring | destroying | cleared
  | destroyed | secretsRotated
  deriving DecidableEq, Repr

structure JournalEntry where
  event : Event
  generation : Option ℕ := none
  target : Option String := none
  resource : Option Resource := none
  fingerprint : Option String := none
  idempotencyKey : Option String := none
  detail : Option String := none
  retire : List Resource := []
  deriving DecidableEq, Repr

/-- Why a resource remains. -/
inductive Reason
  | uncommitted | superseded | retiring | destroying
  deriving DecidableEq, Repr

def Reason.text : Reason → String
  | .uncommitted => "created by an apply that did not commit"
  | .superseded => "superseded by a committed generation but not yet retired"
  | .retiring => "being retired when the process stopped"
  | .destroying => "being destroyed when the process stopped"

structure Remain where
  target : String
  resource : Resource
  reason : Reason
  deriving DecidableEq, Repr

/-- What the fold over the journal has seen. -/
structure Seen where
  pending : Std.TreeMap String Remain := ∅
  byGeneration : Std.TreeMap String ℕ := ∅

namespace Seen

def put (f : Seen) (target : Option String) (reason : Reason) (r : Resource) : Seen :=
  { f with pending := f.pending.insert r.id ⟨target.getD "", r, reason⟩ }

/-- Nothing of a committed generation is pending any more. -/
def drop (f : Seen) (g : ℕ) : Seen :=
  { f with pending := f.pending.filter fun id _ => f.byGeneration[id]? != some g }

def step (f : Seen) (e : JournalEntry) : Seen :=
  match e.event with
  | .touching | .created =>
    match e.resource, e.generation with
    | some r, some g =>
      { f.put e.target .uncommitted r with byGeneration := f.byGeneration.insert r.id g }
    | _, _ => f
  | .commit =>
    let kept := match e.generation with
      | some g => f.drop g
      | none => f
    e.retire.foldl (fun f r => f.put e.target .superseded r) kept
  | .retiring =>
    match e.resource with
    | some r => f.put e.target .retiring r
    | none => f
  | .destroying =>
    match e.resource with
    | some r => f.put e.target .destroying r
    | none => f
  | .cleared =>
    match e.resource with
    | some r => { f with pending := f.pending.erase r.id }
    | none => f
  | _ => f

end Seen

def seen (j : List JournalEntry) : Seen := j.foldl Seen.step {}

/-- The resources the journal says may exist but no committed record owns, by id. -/
def remains (j : List JournalEntry) : List Remain := (seen j).pending.toList.map Prod.snd

/-- One past the highest generation the record or the journal has used. -/
def nextGeneration (j : List JournalEntry) (previous : Option AgentRecord) : ℕ :=
  max ((j.filterMap (·.generation)).foldl max 0) (previous.elim 0 (·.generation)) + 1

def openStep (open_ : Std.TreeMap ℕ Unit) (e : JournalEntry) : Std.TreeMap ℕ Unit :=
  match e.event, e.generation with
  | .intent, some g => open_.insert g ()
  | .commit, some g | .rollback, some g => open_.erase g
  | _, _ => open_

def openIntents (j : List JournalEntry) : List ℕ := (j.foldl openStep ∅).keys

/-! ### The writer -/

/-- The journal as one operation holds it: the generation it writes for, its target, and the
resources touched so far. -/
structure Journal where
  generation : ℕ
  target : String
  touched : List Resource := []
  deriving DecidableEq, Repr

namespace Journal

def entry (j : Journal) (event : Event) : JournalEntry where
  event := event
  generation := if 0 < j.generation then some j.generation else none
  target := if j.target = "" then none else some j.target

/-- An entry about one resource. -/
def about (j : Journal) (event : Event) (r : Resource) : JournalEntry :=
  { j.entry event with resource := some r }

@[simp] lemma entry_event (j : Journal) (ev : Event) : (j.entry ev).event = ev := rfl

@[simp] lemma about_event (j : Journal) (ev : Event) (r : Resource) :
    (j.about ev r).event = ev := rfl

@[simp] lemma about_resource (j : Journal) (ev : Event) (r : Resource) :
    (j.about ev r).resource = some r := rfl

@[simp] lemma about_generation (j : Journal) (ev : Event) (r : Resource) :
    (j.about ev r).generation = if 0 < j.generation then some j.generation else none := rfl

def push (j : Journal) (r : Resource) : Journal := { j with touched := j.touched ++ [r] }

/-- The slot of a touched resource takes its created form. -/
def replaceFirst (r : Resource) : List Resource → Option (List Resource)
  | [] => none
  | x :: l => if x.id = r.id then some (r :: l) else (replaceFirst r l).map (x :: ·)

def settle (j : Journal) (r : Resource) : Journal :=
  match replaceFirst r j.touched with
  | some l => { j with touched := l }
  | none => j.push r

@[simp] lemma settle_generation (j : Journal) (r : Resource) :
    (j.settle r).generation = j.generation := by
  unfold settle
  split <;> rfl

@[simp] lemma settle_target (j : Journal) (r : Resource) : (j.settle r).target = j.target := by
  unfold settle
  split <;> rfl

@[simp] lemma entry_target (j : Journal) (ev : Event) : (j.entry ev).target.getD "" = j.target := by
  show (if j.target = "" then none else some j.target).getD "" = j.target
  split_ifs with h
  · exact h.symm
  · rfl

end Journal

/-! ### Reading the fold back -/

@[simp] lemma seen_append (j : List JournalEntry) (e : JournalEntry) :
    seen (j ++ [e]) = (seen j).step e := by
  simp [seen, List.foldl_append]

/-- What is pending under an id. -/
def pending (j : List JournalEntry) (id : String) : Option Remain := (seen j).pending[id]?

lemma mem_remains {j : List JournalEntry} {m : Remain} :
    m ∈ remains j ↔ ∃ id, pending j id = some m := by
  unfold remains pending
  rw [List.mem_map]
  constructor
  · rintro ⟨⟨id, m'⟩, hmem, rfl⟩
    exact ⟨id, Std.TreeMap.mem_toList_iff_getElem?_eq_some.mp hmem⟩
  · rintro ⟨id, h⟩
    exact ⟨(id, m), Std.TreeMap.mem_toList_iff_getElem?_eq_some.mpr h, rfl⟩

/-- The id a `touching` or `created` entry is about. -/
def touchedId (e : JournalEntry) : Option String :=
  match e.event, e.resource, e.generation with
  | .touching, some r, some _ | .created, some r, some _ => some r.id
  | _, _, _ => none

/-- The generation that touched an id last. -/
def touchedBy (j : List JournalEntry) (id : String) : Option ℕ := (seen j).byGeneration[id]?

namespace Seen

@[simp] lemma put_byGeneration (f : Seen) (t : Option String) (reason : Reason) (r : Resource) :
    (f.put t reason r).byGeneration = f.byGeneration := rfl

lemma put_pending (f : Seen) (t : Option String) (reason : Reason) (r : Resource) (id : String) :
    (f.put t reason r).pending[id]? =
      if r.id = id then some ⟨t.getD "", r, reason⟩ else f.pending[id]? := by
  simp [put, Std.TreeMap.getElem?_insert]

@[simp] lemma drop_byGeneration (f : Seen) (g : ℕ) :
    (f.drop g).byGeneration = f.byGeneration := rfl

lemma drop_pending (f : Seen) (g : ℕ) (id : String) :
    (f.drop g).pending[id]? = if f.byGeneration[id]? = some g then none else f.pending[id]? := by
  simp only [drop, Std.TreeMap.getElem?_filter']
  cases f.pending[id]? with
  | none => simp
  | some m => by_cases h : f.byGeneration[id]? = some g <;> simp [h, Option.filter]

@[simp] lemma putAll_byGeneration (l : List Resource) (t : Option String) (reason : Reason)
    (f : Seen) :
    (l.foldl (fun f r => f.put t reason r) f).byGeneration = f.byGeneration := by
  induction l generalizing f with
  | nil => rfl
  | cons r l ih => simp [ih]

/-- After a list is put down, an id is pending for one of the list or as before. -/
lemma putAll_pending (l : List Resource) (t : Option String) (reason : Reason) (f : Seen)
    (id : String) :
    (∃ r ∈ l, r.id = id ∧
      (l.foldl (fun f r => f.put t reason r) f).pending[id]? = some ⟨t.getD "", r, reason⟩) ∨
    ((∀ r ∈ l, r.id ≠ id) ∧
      (l.foldl (fun f r => f.put t reason r) f).pending[id]? = f.pending[id]?) := by
  induction l generalizing f with
  | nil => exact Or.inr ⟨by simp, rfl⟩
  | cons x l ih =>
      rcases ih (f.put t reason x) with ⟨r, hr, hid, h⟩ | ⟨hne, h⟩
      · exact Or.inl ⟨r, by simp [hr], hid, h⟩
      · rw [put_pending] at h
        by_cases hx : x.id = id
        · exact Or.inl ⟨x, by simp, hx, by simpa [hx] using h⟩
        · refine Or.inr ⟨fun r hr => ?_, by simpa [hx] using h⟩
          rcases List.mem_cons.mp hr with rfl | hr'
          · exact hx
          · exact hne r hr'

end Seen

section Steps

variable {j : List JournalEntry} {e : JournalEntry} {r : Resource} {g : ℕ}

/-- The entries that leave what is pending alone. -/
def Event.quiet : Event → Bool
  | .touching | .created | .commit | .retiring | .destroying | .cleared => false
  | _ => true

lemma seen_quiet (he : e.event.quiet) : seen (j ++ [e]) = seen j := by
  rw [seen_append]
  cases h : e.event <;> simp_all [Event.quiet, Seen.step]

lemma pending_quiet (he : e.event.quiet) : pending (j ++ [e]) = pending j := by
  funext id
  unfold pending
  rw [seen_quiet he]

lemma touchedBy_quiet (he : e.event.quiet) : touchedBy (j ++ [e]) = touchedBy j := by
  funext id
  unfold touchedBy
  rw [seen_quiet he]

lemma pending_touch (he : e.event = .touching ∨ e.event = .created) (hr : e.resource = some r)
    (hg : e.generation = some g) (id : String) :
    pending (j ++ [e]) id =
      if r.id = id then some ⟨e.target.getD "", r, .uncommitted⟩ else pending j id := by
  unfold pending
  rw [seen_append, ← Seen.put_pending]
  rcases he with he | he <;> simp [Seen.step, he, hr, hg]

lemma touchedBy_touch (he : e.event = .touching ∨ e.event = .created) (hr : e.resource = some r)
    (hg : e.generation = some g) (id : String) :
    touchedBy (j ++ [e]) id = if r.id = id then some g else touchedBy j id := by
  unfold touchedBy
  rcases he with he | he <;>
    simp [Seen.step, he, hr, hg, Std.TreeMap.getElem?_insert]

lemma pending_mark {k : Reason} (he : k = .retiring ∧ e.event = .retiring ∨
    k = .destroying ∧ e.event = .destroying) (hr : e.resource = some r) (id : String) :
    pending (j ++ [e]) id =
      if r.id = id then some ⟨e.target.getD "", r, k⟩ else pending j id := by
  unfold pending
  rw [seen_append, ← Seen.put_pending]
  rcases he with ⟨rfl, he⟩ | ⟨rfl, he⟩ <;> simp [Seen.step, he, hr]

lemma pending_cleared (he : e.event = .cleared) (hr : e.resource = some r) (id : String) :
    pending (j ++ [e]) id = if r.id = id then none else pending j id := by
  unfold pending
  simp [Seen.step, he, hr, Std.TreeMap.getElem?_erase]

lemma touchedBy_cleared (he : e.event = .cleared) : touchedBy (j ++ [e]) = touchedBy j := by
  funext id
  unfold touchedBy
  rw [seen_append]
  cases hr : e.resource <;> simp [Seen.step, he, hr]

/-- After a commit an id is pending because it is superseded, or as before unless it was
touched by the committed generation. -/
lemma pending_commit (he : e.event = .commit) (hg : e.generation = some g) (id : String) :
    (∃ r ∈ e.retire, r.id = id ∧
      pending (j ++ [e]) id = some ⟨e.target.getD "", r, .superseded⟩) ∨
    ((∀ r ∈ e.retire, r.id ≠ id) ∧
      pending (j ++ [e]) id = if touchedBy j id = some g then none else pending j id) := by
  unfold pending touchedBy
  rw [seen_append]
  simp only [Seen.step, he, hg]
  rcases Seen.putAll_pending e.retire e.target .superseded ((seen j).drop g) id with
    h | ⟨hne, h⟩
  · exact Or.inl h
  · exact Or.inr ⟨hne, h.trans (Seen.drop_pending _ _ _)⟩

end Steps

/-- **What one entry does to what is pending under an id**: nothing, it takes it away, or it
puts a resource of that id down for one of four reasons. -/
lemma pending_append_cases (j : List JournalEntry) (e : JournalEntry) (id : String) :
    (pending (j ++ [e]) id = pending j id ∧ touchedId e ≠ some id) ∨
    pending (j ++ [e]) id = none ∨
    ∃ r reason, pending (j ++ [e]) id = some ⟨e.target.getD "", r, reason⟩ ∧ r.id = id ∧
      (reason = .uncommitted ∧ touchedId e = some id ∨
        reason = .superseded ∧ e.event = .commit ∧ r ∈ e.retire ∨
        (reason = .retiring ∧ e.event = .retiring ∨
          reason = .destroying ∧ e.event = .destroying) ∧ e.resource = some r) := by
  cases he : e.event with
  | touching | created =>
      rcases hr : e.resource with _ | r
      · exact Or.inl ⟨by simp [pending, Seen.step, he, hr], by simp [touchedId, he, hr]⟩
      rcases hg : e.generation with _ | g
      · exact Or.inl ⟨by simp [pending, Seen.step, he, hr, hg], by simp [touchedId, he, hr, hg]⟩
      have hp := pending_touch (j := j) (by simp [he]) hr hg id
      by_cases hid : r.id = id
      · exact Or.inr (Or.inr ⟨r, _, by simpa [hid] using hp, hid,
          Or.inl ⟨rfl, by simp [touchedId, he, hr, hg, hid]⟩⟩)
      · exact Or.inl ⟨by simpa [hid] using hp, by simp [touchedId, he, hr, hg, hid]⟩
  | retiring =>
      rcases hr : e.resource with _ | r
      · exact Or.inl ⟨by simp [pending, Seen.step, he, hr], by simp [touchedId, he]⟩
      have hp := pending_mark (j := j) (k := .retiring) (by simp [he]) hr id
      by_cases hid : r.id = id
      · exact Or.inr (Or.inr ⟨r, _, by simpa [hid] using hp, hid, Or.inr (Or.inr (by simp))⟩)
      · exact Or.inl ⟨by simpa [hid] using hp, by simp [touchedId, he]⟩
  | destroying =>
      rcases hr : e.resource with _ | r
      · exact Or.inl ⟨by simp [pending, Seen.step, he, hr], by simp [touchedId, he]⟩
      have hp := pending_mark (j := j) (k := .destroying) (by simp [he]) hr id
      by_cases hid : r.id = id
      · exact Or.inr (Or.inr ⟨r, _, by simpa [hid] using hp, hid, Or.inr (Or.inr (by simp))⟩)
      · exact Or.inl ⟨by simpa [hid] using hp, by simp [touchedId, he]⟩
  | cleared =>
      rcases hr : e.resource with _ | r
      · exact Or.inl ⟨by simp [pending, Seen.step, he, hr], by simp [touchedId, he]⟩
      have hp := pending_cleared (j := j) he hr id
      by_cases hid : r.id = id
      · exact Or.inr (Or.inl (by simpa [hid] using hp))
      · exact Or.inl ⟨by simpa [hid] using hp, by simp [touchedId, he]⟩
  | commit =>
      have hput := Seen.putAll_pending e.retire e.target .superseded
        (match e.generation with | some g => (seen j).drop g | none => seen j) id
      have hstep : (seen j).step e = e.retire.foldl (fun f r => f.put e.target .superseded r)
          (match e.generation with | some g => (seen j).drop g | none => seen j) := by
        simp only [Seen.step, he]
      rw [← hstep, ← seen_append] at hput
      rcases hput with ⟨r, hr, hid, hp⟩ | ⟨-, hp⟩
      · exact Or.inr (Or.inr ⟨r, _, hp, hid, Or.inr (Or.inl ⟨rfl, rfl, hr⟩)⟩)
      · rcases hg : e.generation with _ | g
        · rw [hg] at hp
          exact Or.inl ⟨hp, by simp [touchedId, he]⟩
        · rw [hg] at hp
          have hp := hp.trans (Seen.drop_pending (seen j) g id)
          split_ifs at hp
          · exact Or.inr (Or.inl hp)
          · exact Or.inl ⟨hp, by simp [touchedId, he]⟩
  | intent | ready | rollback | destroyed | secretsRotated =>
      exact Or.inl ⟨congrFun (pending_quiet (by simp [he, Event.quiet])) id,
        by simp [touchedId, he]⟩

/-- What is pending under an id is a resource of that id. -/
lemma pending_id {j : List JournalEntry} {id : String} {m : Remain} (h : pending j id = some m) :
    m.resource.id = id := by
  induction j using List.reverseRecOn generalizing m with
  | nil => simp [pending, seen] at h
  | append_singleton j e ih =>
      rcases pending_append_cases j e id with ⟨hp, -⟩ | hp | ⟨r, reason, hp, hid, -⟩
      · exact ih (hp ▸ h)
      · simp [hp] at h
      · rw [hp] at h
        obtain rfl := Option.some.inj h
        exact hid

/-- A retire or a destroy of the id was journaled, and the id not touched since. -/
def Begun (j : List JournalEntry) (id : String) : Prop :=
  ∃ a e b, j = a ++ e :: b ∧ (e.event = .retiring ∨ e.event = .destroying) ∧
    (∃ r, e.resource = some r ∧ r.id = id) ∧ ∀ e' ∈ b, touchedId e' ≠ some id

/-- What is pending for one of these two reasons was begun. -/
lemma begun_of_pending {j : List JournalEntry} {id : String} {m : Remain}
    (h : pending j id = some m) (hm : m.reason = .retiring ∨ m.reason = .destroying) :
    Begun j id := by
  induction j using List.reverseRecOn generalizing m with
  | nil => simp [pending, seen] at h
  | append_singleton j e ih =>
      rcases pending_append_cases j e id with ⟨hp, hne⟩ | hp | ⟨r, reason, hp, hid, hwhy⟩
      · obtain ⟨a, e₀, b, rfl, h1, h2, h3⟩ := ih (hp ▸ h) hm
        refine ⟨a, e₀, b ++ [e], by simp, h1, h2, fun e' he' => ?_⟩
        rcases List.mem_append.mp he' with he' | he'
        · exact h3 e' he'
        · rw [List.mem_singleton.mp he']
          exact hne
      · simp [hp] at h
      · rw [hp] at h
        obtain rfl := Option.some.inj h
        rcases hwhy with ⟨rfl, -⟩ | ⟨rfl, -⟩ | ⟨hev, hr⟩
        · simp at hm
        · simp at hm
        · exact ⟨j, e, [], by simp, hev.imp And.right And.right, ⟨r, hr, hid⟩, by simp⟩

/-- Nothing remains exactly when nothing is pending. -/
lemma remains_eq_nil {j : List JournalEntry} : remains j = [] ↔ ∀ id, pending j id = none := by
  constructor
  · intro h id
    by_contra hne
    obtain ⟨m, hm⟩ := Option.ne_none_iff_exists'.mp hne
    have : m ∈ remains j := mem_remains.mpr ⟨id, hm⟩
    simp [h] at this
  · intro h
    refine List.eq_nil_iff_forall_not_mem.mpr fun m hm => ?_
    obtain ⟨id, hid⟩ := mem_remains.mp hm
    simp [h id] at hid

end Bimo
