import Bimo.SupervisorRuns

/-!
A deleted route stays deleted: once its deletion was answered, and until a `PUT` for it begins,
it is not in `ROUTES`, no process of it runs and no file of it is left.

`do_DELETE` acts on what it finds in `ROUTES`. A `PUT` registers at its end, and a `POST` writes
after it looked the route up, so either can bring a route or its files back after the deletion
was answered; a second deletion answers while the first is still stopping the process; and two
`PUT`s leave a process that neither of them registered. `Undisturbed` keeps `PUT` and `DELETE`
requests for a route from overlapping other requests for it, and `rmtree` from leaving files.
-/

namespace Bimo.Supervisor

open Local (ProxyPorts)

variable {S : Setup}

/-- **Gone.** -/
def State.Gone (s : State) (id : RouteId) : Prop :=
  s.routes.lookup id = none ∧ (∀ r, r.id = id → s.proc r ≠ .running) ∧ s.files id = []

/-- A `PUT` or `DELETE` overlaps no other request for its route, `rmtree` leaves nothing, and a
`PUT` meets no fault but an `OSError`. -/
def Undisturbed (S : Setup) : Threads.Condition Call Call.Ret State Doing
  | _, ns, i, .request, q => ∀ id j g v, target S q = some id → j ≠ i → ns j = some g →
    g.asked = some (v, id) → q.verb = .post ∧ v = .post
  | _, ns, i, c, r => ∀ g, ns i = some g → Tidy g c r

/-! ### The invariant -/

/-- No process of the route will run again. -/
def State.Shut (s : State) (id : RouteId) : Prop :=
  s.routes.lookup id = none ∧ (∀ r, r.id = id → ¬s.Held r) ∧ s.files id = []

lemma State.Shut.gone {s : State} {id : RouteId} (h : s.Shut id) (hb : Books s) : s.Gone id := by
  refine ⟨h.1, fun r hr hrun => h.2.1 r hr ⟨by simp [hrun], ?_⟩, h.2.2⟩
  by_contra hs
  exact hb.exited r (by simpa using hs) hrun

def Answered (s : State) : Prop := ∀ id, s.deleted id = true → s.Shut id

/-- What a request has of its route. -/
structure Part (s : State) (g : Doing) : Prop where
  popped : g.popped = true → ∃ v id, g.asked = some (v, id) ∧ v ≠ .post ∧
    s.routes.lookup id = none
  own : ∀ r, g.own = some r → g.asked = some (.put, r.id) ∧ g.popped = true
  victim : ∀ r, g.victim = some r → ∃ v, g.asked = some (v, r.id) ∧ g.popped = true
  dirty : g.dirty = true → g.popped = true
  found : ∀ id r, g.asked = some (.post, id) → g.found = some r → s.routes.lookup id = some r
  put : ∀ id, g.asked = some (.put, id) → s.deleted id = false

/-- Two requests for one route are both `POST`s. -/
def Overlap (g g' : Doing) : Prop :=
  ∀ v v' id, g.asked = some (v, id) → g'.asked = some (v', id) → v = .post ∧ v' = .post

/-- A process or a file that no registered route has is in the hands of a request. -/
structure Owned (s : State) (ns : ℕ → Option Doing) : Prop where
  held : ∀ r, s.Held r → s.routes.lookup r.id = some r ∨
    ∃ i g, ns i = some g ∧ (g.own = some r ∨ g.victim = some r)
  files : ∀ id, s.files id ≠ [] → s.routes.lookup id ≠ none ∨
    ∃ i g v, ns i = some g ∧ g.asked = some (v, id) ∧ g.dirty = true

/-- What keeps a deleted route deleted. -/
structure Settled (s : State) (ns : ℕ → Option Doing) : Prop where
  base : Base s ns
  each : Threads.Each Answered Part Overlap s ns
  owned : Owned s ns

section Steps

variable {s t : State} {ns : ℕ → Option Doing} {i : ℕ} {g g' : Doing} {r : Route}

/-- One thread moves. What was in its hands is registered, still there, or no longer. -/
lemma Owned.set (h : Owned s ns) (hi : ns i = some g)
    (hheld : ∀ r, t.Held r → t.routes.lookup r.id = some r ∨ (g'.own = some r ∨ g'.victim = some r) ∨
      (s.Held r ∧ s.routes.lookup r.id ≠ some r ∧ g.own ≠ some r ∧ g.victim ≠ some r))
    (hfiles : ∀ id, t.files id ≠ [] → t.routes.lookup id ≠ none ∨
      (∃ v, g'.asked = some (v, id) ∧ g'.dirty = true) ∨
      (s.files id ≠ [] ∧ s.routes.lookup id = none ∧
        ∀ v, g.asked = some (v, id) → g.dirty = false)) :
    Owned t (Function.update ns i (some g')) := by
  refine ⟨fun r hr => ?_, fun id hid => ?_⟩
  · obtain hreg | hg' | ⟨hs, hreg, ho, hv⟩ := hheld r hr
    · exact .inl hreg
    · exact .inr ⟨i, g', by simp, hg'⟩
    · obtain hreg' | ⟨j, x, hj, hx⟩ := h.held r hs
      · exact absurd hreg' hreg
      · have hne : j ≠ i := by
          rintro rfl
          obtain rfl := Option.some.inj (hi.symm.trans hj)
          exact hx.elim ho hv
        exact .inr ⟨j, x, by simpa [hne] using hj, hx⟩
  · obtain hreg | ⟨v, ha, hd⟩ | ⟨hs, hreg, hg⟩ := hfiles id hid
    · exact .inl hreg
    · exact .inr ⟨i, g', v, by simp, ha, hd⟩
    · obtain hreg' | ⟨j, x, v, hj, ha, hd⟩ := h.files id hs
      · exact absurd hreg hreg'
      · have hne : j ≠ i := by
          rintro rfl
          obtain rfl := Option.some.inj (hi.symm.trans hj)
          rw [hg v ha] at hd
          cases hd
        exact .inr ⟨j, x, v, by simpa [hne] using hj, ha, hd⟩

/-- A process is registered, in a thread's hands, or neither. -/
lemma handed (g : Doing) (hr : s.Held r) : s.routes.lookup r.id = some r ∨
    (g.own = some r ∨ g.victim = some r) ∨
    (s.Held r ∧ s.routes.lookup r.id ≠ some r ∧ g.own ≠ some r ∧ g.victim ≠ some r) := by
  tauto

/-- So is a file. -/
lemma filed (g : Doing) {id : RouteId} (hid : s.files id ≠ []) : s.routes.lookup id ≠ none ∨
    (∃ v, g.asked = some (v, id) ∧ g.dirty = true) ∨
    (s.files id ≠ [] ∧ s.routes.lookup id = none ∧
      ∀ v, g.asked = some (v, id) → g.dirty = false) := by
  by_cases hreg : s.routes.lookup id = none
  · by_cases hd : ∃ v, g.asked = some (v, id) ∧ g.dirty = true
    · exact .inr (.inl hd)
    · refine .inr (.inr ⟨hid, hreg, fun v ha => ?_⟩)
      by_contra hne
      exact hd ⟨v, ha, by simpa using hne⟩
  · exact .inl hreg

/-- The same processes and files, and as much in the thread's hands. -/
lemma Owned.same (h : Owned s ns) (hi : ns i = some g) (hheld : t.Held = s.Held)
    (hroutes : t.routes = s.routes) (hfiles : t.files = s.files)
    (hown : g'.own = g.own) (hvictim : g'.victim = g.victim) (hasked : g'.asked = g.asked)
    (hdirty : g.dirty = true → g'.dirty = true) : Owned t (Function.update ns i (some g')) := by
  refine h.set hi (fun r hr => ?_) fun id hid => ?_
  · rw [hheld] at hr
    rw [hroutes, hown, hvictim]
    exact handed g hr
  · rw [hfiles] at hid
    rw [hroutes, hasked]
    exact (filed g hid).imp_right (Or.imp_left fun ⟨v, ha, hd⟩ => ⟨v, ha, hdirty hd⟩)

/-- A thread that is done has no process and no file in its hands. -/
lemma Base.release (hb : Base s ns) (hi : ns i = some g) (hg : g.Clean True) :
    (∀ r, s.Held r → g.own ≠ some r ∧ g.victim ≠ some r) ∧ g.dirty = false := by
  refine ⟨fun r hr => ⟨fun ho => ?_, by simp [hg.victim]⟩, hg.dirty trivial⟩
  by_cases hl : g.launched = true
  · simp [hg.own hl] at ho
  · exact hr.1 (((hb.one i g hi).own r ho).2.2.2.mpr (by simpa using hl))

lemma Owned.drop (h : Owned s ns) (hi : ns i = some g)
    (hg : (∀ r, s.Held r → g.own ≠ some r ∧ g.victim ≠ some r) ∧ g.dirty = false) :
    Owned s (Function.update ns i none) := by
  refine ⟨fun r hr => (h.held r hr).imp_right ?_, fun id hid => (h.files id hid).imp_right ?_⟩
  · rintro ⟨j, x, hj, hx⟩
    have hne : j ≠ i := by
      rintro rfl
      obtain rfl := Option.some.inj (hi.symm.trans hj)
      exact hx.elim (hg.1 r hr).1 (hg.1 r hr).2
    exact ⟨j, x, by simpa [hne] using hj, hx⟩
  · rintro ⟨j, x, v, hj, ha, hd⟩
    have hne : j ≠ i := by
      rintro rfl
      obtain rfl := Option.some.inj (hi.symm.trans hj)
      rw [hg.2] at hd
      cases hd
    exact ⟨j, x, v, by simpa [hne] using hj, ha, hd⟩

/-- A new note, with nothing in hand before or after. -/
lemma Owned.renew (h : Owned s ns) (hi : ns i = some g)
    (hg : (∀ r, s.Held r → g.own ≠ some r ∧ g.victim ≠ some r) ∧ g.dirty = false)
    (hheld : t.Held = s.Held) (hroutes : t.routes = s.routes) (hfiles : t.files = s.files) :
    Owned t (Function.update ns i (some g')) := by
  refine h.set hi (fun r hr => ?_) fun id hid => ?_
  · rw [hheld] at hr
    rw [hroutes]
    by_cases hreg : s.routes.lookup r.id = some r
    · exact .inl hreg
    · exact .inr (.inr ⟨hr, hreg, hg.1 r hr⟩)
  · rw [hfiles] at hid
    rw [hroutes]
    by_cases hreg : s.routes.lookup id = none
    · exact .inr (.inr ⟨hid, hreg, fun _ _ => hg.2⟩)
    · exact .inl hreg

lemma Answered.alike (h : Answered s) (hheld : t.Held = s.Held) (hroutes : t.routes = s.routes)
    (hfiles : t.files = s.files) (hdel : ∀ id, t.deleted id = true → s.deleted id = true) :
    Answered t := by
  intro id hid
  unfold State.Shut
  rw [hheld, hroutes, hfiles]
  exact h id (hdel id hid)

lemma Part.alike (h : Part s g) (hroutes : t.routes = s.routes)
    (hdel : ∀ id, s.deleted id = false → t.deleted id = false) : Part t g := by
  refine ⟨?_, h.own, h.victim, h.dirty, ?_, fun id ha => hdel id (h.put id ha)⟩
  · simpa only [hroutes] using h.popped
  · simpa only [hroutes] using h.found

/-- A thread and another, both ways. -/
lemma Settled.overlap {j : ℕ} {x : Doing} (h : Settled s ns) (hi : ns i = some g) (hne : j ≠ i)
    (hx : ns j = some x) : Overlap x g ∧ Overlap g x :=
  ⟨h.each.two j i x g hne hx hi, h.each.two i j g x hne.symm hi hx⟩

lemma Overlap.same {x : Doing} (h : Overlap x g ∧ Overlap g x) (ha : g'.asked = g.asked) :
    Overlap x g' ∧ Overlap g' x := by
  unfold Overlap at h ⊢
  rwa [ha]

/-- A request other than a `POST` has its route to itself. -/
lemma Settled.alone {j : ℕ} {x : Doing} {v v' : Verb} {id : RouteId} (h : Settled s ns)
    (hi : ns i = some g) (hne : j ≠ i) (hx : ns j = some x) (ha : g.asked = some (v, id))
    (hv : v ≠ .post) : x.asked ≠ some (v', id) :=
  fun hx' => hv ((h.overlap hi hne hx).2 v v' id ha hx').1

/-- A note with the same routes in hand. -/
structure Doing.Keeps (g' g : Doing) : Prop where
  own : g'.own = g.own
  victim : g'.victim = g.victim
  asked : g'.asked = g.asked
  popped : g'.popped = g.popped
  found : g'.found = g.found ∨ g'.found = none
  dirty : g'.dirty = g.dirty ∨ (g'.dirty = true ∧ g.popped = true)

/-- A call that leaves routes, processes and files alone. -/
lemma Settled.same (h : Settled s ns) (hi : ns i = some g)
    (hb : Base t (Function.update ns i (some g'))) (hg : g'.Keeps g) (hheld : t.Held = s.Held)
    (hroutes : t.routes = s.routes) (hfiles : t.files = s.files)
    (hdel : t.deleted = s.deleted) : Settled t (Function.update ns i (some g')) := by
  obtain ⟨hown, hvictim, hasked, hpopped, hfound, hdirty⟩ := hg
  have hpart := h.each.one i g hi
  refine ⟨hb, h.each.set (h.each.all.alike hheld hroutes hfiles (by simp [hdel]))
    (fun j x hne hx hp => ⟨hp.alike hroutes (by simp [hdel]), Overlap.same (h.overlap hi hne hx)
      hasked⟩) ?_, h.owned.same hi hheld hroutes hfiles hown hvictim hasked ?_⟩
  · refine Part.alike (s := s) ⟨?_, ?_, ?_, ?_, ?_, ?_⟩ hroutes (by simp [hdel])
    · simpa only [hasked, hpopped] using hpart.popped
    · simpa only [hasked, hpopped, hown] using hpart.own
    · simpa only [hasked, hpopped, hvictim] using hpart.victim
    · rw [hpopped]
      obtain hd | hd := hdirty
      · rw [hd]
        exact hpart.dirty
      · exact fun _ => hd.2
    · obtain hf | hf := hfound
      · rw [hf, hasked]
        exact hpart.found
      · simp [hf]
    · simpa only [hasked] using hpart.put
  · intro hd
    obtain hd' | hd' := hdirty
    · rw [hd', hd]
    · exact hd'.1

/-- A route is looked up, by a `POST` or by a front connection. -/
lemma Settled.get (h : Settled s ns) (hi : ns i = some g) {id : RouteId}
    (ha : g.asked = none ∨ g.asked = some (.post, id)) {f : Option Route}
    (hf : f = s.routes.lookup id) (hb : Base s (Function.update ns i (some { g with found := f }))) :
    Settled s (Function.update ns i (some { g with found := f })) := by
  have hpart := h.each.one i g hi
  refine ⟨hb, h.each.set h.each.all (fun j x hne hx hp =>
    ⟨hp, Overlap.same (h.overlap hi hne hx) rfl⟩)
    ⟨hpart.popped, hpart.own, hpart.victim, hpart.dirty, ?_, hpart.put⟩,
    h.owned.same hi rfl rfl rfl rfl rfl rfl fun hd => hd⟩
  intro id' r ha' hr
  obtain ha | ha := ha
  · rw [ha] at ha'
    cases ha'
  · rw [ha] at ha'
    cases ha'
    exact hf ▸ hr

/-- A route leaves `ROUTES` for a request's hands. -/
lemma Settled.pop (h : Settled s ns) (hi : ns i = some g) {v : Verb} {id : RouteId}
    (ha : g.asked = some (v, id)) (hv : v ≠ .post) (hg : g.own = none ∧ g.victim = none ∧
      g.dirty = false) (hasked : g'.asked = g.asked) (hown : g'.own = none)
    (hvictim : g'.victim = s.routes.lookup id) (hdirty : g'.dirty = (s.routes.lookup id).isSome)
    (hpopped : g'.popped = true) (hput : ∀ id, g.asked = some (.put, id) → s.deleted id = false) :
    Settled { s with routes := s.routes.erase id } (Function.update ns i (some g')) := by
  have ha' := hasked.trans ha
  have herase : ∀ id', id' ≠ id → (s.routes.erase id).lookup id' = s.routes.lookup id' :=
    fun id' hne => AList.lookup_erase_ne hne
  have hnone : ∀ id', s.routes.lookup id' = none → (s.routes.erase id).lookup id' = none := by
    intro id' hid
    by_cases he : id' = id
    · rw [he, AList.lookup_erase]
    · rw [herase id' he, hid]
  refine ⟨h.base.pop hown hvictim, h.each.set ?_ (fun j x hne hx hp => ⟨⟨?_, hp.own, hp.victim,
    hp.dirty, ?_, hp.put⟩, Overlap.same (h.overlap hi hne hx) hasked⟩) ⟨?_, ?_, ?_, ?_, ?_, ?_⟩,
    h.owned.set hi ?_ ?_⟩
  · exact fun id' hd => ⟨hnone id' (h.each.all id' hd).1, (h.each.all id' hd).2⟩
  · intro hpop
    obtain ⟨v', id', hx', hv', hl⟩ := hp.popped hpop
    exact ⟨v', id', hx', hv', hnone id' hl⟩
  · intro id' r hx' hf
    have hid : id' ≠ id := by
      rintro rfl
      exact h.alone hi hne hx ha hv hx'
    exact (herase id' hid).trans (hp.found id' r hx' hf)
  · exact fun _ => ⟨v, id, ha', hv, AList.lookup_erase id s.routes⟩
  · exact fun r hr => absurd hr (by simp [hown])
  · intro r hr
    rw [hvictim] at hr
    exact ⟨v, by rw [ha', h.base.all.id_eq id r hr], hpopped⟩
  · exact fun _ => hpopped
  · intro id' r hx'
    rw [ha'] at hx'
    cases hx'
    exact absurd rfl hv
  · simpa only [hasked] using hput
  · intro r hr
    by_cases hreg : s.routes.lookup r.id = some r
    · by_cases hid : r.id = id
      · exact .inr (.inl (.inr (by rw [hvictim, ← hid, hreg])))
      · exact .inl ((herase r.id hid).trans hreg)
    · exact .inr (.inr ⟨hr, hreg, by simp [hg.1], by simp [hg.2.1]⟩)
  · intro id' hid'
    by_cases hreg : s.routes.lookup id' = none
    · exact .inr (.inr ⟨hid', hreg, fun _ _ => hg.2.2⟩)
    · by_cases hid : id' = id
      · subst hid
        exact .inr (.inl ⟨v, ha', by rw [hdirty]; exact Option.isSome_iff_ne_none.mpr hreg⟩)
      · exact .inl (by rwa [herase id' hid])

/-- A `PUT` registers its route: it had it to itself. -/
lemma Settled.register (h : Settled s ns) (hi : ns i = some g) (hown : g.own = some r)
    (hl : g.launched = true) (hasked : g'.asked = g.asked) (hg' : g'.own = none ∧
      g'.victim = g.victim ∧ g'.dirty = false ∧ g'.popped = false) :
    Settled { s with routes := s.routes.insert r.id r } (Function.update ns i (some g')) := by
  obtain ⟨hown', hvictim, hdirty, hpopped⟩ := hg'
  have hpart := h.each.one i g hi
  obtain ⟨ha, -⟩ := hpart.own r hown
  have hnone := (h.base.one i g hi).one (by simp [hown])
  have hother : ∀ id', id' ≠ r.id → (s.routes.insert r.id r).lookup id' = s.routes.lookup id' :=
    fun id' hne => AList.lookup_insert_ne hne
  refine ⟨h.base.register hi hown hl hown' hvictim, h.each.set ?_ (fun j x hne hx hp =>
    ⟨⟨?_, hp.own, hp.victim, hp.dirty, ?_, hp.put⟩, Overlap.same (h.overlap hi hne hx) hasked⟩)
    ⟨?_, ?_, ?_, ?_, ?_, ?_⟩, h.owned.set hi ?_ ?_⟩
  · intro id' hd
    have hid : id' ≠ r.id := by
      rintro rfl
      simp [hpart.put r.id ha] at hd
    exact ⟨(hother id' hid).trans (h.each.all id' hd).1, (h.each.all id' hd).2⟩
  · intro hpop
    obtain ⟨v', id', hx', hv', hl'⟩ := hp.popped hpop
    refine ⟨v', id', hx', hv', (hother id' ?_).trans hl'⟩
    rintro rfl
    exact h.alone hi hne hx ha (by decide) hx'
  · intro id' r' hx' hf
    refine (hother id' ?_).trans (hp.found id' r' hx' hf)
    rintro rfl
    exact h.alone hi hne hx ha (by decide) hx'
  · simp [hpopped]
  · simp [hown']
  · simp [hvictim, hnone]
  · simp [hdirty]
  · intro id' r' hx'
    rw [hasked, ha] at hx'
    cases hx'
  · simpa only [hasked] using hpart.put
  · intro r' hr'
    by_cases he : r' = r
    · subst he
      exact .inl (AList.lookup_insert s.routes)
    · by_cases hreg : s.routes.lookup r'.id = some r'
      · -- nothing was registered under the id
        obtain ⟨v, id, ha', -, hl'⟩ := hpart.popped (hpart.own r hown).2
        refine .inl ((hother r'.id fun hid => ?_).trans hreg)
        rw [ha] at ha'
        cases ha'
        rw [hid, hl'] at hreg
        cases hreg
      · refine .inr (.inr ⟨hr', hreg, fun ho => he ?_, by simp [hnone]⟩)
        exact Option.some.inj (ho.symm.trans hown)
  · intro id' hid'
    by_cases he : id' = r.id
    · subst he
      exact .inl (by simp)
    · by_cases hreg : s.routes.lookup id' = none
      · refine .inr (.inr ⟨hid', hreg, fun v hv => ?_⟩)
        rw [ha] at hv
        cases hv
        exact absurd rfl he
      · exact .inl (by rwa [hother id' he])

lemma Settled.stop (h : Settled s ns) (hi : ns i = some g)
    (hr : g.victim = some r ∨ g.own = some r) :
    Settled (s.stop r) (Function.update ns i (some (g.stopped r))) := by
  have hpart := h.each.one i g hi
  have hw := g.stopped_within r
  refine ⟨h.base.stop hi hr, h.each.set ?_ (fun j x hne hx hp => ⟨⟨hp.popped, hp.own, hp.victim,
    hp.dirty, hp.found, hp.put⟩, Overlap.same (h.overlap hi hne hx) rfl⟩)
    ⟨hpart.popped, ?_, ?_, hpart.dirty, hpart.found, hpart.put⟩, h.owned.set hi ?_ ?_⟩
  · intro id' hd
    refine ⟨(h.each.all id' hd).1, fun r' hr' hh => ?_, (h.each.all id' hd).2.2⟩
    exact (h.each.all id' hd).2.1 r' hr' ((held_stop s r r').mp hh).1
  · intro r' hr'
    obtain ho | ⟨ho, -⟩ := hw.own
    · simp [ho] at hr'
    · exact hpart.own r' (ho ▸ hr')
  · intro r' hr'
    obtain hv | hv := hw.victim
    · simp [hv] at hr'
    · exact hpart.victim r' (hv ▸ hr')
  · intro r' hr'
    obtain ⟨hh, hne⟩ := (held_stop s r r').mp hr'
    refine (handed g hh).imp_right (Or.imp_left (Or.imp (fun ho => ?_) fun hv => ?_))
    · simp [Doing.stopped, ho, hne]
    · simp [Doing.stopped, hv, hne]
  · exact fun id' hid' => filed g hid'

/-- A request begins, alone on its route unless it is a `POST` among `POST`s. -/
lemma Settled.began (h : Settled s ns) (hi : ns i = some {}) {q : Request}
    (hq : ∀ id j x v, target S q = some id → j ≠ i → ns j = some x → x.asked = some (v, id) →
      q.verb = .post ∧ v = .post)
    (hb : Base (s.began S q) (Function.update ns i (some (note S {} .request q)))) :
    Settled (s.began S q) (Function.update ns i (some (note S {} .request q))) := by
  have hasked : ∀ v id, (note S {} .request q).asked = some (v, id) →
      v = q.verb ∧ target S q = some id := by
    intro v id ha
    obtain ⟨id', ht, he⟩ := Option.map_eq_some_iff.mp ha
    cases he
    exact ⟨rfl, ht⟩
  have hdel : ∀ id, (s.began S q).deleted id = true → s.deleted id = true :=
    fun id hd => (Bool.and_eq_true_iff.mp hd).1
  refine ⟨hb, h.each.set (h.each.all.alike rfl rfl rfl hdel) (fun j x hne hx hp =>
    ⟨hp.alike rfl (by simp +contextual [State.began]), fun v v' id ha ha' => ?_,
      fun v v' id ha ha' => ?_⟩) ⟨by simp [note], by simp [note], by simp [note], by simp [note],
      by simp [note], fun id ha => ?_⟩, h.owned.renew hi (by simp) rfl rfl rfl⟩
  · obtain ⟨rfl, ht⟩ := hasked v' id ha'
    exact (hq id j x v ht hne hx ha).symm
  · obtain ⟨rfl, ht⟩ := hasked v id ha
    exact hq id j x v' ht hne hx ha'
  · obtain ⟨hv, ht⟩ := hasked _ id ha
    simp [State.began, ht, ← hv]

/-- A request is answered with nothing left in its hands; if it was a deletion, nothing of the
route is in anybody's. -/
lemma Settled.answered (h : Settled s ns) (hi : ns i = some g) {q : Request} {code : ℕ}
    (hg : g.Clean True) (hq : q.verb = .delete → ∀ id, target S q = some id → code = 200 →
      g.asked = some (.delete, id) ∧ g.popped = true ∧ g.own = none)
    (hb : Base (s.answered S q code) (Function.update ns i (some {}))) :
    Settled (s.answered S q code) (Function.update ns i (some {})) := by
  have hrel := h.base.release hi hg
  have hdel : ∀ id, (s.answered S q code).deleted id = true → s.deleted id = true ∨
      g.asked = some (.delete, id) ∧ g.popped = true ∧ g.own = none := by
    intro id hd
    simp only [State.answered, Bool.or_eq_true, Bool.and_eq_true, beq_iff_eq] at hd
    exact hd.imp_right fun hd => hq hd.1.1 id hd.1.2 hd.2
  have hshut : ∀ id, g.asked = some (.delete, id) → g.popped = true → g.own = none →
      s.Shut id := by
    intro id ha hpop hown
    obtain ⟨v, id', ha', -, hl⟩ := (h.each.one i g hi).popped hpop
    rw [ha] at ha'
    cases ha'
    have hothers : ∀ j x v, ns j = some x → x.asked = some (v, id) → x = g := by
      intro j x v hj hx
      by_cases hne : j = i
      · subst hne
        exact (Option.some.inj (hi.symm.trans hj)).symm
      · exact absurd hx (h.alone hi hne hj ha (by decide))
    refine ⟨hl, fun r hr hh => ?_, by_contra fun hf => ?_⟩
    · obtain hreg | ⟨j, x, hj, hx⟩ := h.owned.held r hh
      · rw [hr, hl] at hreg
        cases hreg
      · have hx' : ∃ v, x.asked = some (v, id) := by
          obtain hx | hx := hx
          · exact ⟨_, hr ▸ ((h.each.one j x hj).own r hx).1⟩
          · obtain ⟨v, hv, -⟩ := (h.each.one j x hj).victim r hx
            exact ⟨v, hr ▸ hv⟩
        obtain ⟨v, hv⟩ := hx'
        obtain rfl := hothers j x v hj hv
        simp [hown, hg.victim] at hx
    · obtain hreg | ⟨j, x, v, hj, hx, hd⟩ := h.owned.files id hf
      · exact hreg hl
      · obtain rfl := hothers j x v hj hx
        simp [hrel.2] at hd
  refine ⟨hb, h.each.set ?_ (fun j x hne hx hp => ⟨⟨hp.popped, hp.own, hp.victim, hp.dirty,
    hp.found, fun id ha => ?_⟩, by simp [Overlap], by simp [Overlap]⟩)
    ⟨by simp, by simp, by simp, by simp, by simp, by simp⟩, h.owned.renew hi hrel rfl rfl rfl⟩
  · intro id hd
    obtain hd | ⟨ha, hpop, hown⟩ := hdel id hd
    · exact h.each.all id hd
    · exact hshut id ha hpop hown
  · -- a `PUT` in progress is not overlapped by the deletion
    by_contra hd
    obtain hd | ⟨ha', -, -⟩ := hdel id (by simpa using hd)
    · simp [hp.put id ha] at hd
    · exact h.alone hi hne hx ha' (by decide) ha

/-- Files are written, for a `PUT` or for a registered route. -/
lemma Settled.write (h : Settled s ns) (hi : ns i = some g) {dir : RouteId} {name text : String}
    (hc : (g.asked = some (.put, dir) ∧ g.popped = true) ∨
      (g.asked = some (.post, dir) ∧ g.popped = false ∧ g.found ≠ none))
    (hb : Base (s.write dir name text) (Function.update ns i
      (some { g with dirty := g.dirty || g.popped }))) :
    Settled (s.write dir name text) (Function.update ns i
      (some { g with dirty := g.dirty || g.popped })) := by
  have hpart := h.each.one i g hi
  have hother : ∀ id, id ≠ dir → (s.write dir name text).files id = s.files id := by
    intro id hne
    simp [State.write, hne]
  have hfine : s.routes.lookup dir ≠ none ∨ g.popped = true := by
    obtain ⟨-, hp⟩ | ⟨ha, -, hf⟩ := hc
    · exact .inr hp
    · obtain ⟨r, hr⟩ := Option.ne_none_iff_exists'.mp hf
      exact .inl (by simp [hpart.found dir r ha hr])
  have hasked : ∃ v, g.asked = some (v, dir) := by
    obtain ⟨ha, -⟩ | ⟨ha, -⟩ := hc
    · exact ⟨_, ha⟩
    · exact ⟨_, ha⟩
  refine ⟨hb, h.each.set ?_ (fun j x hne hx hp => ⟨hp.alike rfl (by simp [State.write]),
    Overlap.same (h.overlap hi hne hx) rfl⟩)
    ⟨hpart.popped, hpart.own, hpart.victim, ?_, hpart.found, hpart.put⟩, h.owned.set hi ?_ ?_⟩
  · intro id hd
    have hd' : s.deleted id = true := hd
    have hne : id ≠ dir := by
      rintro rfl
      obtain ⟨ha, -⟩ | ⟨ha, -, hf⟩ := hc
      · simp [hpart.put id ha] at hd'
      · obtain ⟨r, hr⟩ := Option.ne_none_iff_exists'.mp hf
        have hl := (h.each.all id hd').1
        simp [hpart.found id r ha hr] at hl
    exact ⟨(h.each.all id hd').1, (h.each.all id hd').2.1,
      (hother id hne).trans (h.each.all id hd').2.2⟩
  · intro hd
    obtain hd | hd := Bool.or_eq_true_iff.mp hd
    · exact hpart.dirty hd
    · exact hd
  · exact fun r hr => handed g hr
  · intro id hid
    by_cases hreg : s.routes.lookup id = none
    · by_cases hv : ∃ v, g.asked = some (v, id)
      · obtain ⟨v, hv⟩ := hv
        by_cases hd : (g.dirty || g.popped) = true
        · exact .inr (.inl ⟨v, hv, hd⟩)
        · rw [Bool.or_eq_true_iff, not_or] at hd
          have hne : id ≠ dir := by
            rintro rfl
            exact hfine.elim (fun hl => hl hreg) hd.2
          rw [hother id hne] at hid
          exact .inr (.inr ⟨hid, hreg, fun _ _ => by simpa using hd.1⟩)
      · have hne : id ≠ dir := by
          rintro rfl
          exact hv hasked
        rw [hother id hne] at hid
        exact .inr (.inr ⟨hid, hreg, fun v hv' => absurd ⟨v, hv'⟩ hv⟩)
    · exact .inl hreg

/-- A directory goes. -/
lemma Settled.remove (h : Settled s ns) (hi : ns i = some g) {dir : RouteId} {v : Verb}
    (ha : g.asked = some (v, dir))
    (hb : Base (s.remove dir []) (Function.update ns i (some (g.removed [])))) :
    Settled (s.remove dir []) (Function.update ns i (some (g.removed []))) := by
  have hpart := h.each.one i g hi
  have hsub : ∀ id, (s.remove dir []).files id ≠ [] → s.files id ≠ [] ∧ id ≠ dir := by
    intro id hid
    by_cases he : id = dir
    · subst he
      simp [State.remove] at hid
    · exact ⟨by simpa [State.remove, he] using hid, he⟩
  refine ⟨hb, h.each.set ?_ (fun j x hne hx hp => ⟨hp.alike rfl (by simp [State.remove]),
    Overlap.same (h.overlap hi hne hx) rfl⟩)
    ⟨hpart.popped, hpart.own, hpart.victim, by simp [Doing.removed], hpart.found, hpart.put⟩,
    h.owned.set hi ?_ ?_⟩
  · intro id hd
    refine ⟨(h.each.all id hd).1, (h.each.all id hd).2.1, by_contra fun hf => ?_⟩
    exact (hsub id hf).1 (h.each.all id hd).2.2
  · exact fun r hr => handed g hr
  · intro id hid
    obtain ⟨hf, hne⟩ := hsub id hid
    by_cases hreg : s.routes.lookup id = none
    · refine .inr (.inr ⟨hf, hreg, fun v' hv => ?_⟩)
      rw [ha] at hv
      cases hv
      exact absurd rfl hne
    · exact .inl hreg

/-- A route is created. -/
lemma Settled.newRoute (h : Settled s ns) (hi : ns i = some g)
    (ha : g.asked = some (.put, r.id)) (hpop : g.popped = true) (hown : g.own = none)
    (hb : Base { s with made := s.made + 1 }
      (Function.update ns i (some { g with own := some r, launched := false }))) :
    Settled { s with made := s.made + 1 }
      (Function.update ns i (some { g with own := some r, launched := false })) := by
  have hpart := h.each.one i g hi
  refine ⟨hb, h.each.set (h.each.all.alike rfl rfl rfl (by simp)) (fun j x hne hx hp =>
    ⟨hp.alike rfl (by simp), Overlap.same (h.overlap hi hne hx) rfl⟩)
    ⟨hpart.popped, ?_, hpart.victim, hpart.dirty, hpart.found, hpart.put⟩, h.owned.set hi ?_ ?_⟩
  · rintro r' ⟨⟩
    exact ⟨ha, hpop⟩
  · intro r' hr'
    by_cases hreg : s.routes.lookup r'.id = some r'
    · exact .inl hreg
    · by_cases hv : g.victim = some r'
      · exact .inr (.inl (.inr hv))
      · exact .inr (.inr ⟨hr', hreg, by simp [hown], hv⟩)
  · exact fun id hid => filed g hid

/-- A process is launched, in its `PUT`'s hands. -/
lemma Settled.launch (h : Settled s ns) (hi : ns i = some g) (hown : g.own = some r)
    (hb : Base { s with proc := Function.update s.proc r .running }
      (Function.update ns i (some { g with launched := true }))) :
    Settled { s with proc := Function.update s.proc r .running }
      (Function.update ns i (some { g with launched := true })) := by
  have hpart := h.each.one i g hi
  obtain ⟨ha, -⟩ := hpart.own r hown
  have hheld : ∀ r', State.Held { s with proc := Function.update s.proc r .running } r' →
      s.Held r' ∨ r' = r := by
    intro r' hh
    by_cases he : r' = r
    · exact .inr he
    · exact .inl ⟨by simpa [he] using hh.1, hh.2⟩
  refine ⟨hb, h.each.set ?_ (fun j x hne hx hp =>
    ⟨hp.alike rfl (by simp), Overlap.same (h.overlap hi hne hx) rfl⟩)
    ⟨hpart.popped, hpart.own, hpart.victim, hpart.dirty, hpart.found, hpart.put⟩,
    h.owned.set hi ?_ ?_⟩
  · intro id hd
    refine ⟨(h.each.all id hd).1, fun r' hr' hh => ?_, (h.each.all id hd).2.2⟩
    obtain hh | rfl := hheld r' hh
    · exact (h.each.all id hd).2.1 r' hr' hh
    · have hd' : s.deleted id = true := hd
      simp [hpart.put id (hr' ▸ ha)] at hd'
  · intro r' hr'
    obtain hh | rfl := hheld r' hr'
    · exact handed g hh
    · exact .inr (.inl (.inl hown))
  · exact fun id hid => filed g hid

end Steps

/-- **A call keeps deleted routes deleted**, where requests for a route do not disturb each
other. -/
lemma settled_call {s : State} {ns : ℕ → Option Doing} {i : ℕ} {g : Doing} {c : Call}
    {r : c.Ret} (hi : ns i = some g) (hc : Allowed S True g c) (hr : can s c r)
    (hM : Undisturbed S s ns i c r) (h : Settled s ns) :
    Settled (next S s c r) (Function.update ns i (some (note S g c r))) := by
  have hb := base_call hi hc hr h.base
  have hpart := h.each.one i g hi
  cases c with
  | request =>
      obtain rfl : g = {} := hc
      exact h.began hi hM hb
  | reply q code b => exact h.answered hi hc.1 hc.2 hb
  | popTaken id =>
      obtain rfl : r = (s.routes.lookup id, s.taken id) := hr
      obtain ⟨ha, hidle⟩ := hc
      refine h.pop hi ha (by decide) ?_ rfl (by rw [hidle]; rfl) rfl rfl rfl hpart.put
      rw [hidle]
      exact ⟨rfl, rfl, rfl⟩
  | pop id =>
      obtain rfl : r = s.routes.lookup id := hr
      obtain ⟨ha, hidle⟩ := hc
      refine h.pop hi ha (by decide) ?_ rfl (by rw [hidle]; rfl) rfl rfl rfl hpart.put
      rw [hidle]
      exact ⟨rfl, rfl, rfl⟩
  | get id =>
      obtain rfl : r = s.routes.lookup id := hr
      exact h.get hi hc.1 rfl hb
  | register id route =>
      obtain ⟨-, hown, rfl, hl⟩ := hc
      exact h.register hi hown hl rfl ⟨rfl, rfl, rfl, rfl⟩
  | stop route => exact h.stop hi hc
  | rmtree dir =>
      obtain rfl : r = [] := hM g hi
      obtain ⟨v, ha⟩ := hc
      exact h.remove hi ha hb
  | newRoute id token source ports =>
      obtain rfl : r = { ref := s.made, id, tokenSha256 := token, source, ports } := hr
      obtain ⟨ha, -, -, hown, hpop⟩ := hc
      exact h.newRoute hi ha hpop hown hb
  | writePrivate dir name text =>
      rcases r with e | _
      · exact h.write hi hc hb
      · exact h.write hi hc hb
  | launch route =>
      rcases r with e | _
      · exact h.same hi hb ⟨rfl, rfl, rfl, rfl, .inl rfl, .inl rfl⟩ rfl rfl rfl rfl
      · exact h.launch hi hc.1 hb
  | restart route =>
      cases r with
      | false => exact h.same hi hb ⟨rfl, rfl, rfl, rfl, .inl rfl, .inl rfl⟩ rfl rfl rfl rfl
      | true =>
          exact h.same hi hb ⟨rfl, rfl, rfl, rfl, .inl rfl, .inl rfl⟩
            (held_restart (hr rfl).2.1) rfl rfl rfl
  | makedirs dir =>
      rcases r with e | _
      · exact h.same hi hb ⟨rfl, rfl, rfl, rfl, .inl rfl, .inl rfl⟩ rfl rfl rfl rfl
      · exact h.same hi hb ⟨rfl, rfl, rfl, rfl, .inl rfl, .inr ⟨rfl, hc.2⟩⟩ rfl rfl rfl rfl
  | splice route =>
      cases r <;> exact h.same hi hb ⟨rfl, rfl, rfl, rfl, .inr rfl, .inl rfl⟩ rfl rfl rfl rfl
  | values | portFree | probes | poll | createConnection | readKey | reload | head =>
      exact h.same hi hb ⟨rfl, rfl, rfl, rfl, .inl rfl, .inl rfl⟩ rfl rfl rfl rfl

lemma settled_keeps :
    Threads.Keeps (supervisor S) (Undisturbed S) (Allowed S True) (Doing.Clean True) Settled where
  start s ns i g p hi hb h := by
    obtain ⟨rfl, -⟩ := hb
    refine ⟨base_start h.base, h.each.set h.each.all (fun j x hne hx hp => ⟨hp, ?_⟩) ?_, ?_⟩
    · simp [Overlap]
    · constructor <;> simp
    · -- nobody was where the thread starts
      refine ⟨fun r hr => (h.owned.held r hr).imp_right ?_,
        fun id hid => (h.owned.files id hid).imp_right ?_⟩
      · rintro ⟨j, x, hj, hx⟩
        have hne : j ≠ i := by
          rintro rfl
          rw [hi] at hj
          cases hj
        exact ⟨j, x, by simpa [hne] using hj, hx⟩
      · rintro ⟨j, x, v, hj, hx⟩
        have hne : j ≠ i := by
          rintro rfl
          rw [hi] at hj
          cases hj
        exact ⟨j, x, v, by simpa [hne] using hj, hx⟩
  call s ns i g c r t hi hc hr hM h := by
    obtain ⟨hr, rfl⟩ := hr
    exact settled_call hi hc hr hM h
  leave s ns i g hi hg h :=
    ⟨h.base.drop i, h.each.drop i, h.owned.drop hi (h.base.release hi hg)⟩
  idle s ns t ht h := by
    obtain ⟨m, hm⟩ := ht
    have hb := base_tick hm h.base
    have halike : t.Held = s.Held ∧ t.routes = s.routes ∧ t.files = s.files ∧
        t.deleted = s.deleted := by
      obtain ⟨r, p, -, -, -, rfl⟩ | ⟨r, -, rfl⟩ := tick_cases hm
      · exact ⟨rfl, rfl, rfl, rfl⟩
      · exact ⟨funext fun r' => propext (held_exit s r r'), rfl, rfl, rfl⟩
    obtain ⟨hheld, hroutes, hfiles, hdel⟩ := halike
    refine ⟨hb, h.each.move (h.each.all.alike hheld hroutes hfiles (by simp [hdel]))
      fun j x _ hp => hp.alike hroutes (by simp [hdel]), ?_, ?_⟩
    · simpa only [hheld, hroutes] using h.owned.held
    · simpa only [hroutes, hfiles] using h.owned.files

/-- **A deleted route stays deleted.** In every interleaving in which a `PUT` or `DELETE` overlaps
no other request for its route, `rmtree` leaves nothing and a `PUT` meets no fault but an
`OSError`, a route whose deletion was answered with no `PUT` begun since is not in `ROUTES`, no
process of it runs and no file of it is left. -/
theorem deleted_stays_gone {c : Threads.Config Call Call.Ret Fault Unit State Doing}
    (h : Threads.Run (supervisor S) (Undisturbed S) (.empty .empty) c) (id : RouteId)
    (hd : c.shared.deleted id = true) : c.shared.Gone id := by
  have hset : Settled c.shared c.notes := by
    refine Threads.inv (Sees True) ?_ safe_begins clean_of_leaves settled_keeps ?_ h
    · intro s ns i g c r t hi hI hr hM
      refine ⟨told hI.base.all hr.1, fun _ => ?_⟩
      cases c with
      | request => trivial
      | _ => exact hM g hi
    · refine ⟨base_empty, ⟨?_, by simp, by simp⟩, ⟨?_, ?_⟩⟩
      · simp [Answered, State.empty]
      · simp [State.empty, State.Held]
      · simp [State.empty]
  exact (hset.each.all id hd).gone hset.base.all

/-- A request that nobody is in the way of, answered where nothing fails. -/
def aloneOf (asks : ℕ → Request) (c : Threads.Config Call Call.Ret Fault Unit State Doing)
    (i : ℕ) : Call → Bool
  | .request => (List.range 2).all fun j => j == i ||
    (c.notes j).all fun g => decide (g.asked.map Prod.snd ≠ target demoSetup (asks i))
  | _ => true

lemma undisturbed_aloneOf {asks : ℕ → Request} {front : RouteId}
    {c : Threads.Config Call Call.Ret Fault Unit State Doing} {i : ℕ} {o : Call}
    (hn : ∀ j, 2 ≤ j → c.threads j = none) (hok : aloneOf asks c i o = true) :
    Undisturbed demoSetup c.shared c.notes i o (demoAnswer asks front i c.shared o) := by
  cases o with
  | request =>
      intro id j g v ht hne hj ha
      simp only [aloneOf, List.all_eq_true, List.mem_range, Bool.or_eq_true, beq_iff_eq,
        Option.all_eq_true, decide_eq_true_eq] at hok
      by_cases h2 : j < 2
      · refine absurd ?_ ((hok j h2).resolve_left hne g hj)
        rw [ha]
        exact ht.symm
      · simp [Threads.Config.notes, hn j (by omega)] at hj
  | makedirs dir =>
      intro g _ _ he
      cases h : c.shared.dirs dir <;> simp only [demoAnswer, h] at he <;> cases he
  | launch route =>
      intro g _ _ he
      cases h : c.shared.hasKey route.id <;> simp only [demoAnswer, h] at he <;> cases he
  | writePrivate => exact fun _ _ _ he => by cases he
  | rmtree => exact fun _ _ => rfl
  | _ => exact fun _ _ => trivial

/-! ### A `PUT` overtaken by a deletion -/

/-- The first thread starts route `a`, the second deletes it. -/
def putDelete (i : ℕ) : Request := demoRequest (if i = 0 then .put else .delete) "a"

/-- A route is started, and then deleted. -/
theorem deleted_stays_gone_after_put :
    ∃ c, Threads.Run (supervisor demoSetup) (Undisturbed demoSetup) (.empty .empty) c ∧
      c.shared.deleted "a" = true ∧ c.shared.stopping (demoRoute 0 "a") = true ∧
      c.shared.Gone "a" := by
  have hrun : (demo putDelete "a" [control demoSetup, control demoSetup] (aloneOf putDelete)
      (turns 15 0 ++ binds (demoRoute 0 "a") 20001 ++
        turns 4 0 ++ turns 5 1)).any (fun c =>
          c.shared.deleted "a" && c.shared.stopping (demoRoute 0 "a")) = true := by decide +kernel
  obtain ⟨c, hc, hx⟩ := (Option.any_eq_true _ _).mp hrun
  rw [Bool.and_eq_true] at hx
  have hreach : Threads.Run (supervisor demoSetup) (Undisturbed demoSetup) (.empty .empty) c := by
    refine run_demo (by simp) ?_ hc
    exact fun _ _ _ _ hn hok => undisturbed_aloneOf hn hok
  exact ⟨c, hreach, hx.1, hx.2, deleted_stays_gone hreach "a" hx.1⟩

/-- The deletion is answered while the `PUT` waits for its process; the `PUT` then registers the
route, whose process runs and whose files are there. -/
theorem put_outlives_delete :
    ∃ c, Threads.Run (supervisor demoSetup) Threads.always (.empty .empty) c ∧
      c.shared.deleted "a" = true ∧ c.shared.routes.lookup "a" = some (demoRoute 0 "a") ∧
      c.shared.proc (demoRoute 0 "a") = .running ∧ c.shared.files "a" ≠ [] ∧
      ¬c.shared.Gone "a" := by
  have hrun : (demo putDelete "a" [control demoSetup, control demoSetup] (fun _ _ _ => true)
      (turns 15 0 ++ binds (demoRoute 0 "a") 20001 ++
        turns 3 1 ++ turns 3 0)).any (fun c =>
          c.shared.deleted "a" &&
          decide (c.shared.routes.lookup "a" = some (demoRoute 0 "a")) &&
          decide (c.shared.proc (demoRoute 0 "a") = .running) &&
          decide (c.shared.files "a" ≠ [])) = true := by decide +kernel
  obtain ⟨c, hc, hx⟩ := (Option.any_eq_true _ _).mp hrun
  simp only [Bool.and_eq_true, decide_eq_true_eq] at hx
  refine ⟨c, run_demo (by simp) (fun _ _ _ _ _ _ => trivial) hc, hx.1.1.1, hx.1.1.2, hx.1.2,
    hx.2, fun hgone => hx.2 hgone.2.2⟩

end Bimo.Supervisor
