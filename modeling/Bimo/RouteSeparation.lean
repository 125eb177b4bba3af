import Bimo.SupervisorRuns

/-!
Route separation: no two registered routes share a port, and the front never splices a
connection into another route's process.

A `PUT` looks at the ports of `ROUTES` in one section and registers in another, so the check
says nothing about ports that are in use but not in `ROUTES`: those of another `PUT` in between
its two sections, of a route that was taken out and not stopped yet, or of a route a front
connection was just let through to. `Unclaimed` rules exactly those out at the section, and then
every interleaving keeps the routes apart. Two `PUT`s for one port show that it is needed.
-/

namespace Bimo.Supervisor

open Local (ProxyPorts)

variable {S : Setup}

def Apart (p q : ProxyPorts) : Prop := (wanted p).Disjoint (wanted q)

instance (p q : ProxyPorts) : Decidable (Apart p q) :=
  inferInstanceAs (Decidable (∀ x ∈ wanted p, x ∉ wanted q))

lemma Apart.symm {p q : ProxyPorts} (h : Apart p q) : Apart q p :=
  fun _ hq hp => h hp hq

lemma Apart.tunnel {p q : ProxyPorts} (h : Apart p q) : p.tunnel ∉ wanted q :=
  h (by simp [wanted])

/-- **Separation.** -/
def State.Separate (s : State) : Prop :=
  (∀ id id' r r', s.routes.lookup id = some r → s.routes.lookup id' = some r' → id ≠ id' →
    Apart r.ports r'.ports) ∧
  ∀ x ∈ s.spliced, x.1 = x.2

/-- A `PUT` that passes its check at its section asks for no port in use outside `ROUTES`. -/
def Unclaimed (S : Setup) : Threads.Condition Call Call.Ret State Doing
  | s, ns, i, .popTaken id, _ => ∀ g put, ns i = some g → g.put = some put →
    clear S put.ports (s.taken id) = true →
    -- another `PUT` that passed its check and is not answered
    (∀ j g' w, j ≠ i → ns j = some g' → g'.wants = some w → Apart w put.ports) ∧
    -- a process out of `ROUTES` that nobody has stopped
    (∀ r, s.Held r → s.routes.lookup r.id ≠ some r → Apart r.ports put.ports) ∧
    -- a removed route that a front connection is about to be spliced to
    (∀ j g' r, ns j = some g' → g'.asked = none → g'.found = some r →
      s.routes.lookup r.id ≠ some r → r.id ≠ id → r.ports.tunnel ∉ wanted put.ports)
  | _, _, _, _, _ => True

/-! ### The invariant -/

/-- Processes that may hold a port name different ports. -/
structure Roomy (s : State) : Prop where
  held : ∀ r r', s.Held r → s.Held r' → r ≠ r' → Apart r.ports r'.ports
  listen : ∀ p r, s.listener p = some r → s.Held r ∧ p ∈ wanted r.ports
  joined : ∀ x ∈ s.spliced, x.1 = x.2

/-- A thread's ports, and the route a front connection is for. -/
structure Place (s : State) (g : Doing) : Prop where
  wants : ∀ w r, g.wants = some w → s.Held r → g.own ≠ some r → g.victim ≠ some r →
    Apart r.ports w
  asked : g.wants ≠ none → g.asked ≠ none
  own : ∀ r, g.own = some r → g.wants = some r.ports ∧ g.asked = some (.put, r.id)
  front : ∀ f r, g.asked = none → g.found = some f → s.Held r → r.id ≠ f.id →
    f.ports.tunnel ∉ wanted r.ports

/-- Two threads ask for different ports. -/
structure Clears (g g' : Doing) : Prop where
  wants : ∀ w w', g.wants = some w → g'.wants = some w' → Apart w w'
  front : ∀ f w, g.asked = none → g.found = some f → g'.wants = some w →
    g'.asked ≠ some (.put, f.id) → f.ports.tunnel ∉ wanted w

/-- What keeps the routes apart. -/
structure Separated (s : State) (ns : ℕ → Option Doing) : Prop where
  base : Base s ns
  each : Threads.Each Roomy Place Clears s ns

lemma Separated.separate {s : State} {ns : ℕ → Option Doing} (h : Separated s ns) :
    s.Separate := by
  refine ⟨fun id id' r r' hr hr' hne => ?_, h.each.all.joined⟩
  have hid := h.base.all.id_eq id r hr
  have hid' := h.base.all.id_eq id' r' hr'
  refine h.each.all.held r r' (h.base.all.held _ _ hr) (h.base.all.held _ _ hr') ?_
  rintro rfl
  exact hne (hid.symm.trans hid')

section Steps

variable {s t : State} {ns : ℕ → Option Doing} {i : ℕ} {g g' : Doing} {r : Route}

/-- A note with no ports and no route, or with all that counts as it was. -/
def Doing.Steady (g' g : Doing) : Prop :=
  (g'.own = none ∧ g'.wants = none ∧ (g'.found = none ∨ g'.asked ≠ none)) ∨
    (g'.own = g.own ∧ g'.victim = g.victim ∧ g'.wants = g.wants ∧ g'.found = g.found ∧
      g'.asked = g.asked)

lemma Roomy.alike (h : Roomy s) (hheld : t.Held = s.Held) (hl : t.listener = s.listener)
    (hj : t.spliced = s.spliced) : Roomy t := by
  obtain ⟨h1, h2, h3⟩ := h
  constructor <;> simpa only [hheld, hl, hj]

lemma Place.alike (h : Place s g) (hheld : t.Held = s.Held) : Place t g := by
  obtain ⟨h1, h2, h3, h4⟩ := h
  constructor <;> simpa only [hheld]

lemma Place.steady (h : Place s g) (hg : g'.Steady g) : Place s g' := by
  obtain ⟨h1, h2, h3, h4⟩ := h
  obtain ⟨a, b, c | c⟩ | ⟨a, b, c, d, e⟩ := hg
  · constructor <;> simp [a, b, c]
  · constructor <;> simp [a, b, c]
  · constructor <;> simpa only [a, b, c, d, e]

/-- A thread and another, both ways. -/
lemma Separated.clears {j : ℕ} {x : Doing} (h : Separated s ns) (hi : ns i = some g) (hne : j ≠ i)
    (hx : ns j = some x) : Clears x g ∧ Clears g x :=
  ⟨h.each.two j i x g hne hx hi, h.each.two i j g x hne.symm hi hx⟩

lemma Clears.same {x : Doing} (h : Clears x g ∧ Clears g x) (hw : g'.wants = g.wants)
    (hf : g'.found = g.found) (ha : g'.asked = g.asked) : Clears x g' ∧ Clears g' x := by
  obtain ⟨⟨h1, h2⟩, ⟨h3, h4⟩⟩ := h
  constructor <;> constructor <;> simpa only [hw, hf, ha]

lemma Clears.steady {x : Doing} (h : Clears x g ∧ Clears g x) (hg : g'.Steady g) :
    Clears x g' ∧ Clears g' x := by
  obtain ⟨a, b, c | c⟩ | ⟨a, b, c, d, e⟩ := hg
  · constructor <;> constructor <;> simp [b, c]
  · constructor <;> constructor <;> simp [b, c]
  · exact Clears.same h c d e

/-- A call that changes no port and no route. -/
lemma Separated.same (h : Separated s ns) (hi : ns i = some g) (hb : Base t (Function.update ns i
    (some g'))) (hg : g'.Steady g) (hheld : t.Held = s.Held) (hl : t.listener = s.listener)
    (hj : t.spliced = s.spliced) : Separated t (Function.update ns i (some g')) := by
  refine ⟨hb, h.each.set (h.each.all.alike hheld hl hj)
    (fun j x hne hx hp => ⟨hp.alike hheld, Clears.steady (h.clears hi hne hx) hg⟩) ?_⟩
  exact ((h.each.one i g hi).steady hg).alike hheld

/-- The ports of a `PUT` whose section finds them clear. -/
lemma clear_taken {ports : ProxyPorts} {id : RouteId}
    (hc : clear S ports (s.taken id) = true) (hr : s.routes.lookup r.id = some r)
    (hid : r.id ≠ id) : Apart r.ports ports := by
  intro p hp hq
  have hmem : p ∈ s.taken id := by
    refine List.mem_flatMap.mpr ⟨r, List.mem_map.mpr ⟨⟨r.id, r⟩, ?_, rfl⟩, hp⟩
    exact AList.mem_lookup_iff.mp (by rw [AList.lookup_erase_ne hid, hr]; rfl)
  simp only [clear, Bool.and_eq_true, Bool.not_eq_true', List.any_eq_false] at hc
  exact hc.1.2 p hq (by simpa using hmem)

/-- A route leaves `ROUTES`, and a `PUT` that finds its ports clear has them from there on. -/
lemma Separated.pop (h : Separated s ns) {id : RouteId} (hown : g'.own = none)
    (hvictim : g'.victim = s.routes.lookup id) (hfound : g'.found = none)
    (hwants : ∀ w, g'.wants = some w → g'.asked = some (.put, id) ∧
      clear S w (s.taken id) = true ∧
      (∀ j x w', j ≠ i → ns j = some x → x.wants = some w' → Apart w' w) ∧
      (∀ r, s.Held r → s.routes.lookup r.id ≠ some r → Apart r.ports w) ∧
      (∀ j x r, ns j = some x → x.asked = none → x.found = some r →
        s.routes.lookup r.id ≠ some r → r.id ≠ id → r.ports.tunnel ∉ wanted w)) :
    Separated { s with routes := s.routes.erase id } (Function.update ns i (some g')) := by
  refine ⟨h.base.pop hown hvictim, h.each.set (h.each.all.alike rfl rfl rfl)
    (fun j x hne hx hp => ⟨hp.alike rfl, ⟨?_, ?_⟩, ⟨?_, ?_⟩⟩) ⟨?_, ?_, ?_, ?_⟩⟩
  · exact fun w w' hw hw' => (hwants w' hw').2.2.1 j x w hne hx hw
  · intro f w ha hf hw hid
    obtain ⟨hasked, hc, -, -, hfront⟩ := hwants w hw
    have hne' : f.id ≠ id := fun he => hid (by rw [hasked, he])
    by_cases hreg : s.routes.lookup f.id = some f
    · exact (clear_taken hc hreg hne').tunnel
    · exact hfront j x f hx ha hf hreg hne'
  · exact fun w w' hw hw' => ((hwants w hw).2.2.1 j x w' hne hx hw').symm
  · exact fun f w _ hf => absurd hf (by simp [hfound])
  · intro w r hw hr _ hv
    by_cases hreg : s.routes.lookup r.id = some r
    · refine clear_taken (hwants w hw).2.1 hreg fun hid => hv ?_
      rw [hvictim, ← hid, hreg]
    · exact (hwants w hw).2.2.2.1 r hr hreg
  · intro hne
    obtain ⟨w, hw⟩ := Option.ne_none_iff_exists'.mp hne
    simp [(hwants w hw).1]
  · exact fun r hr => absurd hr (by simp [hown])
  · exact fun f r _ hf => absurd hf (by simp [hfound])

/-- A route is looked up. It is registered, so its ports are nobody else's. -/
lemma Separated.get (h : Separated s ns) (hi : ns i = some g) {id : RouteId} (hown : g'.own = none)
    (hvictim : g'.victim = none) (hw : g'.wants = none) (hf : g'.found = s.routes.lookup id) :
    Separated s (Function.update ns i (some g')) := by
  have hlook : ∀ f, g'.found = some f → s.Held f ∧ s.routes.lookup f.id = some f := by
    intro f hf'
    rw [hf] at hf'
    exact ⟨h.base.all.held _ _ hf', by rw [h.base.all.id_eq _ _ hf', hf']⟩
  refine ⟨h.base.same hi ⟨.inl hown, .inl hvictim⟩ ⟨rfl, rfl, rfl, rfl⟩, h.each.set h.each.all
    (fun j x hne hx hp => ⟨hp, ⟨?_, ?_⟩, ⟨?_, ?_⟩⟩) ⟨?_, ?_, ?_, ?_⟩⟩
  · exact fun _ _ _ h' => absurd h' (by simp [hw])
  · exact fun _ _ _ _ h' => absurd h' (by simp [hw])
  · exact fun _ _ h' => absurd h' (by simp [hw])
  · intro f w _ hf' hw' _
    obtain ⟨hheld, hreg⟩ := hlook f hf'
    refine (hp.wants w f hw' hheld (fun ho => ?_) fun hv => ?_).tunnel
    · exact ((h.base.one j x hx).own f ho).2.2.1 hreg
    · exact ((h.base.one j x hx).victim f hv).2 hreg
  · exact fun _ _ h' => absurd h' (by simp [hw])
  · exact fun h' => absurd hw h'
  · exact fun _ h' => absurd h' (by simp [hown])
  · intro f r _ hf' hr hid
    refine (h.each.all.held f r (hlook f hf').1 hr ?_).tunnel
    rintro rfl
    exact hid rfl

lemma Separated.exit (h : Separated s ns) (r : Route) : Separated (s.exit r) ns := by
  refine ⟨h.base.exit r, h.each.move ⟨?_, ?_, h.each.all.joined⟩ fun j x hx hp => ⟨?_, hp.asked,
    hp.own, ?_⟩⟩ <;> simp only [held_exit]
  · exact h.each.all.held
  · intro p r' hp
    simp only [State.exit] at hp
    split_ifs at hp
    exact h.each.all.listen p r' hp
  · exact hp.wants
  · exact hp.front

lemma Separated.stop (h : Separated s ns) (hi : ns i = some g)
    (hr : g.victim = some r ∨ g.own = some r) :
    Separated (s.stop r) (Function.update ns i (some (g.stopped r))) := by
  have hplace : ∀ {x}, Place s x → Place (s.stop r) x := fun hx => by
    refine ⟨?_, hx.asked, hx.own, ?_⟩ <;> simp only [held_stop]
    · exact fun w r' hw hh => hx.wants w r' hw hh.1
    · exact fun f r' ha hf hh => hx.front f r' ha hf hh.1
  refine ⟨h.base.stop hi hr, h.each.set ⟨?_, ?_, h.each.all.joined⟩
    (fun j x hne hx hp => ⟨hplace hp, Clears.same (h.clears hi hne hx) rfl rfl rfl⟩)
    ⟨?_, ?_, ?_, ?_⟩⟩
  · simp only [held_stop]
    exact fun r₁ r₂ h₁ h₂ => h.each.all.held r₁ r₂ h₁.1 h₂.1
  · intro p r' hp
    simp only [State.stop, State.exit] at hp
    split_ifs at hp with he
    obtain ⟨hheld, hmem⟩ := h.each.all.listen p r' hp
    exact ⟨(held_stop s r r').mpr ⟨hheld, fun hrr => he (by rw [hp, hrr])⟩, hmem⟩
  · simp only [held_stop]
    intro w r' hw hh ho hv
    refine (h.each.one i g hi).wants w r' hw hh.1 (fun ho' => ho ?_) fun hv' => hv ?_
    · simp [Doing.stopped, ho', hh.2]
    · simp [Doing.stopped, hv', hh.2]
  · exact (h.each.one i g hi).asked
  · intro r' hr'
    refine (h.each.one i g hi).own r' ?_
    simp only [Doing.stopped] at hr'
    split_ifs at hr'
    exact hr'
  · exact (hplace (h.each.one i g hi)).front

lemma Separated.newRoute (h : Separated s ns) (hi : ns i = some g) (hr : r.ref = s.made)
    (hreg : s.routes.lookup r.id ≠ some r) (hw : g.wants = some r.ports)
    (ha : g.asked = some (.put, r.id)) (hown : g.own = none) (hv : g.victim = none) :
    Separated { s with made := s.made + 1 }
      (Function.update ns i (some { g with own := some r, launched := false })) := by
  refine ⟨h.base.newRoute hr hreg hv, h.each.set (h.each.all.alike rfl rfl rfl)
    (fun j x hne hx hp => ⟨hp.alike rfl, Clears.same (h.clears hi hne hx) rfl rfl rfl⟩)
    ⟨?_, ?_, ?_, ?_⟩⟩
  · exact fun w r' hw' hh _ hv' => (h.each.one i g hi).wants w r' hw' hh (by simp [hown]) hv'
  · exact fun _ => by simp [ha]
  · rintro r' ⟨⟩
    exact ⟨hw, ha⟩
  · exact fun _ _ ha' => absurd ha' (by simp [ha])

/-- A new process: its ports were its `PUT`'s. -/
lemma Separated.launch (h : Separated s ns) (hi : ns i = some g) (hown : g.own = some r) :
    Separated { s with proc := Function.update s.proc r .running }
      (Function.update ns i (some { g with launched := true })) := by
  have hheld : ∀ r', State.Held { s with proc := Function.update s.proc r .running } r' →
      s.Held r' ∨ r' = r := by
    intro r' hh
    by_cases he : r' = r
    · exact .inr he
    · exact .inl ⟨by simpa [he] using hh.1, hh.2⟩
  have hstop := ((h.base.one i g hi).own r hown).2.1
  have hnew : State.Held { s with proc := Function.update s.proc r .running } r :=
    ⟨by simp, hstop⟩
  have hold : ∀ r', s.Held r' → State.Held { s with proc := Function.update s.proc r .running } r' :=
    fun r' hh => ⟨by by_cases he : r' = r <;> simp [he, hh.1], hh.2⟩
  obtain ⟨hw, ha⟩ := (h.each.one i g hi).own r hown
  have hv := (h.base.one i g hi).one (by simp [hown])
  have hapart : ∀ r', s.Held r' → r' ≠ r → Apart r'.ports r.ports := fun r' hh hne =>
    (h.each.one i g hi).wants _ r' hw hh
      (fun ho => hne (Option.some.inj (ho.symm.trans hown))) (by simp [hv])
  refine ⟨h.base.launch hi hown, h.each.set ⟨?_, ?_, h.each.all.joined⟩
    (fun j x hne hx hp =>
      ⟨⟨?_, hp.asked, hp.own, ?_⟩, Clears.same (h.clears hi hne hx) rfl rfl rfl⟩)
    ⟨?_, (h.each.one i g hi).asked, (h.each.one i g hi).own, ?_⟩⟩
  · intro r₁ r₂ h₁ h₂ hne
    obtain h₁' | rfl := hheld r₁ h₁
    · obtain h₂' | rfl := hheld r₂ h₂
      · exact h.each.all.held r₁ r₂ h₁' h₂' hne
      · exact hapart r₁ h₁' hne
    · obtain h₂' | rfl := hheld r₂ h₂
      · exact (hapart r₂ h₂' hne.symm).symm
      · exact absurd rfl hne
  · exact fun p r' hp => ⟨hold r' (h.each.all.listen p r' hp).1, (h.each.all.listen p r' hp).2⟩
  · intro w r' hw' hh ho hv'
    obtain hh | rfl := hheld r' hh
    · exact hp.wants w r' hw' hh ho hv'
    · exact (h.each.two i j g x hne.symm hi hx).wants _ _ hw hw'
  · intro f r' ha' hf hh hid
    obtain hh | rfl := hheld r' hh
    · exact hp.front f r' ha' hf hh hid
    · exact (h.each.two j i x g hne hx hi).front f _ ha' hf hw (by simpa [ha] using hid)
  · intro w r' hw' hh ho hv'
    obtain hh | rfl := hheld r' hh
    · exact (h.each.one i g hi).wants w r' hw' hh ho hv'
    · exact absurd hown ho
  · exact fun _ _ ha' => absurd ha' (by simp [ha])

/-- A spliced connection ends where its route's process listens. -/
lemma Separated.splice (h : Separated s ns) (hi : ns i = some g) (ha : g.asked = none)
    (hf : g.found = some r) (hb : Base (s.join r) (Function.update ns i (some g')))
    (hg : g'.Steady g) : Separated (s.join r) (Function.update ns i (some g')) := by
  have hplace : ∀ {x}, Place s x → Place (s.join r) x := fun hx => hx.alike rfl
  refine ⟨hb, h.each.set ⟨h.each.all.held, h.each.all.listen, fun x hx => ?_⟩
    (fun j x hne hx hp => ⟨hplace hp, Clears.steady (h.clears hi hne hx) hg⟩)
    (hplace ((h.each.one i g hi).steady hg))⟩
  rcases List.mem_append.mp hx with hx | hx
  · obtain ⟨r', hl, rfl⟩ := Option.map_eq_some_iff.mp (Option.mem_toList.mp hx)
    obtain ⟨hheld, hport⟩ := h.each.all.listen _ _ hl
    by_contra hne
    exact (h.each.one i g hi).front r r' ha hf hheld (fun he => hne he.symm) hport
  · exact h.each.all.joined x hx

end Steps

/-- **A call keeps the routes apart**, where no `PUT` claims a port in use. -/
lemma separated_call {s : State} {ns : ℕ → Option Doing} {i : ℕ} {g : Doing} {c : Call}
    {r : c.Ret} (hi : ns i = some g) (hc : Allowed S False g c) (hr : can s c r)
    (hM : Unclaimed S s ns i c r) (h : Separated s ns) :
    Separated (next S s c r) (Function.update ns i (some (note S g c r))) := by
  have hb := base_call hi hc hr h.base
  have hsame := fun hg => h.same hi hb hg
  cases c with
  | request | reply => exact hsame (.inl ⟨rfl, rfl, .inl rfl⟩) rfl rfl rfl
  | popTaken id =>
      obtain rfl : r = (s.routes.lookup id, s.taken id) := hr
      obtain ⟨ha, hidle⟩ := hc
      refine h.pop (S := S) (by rw [hidle]; rfl) rfl (by rw [hidle]; rfl) fun w hw => ?_
      obtain ⟨hput, hclear⟩ := Option.filter_eq_some_iff.mp hw
      obtain ⟨put, hg, rfl⟩ := Option.map_eq_some_iff.mp hput
      obtain ⟨h1, h2, h3⟩ := hM g put hi hg hclear
      exact ⟨ha, hclear, h1, h2, h3⟩
  | pop id =>
      obtain rfl : r = s.routes.lookup id := hr
      obtain ⟨ha, hidle⟩ := hc
      refine h.pop (S := S) (by rw [hidle]; rfl) rfl (by rw [hidle]; rfl) fun w hw => ?_
      rw [hidle] at hw
      cases hw
  | get id =>
      obtain rfl : r = s.routes.lookup id := hr
      have hidle := hc.2
      exact h.get hi (by rw [hidle]; rfl) (by rw [hidle]; rfl) (by rw [hidle]; rfl) rfl
  | register id route =>
      have ha : g.asked ≠ none := by simp [hc.1]
      exact hsame (.inl ⟨rfl, rfl, .inr ha⟩) rfl rfl rfl
  | stop route => exact h.stop hi hc
  | newRoute id token source ports =>
      obtain rfl : r = { ref := s.made, id, tokenSha256 := token, source, ports } := hr
      obtain ⟨ha, hw, hv, hown, -⟩ := hc
      refine h.newRoute hi rfl (fun hreg => ?_) hw ha hown hv
      exact absurd (h.base.all.made _ (.inl (h.base.all.held _ _ hreg).1)) (lt_irrefl s.made)
  | launch route =>
      rcases r with e | _
      · exact hsame (.inr ⟨rfl, rfl, rfl, rfl, rfl⟩) rfl rfl rfl
      · exact h.launch hi hc.1
  | restart route =>
      cases r with
      | false => exact hsame (.inr ⟨rfl, rfl, rfl, rfl, rfl⟩) rfl rfl rfl
      | true => exact hsame (.inr ⟨rfl, rfl, rfl, rfl, rfl⟩) (held_restart (hr rfl).2.1) rfl rfl
  | splice route =>
      obtain ⟨ha, hf⟩ := hc
      have hplace := h.each.one i g hi
      have hwants : g.wants = none := by_contra fun hw => hplace.asked hw ha
      have hown : g.own = none := by
        by_contra hne
        obtain ⟨own, ho⟩ := Option.ne_none_iff_exists'.mp hne
        simp [(hplace.own own ho).1] at hwants
      have hg : Doing.Steady (note S g (.splice route) r) g := .inl ⟨hown, hwants, .inl rfl⟩
      cases r with
      | false => exact hsame hg rfl rfl rfl
      | true => exact h.splice hi ha hf hb hg
  | makedirs | writePrivate =>
      rcases r with e | _ <;> exact hsame (.inr ⟨rfl, rfl, rfl, rfl, rfl⟩) rfl rfl rfl
  | values | rmtree | portFree | probes | poll | createConnection | readKey | reload | head =>
      exact hsame (.inr ⟨rfl, rfl, rfl, rfl, rfl⟩) rfl rfl rfl

lemma separated_keeps :
    Threads.Keeps (supervisor S) (Unclaimed S) (Allowed S False) (Doing.Clean False) Separated where
  start s ns i g p hi hb h := by
    obtain ⟨rfl, -⟩ := hb
    refine ⟨base_start h.base, h.each.set h.each.all (fun j x hne hx hp => ⟨hp, ?_⟩) ?_⟩
    · constructor <;> constructor <;> simp
    · constructor <;> simp
  call s ns i g c r t hi hc hr hM h := by
    obtain ⟨hr, rfl⟩ := hr
    exact separated_call hi hc hr hM h
  leave s ns i g hi hg h := ⟨h.base.drop i, h.each.drop i⟩
  idle s ns t ht h := by
    obtain ⟨m, hm⟩ := ht
    obtain ⟨r, p, hrun, hport, hfree, rfl⟩ | ⟨r, -, rfl⟩ := tick_cases hm
    · -- a running process has not been stopped
      have hheld : s.Held r := by
        refine ⟨by simp [hrun], ?_⟩
        by_contra hs
        exact h.base.all.exited r (by simpa using hs) hrun
      refine ⟨base_tick hm h.base, h.each.move ⟨h.each.all.held, fun q r' hq => ?_,
        h.each.all.joined⟩ fun j x _ hp => hp.alike rfl⟩
      by_cases he : q = p
      · subst he
        obtain rfl : r = r' := by simpa using hq
        exact ⟨hheld, hport⟩
      · exact h.each.all.listen q r' (by simpa [he] using hq)
    · exact h.exit r

/-- **Route separation.** In every interleaving in which no `PUT` that passes its check asks for
a port in use outside `ROUTES`, the registered routes share no port, and no connection is
spliced into another route's iron-proxy. -/
theorem routes_separate {c : Threads.Config Call Call.Ret Fault Unit State Doing}
    (h : Threads.Run (supervisor S) (Unclaimed S) (.empty .empty) c) : c.shared.Separate := by
  have hsep : Separated c.shared c.notes := by
    refine Threads.inv (Sees False) ?_ safe_begins clean_of_leaves separated_keeps ?_ h
    · intro s ns i g c r t hi hI hr _
      exact ⟨told hI.base.all hr.1, False.elim⟩
    · refine ⟨base_empty, ⟨?_, ?_, ?_⟩, by simp, by simp⟩ <;> simp [State.empty, State.Held]
  exact hsep.separate

/-- A section before any route is created: other threads are past theirs for other ports only. -/
def earlyPut (c : Threads.Config Call Call.Ret Fault Unit State Doing) (i : ℕ) : Call → Bool
  | .popTaken _ => c.shared.made == 0 &&
    (List.range 3).all fun j => (c.notes j).all fun g => g.found.isNone &&
      (j == i || g.wants.all fun w => (c.notes i).all fun g' => g'.put.all fun put =>
        decide (Apart w put.ports))
  | _ => true

lemma unclaimed_earlyPut {c : Threads.Config Call Call.Ret Fault Unit State Doing} {i : ℕ}
    {o : Call} {r : o.Ret} (hb : Base c.shared c.notes) (hn : ∀ j, 3 ≤ j → c.threads j = none)
    (hok : earlyPut c i o = true) : Unclaimed S c.shared c.notes i o r := by
  cases o with
  | popTaken id =>
      simp only [earlyPut, Bool.and_eq_true, List.all_eq_true, List.mem_range, Bool.or_eq_true,
        Option.all_eq_true, beq_iff_eq, Option.isNone_iff_eq_none, decide_eq_true_eq] at hok
      obtain ⟨hmade, hnotes⟩ := hok
      have hnote : ∀ j g, c.notes j = some g → g.found = none ∧ (j = i ∨ ∀ w, g.wants = some w →
          ∀ g', c.notes i = some g' → ∀ put, g'.put = some put → Apart w put.ports) := by
        intro j g hj
        by_cases h3 : j < 3
        · exact hnotes j h3 g hj
        · simp [Threads.Config.notes, hn j (by omega)] at hj
      refine fun g put hg hput _ =>
        ⟨fun j g' w hne hj hw => ?_, fun r hr _ => ?_, fun j g' r hj _ hf => ?_⟩
      · exact (hnote j g' hj).2.resolve_left hne w hw g hg put hput
      · exact absurd (hb.all.made r (.inl hr.1)) (by omega)
      · simp [(hnote j g' hj).1] at hf
  | _ => trivial

/-- Routes `a` and `b`, and the ports that their `PUT`s ask for. -/
def apartPuts (i : ℕ) : Request :=
  if i = 0 then requestFrom 20001 .put "a" else requestFrom 20011 .put "b"

/-- Both check their ports before either makes its route. -/
theorem routes_separate_two :
    ∃ c, Threads.Run (supervisor demoSetup) (Unclaimed demoSetup) (.empty .empty) c ∧
      c.shared.routes.lookup "a" = some (routeFrom 20001 0 "a") ∧
      c.shared.routes.lookup "b" = some (routeFrom 20011 1 "b") ∧ ("b", "b") ∈ c.shared.spliced ∧
      c.shared.Separate := by
  have hrun : (demo apartPuts "b" [control demoSetup, control demoSetup, handleFront demoSetup]
      earlyPut (turns 2 0 ++ turns 2 1 ++ turns 13 0 ++ turns 13 1 ++
        binds (routeFrom 20001 0 "a") 20001 ++ binds (routeFrom 20011 1 "b") 20011 ++
        turns 3 0 ++ turns 3 1 ++ turns 3 2)).any (fun c =>
          decide (c.shared.routes.lookup "a" = some (routeFrom 20001 0 "a")) &&
          decide (c.shared.routes.lookup "b" = some (routeFrom 20011 1 "b")) &&
          decide (("b", "b") ∈ c.shared.spliced)) = true := by decide +kernel
  obtain ⟨c, hc, hx⟩ := (Option.any_eq_true _ _).mp hrun
  simp only [Bool.and_eq_true, decide_eq_true_eq] at hx
  have hreach : Threads.Run (supervisor demoSetup) (Unclaimed demoSetup) (.empty .empty) c := by
    refine run_demo (by simp) ?_ hc
    exact fun _ _ _ hb hn hok => unclaimed_earlyPut hb hn hok
  exact ⟨c, hreach, hx.1.1, hx.1.2, hx.2, routes_separate hreach⟩

/-! ### Two `PUT`s for one port -/

/-- The first two threads register routes `a` and `b`, and the third is a client of `b`. -/
def twoPuts (i : ℕ) : Request := demoRequest .put (if i = 0 then "a" else "b")

/-- Both `PUT`s go as far as their probe before either registers; only `a` gets the port. -/
def collision : List (ℕ ⊕ Move) :=
  turns 15 0 ++ turns 15 1 ++
    binds (demoRoute 0 "a") 20001 ++ turns 3 0 ++
    turns 3 1 ++ turns 3 2

/-- Two routes are registered with the same ports, and `b`'s client talks to `a`'s process. -/
theorem puts_share_ports :
    ∃ c, Threads.Run (supervisor demoSetup) Threads.always (.empty .empty) c ∧
      c.shared.routes.lookup "a" = some (demoRoute 0 "a") ∧
      c.shared.routes.lookup "b" = some (demoRoute 1 "b") ∧
      ("b", "a") ∈ c.shared.spliced ∧ ¬c.shared.Separate := by
  have hrun : (demo twoPuts "b" [control demoSetup, control demoSetup, handleFront demoSetup]
      (fun _ _ _ => true) collision).any (fun c =>
        decide (c.shared.routes.lookup "a" = some (demoRoute 0 "a")) &&
        decide (c.shared.routes.lookup "b" = some (demoRoute 1 "b")) &&
        decide (("b", "a") ∈ c.shared.spliced)) = true := by decide +kernel
  obtain ⟨c, hc, hx⟩ := (Option.any_eq_true _ _).mp hrun
  simp only [Bool.and_eq_true, decide_eq_true_eq] at hx
  refine ⟨c, run_demo (by simp) (fun _ _ _ _ _ _ => trivial) hc, hx.1.1, hx.1.2, hx.2, ?_⟩
  intro hsep
  exact absurd (hsep.2 _ hx.2) (by decide)

end Bimo.Supervisor
