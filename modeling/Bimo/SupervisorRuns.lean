import Bimo.Supervisor

/-!
What the supervisor's threads do, whatever the others do.

`Allowed` says where in a handler each call stands, in terms of the thread's note alone, and
`safe_begins` that every handler keeps to it. The two properties of runs proved from it share
the invariant `Base`: which routes are registered, taken out, created, launched and stopped.
-/

namespace Bimo.Supervisor

open Local (ProxyPorts)

variable {S : Setup}

/-- Nothing of the supervisor is in the thread's hands yet. -/
def Doing.Idle (g : Doing) : Prop := g = { asked := g.asked, put := g.put }

/-- Nothing is left for a thread to clean up. Whether files are counted is up to `strict`. -/
structure Doing.Clean (strict : Prop) (g : Doing) : Prop where
  victim : g.victim = none
  own : g.launched = true → g.own = none
  dirty : strict → g.dirty = false

/-- Where each call is made. -/
def Allowed (S : Setup) (strict : Prop) (g : Doing) : Call → Prop
  | .request => g = {}
  | .reply q code _ => g.Clean strict ∧ (q.verb = .delete → ∀ id, target S q = some id →
      code = 200 → g.asked = some (.delete, id) ∧ g.popped = true ∧ g.own = none)
  | .popTaken id => g.asked = some (.put, id) ∧ g.Idle
  | .pop id => g.asked = some (.delete, id) ∧ g.Idle
  | .get id => (g.asked = none ∨ g.asked = some (.post, id)) ∧ g.Idle
  | .register id r => g.asked = some (.put, id) ∧ g.own = some r ∧ r.id = id ∧ g.launched = true
  | .stop r => g.victim = some r ∨ g.own = some r
  | .rmtree dir => ∃ v, g.asked = some (v, dir)
  | .newRoute id _ _ ports => g.asked = some (.put, id) ∧ g.wants = some ports ∧
      g.victim = none ∧ g.own = none ∧ g.popped = true
  | .makedirs dir => g.asked = some (.put, dir) ∧ g.popped = true
  | .writePrivate dir _ _ => (g.asked = some (.put, dir) ∧ g.popped = true) ∨
      (g.asked = some (.post, dir) ∧ g.popped = false ∧ g.found ≠ none)
  | .launch r => g.own = some r ∧ g.launched = false
  | .splice r => g.asked = none ∧ g.found = some r
  | .values | .portFree _ | .probes _ | .poll _ | .createConnection _ | .readKey _
  | .reload _ _ | .restart _ | .head => True

/-- What an answer says of the route in it. -/
def Told : (c : Call) → c.Ret → Prop
  | .popTaken id, r => ∀ old, r.1 = some old → old.id = id
  | .pop id, r => ∀ old, r = some old → old.id = id
  | .get id, r => ∀ old, r = some old → old.id = id
  | .newRoute id _ _ ports, r => r.id = id ∧ r.ports = ports
  | .request, _ | .reply _ _ _, _ | .register _ _, _ | .stop _, _ | .values, _ | .rmtree _, _
  | .portFree _, _ | .makedirs _, _ | .writePrivate _ _ _, _ | .launch _, _ | .probes _, _
  | .poll _, _ | .createConnection _, _ | .readKey _, _ | .reload _ _, _ | .restart _, _
  | .splice _, _ | .head, _ => True

/-- `rmtree` leaves nothing, and a `PUT` meets no fault but an `OSError`. -/
def Tidy (g : Doing) : (c : Call) → c.Ret → Prop
  | .rmtree _, left => left = []
  | .makedirs _, r | .writePrivate _ _ _, r | .launch _, r => g.popped = true → r ≠ .error .other
  | .request, _ | .reply _ _ _, _ | .popTaken _, _ | .pop _, _ | .get _, _ | .register _ _, _
  | .stop _, _ | .values, _ | .portFree _, _ | .newRoute _ _ _ _, _ | .probes _, _ | .poll _, _
  | .createConnection _, _ | .readKey _, _ | .reload _ _, _ | .restart _, _ | .splice _, _
  | .head, _ => True

/-- What a thread may count on of an answer. -/
def Sees (strict : Prop) (g : Doing) (c : Call) (r : c.Ret) : Prop :=
  Told c r ∧ (strict → Tidy g c r)

variable {strict : Prop}

/-- A handler, from a note on. -/
abbrev SafeFrom (S : Setup) (strict : Prop) (p : Handler Unit) (g : Doing) : Prop :=
  Safe (.of (Sees strict) (note S)) (Allowed S strict) p g fun _ g => g.Clean strict

lemma clean_start : ({} : Doing).Clean strict := ⟨rfl, by simp, fun _ => rfl⟩

/-- A reply is the last thing a thread does. -/
lemma safe_reply {q : Request} {code : ℕ} {b : Reply} {g : Doing} (hg : g.Clean strict)
    (h : q.verb = .delete → ∀ id, target S q = some id → code = 200 →
      g.asked = some (.delete, id) ∧ g.popped = true ∧ g.own = none) :
    SafeFrom S strict (reply q code b) g := by
  refine (safe_call_of _ _ _ _).mpr ⟨⟨hg, h⟩, fun r _ => ?_⟩
  exact clean_start

/-- An error is no answer to a deletion. -/
lemma safe_refuse {q : Request} {code : ℕ} {b : Reply} {g : Doing} (hg : g.Clean strict)
    (hcode : code ≠ 200) : SafeFrom S strict (reply q code b) g :=
  safe_reply hg fun _ _ _ h => absurd h hcode

/-- What a request asks for, where it is let through. -/
lemma target_eq {q : Request} {id : RouteId} (ha : authorized S q = true)
    (hp : routePath q.path = some (id, q.verb.action)) : target S q = some id := by
  simp [target, ha, hp]

lemma safe_doDelete {q : Request} (hq : q.verb = .delete) :
    SafeFrom S strict (doDelete S q) { asked := (target S q).map (q.verb, ·) } := by
  have hidle : ({ asked := (target S q).map (q.verb, ·) } : Doing).Clean strict :=
    ⟨rfl, by simp, fun _ => rfl⟩
  unfold doDelete
  split_ifs with ha
  · exact safe_refuse hidle (by decide)
  · split
    · rename_i id hp
      have ht : target S q = some id :=
        target_eq (by simpa using ha) (by rw [hp, hq]; rfl)
      rw [ht, hq]
      refine (safe_ask_of _ _ _ _).mpr ⟨⟨rfl, rfl⟩, fun route hroute => ?_⟩
      cases route with
      | none =>
          refine safe_reply ⟨rfl, by simp [note], fun _ => rfl⟩ fun _ id' ht' _ => ?_
          obtain rfl := Option.some.inj (ht.symm.trans ht')
          exact ⟨rfl, rfl, rfl⟩
      | some route =>
          obtain rfl := hroute.1 route rfl
          refine (safe_ask_of _ _ _ _).mpr ⟨.inl rfl, fun _ _ => ?_⟩
          refine (safe_ask_of _ _ _ _).mpr ⟨⟨_, rfl⟩, fun left hleft => ?_⟩
          refine safe_reply ⟨by simp [note, Doing.removed, Doing.stopped],
            by simp [note, Doing.removed, Doing.stopped],
            fun h => ?_⟩ fun _ id' ht' _ => ?_
          · simp [note, Doing.removed, Doing.stopped, show left = [] from hleft.2 h]
          · obtain rfl := Option.some.inj (ht.symm.trans ht')
            exact ⟨rfl, rfl, rfl⟩
    · exact safe_refuse hidle (by decide)

/-! ### `do_PUT` -/

/-- Calls the note does not record. -/
lemma safe_allFree (ports : List ℕ) (g : Doing) :
    Safe (.of (Sees strict) (note S)) (Allowed S strict) (allFree ports) g
      fun r g' => (∃ free, r = .ok free) ∧ g' = g := by
  induction ports with
  | nil => exact ⟨⟨_, rfl⟩, rfl⟩
  | cons p l ih =>
      refine (safe_ask_of _ _ _ _).mpr ⟨trivial, fun free _ => ?_⟩
      cases free with
      | false => exact ⟨⟨_, rfl⟩, rfl⟩
      | true => exact ih

lemma safe_waitListening (route : Route) (n : ℕ) (g : Doing) :
    Safe (.of (Sees strict) (note S)) (Allowed S strict) (waitListening route n) g
      fun r g' => (∃ listening, r = .ok listening) ∧ g' = g := by
  induction n with
  | zero => exact ⟨⟨_, rfl⟩, rfl⟩
  | succ n ih =>
      refine (safe_ask_of _ _ _ _).mpr ⟨trivial, fun exited _ => ?_⟩
      cases exited with
      | true => exact ⟨⟨_, rfl⟩, rfl⟩
      | false =>
          refine (safe_ask_of _ _ _ _).mpr ⟨trivial, fun connected _ => ?_⟩
          cases connected with
          | true => exact ⟨⟨_, rfl⟩, rfl⟩
          | false => exact ih

/-- A `PUT` that has created its route. -/
structure Doing.Building (g : Doing) (route : Route) (launched : Bool) : Prop where
  asked : g.asked = some (.put, route.id)
  popped : g.popped = true
  victim : g.victim = none
  own : g.own = some route
  launched : g.launched = launched

lemma safe_makedirs {g : Doing} {route : Route} (hg : g.Building route false) :
    Safe (.of (Sees strict) (note S)) (Allowed S strict)
      (tryCall (.makedirs route.id) rfl : Handler Unit) g
      fun r g' => g'.Building route false ∧ (strict → r ≠ .error .other) := by
  refine (safe_ask_of _ _ _ _).mpr ⟨⟨hg.asked, hg.popped⟩, fun r hr => ?_⟩
  refine (safe_ofExcept _ _ _).mpr ⟨?_, fun h => hr.2 h hg.popped⟩
  rcases r with e | _
  · exact hg
  · exact ⟨hg.asked, hg.popped, hg.victim, hg.own, hg.launched⟩

lemma safe_write {g : Doing} {route : Route} (name text : String)
    (hg : g.Building route false) :
    Safe (.of (Sees strict) (note S)) (Allowed S strict)
      (tryCall (.writePrivate route.id name text) rfl : Handler Unit) g
      fun r g' => g'.Building route false ∧ (strict → r ≠ .error .other) := by
  refine (safe_ask_of _ _ _ _).mpr ⟨.inl ⟨hg.asked, hg.popped⟩, fun r hr => ?_⟩
  refine (safe_ofExcept _ _ _).mpr ⟨?_, fun h => hr.2 h hg.popped⟩
  exact ⟨hg.asked, hg.popped, hg.victim, hg.own, hg.launched⟩

/-- The route is launched, or an `OSError` is handed on. -/
def Started (strict : Prop) (route : Route) : Except Fault Unit → Doing → Prop
  | .ok _, g => g.Building route true
  | .error e, g => g.Building route false ∧ (strict → e ≠ .other)

lemma safe_start {g : Doing} {route : Route} (put : Put) (hg : g.Building route false) :
    Safe (.of (Sees strict) (note S)) (Allowed S strict) (start route put) g
      (Started strict route) := by
  have herr : ∀ (e : Fault) (g' : Doing), (g'.Building route false ∧
      (strict → (.error e : Except Fault Unit) ≠ .error .other)) →
      Started strict route (.error e) g' := fun e g' h =>
    ⟨h.1, fun hs he => h.2 hs (by rw [he])⟩
  unfold start
  refine (safe_makedirs hg).bind (fun _ g1 h1 => ?_) herr
  refine (safe_write _ _ h1.1).bind (fun _ g2 h2 => ?_) herr
  refine Safe.bind (R := fun r g' => g'.Building route false ∧ (strict → r ≠ .error .other))
    (safe_each (I := fun _ g' => g'.Building route false) (fun x l g' h' => ?_)
      (fun g' h' => ⟨h', by simp⟩) put.files g2 h2.1) (fun _ g3 h3 => ?_) herr
  · refine (safe_write x.1 x.2 h').mono fun r g'' h'' => ?_
    cases r with
    | ok _ => exact h''.1
    | error e => exact h''
  · refine (safe_ask_of _ _ _ _).mpr ⟨⟨h3.1.own, h3.1.launched⟩, fun r hr => ?_⟩
    refine (safe_ofExcept _ _ _).mpr ?_
    rcases r with e | _
    · exact ⟨h3.1, fun hs he => hr.2 hs h3.1.popped (by rw [he])⟩
    · exact ⟨h3.1.asked, h3.1.popped, h3.1.victim, h3.1.own, rfl⟩

/-- A `PUT` past its section, once the old route is gone. -/
structure Doing.Past (strict : Prop) (g : Doing) (id : RouteId) (wants : Option ProxyPorts) :
    Prop where
  asked : g.asked = some (.put, id)
  popped : g.popped = true
  victim : g.victim = none
  own : g.own = none
  dirty : strict → g.dirty = false
  wants : g.wants = wants

lemma safe_putRoute {q : Request} {id : RouteId} {put : Put} {g : Doing}
    (hq : q.verb = .put) (hg : g.Past strict id (some put.ports)) :
    SafeFrom S strict (putRoute q id put) g := by
  refine (safe_ask_of _ _ _ _).mpr
    ⟨⟨hg.asked, hg.wants, hg.victim, hg.own, hg.popped⟩, fun (route : Route) hroute => ?_⟩
  obtain ⟨⟨rfl, -⟩, -⟩ := hroute
  refine (safe_bind _ _ _ _).mpr ((safe_attempt _ _ _).mpr ?_)
  have hb : ({ g with own := some route, launched := false } : Doing).Building route false :=
    ⟨hg.asked, hg.popped, hg.victim, rfl, rfl⟩
  refine (safe_start put hb).mono fun r g' h => ?_
  rcases r with (text | _) | _
  · -- an `OSError`: the directory goes, nothing was launched
    refine (safe_ask_of _ _ _ _).mpr ⟨⟨_, h.1.asked⟩, fun left hleft => ?_⟩
    refine safe_refuse ⟨h.1.victim, fun hl => ?_, fun hs => ?_⟩ (by decide)
    · exact absurd (h.1.launched.symm.trans hl) (by decide)
    · simp [note, Doing.removed, show left = [] from hleft.2 hs]
  · exact ⟨h.1.victim, fun hl => absurd (h.1.launched.symm.trans hl) (by decide),
      fun hs => absurd rfl (h.2 hs)⟩
  · refine (safe_ask_of _ _ _ _).mpr ⟨trivial, fun n _ => ?_⟩
    refine (safe_bind _ _ _ _).mpr ((safe_waitListening route n g').mono ?_)
    rintro _ _ ⟨⟨listening, rfl⟩, rfl⟩
    cases listening with
    | false =>
        refine (safe_ask_of _ _ _ _).mpr ⟨.inr h.own, fun _ _ => ?_⟩
        refine (safe_ask_of _ _ _ _).mpr ⟨⟨_, h.asked⟩, fun left hleft => ?_⟩
        refine safe_refuse ⟨?_, fun _ => ?_, fun hs => ?_⟩ (by decide)
        · simp [note, Doing.removed, Doing.stopped, h.victim]
        · simp [note, Doing.removed, Doing.stopped, h.own]
        · simp [note, Doing.removed, Doing.stopped, show left = [] from hleft.2 hs]
    | true =>
        refine (safe_ask_of _ _ _ _).mpr
          ⟨⟨h.asked, h.own, rfl, h.launched⟩, fun _ _ => ?_⟩
        refine safe_reply ⟨h.victim, by simp [note], fun _ => rfl⟩ fun hd => ?_
        rw [hq] at hd
        cases hd

lemma Doing.Past.clean {g : Doing} {id : RouteId} {wants : Option ProxyPorts}
    (hg : g.Past strict id wants) : g.Clean strict :=
  ⟨hg.victim, fun _ => hg.own, hg.dirty⟩

/-- `do_PUT` from the check of the ports on. -/
lemma safe_putPorts {q : Request} {id : RouteId} {put : Put} {g : Doing} {taken : List ℕ}
    (hq : q.verb = .put)
    (hg : g.Past strict id ((some put.ports).filter (clear S · taken))) :
    SafeFrom S strict (putPorts S q id put taken) g := by
  unfold putPorts
  split_ifs with hc
  · exact safe_refuse hg.clean (by decide)
  · have hw : (some put.ports).filter (clear S · taken) = some put.ports := by
      simpa [Option.filter] using hc
    rw [hw] at hg
    refine (safe_bind _ _ _ _).mpr ((safe_allFree (wanted put.ports) g).mono ?_)
    rintro _ _ ⟨⟨free, rfl⟩, rfl⟩
    cases free with
    | false => exact safe_refuse hg.clean (by decide)
    | true => exact safe_putRoute hq hg

lemma safe_doPut {q : Request} (hq : q.verb = .put) :
    SafeFrom S strict (doPut S q)
      { asked := (target S q).map (q.verb, ·), put := ((body q).bind Put.parse).toOption } := by
  have hidle : ({ asked := (target S q).map (q.verb, ·)
                  put := ((body q).bind Put.parse).toOption } : Doing).Clean strict :=
    ⟨rfl, by simp, fun _ => rfl⟩
  unfold doPut
  split_ifs with ha
  · exact safe_refuse hidle (by decide)
  · split
    · rename_i id hp
      split
      · exact safe_refuse hidle (by decide)
      · rename_i put hput
        rw [target_eq (by simpa using ha) (by rw [hp, hq]; rfl), hq, hput]
        refine (safe_ask_of _ _ _ _).mpr ⟨⟨rfl, rfl⟩, fun r hr => ?_⟩
        obtain ⟨old, taken⟩ := r
        cases old with
        | none =>
            refine safe_putPorts hq ?_
            exact ⟨rfl, rfl, rfl, rfl, fun _ => rfl, rfl⟩
        | some old =>
            have hid : old.id = id := hr.1 old rfl
            refine (safe_ask_of _ _ _ _).mpr ⟨.inl rfl, fun _ _ => ?_⟩
            refine (safe_ask_of _ _ _ _).mpr ⟨⟨.put, by rw [hid]; rfl⟩, fun left hleft => ?_⟩
            refine safe_putPorts hq ?_
            refine ⟨rfl, rfl, ?_, rfl, fun hs => ?_, rfl⟩
            · simp [note, Doing.removed, Doing.stopped]
            · simp [note, Doing.removed, Doing.stopped, show left = [] from hleft.2 hs]
    · exact safe_refuse hidle (by decide)

/-! ### The other threads -/

lemma safe_reloaded {q : Request} {g : Doing} (status : Except Fault ℕ)
    (hreply : ∀ code b, SafeFrom S strict (reply q code b) g) (hg : g.Clean strict) :
    SafeFrom S strict (reloaded q status) g := by
  rcases status with (text | _) | status
  · exact hreply 502 _
  · exact hg
  · unfold reloaded
    dsimp only
    split_ifs
    · exact hreply 502 _
    · exact hreply 200 _

lemma safe_doPost {q : Request} (hq : q.verb = .post) :
    SafeFrom S strict (doPost S q) { asked := (target S q).map (q.verb, ·) } := by
  have hidle : ({ asked := (target S q).map (q.verb, ·) } : Doing).Clean strict :=
    ⟨rfl, by simp, fun _ => rfl⟩
  have hreply : ∀ {g : Doing} {code : ℕ} {b : Reply}, g.Clean strict →
      SafeFrom S strict (reply q code b) g := fun hg =>
    safe_reply hg fun hd => by rw [hq] at hd; cases hd
  unfold doPost
  split_ifs with ha
  · exact hreply hidle
  · split
    · rename_i id hp
      split
      · exact hreply hidle
      · rename_i files _
        rw [target_eq (by simpa using ha) (by rw [hp, hq]; rfl), hq]
        refine (safe_ask_of _ _ _ _).mpr ⟨⟨.inr rfl, rfl⟩, fun route hroute => ?_⟩
        cases route with
        | none => exact hreply ⟨rfl, by simp [note], fun _ => rfl⟩
        | some route =>
            have hid : route.id = id := hroute.1 route rfl
            have hclean : ({ asked := some (.post, id), found := some route } : Doing).Clean
              strict := ⟨rfl, by simp, fun _ => rfl⟩
            -- the files are the registered route's, so the note stays as it is
            refine Safe.bind (R := fun _ g => g = { asked := some (.post, id), found := some route })
              (safe_each (I := fun _ g => g = { asked := some (.post, id), found := some route })
                ?_ (fun g hg => hg) files _ rfl) ?_ ?_
            · rintro x l _ rfl
              refine (safe_ask_of _ _ _ _).mpr
                ⟨.inr ⟨by rw [hid], rfl, by simp⟩, fun r _ => ?_⟩
              refine (safe_ofExcept _ _ _).mpr ?_
              rcases r with e | _
              · exact rfl
              · exact rfl
            · rintro _ _ rfl
              refine (safe_bind _ _ _ _).mpr ((safe_ask_of _ _ _ _).mpr
                ⟨trivial, fun key _ => (safe_ofExcept _ _ _).mpr ?_⟩)
              rcases key with e | key
              · exact hclean
              · refine (safe_ask_of _ _ _ _).mpr ⟨trivial, fun status _ => ?_⟩
                exact safe_reloaded status (fun _ _ => hreply hclean) hclean
            · rintro _ _ rfl
              exact hclean
    · exact hreply hidle

lemma safe_control : SafeFrom S strict (control S) {} := by
  refine (safe_ask_of _ _ _ _).mpr ⟨rfl, fun (q : Request) _ => ?_⟩
  cases hq : q.verb with
  | put => simpa [note, hq] using (safe_doPut hq : SafeFrom S strict _ _)
  | delete => simpa [note, hq] using safe_doDelete hq
  | post => simpa [note, hq] using safe_doPost hq

lemma safe_handleFront : SafeFrom S strict (handleFront S) {} := by
  refine (safe_ask_of _ _ _ _).mpr ⟨trivial, fun head _ => ?_⟩
  rcases head with _ | ⟨_ | ⟨id, token⟩, peer⟩
  · exact clean_start
  · exact clean_start
  · refine (safe_ask_of _ _ _ _).mpr ⟨⟨.inl rfl, rfl⟩, fun (route : Option Route) _ => ?_⟩
    cases route with
    | none => exact ⟨rfl, by simp [note], fun _ => rfl⟩
    | some route =>
        have hclean : ({ found := some route } : Doing).Clean strict :=
          ⟨rfl, by simp, fun _ => rfl⟩
        dsimp only
        split_ifs
        · exact hclean
        · exact hclean
        · exact (safe_ask_of _ _ _ _).mpr ⟨⟨rfl, rfl⟩, fun _ _ => clean_start⟩

lemma safe_watch : SafeFrom S strict watch {} := by
  refine (safe_ask_of _ _ _ _).mpr ⟨trivial, fun routes _ => ?_⟩
  refine safe_each (I := fun _ g => g = {}) ?_ (fun g hg => hg ▸ clean_start) routes _ rfl
  rintro route l _ rfl
  exact (safe_ask_of _ _ _ _).mpr ⟨trivial, fun _ _ => rfl⟩

/-- **The handlers keep to their places.** -/
theorem safe_begins (g : Doing) (p : Handler Unit) (h : (supervisor S).begins g p) :
    SafeFrom S strict p g := by
  obtain ⟨rfl, rfl | rfl | rfl⟩ := h
  · exact safe_control
  · exact safe_handleFront
  · exact safe_watch

lemma clean_of_leaves (g : Doing) (p : Handler Unit) (hp : (supervisor S).leaves p)
    (h : SafeFrom S strict p g) : g.Clean strict := by
  cases p with
  | ret _ | fail _ => exact h
  | call c k => exact absurd rfl (hp c k)

/-! ### Which routes there are -/

/-- What holds of the routes there are. -/
structure Books (s : State) : Prop where
  id_eq : ∀ id r, s.routes.lookup id = some r → r.id = id
  held : ∀ id r, s.routes.lookup id = some r → s.Held r
  made : ∀ r, s.proc r ≠ .none ∨ s.stopping r = true → r.ref < s.made
  exited : ∀ r, s.stopping r = true → s.proc r ≠ .running

/-- What holds of the routes in a thread's hands. -/
structure Hands (s : State) (g : Doing) : Prop where
  own : ∀ r, g.own = some r → r.ref < s.made ∧ s.stopping r = false ∧
    s.routes.lookup r.id ≠ some r ∧ (s.proc r = .none ↔ g.launched = false)
  victim : ∀ r, g.victim = some r → s.proc r ≠ .none ∧ s.routes.lookup r.id ≠ some r
  one : g.own ≠ none → g.victim = none

/-- A route in the making is in one thread's hands. -/
def Distinct (g g' : Doing) : Prop :=
  ∀ r, g.own = some r → g'.own ≠ some r ∧ g'.victim ≠ some r

/-- Which routes are registered, created, launched and stopped, in every interleaving. -/
abbrev Base := Threads.Each Books Hands Distinct

section Steps

variable {s t : State} {ns : ℕ → Option Doing} {i : ℕ} {g g' : Doing} {r : Route}

/-- A note that has at most the routes of another. -/
structure Doing.Within (g' g : Doing) : Prop where
  own : g'.own = none ∨ (g'.own = g.own ∧ g'.launched = g.launched)
  victim : g'.victim = none ∨ g'.victim = g.victim

/-- Only these parts of the state count. -/
structure State.Alike (t s : State) : Prop where
  routes : t.routes = s.routes
  made : t.made = s.made
  proc : t.proc = s.proc
  stopping : t.stopping = s.stopping

lemma State.Alike.held (h : t.Alike s) : t.Held = s.Held := by
  funext r
  simp only [State.Held, h.proc, h.stopping]

lemma Books.alike (h : Books s) (ht : t.Alike s) : Books t := by
  obtain ⟨h1, h2, h3, h4⟩ := h
  constructor <;> simpa only [ht.held, ht.routes, ht.made, ht.proc, ht.stopping]

lemma Hands.alike (h : Hands s g) (ht : t.Alike s) : Hands t g := by
  obtain ⟨h1, h2, h3⟩ := h
  constructor <;> simpa only [ht.routes, ht.made, ht.proc, ht.stopping]

lemma Hands.within (h : Hands s g) (hg : g'.Within g) : Hands s g' := by
  obtain ⟨ho, hv⟩ := hg
  obtain ⟨h1, h2, h3⟩ := h
  constructor <;> grind

/-- Threads other than the one that moved, when it took no route in hand. -/
lemma Distinct.within {x : Doing} (h : Distinct x g) (hg : g'.Within g) : Distinct x g' := by
  intro r hr
  have := h r hr
  obtain ⟨ho, hv⟩ := hg
  grind

lemma Distinct.of_within {x : Doing} (h : Distinct g x) (hg : g'.Within g) : Distinct g' x := by
  intro r hr
  refine h r ?_
  obtain ⟨ho | ho, -⟩ := hg
  · rw [ho] at hr
    cases hr
  · rw [← ho.1, hr]

lemma Base.same (h : Base s ns) (hi : ns i = some g) (hg : g'.Within g) (ht : t.Alike s) :
    Base t (Function.update ns i (some g')) := by
  refine h.set (h.all.alike ht) (fun j x hj hx hb => ⟨hb.alike ht, ?_, ?_⟩)
    (((h.one i g hi).within hg).alike ht)
  · exact (h.two j i x g hj hx hi).within hg
  · exact (h.two i j g x hj.symm hi hx).of_within hg

/-- A route is taken out of `ROUTES`. -/
lemma Base.pop (h : Base s ns) {id : RouteId} (hown : g'.own = none)
    (hvictim : g'.victim = s.routes.lookup id) :
    Base { s with routes := s.routes.erase id } (Function.update ns i (some g')) := by
  obtain ⟨h1, h2, h3, h4⟩ := h.all
  have herase : ∀ id' r, (s.routes.erase id).lookup id' = some r →
      s.routes.lookup id' = some r ∧ id' ≠ id := by
    grind [AList.lookup_erase, AList.lookup_erase_ne]
  refine h.set ⟨?_, ?_, h3, h4⟩ (fun j x hj hx hb => ⟨⟨?_, ?_, hb.one⟩, ?_, ?_⟩)
    ⟨?_, ?_, ?_⟩
  · exact fun id' r hr => h1 id' r (herase id' r hr).1
  · exact fun id' r hr => h2 id' r (herase id' r hr).1
  · exact fun r hr => ⟨(hb.own r hr).1, (hb.own r hr).2.1,
      fun he => (hb.own r hr).2.2.1 (herase _ _ he).1, (hb.own r hr).2.2.2⟩
  · exact fun r hr => ⟨(hb.victim r hr).1, fun he => (hb.victim r hr).2 (herase _ _ he).1⟩
  · -- a registered route is nobody's own
    intro r hr
    refine ⟨by simp [hown], fun hv => (hb.own r hr).2.2.1 ?_⟩
    rw [hvictim] at hv
    rw [h1 id r hv, hv]
  · exact fun r hr => absurd hr (by simp [hown])
  · exact fun r hr => absurd hr (by simp [hown])
  · intro r hr
    rw [hvictim] at hr
    exact ⟨(h2 id r hr).1, fun he => (herase _ _ he).2 (h1 id r hr)⟩
  · exact fun hne => absurd hown hne

lemma Base.register (h : Base s ns) (hi : ns i = some g) (hown : g.own = some r)
    (hl : g.launched = true) (hown' : g'.own = none) (hvictim : g'.victim = g.victim) :
    Base { s with routes := s.routes.insert r.id r } (Function.update ns i (some g')) := by
  obtain ⟨h1, h2, h3, h4⟩ := h.all
  obtain ⟨-, hstop, -, hproc⟩ := (h.one i g hi).own r hown
  have hnone := (h.one i g hi).one (by simp [hown])
  have hins : ∀ id' r', (s.routes.insert r.id r).lookup id' = some r' →
      (id' = r.id ∧ r' = r) ∨ s.routes.lookup id' = some r' := by
    grind [AList.lookup_insert, AList.lookup_insert_ne]
  refine h.set ⟨?_, ?_, h3, h4⟩ (fun j x hj hx hb => ⟨⟨?_, ?_, hb.one⟩, ?_, ?_⟩) ⟨?_, ?_, ?_⟩
  · intro id' r' hr'
    obtain ⟨rfl, rfl⟩ | hr' := hins id' r' hr'
    · rfl
    · exact h1 id' r' hr'
  · intro id' r' hr'
    obtain ⟨rfl, rfl⟩ | hr' := hins id' r' hr'
    · exact ⟨fun hp => by simp [hproc.mp hp] at hl, hstop⟩
    · exact h2 id' r' hr'
  · intro r' hr'
    refine ⟨(hb.own r' hr').1, (hb.own r' hr').2.1, fun he => ?_, (hb.own r' hr').2.2.2⟩
    obtain ⟨-, rfl⟩ | he := hins _ _ he
    · exact (h.two i j g x hj.symm hi hx _ hown).1 hr'
    · exact (hb.own r' hr').2.2.1 he
  · intro r' hr'
    refine ⟨(hb.victim r' hr').1, fun he => ?_⟩
    obtain ⟨-, rfl⟩ | he := hins _ _ he
    · exact (h.two i j g x hj.symm hi hx _ hown).2 hr'
    · exact (hb.victim r' hr').2 he
  · exact fun r' hr' => ⟨by simp [hown'], by simp [hvictim, hnone]⟩
  · exact fun r' hr' => absurd hr' (by simp [hown'])
  · exact fun r' hr' => absurd hr' (by simp [hown'])
  · exact fun r' hr' => absurd hr' (by simp [hvictim, hnone])
  · exact fun hne => absurd hown' hne

lemma held_exit (s : State) (r r' : Route) : (s.exit r).Held r' ↔ s.Held r' := by
  unfold State.exit State.Held
  grind [Function.update_apply, Process.ended_eq_none]

lemma held_stop (s : State) (r r' : Route) : (s.stop r).Held r' ↔ s.Held r' ∧ r' ≠ r := by
  unfold State.stop State.exit State.Held
  grind [Function.update_apply, Process.ended_eq_none]

/-- The watcher launches what had been launched before. -/
lemma held_restart (hr : s.proc r = .exited) :
    State.Held { s with proc := Function.update s.proc r .running } = s.Held := by
  funext r'
  by_cases he : r' = r
  · subst he
    simp [State.Held, hr]
  · simp [State.Held, he]

/-- A process ends. -/
lemma Books.exit (h : Books s) (r : Route) : Books (s.exit r) := by
  obtain ⟨h1, h2, h3, h4⟩ := h
  refine ⟨h1, fun id r' hr' => (held_exit s r r').mpr (h2 id r' hr'), ?_, ?_⟩ <;>
    unfold State.exit <;>
    grind [Function.update_apply, Process.ended_ne_running, Process.ended_eq_none]

lemma Hands.exit (h : Hands s g) (r : Route) : Hands (s.exit r) g := by
  obtain ⟨h1, h2, h3⟩ := h
  unfold State.exit
  constructor <;> grind [Function.update_apply, Process.ended_eq_none]

lemma Base.exit (h : Base s ns) (r : Route) : Base (s.exit r) ns :=
  h.move (h.all.exit r) fun _ _ _ hb => hb.exit r

lemma Doing.stopped_within (g : Doing) (r : Route) : (g.stopped r).Within g := by
  unfold Doing.stopped
  constructor <;> grind

lemma Base.stop (h : Base s ns) (hi : ns i = some g)
    (hr : g.victim = some r ∨ g.own = some r) :
    Base (s.stop r) (Function.update ns i (some (g.stopped r))) := by
  have hreg : ∀ id, s.routes.lookup id ≠ some r := by
    intro id hid
    have hid' := h.all.id_eq id r hid
    obtain hv | ho := hr
    · exact ((h.one i g hi).victim r hv).2 (by rw [hid', hid])
    · exact ((h.one i g hi).own r ho).2.2.1 (by rw [hid', hid])
  have hlt : r.ref < s.made := by
    obtain hv | ho := hr
    · exact h.all.made r (.inl ((h.one i g hi).victim r hv).1)
    · exact ((h.one i g hi).own r ho).1
  have hx := h.exit r
  have hothers : ∀ j x, j ≠ i → ns j = some x → x.own ≠ some r := by
    intro j x hj hx ho
    obtain hv | ho' := hr
    · exact (h.two j i x g hj hx hi r ho).2 hv
    · exact (h.two j i x g hj hx hi r ho).1 ho'
  refine hx.set ⟨hx.all.id_eq, ?_, ?_, ?_⟩ (fun j x hj hxj hb => ⟨⟨?_, hb.victim, hb.one⟩, ?_, ?_⟩)
    ⟨?_, ?_, ?_⟩
  · exact fun id r' hr' => (held_stop s r r').mpr ⟨h.all.held id r' hr', fun he =>
      hreg id (by rw [← he]; exact hr')⟩
  · intro r' hr'
    by_cases he : r' = r
    · subst he
      exact hlt
    · exact hx.all.made r' (by simpa [State.stop, he] using hr')
  · intro r' hr'
    by_cases he : r' = r
    · subst he
      simp [State.stop, State.exit]
    · exact hx.all.exited r' (by simpa [State.stop, he] using hr')
  · intro r' hr'
    have hne : r' ≠ r := fun he => hothers j x hj hxj (by rw [hr', he])
    obtain ⟨a, b, c, d⟩ := hb.own r' hr'
    exact ⟨a, by simpa [State.stop, hne] using b, c, d⟩
  · exact (h.two j i x g hj hxj hi).within (g.stopped_within r)
  · exact (h.two i j g x hj.symm hi hxj).of_within (g.stopped_within r)
  · intro r' hr'
    have hown : g.own = some r' ∧ r' ≠ r := by
      unfold Doing.stopped at hr'
      grind
    obtain ⟨a, b, c, d⟩ := (hx.one i g hi).own r' hown.1
    exact ⟨a, by simpa [State.stop, hown.2] using b, c, d⟩
  · exact fun r' hr' => ((hx.one i g hi).within (g.stopped_within r)).victim r' hr'
  · exact ((hx.one i g hi).within (g.stopped_within r)).one

lemma Base.newRoute (h : Base s ns) (hr : r.ref = s.made) (hreg : s.routes.lookup r.id ≠ some r)
    (hv : g.victim = none) :
    Base { s with made := s.made + 1 }
      (Function.update ns i (some { g with own := some r, launched := false })) := by
  obtain ⟨h1, h2, h3, h4⟩ := h.all
  have hnew : s.proc r = .none ∧ s.stopping r = false := by
    grind
  refine h.set ⟨h1, h2, fun r' hr' => (h3 r' hr').trans (Nat.lt_succ_self _), h4⟩
    (fun j x hj hx hb => ⟨⟨?_, hb.victim, hb.one⟩, ?_, ?_⟩) ⟨?_, ?_, ?_⟩
  · exact fun r' hr' => ⟨(hb.own r' hr').1.trans (Nat.lt_succ_self _), (hb.own r' hr').2⟩
  · intro r' hr'
    refine ⟨?_, by simp [hv]⟩
    rintro ⟨⟩
    exact absurd (hb.own _ hr').1 (by omega)
  · rintro r' ⟨⟩
    refine ⟨fun ho => absurd (hb.own _ ho).1 (by omega), fun ho => (hb.victim _ ho).1 hnew.1⟩
  · rintro r' ⟨⟩
    exact ⟨by dsimp only; omega, hnew.2, hreg, by simp [hnew.1]⟩
  · exact fun r' hr' => absurd hr' (by simp [hv])
  · exact fun _ => hv

lemma Base.launch (h : Base s ns) (hi : ns i = some g) (hown : g.own = some r) :
    Base { s with proc := Function.update s.proc r .running }
      (Function.update ns i (some { g with launched := true })) := by
  obtain ⟨h1, h2, h3, h4⟩ := h.all
  obtain ⟨hlt, hstop, -, -⟩ := (h.one i g hi).own r hown
  have hne : ∀ r', Function.update s.proc r .running r' ≠ .none ↔ s.proc r' ≠ .none ∨ r' = r := by
    grind [Function.update_apply]
  refine h.set ⟨h1, ?_, ?_, ?_⟩ (fun j x hj hx hb => ⟨⟨?_, ?_, hb.one⟩, ?_, ?_⟩)
    ⟨?_, ?_, (h.one i g hi).one⟩
  · exact fun id r' hr' => ⟨(hne r').mpr (.inl (h2 id r' hr').1), (h2 id r' hr').2⟩
  · rintro r' (hp | hs)
    · obtain hp | rfl := (hne r').mp hp
      · exact h3 r' (.inl hp)
      · exact hlt
    · exact h3 r' (.inr hs)
  · intro r' hs
    have he : r' ≠ r := by
      rintro rfl
      rw [hstop] at hs
      cases hs
    simpa [he] using h4 r' hs
  · intro r' hr'
    have he : r' ≠ r := by
      rintro rfl
      exact (h.two i j g x hj.symm hi hx _ hown).1 hr'
    simpa [he] using hb.own r' hr'
  · exact fun r' hr' => ⟨(hne r').mpr (.inl (hb.victim r' hr').1), (hb.victim r' hr').2⟩
  · exact h.two j i x g hj hx hi
  · exact h.two i j g x hj.symm hi hx
  · intro r' hr'
    obtain rfl : r = r' := Option.some.inj (hown.symm.trans hr')
    obtain ⟨a, b, c, -⟩ := (h.one i g hi).own r hown
    exact ⟨a, b, c, by simp⟩
  · exact fun r' hr' => ⟨(hne r').mpr (.inl ((h.one i g hi).victim r' hr').1),
      ((h.one i g hi).victim r' hr').2⟩

/-- The watcher launches a route again: it had been launched before. -/
lemma Base.restart (h : Base s ns) (hs : s.stopping r = false) (hr : s.proc r = .exited) :
    Base { s with proc := Function.update s.proc r .running } ns := by
  have hne : ∀ r', Function.update s.proc r .running r' = .none ↔ s.proc r' = .none := by
    grind [Function.update_apply]
  refine h.move ⟨h.all.id_eq, ?_, ?_, ?_⟩ fun j x hx hb => ⟨?_, ?_, hb.one⟩
  · simpa only [State.Held, ne_eq, hne] using h.all.held
  · simpa only [ne_eq, hne] using h.all.made
  · intro r' hs'
    have he : r' ≠ r := by
      rintro rfl
      rw [hs] at hs'
      cases hs'
    simpa [he] using h.all.exited r' hs'
  · simpa only [hne] using hb.own
  · simpa only [ne_eq, hne] using hb.victim

end Steps

lemma told {s : State} (h : Books s) {c : Call} {r : c.Ret} (hr : can s c r) : Told c r := by
  cases c with
  | popTaken id =>
      obtain rfl : r = (s.routes.lookup id, s.taken id) := hr
      exact fun old ho => h.id_eq id old ho
  | pop id | get id =>
      obtain rfl : r = s.routes.lookup id := hr
      exact fun old ho => h.id_eq id old ho
  | newRoute id token source ports =>
      obtain rfl : r = { ref := s.made, id, tokenSha256 := token, source, ports } := hr
      exact ⟨rfl, rfl⟩
  | _ => trivial

/-- **A call keeps the books.** -/
lemma base_call {s : State} {ns : ℕ → Option Doing} {i : ℕ} {g : Doing} {c : Call} {r : c.Ret}
    (hi : ns i = some g) (hc : Allowed S strict g c) (hr : can s c r) (h : Base s ns) :
    Base (next S s c r) (Function.update ns i (some (note S g c r))) := by
  have hsame : ∀ {g' : Doing} {t : State}, g'.Within g → t.Alike s →
      Base t (Function.update ns i (some g')) := fun hg ht => h.same hi hg ht
  cases c with
  | request | reply => exact hsame ⟨.inl rfl, .inl rfl⟩ ⟨rfl, rfl, rfl, rfl⟩
  | popTaken id =>
      obtain rfl : r = (s.routes.lookup id, s.taken id) := hr
      exact h.pop (by rw [hc.2]; rfl) rfl
  | pop id =>
      obtain rfl : r = s.routes.lookup id := hr
      exact h.pop (by rw [hc.2]; rfl) rfl
  | register id route =>
      obtain ⟨-, hown, rfl, hl⟩ := hc
      exact h.register hi hown hl rfl rfl
  | stop route => exact h.stop hi hc
  | newRoute id token source ports =>
      obtain rfl : r = { ref := s.made, id, tokenSha256 := token, source, ports } := hr
      refine h.newRoute rfl (fun hreg => ?_) hc.2.2.1
      exact absurd (h.all.made _ (.inl (h.all.held _ _ hreg).1)) (lt_irrefl s.made)
  | launch route =>
      rcases r with e | _
      · exact hsame ⟨.inr ⟨rfl, rfl⟩, .inr rfl⟩ ⟨rfl, rfl, rfl, rfl⟩
      · exact h.launch hi hc.1
  | restart route =>
      cases r with
      | false => exact hsame ⟨.inr ⟨rfl, rfl⟩, .inr rfl⟩ ⟨rfl, rfl, rfl, rfl⟩
      | true =>
          exact (h.restart (hr rfl).1 (hr rfl).2.1).same hi ⟨.inr ⟨rfl, rfl⟩, .inr rfl⟩
            ⟨rfl, rfl, rfl, rfl⟩
  | makedirs | writePrivate =>
      rcases r with e | _ <;> exact hsame ⟨.inr ⟨rfl, rfl⟩, .inr rfl⟩ ⟨rfl, rfl, rfl, rfl⟩
  | splice => cases r <;> exact hsame ⟨.inr ⟨rfl, rfl⟩, .inr rfl⟩ ⟨rfl, rfl, rfl, rfl⟩
  | get | values | rmtree | portFree | probes | poll | createConnection | readKey | reload | head =>
      exact hsame ⟨.inr ⟨rfl, rfl⟩, .inr rfl⟩ ⟨rfl, rfl, rfl, rfl⟩

/-- What a process can do by itself. -/
lemma tick_cases {s t : State} {m : Move} (hm : tick m s = some t) :
    (∃ r p, s.proc r = .running ∧ p ∈ wanted r.ports ∧ s.listener p = none ∧
      t = { s with listener := Function.update s.listener p (some r) }) ∨
    ∃ r, s.proc r = .running ∧ t = s.exit r := by
  cases m with
  | bind r p =>
      simp only [tick] at hm
      split_ifs at hm with h
      exact .inl ⟨r, p, h.1, h.2.1, h.2.2, (Option.some.inj hm).symm⟩
  | die r =>
      simp only [tick] at hm
      split_ifs at hm with h
      exact .inr ⟨r, h, (Option.some.inj hm).symm⟩

lemma base_tick {s t : State} {ns : ℕ → Option Doing} {m : Move} (hm : tick m s = some t)
    (h : Base s ns) : Base t ns := by
  obtain ⟨r, p, -, -, -, rfl⟩ | ⟨r, -, rfl⟩ := tick_cases hm
  · exact h.move (h.all.alike ⟨rfl, rfl, rfl, rfl⟩) fun _ _ _ hb => hb.alike ⟨rfl, rfl, rfl, rfl⟩
  · exact h.exit r

lemma base_start {s : State} {ns : ℕ → Option Doing} {i : ℕ} (h : Base s ns) :
    Base s (Function.update ns i (some {})) :=
  h.set h.all (fun _ _ _ _ hb => ⟨hb, by simp [Distinct], by simp [Distinct]⟩)
    ⟨by simp, by simp, by simp⟩

lemma base_empty : Base .empty fun _ => none :=
  ⟨⟨by simp [State.empty], by simp [State.empty], by simp [State.empty], by simp [State.empty]⟩,
    by simp, by simp⟩

/-- The books are kept in every interleaving. -/
theorem base_run {c : Threads.Config Call Call.Ret Fault Unit State Doing}
    (h : Threads.Run (supervisor S) Threads.always (.empty .empty) c) :
    Base c.shared c.notes := by
  refine Threads.inv (Sees False) ?_ safe_begins clean_of_leaves ⟨?_, ?_, ?_, ?_⟩ base_empty h
  · intro s ns i g c r t hi hI hr _
    exact ⟨told hI.all hr.1, False.elim⟩
  · rintro s ns i g p hi ⟨rfl, -⟩ hI
    exact base_start hI
  · rintro s ns i g c r t hi hc ⟨hr, rfl⟩ _ hI
    exact base_call hi hc hr hI
  · exact fun s ns i g _ _ hI => hI.drop i
  · rintro s ns t ⟨m, hm⟩ hI
    exact base_tick hm hI

/-! ### A supervisor to play schedules on -/

def demoSetup : Setup :=
  { controlPort := 8080, frontPort := 3128, controlSha256 := "t", digest := id }

def demoToken : String := String.ofList (List.replicate 64 'a')

def portsFrom (n : ℕ) : ProxyPorts :=
  { tunnel := n, http := n + 1, https := n + 2, management := n + 3, metrics := n + 4 }

def routeFrom (n ref : ℕ) (id : RouteId) : Route :=
  { ref, id, tokenSha256 := demoToken, source := none, ports := portsFrom n }

/-- A request for a route; its body is that of a `PUT` with the ports from `n` on. -/
def requestFrom (n : ℕ) (verb : Verb) (id : RouteId) : Request where
  verb := verb
  path := "/routes/" ++ id
  authorization := "Bearer t"
  length := some 300
  body := some (.obj
    [("token_sha256", .str demoToken), ("source", .null),
      ("ports", .obj [("tunnel", .int n), ("http", .int (n + 1)), ("https", .int (n + 2)),
        ("management", .int (n + 3)), ("metrics", .int (n + 4))]),
      ("config", .str "proxy"),
      ("files", .obj [("ca.crt", .str "crt"), ("ca.key", .str "key"),
        ("management.key", .str "k")])])

def demoRoute (ref : ℕ) (id : RouteId) : Route := routeFrom 20001 ref id

def demoRequest (verb : Verb) (id : RouteId) : Request := requestFrom 20001 verb id

/-- Answers where nothing fails. Thread `i` gets request `asks i`, and a front connection is for
the route `front`. -/
def demoAnswer (asks : ℕ → Request) (front : RouteId) (i : ℕ) (s : State) : (c : Call) → c.Ret
  | .request => asks i
  | .head => some (some (front, demoToken), "10.0.0.1")
  | .popTaken id => (s.routes.lookup id, s.taken id)
  | .pop id => s.routes.lookup id
  | .get id => s.routes.lookup id
  | .values => s.values
  | .newRoute id tokenSha256 source ports => { ref := s.made, id, tokenSha256, source, ports }
  | .portFree p => (s.listener p).isNone
  | .makedirs dir => if s.dirs dir then .error (.os "File exists") else .ok ()
  | .writePrivate _ _ _ => .ok ()
  | .launch route => if s.hasKey route.id then .ok () else .error (.os "No such file or directory")
  | .probes _ => (1 : ℕ)
  | .poll route => decide (s.proc route ≠ .running)
  | .createConnection p => (s.listener p).isSome
  | .splice route => (s.listener route.ports.tunnel).isSome
  | .restart _ => false
  | .rmtree _ => []
  | .readKey _ => .ok "k"
  | .reload _ _ => .ok 200
  | .reply _ _ _ | .register _ _ | .stop _ => ()

lemma can_demoAnswer (asks : ℕ → Request) (front : RouteId) (i : ℕ) (s : State) (c : Call) :
    can s c (demoAnswer asks front i s c) := by
  cases c with
  | makedirs dir => cases h : s.dirs dir <;> simp [can, demoAnswer, h]
  | launch route => cases h : s.hasKey route.id <;> simp [can, demoAnswer, h]
  | portFree p => exact fun h => Option.isNone_iff_eq_none.mp h
  | createConnection p => exact fun h => Option.isSome_iff_ne_none.mp h
  | splice route => exact fun h => Option.isSome_iff_ne_none.mp h
  | restart => exact fun h => nomatch h
  | popTaken | pop | get | values | newRoute | poll => rfl
  | _ => trivial

/-- `n` turns of thread `i`. -/
def turns (n i : ℕ) : List (ℕ ⊕ Move) := List.replicate n (.inl i)

def binds (r : Route) (port : ℕ) : List (ℕ ⊕ Move) := [.inr (.bind r port)]

/-- The threads, played by a schedule. -/
def demo (asks : ℕ → Request) (front : RouteId) (ps : List (Handler Unit))
    (ok : Threads.Config Call Call.Ret Fault Unit State Doing → ℕ → Call → Bool)
    (l : List (ℕ ⊕ Move)) : Option (Threads.Config Call Call.Ret Fault Unit State Doing) :=
  Threads.play (next demoSetup) (note demoSetup) (demoAnswer asks front) tick ok l
    (Threads.begun .empty (ps.map ({}, ·)))

lemma run_demo {asks : ℕ → Request} {front : RouteId} {ps : List (Handler Unit)}
    {ok : Threads.Config Call Call.Ret Fault Unit State Doing → ℕ → Call → Bool}
    {M : Threads.Condition Call Call.Ret State Doing} {l : List (ℕ ⊕ Move)}
    {c : Threads.Config Call Call.Ret Fault Unit State Doing}
    (hps : ∀ p ∈ ps, p = control demoSetup ∨ p = handleFront demoSetup ∨ p = watch)
    (hok : ∀ (c : Threads.Config Call Call.Ret Fault Unit State Doing) i o, Base c.shared c.notes →
      (∀ j, ps.length ≤ j → c.threads j = none) → ok c i o = true →
      M c.shared c.notes i o (demoAnswer asks front i c.shared o))
    (h : demo asks front ps ok l = some c) :
    Threads.Run (supervisor demoSetup) M (.empty .empty) c := by
  refine Threads.run_begun_play (T := supervisor demoSetup) ?_ ?_ ?_ ?_ h
  · intro x hx
    obtain ⟨p, hp, rfl⟩ := List.mem_map.mp hx
    exact ⟨rfl, hps p hp⟩
  · exact fun c i o _ => ⟨can_demoAnswer asks front i c.shared o, rfl⟩
  · exact fun x s t ht => ⟨x, ht⟩
  · exact fun c i o hc hn => hok c i o (base_run hc) (by simpa using hn)

end Bimo.Supervisor
