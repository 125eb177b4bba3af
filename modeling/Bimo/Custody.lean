import Bimo.Reservations

/-!
Who has a guest of the pool.

What one call makes of the pool's records (`Turns`), how a process comes by the guest it has in
hand (`Obtains`), and that a call leaves every guest alone that its process does not have.
-/

namespace Bimo.Proxmox

variable {S : Settings} {s t : World} {g g' : Doing} {c : Call} {r : c.Ret}

/-! ### Records -/

section

variable {p : PoolGuest → Bool} {f : PoolGuest → PoolGuest} {l : List PoolGuest} {z : PoolGuest}

lemma mem_of_mem_modifyFirst (h : z ∈ modifyFirst p f l) :
    z ∈ l ∨ ∃ y ∈ l, p y = true ∧ z = f y := by
  induction l with
  | nil => cases h
  | cons y l ih =>
      unfold modifyFirst at h
      split_ifs at h with hy
      · rcases List.mem_cons.mp h with rfl | h
        · exact .inr ⟨y, List.mem_cons_self, hy, rfl⟩
        · exact .inl (List.mem_cons_of_mem _ h)
      · rcases List.mem_cons.mp h with rfl | h
        · exact .inl List.mem_cons_self
        · rcases ih h with h | ⟨x, hx, hp, rfl⟩
          · exact .inl (List.mem_cons_of_mem _ h)
          · exact .inr ⟨x, List.mem_cons_of_mem _ hx, hp, rfl⟩

lemma mem_modifyFirst (h : z ∈ l) :
    z ∈ modifyFirst p f l ∨ (p z = true ∧ f z ∈ modifyFirst p f l) := by
  induction l with
  | nil => cases h
  | cons y l ih =>
      unfold modifyFirst
      split_ifs with hy
      · rcases List.mem_cons.mp h with rfl | h
        · exact .inr ⟨hy, List.mem_cons_self⟩
        · exact .inl (List.mem_cons_of_mem _ h)
      · rcases List.mem_cons.mp h with rfl | h
        · exact .inl List.mem_cons_self
        · rcases ih h with h | ⟨hp, h⟩
          · exact .inl (List.mem_cons_of_mem _ h)
          · exact .inr ⟨hp, List.mem_cons_of_mem _ h⟩

lemma modifyFirst_find (h : l.find? p = some z) : f z ∈ modifyFirst p f l := by
  induction l with
  | nil => cases h
  | cons y l ih =>
      unfold modifyFirst
      split_ifs with hy
      · rw [List.find?_cons_of_pos hy] at h
        rw [← Option.some.inj h]
        exact List.mem_cons_self
      · rw [List.find?_cons_of_neg hy] at h
        exact List.mem_cons_of_mem _ (ih h)

end

/-- What a call makes of a record. -/
inductive Turns (g : Doing) (z : PoolGuest) : Call → PoolGuest → Prop
  | same {c : Call} : Turns g z c z
  | claims {tenant agent : String} {warm : Option String} (hready : z.state = .ready) :
      Turns g z (.pool (.take tenant agent warm)) (claimedFor agent z)
  | warms {tenant version : String} {pid : ℕ} (hready : z.state = .ready) (hwarm : z.warm = none) :
      Turns g z (.pool (.takeUnwarmed tenant version pid)) (warming pid z)
  | unwarms (hready : z.state = .ready) : Turns g z (.pool (.unwarm z.vmid)) (unwarmed z)
  | marks {k : Hand} {x : PoolGuest} {state : GuestState} {agent : Option String}
      (hx : g.hand = some (k, x)) (hv : x.vmid = z.vmid) (hm : Marks g k state agent) :
      Turns g z (.pool (.mark z.vmid state agent)) (marked state agent z)
  | warmed {x : PoolGuest} {secrets : WarmSecrets} {key egress : String}
      (hx : g.hand = some (.warming, x)) (hv : x.vmid = z.vmid) (hs : g.secrets = some secrets)
      (he : secrets.egress = some egress) (hb : g.began = some (key, egress)) :
      Turns g z (.pool (.setWarm z.vmid key)) (warmWith key z)

lemma Turns.vmid {z z' : PoolGuest} (h : Turns g z c z') : z'.vmid = z.vmid := by
  cases h <;> rfl

lemma Turns.tenant {z z' : PoolGuest} (h : Turns g z c z') : z'.tenant = z.tenant := by
  cases h <;> rfl

/-- A record of a guest that is not ready changes only in the hands of its process. -/
lemma Turns.eq {z z' : PoolGuest} (h : Turns g z c z') (hstate : z.state ≠ .ready)
    (hhand : ∀ k x, g.hand = some (k, x) → x.vmid ≠ z.vmid) : z' = z := by
  cases h with
  | same => rfl
  | claims hready => exact absurd hready hstate
  | warms hready => exact absurd hready hstate
  | unwarms hready => exact absurd hready hstate
  | marks hx hv => exact absurd hv (hhand _ _ hx)
  | warmed hx hv => exact absurd hv (hhand _ _ hx)

lemma wanted_ready {s : Shelf} {tenant : String} {warm : Option String} {z : PoolGuest}
    (h : wanted s tenant warm z = true) : z.tenant = tenant ∧ z.state = .ready ∧
      s.templateVersion.isSome ∧ z.templateVersion = s.templateVersion ∧
      (z.warm = none ∨ z.warm = warm) := by
  simp only [wanted, usable, Bool.and_eq_true, decide_eq_true_eq] at h
  obtain ⟨⟨⟨⟨htenant, hstate⟩, hsome⟩, hversion⟩, hwarm⟩ := h
  refine ⟨htenant, hstate, hsome, hversion, ?_⟩
  split_ifs at hwarm
  · exact .inr (of_decide_eq_true hwarm)
  · exact .inl (of_decide_eq_true hwarm)

lemma canWarm_ready {tenant version : String} {z : PoolGuest}
    (h : canWarm tenant version z = true) : z.state = .ready ∧ z.warm = none := by
  simp only [canWarm, isReady, Bool.and_eq_true, decide_eq_true_eq] at h
  exact ⟨h.1.1.2, h.1.2⟩

/-- A record of a reservation. -/
structure Fresh (s : World) (g : Doing) (z : PoolGuest) : Prop where
  vmid : z.vmid ∉ s.shelf.vmids
  state : z.state = .cloning
  warm : z.warm = none
  owner : z.owner = some g.pid

/-- What a call makes of the pool's records. -/
inductive Guests (s : World) (g : Doing) : Call → List PoolGuest → Prop
  | kept {c : Call} : Guests s g c s.shelf.guests
  | changed {c : Call} {p : PoolGuest → Bool} {f : PoolGuest → PoolGuest}
      (h : ∀ z, p z = true → Turns g z c (f z)) : Guests s g c (modifyFirst p f s.shelf.guests)
  | forgot {v : ℕ} (h : InHands g v) :
      Guests s g (.pool (.forget v)) (s.shelf.guests.filter (·.vmid ≠ v))
  | added {c : Call} {z : PoolGuest} (h : Fresh s g z) : Guests s g c (s.shelf.guests ++ [z])

lemma guests_run {d : Section} {o : Oracle} {u : Shelf} {y : d.Ret} (hpre : AllowedPool g d)
    (hrun : d.run S o s.shelf = .ok (y, u)) : Guests s g (.pool d) u.guests := by
  cases d with
  | take tenant agent warm =>
      obtain ⟨-, rfl⟩ := Prod.mk.inj (Except.ok.inj hrun)
      exact .changed fun z hp => .claims (wanted_ready hp).2.1
  | takeUnwarmed tenant version pid =>
      obtain ⟨-, rfl⟩ := Prod.mk.inj (Except.ok.inj hrun)
      exact .changed fun z hp => .warms (canWarm_ready hp).1 (canWarm_ready hp).2
  | unwarm v =>
      obtain ⟨-, rfl⟩ := Prod.mk.inj (Except.ok.inj hrun)
      refine .changed fun z hp => ?_
      simp only [readyAt, Bool.and_eq_true, decide_eq_true_eq] at hp
      obtain ⟨rfl, hready⟩ := hp
      exact .unwarms hready
  | mark v state agent =>
      obtain ⟨-, rfl⟩ := Prod.mk.inj (Except.ok.inj hrun)
      obtain ⟨k, x, hx, hv, hm⟩ := hpre
      refine .changed fun z hp => ?_
      obtain rfl : z.vmid = v := of_decide_eq_true hp
      exact .marks hx hv hm
  | setWarm v key =>
      obtain ⟨-, rfl⟩ := Prod.mk.inj (Except.ok.inj hrun)
      obtain ⟨x, f, e, hx, hv, hs, he, hb⟩ := hpre
      refine .changed fun z hp => ?_
      obtain rfl : z.vmid = v := of_decide_eq_true hp
      exact .warmed hx hv hs he hb
  | forget v =>
      obtain ⟨-, rfl⟩ := Prod.mk.inj (Except.ok.inj hrun)
      exact .forgot hpre
  | reserve tenant agent version pid seen =>
      obtain ⟨⟨v, l⟩, hslot, hrun⟩ := bind_eq_ok.mp hrun
      obtain ⟨-, rfl⟩ := Prod.mk.inj (Except.ok.inj hrun)
      refine .added ⟨(reserveSlot_spec hslot).2.1, rfl, rfl, ?_⟩
      rw [hpre.2.2.1]
  | reserveProxy tenant vlan version pid seen =>
      obtain ⟨⟨v, l⟩, hslot, hrun⟩ := bind_eq_ok.mp hrun
      obtain ⟨-, rfl⟩ := Prod.mk.inj (Except.ok.inj hrun)
      exact .kept
  | review | held | ready | outdated | warmed | victims =>
      obtain ⟨-, rfl⟩ := Prod.mk.inj (Except.ok.inj hrun)
      exact .kept

lemma guests_cases (hpre : Allowed g c) (h : step S s c r t) : Guests s g c t.shelf.guests := by
  have hshelves := step_shelves h
  generalize t.shelf = u at hshelves
  cases hshelves with
  | none => exact .kept
  | save => exact .kept
  | drop => exact .kept
  | run hrun => exact guests_run hpre hrun

/-- Where the records come from that a call leaves. -/
lemma guests_step (hpre : Allowed g c) (h : step S s c r t) {z' : PoolGuest}
    (hz' : z' ∈ t.shelf.guests) : (∃ z ∈ s.shelf.guests, Turns g z c z') ∨ Fresh s g z' := by
  have hcases := guests_cases hpre h
  generalize t.shelf.guests = l at hcases hz'
  cases hcases with
  | kept => exact .inl ⟨z', hz', .same⟩
  | changed hturns =>
      rcases mem_of_mem_modifyFirst hz' with hz | ⟨z, hz, hp, rfl⟩
      · exact .inl ⟨z', hz, .same⟩
      · exact .inl ⟨z, hz, hturns z hp⟩
  | forgot => exact .inl ⟨z', (List.mem_filter.mp hz').1, .same⟩
  | added hfresh =>
      rcases List.mem_append.mp hz' with hz | hz
      · exact .inl ⟨z', hz, .same⟩
      · exact .inr (List.mem_singleton.mp hz ▸ hfresh)

/-- What becomes of the records there are: they go only from the hands of the process. -/
lemma guests_keep (hpre : Allowed g c) (h : step S s c r t) {z : PoolGuest}
    (hz : z ∈ s.shelf.guests) :
    (∃ z' ∈ t.shelf.guests, Turns g z c z') ∨ (c = .pool (.forget z.vmid) ∧ InHands g z.vmid) := by
  have hcases := guests_cases hpre h
  generalize t.shelf.guests = l at hcases
  cases hcases with
  | kept => exact .inl ⟨z, hz, .same⟩
  | @changed _ p f hturns =>
      rcases mem_modifyFirst (p := p) (f := f) hz with hz | ⟨hp, hz⟩
      · exact .inl ⟨z, hz, .same⟩
      · exact .inl ⟨f z, hz, hturns z hp⟩
  | @forgot v hv =>
      by_cases he : z.vmid = v
      · subst he
        exact .inr ⟨rfl, hv⟩
      · exact .inl ⟨z, List.mem_filter.mpr ⟨hz, decide_eq_true he⟩, .same⟩
  | added => exact .inl ⟨z, List.mem_append_left _ hz, .same⟩

/-! ### Hands -/

/-- The process has the guest, or may do away with it. -/
def Has (g : Doing) (v : ℕ) : Prop := (∃ k x, g.hand = some (k, x) ∧ x.vmid = v) ∨ InHands g v

/-- A guest that is not ready, and that its process does not have, keeps its record. -/
lemma guests_other (hpre : Allowed g c) (h : step S s c r t) {z : PoolGuest}
    (hz : z ∈ s.shelf.guests) (hstate : z.state ≠ .ready) (hhas : ¬ Has g z.vmid) :
    z ∈ t.shelf.guests := by
  rcases guests_keep hpre h hz with ⟨z', hz', hturns⟩ | ⟨-, hin⟩
  · have hhand : ∀ k x, g.hand = some (k, x) → x.vmid ≠ z.vmid :=
      fun k x hx hv => hhas (.inl ⟨k, x, hx, hv⟩)
    rw [← hturns.eq hstate hhand]
    exact hz'
  · exact absurd (.inr hin) hhas

/-- How a process comes by a guest. -/
inductive Obtains (s t : World) (g : Doing) : Hand → PoolGuest → Prop
  | taken {q : Request} {z : PoolGuest} (htask : g.task = .claim q) (hz : z ∈ s.shelf.guests)
      (hw : wanted s.shelf q.tenant q.warm z = true)
      (ht : claimedFor q.agent z ∈ t.shelf.guests) : Obtains s t g .taken z
  | warming {tenant version : String} {z : PoolGuest} (hz : z ∈ s.shelf.guests)
      (hw : canWarm tenant version z = true)
      (ht : Proxmox.warming g.pid z ∈ t.shelf.guests) :
      Obtains s t g .warming (Proxmox.warming g.pid z)
  | cold {q : Request} {x : PoolGuest} (htask : g.task = .claim q) (htenant : x.tenant = q.tenant)
      (hfresh : Fresh s g x) (ht : x ∈ t.shelf.guests) : Obtains s t g .cold x
  | filling {x : PoolGuest} (htask : g.task.retires = true) (hfresh : Fresh s g x)
      (ht : x ∈ t.shelf.guests) : Obtains s t g .filling x

lemma noteCheck_hand (g : Doing) (c : Call) (r : c.Ret) : (noteCheck g c r).hand = g.hand := by
  unfold noteCheck
  split
  · split <;> rfl
  · split
    · split_ifs <;> rfl
    · rfl
  · split_ifs <;> rfl
  · rfl

/-- Only sections of the pool change what a process has in hand. -/
lemma note_hand (g : Doing) (hc : ∀ d, c ≠ .pool d) (r : c.Ret) : (note g c r).hand = g.hand := by
  cases c with
  | pool d => exact absurd rfl (hc d)
  | readSecrets | guestStatus | guestRuntime =>
      simp only [note]
      split_ifs
      · exact noteCheck_hand _ _ _
      · rfl
  | bind | writeSecrets | startWarm =>
      simp only [note]
      split_ifs <;> rfl
  | clone v tenant agent =>
      cases agent with
      | none => rfl
      | some a => rcases r with e | x <;> rfl
  | templateVersion | lockTenant => rcases r with e | x <;> rfl
  | readRecord => rcases r with e | x <;> rfl
  | runs v => rcases r with e | (_ | _) <;> rfl
  | _ => rfl

lemma drop_hand {v : ℕ} {k : Hand} {x : PoolGuest} (h : (g.drop v).hand = some (k, x)) :
    g.hand = some (k, x) ∧ x.vmid ≠ v := by
  unfold Doing.drop at h
  split_ifs at h with hv
  · cases h
  · change g.hand = some (k, x) at h
    rw [h, Option.any_some, decide_eq_true_eq] at hv
    exact ⟨h, hv⟩

/-- A section that answers has run, and left its records. -/
lemma stepPool_ok {d : Section} {y : d.Ret} (h : stepPool S s d (.ok y) t) :
    ∃ o, d.run S o s.shelf = .ok (y, t.shelf) := by
  rcases stepPool_cases h with ⟨hr, -⟩ | ⟨o, y', hrun, hy⟩
  · cases hr
  · rw [hy y rfl]
    exact ⟨o, hrun⟩

/-- The guest in hand is the one from before, or one that was come by. -/
lemma hand_note (hpre : Allowed g c) (h : step S s c r t) {k : Hand} {x : PoolGuest}
    (hk : (note g c r).hand = some (k, x)) :
    g.hand = some (k, x) ∨ (g.hand = none ∧ note g c r = g.hold k x ∧ Obtains s t g k x) := by
  by_cases hc : ∃ d, c = .pool d
  · obtain ⟨d, rfl⟩ := hc
    cases d with
    | take tenant agent warm =>
        rcases r with e | _ | y
        · exact .inl hk
        · exact .inl hk
        · obtain ⟨rfl, rfl⟩ := Prod.mk.inj (Option.some.inj hk)
          obtain ⟨hhand, q, htask, rfl, rfl, rfl⟩ := hpre
          obtain ⟨o, hrun⟩ := stepPool_ok h
          obtain ⟨hfind, hshelf⟩ := Prod.mk.inj (Except.ok.inj hrun)
          refine .inr ⟨hhand, rfl, .taken htask (List.mem_of_find?_eq_some hfind)
            (List.find?_some hfind) ?_⟩
          rw [← hshelf]
          exact modifyFirst_find hfind
    | takeUnwarmed tenant version pid =>
        rcases r with e | _ | y
        · exact .inl hk
        · exact .inl hk
        · obtain ⟨rfl, rfl⟩ := Prod.mk.inj (Option.some.inj hk)
          obtain ⟨hhand, rfl⟩ := hpre
          obtain ⟨o, hrun⟩ := stepPool_ok h
          obtain ⟨hfind, hshelf⟩ := Prod.mk.inj (Except.ok.inj hrun)
          obtain ⟨z, hz, rfl⟩ := Option.map_eq_some_iff.mp hfind
          refine .inr ⟨hhand, rfl, .warming (List.mem_of_find?_eq_some hz)
            (List.find?_some hz) ?_⟩
          rw [← hshelf]
          exact modifyFirst_find hz
    | reserve tenant agent version pid seen =>
        rcases r with e | y
        · exact .inl hk
        · obtain ⟨rfl, rfl⟩ := Prod.mk.inj (Option.some.inj hk)
          obtain ⟨hhand, -, rfl, hnone, hagent⟩ := hpre
          obtain ⟨o, hrun⟩ := stepPool_ok h
          obtain ⟨⟨v, l⟩, hslot, hrun⟩ := bind_eq_ok.mp hrun
          obtain ⟨rfl, hshelf⟩ := Prod.mk.inj (Except.ok.inj hrun)
          have hlast : ∀ z : PoolGuest, z ∈ s.shelf.guests ++ [z] := fun z => by simp
          have hvmid := (reserveSlot_spec hslot).2.1
          cases agent with
          | none =>
              refine .inr ⟨hhand, rfl, .filling (hnone rfl) ⟨hvmid, rfl, rfl, rfl⟩ ?_⟩
              rw [← hshelf]
              exact hlast _
          | some a =>
              obtain ⟨q, htask, rfl, -⟩ := hagent a rfl
              refine .inr ⟨hhand, rfl, .cold htask rfl ⟨hvmid, rfl, rfl, rfl⟩ ?_⟩
              rw [← hshelf]
              exact hlast _
    | mark v state agent =>
        simp only [note, notePool] at hk
        split_ifs at hk
        · exact .inl hk
        · cases hk
    | setWarm => cases hk
    | forget v => exact .inl (drop_hand hk).1
    | review | outdated | victims | reserveProxy =>
        rcases r with e | y
        · exact .inl hk
        · exact .inl hk
    | _ => exact .inl hk
  · rw [note_hand g fun d hd => hc ⟨d, hd⟩] at hk
    exact .inl hk

end Bimo.Proxmox
