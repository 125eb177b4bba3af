import Bimo.DriverRuns
import Mathlib.Data.List.Flatten
import Mathlib.Data.List.Nodup
import Mathlib.Data.List.Perm.Basic

/-!
Every guest of a target has a VMID and addresses of its own.

A reservation looks at the pool and at the proxies' records under the pool's lock, so what it
takes is in no record. A proxy's record is written again outside that lock, but under its
tenant's, by the process that has had it in hand since it read or reserved it; so it is the same
guest that is written.
-/

namespace Bimo.Proxmox

variable {S : Settings} {s t : World} {g g' : Doing} {c : Call} {r : c.Ret}

/-- No VMID and no address is given twice, and all are in their range. -/
structure Unique (S : Settings) (s : Shelf) : Prop where
  slugs : (s.proxies.map (·.slug)).Nodup
  vmids : s.vmids.Nodup
  addresses : s.addresses.Nodup
  vmidsIn : ∀ v ∈ s.vmids, S.vmidLow ≤ v ∧ v ≤ S.vmidHigh
  addressesIn : ∀ a ∈ s.addresses, S.addresses.contains a

/-! ### Allocation -/

lemma allocate_spec {range : AddressRange} {used : List ℕ} {a : ℕ}
    (h : range.allocate used = some a) : range.contains a ∧ a ∉ used := by
  have hmem := List.mem_of_find?_eq_some h
  have hp := List.find?_some h
  rw [List.mem_range'_1] at hmem
  refine ⟨⟨hmem.1, ?_⟩, of_decide_eq_true hp⟩
  have := hmem.2
  omega

lemma allocateAll_spec {range : AddressRange} {n : ℕ} {used l : List ℕ}
    (h : range.allocateAll n used = some l) :
    l.length = n ∧ l.Nodup ∧ ∀ a ∈ l, range.contains a ∧ a ∉ used := by
  induction n generalizing used l with
  | zero =>
      obtain rfl := Option.some.inj h
      simp
  | succ n ih =>
      obtain ⟨a, ha, h⟩ := Option.bind_eq_some_iff.mp h
      obtain ⟨l', hl', h⟩ := Option.bind_eq_some_iff.mp h
      obtain rfl := Option.some.inj h
      obtain ⟨hlen, hnodup, hall⟩ := ih hl'
      obtain ⟨hin, hfresh⟩ := allocate_spec ha
      refine ⟨by simp [hlen], List.nodup_cons.mpr ⟨fun hmem => ?_, hnodup⟩, fun b hb => ?_⟩
      · exact (hall a hmem).2 List.mem_cons_self
      · rcases List.mem_cons.mp hb with rfl | hb
        · exact ⟨hin, hfresh⟩
        · exact ⟨(hall b hb).1, fun hused => (hall b hb).2 (List.mem_cons_of_mem _ hused)⟩

lemma freeVmid_spec {s : Shelf} {seen : Listing} {o : Oracle} {v : ℕ}
    (h : freeVmid S s seen o = some v) : S.vmidLow ≤ v ∧ v ≤ S.vmidHigh ∧ v ∉ s.vmids := by
  have hmem := List.mem_of_find?_eq_some h
  have hp := List.find?_some h
  rw [decide_eq_true_eq] at hp
  rw [List.mem_range'_1] at hmem
  refine ⟨hmem.1, by omega, fun hv => ?_⟩
  rcases List.mem_append.mp hv with hv | hv
  · exact hp.1 hv
  · exact hp.2.2.1 hv

lemma addresses_subset_used (s : Shelf) (seen : Listing) : s.addresses ⊆ usedAddresses s seen := by
  intro a ha
  unfold usedAddresses
  rcases List.mem_append.mp ha with ha | ha
  · exact List.mem_append_right _ ha
  · obtain ⟨x, hx, ha⟩ := List.mem_flatMap.mp ha
    refine List.mem_append_left _ (List.mem_append_right _ (List.mem_flatMap.mpr ⟨x, hx, ?_⟩))
    unfold ProxyRecord.addresses at ha
    split_ifs at ha
    · exact ha
    · exact List.mem_cons.mpr (.inl (List.mem_singleton.mp ha))

/-- What a reservation takes is in no record. -/
lemma reserveSlot_spec {s : Shelf} {seen : Listing} {o : Oracle} {n v : ℕ} {l : List ℕ}
    (h : reserveSlot S s seen o n = .ok (v, l)) :
    (S.vmidLow ≤ v ∧ v ≤ S.vmidHigh) ∧ v ∉ s.vmids ∧ l.length = n ∧ l.Nodup ∧
      ∀ a ∈ l, S.addresses.contains a ∧ a ∉ s.addresses := by
  unfold reserveSlot at h
  split at h
  · cases h
  · rename_i addresses haddr
    split at h
    · cases h
    · rename_i vmid hv
      obtain ⟨u, -, h⟩ := bind_eq_ok.mp h
      obtain ⟨rfl, rfl⟩ := Prod.mk.inj (Except.ok.inj h)
      obtain ⟨hlow, hhigh, hfresh⟩ := freeVmid_spec hv
      obtain ⟨hlen, hnodup, hall⟩ := allocateAll_spec haddr
      refine ⟨⟨hlow, hhigh⟩, hfresh, hlen, hnodup, fun a ha => ⟨(hall a ha).1, fun hmem => ?_⟩⟩
      exact (hall a ha).2 (addresses_subset_used s seen hmem)

/-! ### Records that come and go -/

lemma map_modifyFirst {β : Type} {p : PoolGuest → Bool} {f : PoolGuest → PoolGuest}
    {k : PoolGuest → β} (hf : ∀ g, k (f g) = k g) (l : List PoolGuest) :
    (modifyFirst p f l).map k = l.map k := by
  induction l with
  | nil => rfl
  | cons g l ih =>
      unfold modifyFirst
      split_ifs
      · simp [hf]
      · simp [ih]

/-- Guests that change keep their VMID and address. -/
lemma Unique.guests {s : Shelf} (h : Unique S s) {p : PoolGuest → Bool}
    {f : PoolGuest → PoolGuest} (hv : ∀ g, (f g).vmid = g.vmid)
    (ha : ∀ g, (f g).address = g.address) :
    Unique S { s with guests := modifyFirst p f s.guests } := by
  have hvmids : ({ s with guests := modifyFirst p f s.guests } : Shelf).vmids = s.vmids := by
    unfold Shelf.vmids
    rw [map_modifyFirst hv]
  have haddr : ({ s with guests := modifyFirst p f s.guests } : Shelf).addresses = s.addresses := by
    unfold Shelf.addresses
    rw [map_modifyFirst ha]
  exact ⟨h.slugs, hvmids ▸ h.vmids, haddr ▸ h.addresses, hvmids ▸ h.vmidsIn, haddr ▸ h.addressesIn⟩

/-- Fewer records are no worse. -/
lemma Unique.sublist {s t : Shelf} (h : Unique S s) (hg : t.guests.Sublist s.guests)
    (hp : t.proxies.Sublist s.proxies) : Unique S t := by
  have hvmids : t.vmids.Sublist s.vmids := (hg.map _).append (hp.map _)
  have haddr : t.addresses.Sublist s.addresses := (hg.map _).append (hp.flatMap _)
  exact ⟨h.slugs.sublist (hp.map _), h.vmids.sublist hvmids, h.addresses.sublist haddr,
    fun v hv => h.vmidsIn v (hvmids.subset hv), fun a ha => h.addressesIn a (haddr.subset ha)⟩

/-- A new guest, reserved. -/
lemma Unique.reserve {s : Shelf} (h : Unique S s) {x : PoolGuest}
    (hin : S.vmidLow ≤ x.vmid ∧ x.vmid ≤ S.vmidHigh) (hv : x.vmid ∉ s.vmids)
    (hain : S.addresses.contains x.address) (ha : x.address ∉ s.addresses) :
    Unique S { s with guests := s.guests ++ [x] } := by
  have hvmids : ({ s with guests := s.guests ++ [x] } : Shelf).vmids.Perm (x.vmid :: s.vmids) := by
    simp [Shelf.vmids]
  have haddr : ({ s with guests := s.guests ++ [x] } : Shelf).addresses.Perm
      (x.address :: s.addresses) := by
    simp [Shelf.addresses]
  refine ⟨h.slugs, hvmids.nodup_iff.mpr (List.nodup_cons.mpr ⟨hv, h.vmids⟩),
    haddr.nodup_iff.mpr (List.nodup_cons.mpr ⟨ha, h.addresses⟩), fun v hmem => ?_, fun a hmem => ?_⟩
  · rcases List.mem_cons.mp (hvmids.mem_iff.mp hmem) with rfl | hmem
    · exact hin
    · exact h.vmidsIn v hmem
  · rcases List.mem_cons.mp (haddr.mem_iff.mp hmem) with rfl | hmem
    · exact hain
    · exact h.addressesIn a hmem

/-- A new proxy, reserved. -/
lemma Unique.save {s : Shelf} (h : Unique S s) {r : ProxyRecord}
    (hin : S.vmidLow ≤ r.vmid ∧ r.vmid ≤ S.vmidHigh) (hv : r.vmid ∉ s.vmids)
    (hnodup : r.addresses.Nodup)
    (ha : ∀ a ∈ r.addresses, S.addresses.contains a ∧ a ∉ s.addresses) :
    Unique S (s.saveRecord r) := by
  have hrest : Unique S (s.dropRecord r.slug) :=
    h.sublist (List.Sublist.refl _) List.filter_sublist
  have hsub : (s.dropRecord r.slug).vmids ⊆ s.vmids :=
    ((List.Sublist.refl _).append (List.filter_sublist.map _)).subset
  have hasub : (s.dropRecord r.slug).addresses ⊆ s.addresses :=
    ((List.Sublist.refl _).append (List.filter_sublist.flatMap _)).subset
  have hvmids : (s.saveRecord r).vmids.Perm (r.vmid :: (s.dropRecord r.slug).vmids) :=
    List.perm_middle
  have haddr : (s.saveRecord r).addresses.Perm (r.addresses ++ (s.dropRecord r.slug).addresses) := by
    unfold Shelf.addresses Shelf.saveRecord Shelf.dropRecord
    rw [List.flatMap_cons]
    exact List.perm_append_comm_assoc _ _ _
  refine ⟨?_, hvmids.nodup_iff.mpr (List.nodup_cons.mpr ⟨fun hm => hv (hsub hm), hrest.vmids⟩),
    haddr.nodup_iff.mpr (List.nodup_append.mpr ⟨hnodup, hrest.addresses, ?_⟩), fun v hmem => ?_,
    fun a hmem => ?_⟩
  · refine List.nodup_cons.mpr ⟨fun hmem => ?_, hrest.slugs⟩
    obtain ⟨x, hx, hslug⟩ := List.mem_map.mp hmem
    exact of_decide_eq_true (List.mem_filter.mp hx).2 hslug
  · rintro a har _ hmem rfl
    exact (ha a har).2 (hasub hmem)
  · rcases List.mem_cons.mp (hvmids.mem_iff.mp hmem) with rfl | hmem
    · exact hin
    · exact hrest.vmidsIn v hmem
  · rcases List.mem_append.mp (haddr.mem_iff.mp hmem) with hmem | hmem
    · exact (ha a hmem).1
    · exact hrest.addressesIn a hmem

/-- A record with the others of its file name taken out. -/
lemma perm_filter_slug {l : List ProxyRecord} (h : (l.map (·.slug)).Nodup) {x : ProxyRecord}
    (hx : x ∈ l) : l.Perm (x :: l.filter fun y => y.slug ≠ x.slug) := by
  have hfilter : l.erase x = l.filter fun y => y.slug ≠ x.slug := by
    rw [h.of_map.erase_eq_filter]
    refine List.filter_congr fun y hy => ?_
    by_cases hyx : y = x
    · simp [hyx]
    · have hslug : y.slug ≠ x.slug := fun he => hyx (List.inj_on_of_nodup_map h hy hx he)
      simp [hyx, hslug]
  rw [← hfilter]
  exact List.perm_cons_erase hx

/-- A record is written again for the guest it has. -/
lemma Unique.resave {s : Shelf} (h : Unique S s) {r r' : ProxyRecord} (hr' : r' ∈ s.proxies)
    (hsame : r.Same r') : Unique S (s.saveRecord r) := by
  obtain ⟨hslug, hvmid, haddr, -, -⟩ := hsame
  have hperm : s.proxies.Perm (r' :: s.proxies.filter fun y => y.slug ≠ r.slug) := by
    rw [hslug]
    exact perm_filter_slug h.slugs hr'
  have hvmids : (s.saveRecord r).vmids.Perm s.vmids := by
    refine List.Perm.append_left _ ?_
    refine .trans ?_ (hperm.map (·.vmid)).symm
    simp only [Shelf.saveRecord, List.map_cons, hvmid]
    exact List.Perm.refl _
  have haddrs : (s.saveRecord r).addresses.Perm s.addresses := by
    refine List.Perm.append_left _ ?_
    refine .trans ?_ (hperm.flatMap_right (·.addresses)).symm
    simp only [Shelf.saveRecord, List.flatMap_cons, haddr]
    exact List.Perm.refl _
  have hslugs : ((s.saveRecord r).proxies.map (·.slug)).Perm (s.proxies.map (·.slug)) := by
    refine .trans ?_ (hperm.map (·.slug)).symm
    simp only [Shelf.saveRecord, List.map_cons, hslug]
    exact List.Perm.refl _
  exact ⟨hslugs.nodup_iff.mpr h.slugs, hvmids.nodup_iff.mpr h.vmids,
    haddrs.nodup_iff.mpr h.addresses, fun v hv => h.vmidsIn v (hvmids.mem_iff.mp hv),
    fun a ha => h.addressesIn a (haddrs.mem_iff.mp ha)⟩

/-! ### Sections -/

lemma headD_getLastD_two {l : List ℕ} (h : l.length = 2) :
    [l.headD 0, l.getLastD (l.headD 0)] = l := by
  match l, h with
  | [a, b], _ => rfl

lemma headD_one {l : List ℕ} (h : l.length = 1) : [l.headD 0] = l := by
  match l, h with
  | [a], _ => rfl

/-- A section keeps every VMID and address single. -/
lemma Unique.run {c : Section} {o : Oracle} {s t : Shelf} {x : c.Ret} (h : Unique S s)
    (hrun : c.run S o s = .ok (x, t)) : Unique S t := by
  cases c with
  | take | mark | unwarm | takeUnwarmed | setWarm =>
      obtain ⟨-, rfl⟩ := Prod.mk.inj (Except.ok.inj hrun)
      exact h.guests (fun _ => rfl) fun _ => rfl
  | forget v =>
      obtain ⟨-, rfl⟩ := Prod.mk.inj (Except.ok.inj hrun)
      exact h.sublist List.filter_sublist (List.Sublist.refl _)
  | review | held | ready | outdated | warmed | victims =>
      obtain ⟨-, rfl⟩ := Prod.mk.inj (Except.ok.inj hrun)
      exact ⟨h.slugs, h.vmids, h.addresses, h.vmidsIn, h.addressesIn⟩
  | reserve tenant agent version pid seen =>
      obtain ⟨⟨v, l⟩, hslot, hrun⟩ := bind_eq_ok.mp hrun
      obtain ⟨-, rfl⟩ := Prod.mk.inj (Except.ok.inj hrun)
      obtain ⟨hin, hfresh, hlen, -, hall⟩ := reserveSlot_spec hslot
      have hhead : l.headD 0 ∈ l := by
        rw [← headD_one hlen]
        simp
      exact h.reserve hin hfresh (hall _ hhead).1 (hall _ hhead).2
  | reserveProxy tenant vlan version pid seen =>
      obtain ⟨⟨v, l⟩, hslot, hrun⟩ := bind_eq_ok.mp hrun
      obtain ⟨-, rfl⟩ := Prod.mk.inj (Except.ok.inj hrun)
      obtain ⟨hin, hfresh, hlen, hnodup, hall⟩ := reserveSlot_spec hslot
      cases vlan with
      | none =>
          refine h.save hin hfresh (List.nodup_singleton _) fun a ha => ?_
          refine hall a ?_
          rw [← headD_one hlen]
          exact ha
      | some tag =>
          have hboth := headD_getLastD_two hlen
          refine h.save hin hfresh ?_ fun a ha => ?_
          · change [l.headD 0, l.getLastD (l.headD 0)].Nodup
            rw [hboth]
            exact hnodup
          · refine hall a ?_
            rw [← hboth]
            exact ha

/-! ### Steps -/

/-- What a call does to the records. -/
inductive Shelves (S : Settings) (s : Shelf) : Call → Shelf → Prop
  | none {c : Call} : Shelves S s c s
  | run {c : Section} {o : Oracle} {x : c.Ret} {t : Shelf} (h : c.run S o s = .ok (x, t)) :
      Shelves S s (.pool c) t
  | save (r : ProxyRecord) : Shelves S s (.saveRecord r) (s.saveRecord r)
  | drop (slug : String) : Shelves S s (.dropRecord slug) (s.dropRecord slug)

lemma shelves_of_eq (h : t.shelf = s.shelf) : Shelves S s.shelf c t.shelf := h ▸ .none

/-- A section that is through has run. -/
lemma stepPool_cases {c : Section} {x : Except FabricError c.Ret} (h : stepPool S s c x t) :
    (x.isOk = false ∧ t.shelf = s.shelf) ∨
      ∃ o y, c.run S o s.shelf = .ok (y, t.shelf) ∧ ∀ z, x = .ok z → z = y := by
  rcases h with ⟨o, y, shelf, hrun, hx, ht⟩ | ⟨hx, rfl⟩
  · cases c with
    | take tenant agent warm =>
        cases y with
        | some g =>
            rcases ht with rfl | ⟨hx', rfl⟩
            · exact .inr ⟨o, _, hrun, hx⟩
            · exact .inl ⟨hx', rfl⟩
        | none =>
            obtain rfl := ht
            exact .inr ⟨o, _, hrun, hx⟩
    | _ =>
        obtain rfl := ht
        exact .inr ⟨o, _, hrun, hx⟩
  · exact .inl ⟨hx, rfl⟩

lemma step_shelves (h : step S s c r t) : Shelves S s.shelf c t.shelf := by
  cases c with
  | pool c =>
      rcases stepPool_cases h with ⟨-, he⟩ | ⟨o, y, hrun, -⟩
      · exact shelves_of_eq he
      · exact .run hrun
  | saveRecord x =>
      rcases h with rfl | ⟨-, rfl⟩
      · exact .save x
      · exact .none
  | dropRecord slug =>
      rcases h with rfl | rfl
      · exact .drop slug
      · exact .none
  | removeSecrets v =>
      rcases h with rfl | rfl
      · exact .none
      · exact .none
  | readSecrets | readRecord | templateVersion | waitForBindAgent =>
      obtain ⟨rfl, -⟩ := h
      exact .none
  | writeSecrets | touching | stop | delete =>
      rcases h with rfl | ⟨-, rfl⟩
      · exact .none
      · exact .none
  | clone v tenant agent =>
      rcases h with ⟨-, rfl⟩ | ⟨-, rfl⟩
      · exact .none
      · exact .none
  | bind v a p =>
      rcases h with ⟨-, rfl⟩ | ⟨-, rfl⟩
      · exact .none
      · exact .none
  | startWarm v key egress =>
      rcases h with ⟨-, rfl⟩ | ⟨-, rfl⟩
      · exact .none
      · exact .none
  | _ =>
      obtain rfl := h
      exact .none

/-- A process with a proxy's record in hand has its lock, and the record names the guest of the
file that is there. -/
def Holds (s : World) (g : Doing) : Prop :=
  ∀ r, g.record = some r → g.lock = some r.slug ∧ ∃ r' ∈ s.shelf.proxies, r.Same r'

/-- Two processes do not have one tenant's lock. -/
def Apart (g g' : Doing) : Prop := ∀ slug, ¬(g.lock = some slug ∧ g'.lock = some slug)

lemma Apart.symm (h : Apart g g') : Apart g' g := fun slug hl => h slug ⟨hl.2, hl.1⟩

lemma ProxyRecord.Same.trans {r r' r'' : ProxyRecord} (h : r.Same r') (h' : r'.Same r'') :
    r.Same r'' :=
  ⟨h.1.trans h'.1, h.2.1.trans h'.2.1, h.2.2.1.trans h'.2.2.1, h.2.2.2.1.trans h'.2.2.2.1,
    h.2.2.2.2.trans h'.2.2.2.2⟩

/-- What is written of a proxy is written under its lock. -/
lemma unique_step (hu : Unique S s.shelf) (hpre : Allowed g c) (hg : Holds s g)
    (h : step S s c r t) : Unique S t.shelf := by
  have hshelves := step_shelves h
  generalize t.shelf = u at hshelves
  cases hshelves with
  | none => exact hu
  | run hrun => exact hu.run hrun
  | drop slug => exact hu.sublist (List.Sublist.refl _) List.filter_sublist
  | save x =>
      obtain ⟨-, r', hr', hsame⟩ := hpre
      obtain ⟨-, r'', hr'', hsame'⟩ := hg r' hr'
      exact hu.resave hr'' (hsame.trans hsame')

/-- The proxies' records change only where their tenant's lock is held. -/
lemma proxies_step (hpre : Allowed g c) (h : step S s c r t) {x : ProxyRecord}
    (hx : x ∈ s.shelf.proxies) (hlock : g.lock ≠ some x.slug) : x ∈ t.shelf.proxies := by
  have hkeep : ∀ slug, g.lock = some slug → x.slug ≠ slug := by
    rintro slug hs rfl
    exact hlock hs
  have hshelves := step_shelves h
  generalize t.shelf = u at hshelves
  cases hshelves with
  | none => exact hx
  | drop slug => exact List.mem_filter.mpr ⟨hx, decide_eq_true (hkeep slug hpre)⟩
  | save y =>
      exact List.mem_cons_of_mem _ (List.mem_filter.mpr ⟨hx, decide_eq_true (hkeep _ hpre.1)⟩)
  | @run c o y u hrun =>
      cases c with
      | reserveProxy tenant vlan version pid seen =>
          obtain ⟨⟨v, l⟩, hslot, hrun⟩ := bind_eq_ok.mp hrun
          obtain ⟨-, rfl⟩ := Prod.mk.inj (Except.ok.inj hrun)
          exact List.mem_cons_of_mem _
            (List.mem_filter.mpr ⟨hx, decide_eq_true (hkeep _ hpre.1)⟩)
      | reserve tenant agent version pid seen =>
          obtain ⟨⟨v, l⟩, hslot, hrun⟩ := bind_eq_ok.mp hrun
          obtain ⟨-, rfl⟩ := Prod.mk.inj (Except.ok.inj hrun)
          exact hx
      | _ =>
          obtain ⟨-, rfl⟩ := Prod.mk.inj (Except.ok.inj hrun)
          exact hx

lemma holds_other (hpre : Allowed g c) (h : step S s c r t) (hg' : Holds s g')
    (hapart : Apart g g') : Holds t g' := by
  intro x hx
  obtain ⟨hlock, y, hy, hsame⟩ := hg' x hx
  refine ⟨hlock, y, proxies_step hpre h hy fun hl => ?_, hsame⟩
  exact hapart x.slug ⟨by rw [hl, hsame.1], hlock⟩

/-! ### What a process knows -/

lemma proxyRecord_slug {s : Shelf} {slug : String} {x : ProxyRecord}
    (h : s.proxyRecord slug = some x) : x.slug = slug ∧ x ∈ s.proxies := by
  have hp := List.find?_some h
  exact ⟨of_decide_eq_true hp, List.mem_of_find?_eq_some h⟩

lemma drop_record (g : Doing) (v : ℕ) : (g.drop v).record = g.record ∧ (g.drop v).lock = g.lock := by
  unfold Doing.drop
  split_ifs
  · exact ⟨rfl, rfl⟩
  · exact ⟨rfl, rfl⟩

lemma noteCheck_record (g : Doing) (c : Call) (r : c.Ret) :
    (noteCheck g c r).record = g.record ∧ (noteCheck g c r).lock = g.lock := by
  unfold noteCheck
  split
  · split <;> exact ⟨rfl, rfl⟩
  · split
    · split_ifs <;> exact ⟨rfl, rfl⟩
    · exact ⟨rfl, rfl⟩
  · split_ifs <;> exact ⟨rfl, rfl⟩
  · exact ⟨rfl, rfl⟩

/-- The calls of a tenant's lock and of its proxy's record. -/
def Call.ofProxy : Call → Bool
  | .lockTenant _ | .unlockTenant _ | .readRecord _ | .saveRecord _ | .dropRecord _
  | .pool (.reserveProxy _ _ _ _ _) => true
  | _ => false

/-- The others leave a process with the record it has. -/
lemma note_record (g : Doing) (h : c.ofProxy = false) (r : c.Ret) :
    (note g c r).record = g.record ∧ (note g c r).lock = g.lock := by
  cases c with
  | pool c =>
      cases c with
      | reserveProxy => cases h
      | forget v => exact drop_record g v
      | mark v state agent =>
          simp only [note, notePool]
          split_ifs <;> exact ⟨rfl, rfl⟩
      | take | takeUnwarmed => rcases r with e | (_ | x) <;> exact ⟨rfl, rfl⟩
      | reserve | review | outdated | victims => rcases r with e | x <;> exact ⟨rfl, rfl⟩
      | _ => exact ⟨rfl, rfl⟩
  | lockTenant | unlockTenant | readRecord | saveRecord | dropRecord => cases h
  | readSecrets | guestStatus | guestRuntime =>
      simp only [note]
      split_ifs
      · exact noteCheck_record _ _ _
      · exact ⟨rfl, rfl⟩
  | bind | writeSecrets | startWarm =>
      simp only [note]
      split_ifs <;> exact ⟨rfl, rfl⟩
  | templateVersion => rcases r with e | x <;> exact ⟨rfl, rfl⟩
  | clone v tenant agent =>
      cases agent with
      | none => exact ⟨rfl, rfl⟩
      | some a => rcases r with e | x <;> exact ⟨rfl, rfl⟩
  | runs v => rcases r with e | (_ | _) <;> exact ⟨rfl, rfl⟩
  | _ => exact ⟨rfl, rfl⟩

/-- And the proxies' files as they are. -/
lemma proxies_eq (h : step S s c r t) (hc : c.ofProxy = false) :
    t.shelf.proxies = s.shelf.proxies := by
  have hshelves := step_shelves h
  generalize t.shelf = u at hshelves
  cases hshelves with
  | none => rfl
  | drop => cases hc
  | save => cases hc
  | @run c o y u hrun =>
      cases c with
      | reserveProxy => cases hc
      | reserve tenant agent version pid seen =>
          obtain ⟨⟨v, l⟩, hslot, hrun⟩ := bind_eq_ok.mp hrun
          obtain ⟨-, rfl⟩ := Prod.mk.inj (Except.ok.inj hrun)
          rfl
      | _ =>
          obtain ⟨-, rfl⟩ := Prod.mk.inj (Except.ok.inj hrun)
          rfl

/-- What a process knows of a proxy's record stays so through its own calls. -/
lemma holds_own (hpre : Allowed g c) (h : step S s c r t) (hg : Holds s g) :
    Holds t (note g c r) := by
  by_cases hc : c.ofProxy = false
  · obtain ⟨hrecord, hlock⟩ := note_record g hc r
    intro x hx
    obtain ⟨hl, y, hy, hsame⟩ := hg x (hrecord.symm.trans hx)
    exact ⟨hlock.trans hl, y, proxies_eq h hc ▸ hy, hsame⟩
  cases c with
  | lockTenant slug =>
      obtain rfl := h
      rcases r with e | _
      · exact hg
      · exact nofun
  | unlockTenant | dropRecord => exact nofun
  | readRecord slug =>
      obtain ⟨rfl, hr⟩ := h
      rcases r with e | _ | x
      · exact hg
      · exact nofun
      · intro y hy
        obtain rfl : x = y := Option.some.inj hy
        obtain ⟨hslug, hmem⟩ := proxyRecord_slug (hr _ rfl).symm
        refine ⟨?_, x, hmem, rfl, rfl, rfl, rfl, rfl⟩
        rw [hslug]
        exact hpre
  | saveRecord x =>
      rcases h with rfl | ⟨-, rfl⟩
      · intro y hy
        obtain ⟨r', hr', hsame⟩ := hpre.2
        obtain rfl : r' = y := Option.some.inj (hr'.symm.trans hy)
        refine ⟨(hg r' hr').1, x, List.mem_cons_self, ?_⟩
        obtain ⟨h₁, h₂, h₃, h₄, h₅⟩ := hsame
        exact ⟨h₁.symm, h₂.symm, h₃.symm, h₄.symm, h₅.symm⟩
      · exact hg
  | pool c =>
      cases c with
      | reserveProxy tenant vlan version pid seen =>
          rcases stepPool_cases h with ⟨hr, -⟩ | ⟨o, y, hrun, hy⟩
          · rcases r with e | x
            · intro x hx
              exact nomatch hpre.2.symm.trans hx
            · cases hr
          · rcases r with e | x
            · intro x hx
              exact nomatch hpre.2.symm.trans hx
            · obtain rfl := hy x rfl
              obtain ⟨⟨v, l⟩, hslot, hrun⟩ := bind_eq_ok.mp hrun
              obtain ⟨rfl, hu⟩ := Prod.mk.inj (Except.ok.inj hrun)
              intro z hz
              obtain rfl := Option.some.inj hz
              refine ⟨hpre.1, _, ?_, rfl, rfl, rfl, rfl, rfl⟩
              rw [← hu]
              exact List.mem_cons_self
      | _ => exact absurd rfl hc
  | _ => exact absurd rfl hc

/-- A lock is taken by a process while no other has it. -/
lemma apart_note {ns : ℕ → Option Doing} {i j : ℕ} (hM : Exclusive s ns i c r) (hne : j ≠ i)
    (hj : ns j = some g') (hapart : Apart g g') : Apart (note g c r) g' := by
  by_cases hc : c.ofProxy = false
  · intro slug
    rw [(note_record g hc r).2]
    exact hapart slug
  cases c with
  | lockTenant slug =>
      rcases r with e | _
      · exact hapart
      · rintro slug' ⟨hs, hs'⟩
        exact hM slug' hs j g' hne hj hs'
  | unlockTenant => exact fun slug hs => nomatch hs.1
  | readRecord =>
      rcases r with e | x
      · exact hapart
      · exact hapart
  | pool c =>
      cases c with
      | reserveProxy => rcases r with e | x <;> exact hapart
      | _ => exact absurd rfl hc
  | saveRecord | dropRecord => exact hapart
  | _ => exact absurd rfl hc

lemma answers_step (h : step S s c r t) : Answers c r := by
  cases c with
  | readRecord slug =>
      rcases r with e | _ | x
      · trivial
      · trivial
      · exact (proxyRecord_slug (h.2 _ rfl).symm).1
  | pool c =>
      cases c with
      | reserveProxy tenant vlan version pid seen =>
          rcases stepPool_cases h with ⟨hr, -⟩ | ⟨o, y, hrun, hy⟩
          · rcases r with e | x
            · trivial
            · cases hr
          · rcases r with e | x
            · trivial
            · obtain rfl := hy x rfl
              obtain ⟨⟨v, l⟩, hslot, hrun⟩ := bind_eq_ok.mp hrun
              obtain ⟨rfl, -⟩ := Prod.mk.inj (Except.ok.inj hrun)
              rfl
      | _ => trivial
  | _ => trivial

/-! ### Runs -/

abbrev Reserved (S : Settings) : World → (ℕ → Option Doing) → Prop :=
  Threads.Each (fun s => Unique S s.shelf) Holds Apart

lemma moves_shelf (h : Moves s t) : t.shelf = s.shelf := by
  cases h <;> rfl

lemma keeps_reserved (runs : Command → Prop) (leaves : Io (Option Claim) → Prop) :
    Threads.Keeps (driver S runs leaves) Exclusive Allowed (fun _ => True) (Reserved S) where
  start := by
    rintro s ns i g p - ⟨c, pid, fuel, -, rfl, -⟩ hI
    refine hI.set hI.all (fun j x _ _ hx => ⟨hx, ?_, ?_⟩) nofun
    · exact fun slug hs => nomatch hs.2
    · exact fun slug hs => nomatch hs.1
  call := by
    intro s ns i g c r t hi hpre hstep hM hI
    have hg := hI.one i g hi
    refine hI.set (unique_step hI.all hpre hg hstep) (fun j x hne hj hx => ?_)
      (holds_own hpre hstep hg)
    have hapart : Apart g x := hI.two i j g x hne.symm hi hj
    have hapart' : Apart (note g c r) x := apart_note hM hne hj hapart
    exact ⟨holds_other hpre hstep hx hapart, hapart'.symm, hapart'⟩
  leave := fun _ _ i _ _ _ hI => hI.drop i
  idle := by
    intro s ns t ht hI
    refine hI.move ?_ fun j x _ hx => ?_
    · rw [moves_shelf ht]
      exact hI.all
    · unfold Holds
      rw [moves_shelf ht]
      exact hx

/-- **Every guest of a target has a VMID and addresses of its own.** Whatever the cluster lists,
whichever calls fail and wherever processes stop. -/
theorem reservations_unique (runs : Command → Prop) (leaves : Io (Option Claim) → Prop)
    {s : World} (h0 : Unique S s.shelf) {c : Configured}
    (h : Threads.Run (driver S runs leaves) Exclusive (.empty s) c) :
    c.shared.shelf.vmids.Nodup ∧
      (∀ v ∈ c.shared.shelf.vmids, S.vmidLow ≤ v ∧ v ≤ S.vmidHigh) ∧
      c.shared.shelf.addresses.Nodup ∧
      ∀ a ∈ c.shared.shelf.addresses, S.addresses.contains a := by
  have hinv := Threads.inv (Q := Hands) (I := Reserved S) (fun _ => Answers)
    (fun _ _ _ _ _ _ _ _ _ hstep _ => answers_step hstep) (fun _ _ => safe_begins)
    (fun _ _ _ _ => trivial) (keeps_reserved runs leaves) (.empty h0) h
  exact ⟨hinv.all.vmids, hinv.all.vmidsIn, hinv.all.addresses, hinv.all.addressesIn⟩

def demoSettings : Settings where
  target := "g"
  node := "n"
  pool := "p"
  vmidLow := 100
  vmidHigh := 109
  addresses := ⟨10, 19⟩
  tenantVlans := [("t", 5)]

lemma unique_empty : Unique demoSettings {} := ⟨.nil, .nil, .nil, nofun, nofun⟩

/-- A claim and a proxy at the same time. -/
theorem reservations_unique_together :
    ∃ c : Configured,
      Threads.Run (driver demoSettings (fun _ => True) fun _ => True) Exclusive (.empty {}) c ∧
      c.shared.shelf.addresses.length = 3 ∧ c.shared.shelf.vmids.Nodup ∧
      (∀ v ∈ c.shared.shelf.vmids, demoSettings.vmidLow ≤ v ∧ v ≤ demoSettings.vmidHigh) ∧
      c.shared.shelf.addresses.Nodup ∧
      ∀ a ∈ c.shared.shelf.addresses, demoSettings.addresses.contains a := by
  have hplay : (demo demoSettings (fun _ _ => false) (exclusive 2) {}
      [.claim ⟨"t", "a", none, none⟩, .ensureProxy "t"]
      [0, 1, 0, 1, 0, 1, 0, 1, 0, 1, 0, 1, 0, 1, 0, 1]).any
        (fun c => c.shared.shelf.addresses.length = 3) = true := by
    decide +kernel
  obtain ⟨c, hc, hlen⟩ := (Option.any_eq_true _ _).mp hplay
  have hrun : Threads.Run (driver demoSettings (fun _ => True) fun _ => True) Exclusive
      (.empty {}) c := by
    refine run_demo (fun _ _ => trivial) ?_ hc
    exact fun _ _ _ hn hok => exclusive_of hn hok
  exact ⟨c, hrun, of_decide_eq_true hlen, reservations_unique _ _ unique_empty hrun⟩

end Bimo.Proxmox
