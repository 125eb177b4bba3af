import Mathlib.Data.Finset.Card
import Mathlib.Data.Finset.Dedup
import Bimo.Local
import Bimo.RouteNames

/-!
The ports of a route.

A route's proxy listens on five loopback ports. They are drawn at random; a port that was drawn
before is dropped, and ports counted on from the last one make up for it. What is counted on may
run into a port drawn earlier.
-/

namespace Bimo.Proxmox

open Local (ProxyPorts)

/-! ### Lists without repetition -/

section First

variable {α : Type} [DecidableEq α]

/-- `if !list.contains(&a) { list.push(a) }` -/
def pushNew (l : List α) (a : α) : List α := if a ∈ l then l else l ++ [a]

/-- What a list has, where it is first. -/
def firsts (l : List α) : List α := l.foldl pushNew []

lemma firsts_snoc (l : List α) (a : α) : firsts (l ++ [a]) = pushNew (firsts l) a := by
  rw [firsts, List.foldl_append]
  rfl

@[simp] lemma mem_firsts {l : List α} {a : α} : a ∈ firsts l ↔ a ∈ l := by
  induction l using List.reverseRecOn with
  | nil => rfl
  | append_singleton l b ih =>
      rw [firsts_snoc, pushNew]
      split_ifs with hb
      · simp only [ih, List.mem_append, List.mem_singleton]
        refine ⟨.inl, fun h => h.elim id ?_⟩
        rintro rfl
        exact ih.mp hb
      · simp [ih]

lemma nodup_firsts (l : List α) : (firsts l).Nodup := by
  induction l using List.reverseRecOn with
  | nil => exact List.nodup_nil
  | append_singleton l b ih =>
      rw [firsts_snoc, pushNew]
      split_ifs with hb
      · exact ih
      · exact ih.append (List.nodup_singleton b) (List.disjoint_singleton.mpr hb)

lemma length_firsts (l : List α) : (firsts l).length = l.toFinset.card := by
  have heq : l.toFinset = (firsts l).toFinset := by
    ext a
    simp
  rw [heq, List.toFinset_card_of_nodup (nodup_firsts l)]

/-- The element of a list that came up last of all. -/
def Newest (l : List α) (a : α) : Prop :=
  ∃ before after, l = before ++ a :: after ∧ a ∉ before ∧ ∀ b ∈ after, b ∈ before ++ [a]

lemma firsts_append {l m : List α} (h : ∀ b ∈ m, b ∈ l) : firsts (l ++ m) = firsts l := by
  induction m using List.reverseRecOn with
  | nil => rw [List.append_nil]
  | append_singleton m b ih =>
      have hb : b ∈ l := h b (by simp)
      have hrest := ih fun c hc => h c (List.mem_append_left _ hc)
      rw [← List.append_assoc, firsts_snoc, hrest, pushNew, if_pos (mem_firsts.mpr hb)]

lemma newest_iff {l : List α} {a : α} : Newest l a ↔ (firsts l).getLast? = some a := by
  constructor
  · rintro ⟨before, after, rfl, hnew, hold⟩
    rw [List.append_cons, firsts_append hold, firsts_snoc, pushNew,
      if_neg (mt mem_firsts.mp hnew), List.getLast?_concat]
  · intro h
    induction l using List.reverseRecOn with
    | nil => cases h
    | append_singleton l b ih =>
        rw [firsts_snoc, pushNew] at h
        split_ifs at h with hb
        · obtain ⟨before, after, rfl, hnew, hold⟩ := ih h
          refine ⟨before, after ++ [b], by simp, hnew, fun c hc => ?_⟩
          have hmem := mem_firsts.mp hb
          simp only [List.mem_append, List.mem_cons, List.not_mem_nil, or_false] at hc hmem hold ⊢
          rcases hc with hc | rfl
          · exact hold c hc
          · rcases hmem with hmem | hmem | hmem
            · exact .inl hmem
            · exact .inr hmem
            · exact hold _ hmem
        · rw [List.getLast?_concat, Option.some.injEq] at h
          exact ⟨l, [], by rw [h], by rw [← h]; exact mt mem_firsts.mpr hb, nofun⟩

end First

/-! ### The ports -/

/-- A hexadecimal digit, in either case. -/
def digit16 (c : Char) : Option ℕ :=
  if '0' ≤ c ∧ c ≤ '9' then some (c.toNat - 48)
  else if 'a' ≤ c ∧ c ≤ 'f' then some (c.toNat - 87)
  else if 'A' ≤ c ∧ c ≤ 'F' then some (c.toNat - 55)
  else none

/-- A number of 16 bits; an overflow is no number. -/
def asU16 (n : ℕ) : Option ℕ := if n < 2 ^ 16 then some n else none

/-- `u16::from_str_radix(_, 16)` -/
def fromStrRadix16 (cs : List Char) : Option ℕ :=
  match cs with
  | [] | ['+'] => none
  | '+' :: digits => digits.foldlM (fun n c => do asU16 (16 * n + (← digit16 c))) 0
  | digits => digits.foldlM (fun n c => do asU16 (16 * n + (← digit16 c))) 0

/-- `hex.as_bytes().chunks(4)` -/
def chunks4 : List Char → List (List Char)
  | [] => []
  | a :: b :: c :: d :: rest => [a, b, c, d] :: chunks4 rest
  | rest => [rest]

/-- `20_000 + (value % 40_000)` -/
def portOf (chunk : List Char) : Option ℕ :=
  asU16 (20000 + (fromStrRadix16 chunk).getD 0 % 40000)

/-- `while ports.len() < 5`, with as many rounds as ports are missing. -/
def countOn : ℕ → List ℕ → Option (List ℕ)
  | 0, ports => some ports
  | n + 1, ports => do
    let next ← asU16 (ports.getLast?.getD 20000 + 1)
    countOn n (ports ++ [next])

/-- `fn random_ports`, from what the random device gives. Where it counts past 16 bits, there is
no result. -/
def randomPorts (hex : Except String (Vector UInt8 10)) : Option (Except FabricError ProxyPorts) :=
  match hex.mapError proxyError with
  | .error e => some (.error e)
  | .ok bytes => do
    let drawn ← (chunks4 (hexText bytes.toList).toList).mapM portOf
    let ports := firsts drawn
    match ← countOn (5 - ports.length) ports with
    | tunnel :: http :: https :: management :: metrics :: _ =>
      return .ok { tunnel, http, https, management, metrics }
    | _ => none

/-! ### What is drawn -/

/-- The numbers of 16 bits in what is read. -/
def values : List UInt8 → List ℕ
  | a :: b :: rest => (256 * a.toNat + b.toNat) :: values rest
  | _ => []

/-- The five ports that are drawn, with the repeated ones. -/
def drawn (bytes : Vector UInt8 10) : List ℕ := (values bytes.toList).map (20000 + · % 40000)

lemma digit16_digitChar : ∀ n < 16, digit16 (Nat.digitChar n) = some n := by decide

lemma fromStrRadix16_hexByte (a b : UInt8) :
    fromStrRadix16 (hexByte a ++ hexByte b) = some (256 * a.toNat + b.toNat) := by
  have ha : a.toNat < 256 := a.toNat_lt
  have hb : b.toNat < 256 := b.toNat_lt
  have hplus : ∀ n < 16, Nat.digitChar n ≠ '+' := by decide
  have h1 := digit16_digitChar (a.toNat / 16) (by omega)
  have h2 := digit16_digitChar (a.toNat % 16) (by omega)
  have h3 := digit16_digitChar (b.toNat / 16) (by omega)
  have h4 := digit16_digitChar (b.toNat % 16) (by omega)
  have hn := hplus (a.toNat / 16) (by omega)
  have hsteps : ∀ n, n < 2 ^ 16 → asU16 n = some n := fun n h => if_pos h
  simp only [hexByte, List.cons_append, List.nil_append]
  rw [fromStrRadix16]
  · simp only [List.foldlM_cons, List.foldlM_nil, h1, h2, h3, h4, Option.bind_eq_bind,
      Option.bind_some, Option.pure_def]
    rw [hsteps _ (by omega), Option.bind_some, hsteps _ (by omega), Option.bind_some,
      hsteps _ (by omega), Option.bind_some, hsteps _ (by omega), Option.bind_some]
    congr 1
    omega
  all_goals simp [hn]

lemma portOf_hexByte (a b : UInt8) :
    portOf (hexByte a ++ hexByte b) = some (20000 + (256 * a.toNat + b.toNat) % 40000) := by
  rw [portOf, fromStrRadix16_hexByte, Option.getD_some]
  exact if_pos (by omega)

lemma mapM_portOf (l : List UInt8) (h : 2 ∣ l.length) :
    (chunks4 (l.flatMap hexByte)).mapM portOf = some ((values l).map (20000 + · % 40000)) := by
  induction l using values.induct with
  | case1 a b rest ih =>
      have hrest := ih (by rw [List.length_cons, List.length_cons] at h; omega)
      have hchunks : chunks4 ((a :: b :: rest).flatMap hexByte) =
          (hexByte a ++ hexByte b) :: chunks4 (rest.flatMap hexByte) := rfl
      rw [hchunks, List.mapM_cons, portOf_hexByte, hrest]
      rfl
  | case2 l hne =>
      match l, hne with
      | [], _ => rfl
      | [a], _ => exact absurd h (by simp)
      | a :: b :: rest, hne => exact absurd rfl (hne a b rest)

lemma length_values (l : List UInt8) : (values l).length = l.length / 2 := by
  induction l using values.induct with
  | case1 a b rest ih => simp only [values, List.length_cons, ih]; omega
  | case2 l hne =>
      match l, hne with
      | [], _ => rfl
      | [a], _ => simp [values]
      | a :: b :: rest, hne => exact absurd rfl (hne a b rest)

lemma length_drawn (bytes : Vector UInt8 10) : (drawn bytes).length = 5 := by
  simp [drawn, length_values]

lemma drawn_bounds {bytes : Vector UInt8 10} {p : ℕ} (h : p ∈ drawn bytes) :
    20000 ≤ p ∧ p < 60000 := by
  obtain ⟨v, -, rfl⟩ := List.mem_map.mp h
  omega

/-! ### What is made of it -/

/-- Counting on adds the ports behind the last one. -/
lemma countOn_eq {n last : ℕ} {ports : List ℕ} (hlast : ports.getLast? = some last)
    (hroom : last + n < 2 ^ 16) :
    countOn n ports = some (ports ++ (List.range n).map (last + 1 + ·)) := by
  induction n generalizing ports last with
  | zero => simp [countOn]
  | succ n ih =>
      have hnext : asU16 (last + 1) = some (last + 1) := if_pos (by omega)
      have hlast' : (ports ++ [last + 1]).getLast? = some (last + 1) := List.getLast?_concat
      have hstep := ih hlast' (by omega)
      rw [countOn, hlast, Option.getD_some, hnext, Option.bind_eq_bind, Option.bind_some, hstep,
        List.range_succ_eq_map, List.map_cons, List.map_map, List.append_assoc]
      congr 2
      refine congrArg (List.cons (last + 1)) (List.map_congr_left fun i _ => ?_)
      simp only [Function.comp_apply]
      omega

/-- No port that is drawn is one of those that are counted on from the newest. -/
def Clear (ports : List ℕ) : Prop :=
  ∀ last, Newest ports last → ∀ p ∈ ports, p ≤ last ∨ last + (5 - ports.toFinset.card) < p

lemma nodup_iff_clear {ports : List ℕ} {last : ℕ} (h : (firsts ports).getLast? = some last) :
    (firsts ports ++ (List.range (5 - (firsts ports).length)).map (last + 1 + ·)).Nodup ↔
      Clear ports := by
  have hrange : ((List.range (5 - (firsts ports).length)).map (last + 1 + ·)).Nodup :=
    List.nodup_range.map fun i j h => by simpa using h
  rw [List.nodup_append']
  constructor
  · rintro ⟨-, -, hdisj⟩ l hl p hp
    obtain rfl : last = l := Option.some.inj (h.symm.trans (newest_iff.mp hl))
    rw [← length_firsts]
    by_contra hc
    refine hdisj (mem_firsts.mpr hp) (List.mem_map.mpr ⟨p - (last + 1), ?_, by omega⟩)
    rw [List.mem_range]
    omega
  · intro hclear
    refine ⟨nodup_firsts _, hrange, fun p hp hq => ?_⟩
    obtain ⟨i, hi, rfl⟩ := List.mem_map.mp hq
    have hlim := hclear last (newest_iff.mpr h) _ (mem_firsts.mp hp)
    rw [List.mem_range] at hi
    rw [← length_firsts] at hlim
    omega

lemma randomPorts_eq (bytes : Vector UInt8 10) :
    ∃ ports, randomPorts (.ok bytes) = some (.ok ports) ∧
      (∀ p ∈ Supervisor.wanted ports, 20000 ≤ p ∧ p ≤ 65535) ∧
      ((Supervisor.wanted ports).Nodup ↔ Clear (drawn bytes)) := by
  have hdrawn : (chunks4 (hexText bytes.toList).toList).mapM portOf = some (drawn bytes) := by
    rw [hexText, String.toList_ofList]
    exact mapM_portOf _ (by simp)
  have hcard : (firsts (drawn bytes)).length ≤ 5 := by
    rw [length_firsts, ← length_drawn bytes]
    exact List.toFinset_card_le _
  have hne : firsts (drawn bytes) ≠ [] := by
    intro h
    have hmem : ∀ p, p ∉ drawn bytes := fun p hp => by simpa [h] using mem_firsts.mpr hp
    have hlen := length_drawn bytes
    rw [List.eq_nil_iff_forall_not_mem.mpr hmem] at hlen
    cases hlen
  have hlast := List.getLast?_eq_some_getLast hne
  generalize (firsts (drawn bytes)).getLast hne = last at hlast
  have hbound := drawn_bounds (mem_firsts.mp (List.mem_of_getLast? hlast))
  have hfill := countOn_eq (n := 5 - (firsts (drawn bytes)).length) hlast (by omega)
  have hclear := nodup_iff_clear hlast
  generalize hall : firsts (drawn bytes) ++
    (List.range (5 - (firsts (drawn bytes)).length)).map (last + 1 + ·) = all at hfill hclear
  have hlen : all.length = 5 := by
    rw [← hall]
    simp only [List.length_append, List.length_map, List.length_range]
    omega
  have hrange : ∀ p ∈ all, 20000 ≤ p ∧ p ≤ 65535 := by
    intro p hp
    rw [← hall] at hp
    rcases List.mem_append.mp hp with hp | hp
    · have := drawn_bounds (mem_firsts.mp hp)
      omega
    · obtain ⟨i, hi, rfl⟩ := List.mem_map.mp hp
      rw [List.mem_range] at hi
      omega
  obtain ⟨a, all, rfl⟩ := List.exists_cons_of_length_eq_add_one hlen
  obtain ⟨b, all, rfl⟩ := List.exists_cons_of_length_eq_add_one (Nat.succ.inj hlen)
  obtain ⟨c, all, rfl⟩ := List.exists_cons_of_length_eq_add_one (Nat.succ.inj (Nat.succ.inj hlen))
  rcases all with _ | ⟨d, _ | ⟨e, _ | ⟨f, all⟩⟩⟩
  · simp at hlen
  · simp at hlen
  · refine ⟨⟨a, b, c, d, e⟩, ?_, hrange, hclear⟩
    simp only [randomPorts, Except.mapError, hdrawn, Option.bind_eq_bind, Option.bind_some, hfill]
    rfl
  · simp at hlen

/-- **When the five ports differ.** A draw always comes to five ports from 20000 on, and no number
runs over. They differ exactly when none of the ports drawn is among those that are counted on
from the newest. -/
theorem random_ports_distinct (bytes : Vector UInt8 10) :
    (∃ ports, randomPorts (.ok bytes) = some (.ok ports) ∧
      (∀ p ∈ Supervisor.wanted ports, 20000 ≤ p ∧ p ≤ 65535)) ∧
    ((∃ ports, randomPorts (.ok bytes) = some (.ok ports) ∧ (Supervisor.wanted ports).Nodup ∧
      ∀ p ∈ Supervisor.wanted ports, 20000 ≤ p ∧ p ≤ 65535) ↔ Clear (drawn bytes)) := by
  obtain ⟨ports, heq, hrange, hclear⟩ := randomPorts_eq bytes
  refine ⟨⟨ports, heq, hrange⟩, ⟨?_, fun h => ⟨ports, heq, hclear.mpr h, hrange⟩⟩⟩
  rintro ⟨ports', heq', hnodup, -⟩
  rw [heq, Option.some.injEq, Except.ok.injEq] at heq'
  exact hclear.mp (heq' ▸ hnodup)

/-- A port is drawn, then the one below it, again and again: counting on gives the first one
once more. -/
theorem random_ports_twice :
    randomPorts (.ok #v[0, 1, 0, 0, 0, 0, 0, 0, 0, 0]) =
      some (.ok ⟨20001, 20000, 20001, 20002, 20003⟩) ∧
      ¬ (Supervisor.wanted ⟨20001, 20000, 20001, 20002, 20003⟩).Nodup :=
  ⟨by decide +kernel, by decide⟩

end Bimo.Proxmox
