import Bimo.Handle
import Bimo.Proxmox
import Bimo.Supervisor

/-!
The names of routes.

The control plane names a route after its agent, its generation and four random bytes. The
name stands in the path of every request to the supervisor, which has a grammar of its own for
it, and in the journal, in the id of a resource, from which it is read again when the route is to
be rotated or deleted. A name that is made is one that both sides take.
-/

namespace Bimo.Proxmox

open Supervisor (isRouteId routeChar routePath)

/-! ### Names -/

/-- A route's name and its front token. -/
structure Route where
  id : String
  token : String
  deriving DecidableEq, Repr

/-- A byte as two digits. -/
def hexByte (b : UInt8) : List Char := [Nat.digitChar (b.toNat / 16), Nat.digitChar (b.toNat % 16)]

/-- What `random_hex` makes of the bytes it reads. -/
def hexText (bytes : List UInt8) : String := String.ofList (bytes.flatMap hexByte)

/-- The agent's part of a route's name. -/
def routeSlug (agent : String) : List Char :=
  (((tagSlug agent).toList.filter (· ≠ '_')).take 32).dropWhile (· = '-')

/-- A route from the bytes of two reads of the random device. -/
def Route.new (agent : String) (generation : UInt64)
    (suffix : Except String (Vector UInt8 4)) (token : Except String (Vector UInt8 24)) :
    Except FabricError Route := do
  let suffix ← suffix.mapError proxyError
  let token ← token.mapError proxyError
  pure {
    id := String.ofList (routeSlug agent) ++ "-g" ++ toString generation.toNat ++ "-" ++
      hexText suffix.toList
    token := hexText token.toList }

/-- An IPv4 address as text. -/
def addressText (a : ℕ) : String :=
  ".".intercalate ([a / 2 ^ 24, a / 2 ^ 16 % 256, a / 2 ^ 8 % 256, a % 256].map toString)

/-- The journal resource for a route. -/
def routeResource (record : ProxyRecord) (route : Route) : Resource where
  kind := .proxyRoute
  id := "pve:" ++ record.node ++ ":" ++ toString record.vmid ++ ":route:" ++ route.id
  guest := some {
    node := record.node, vmid := record.vmid, guestType := "lxc"
    address := some (addressText record.address), templateVersion := record.templateVersion }

/-- A number of 32 bits, with or without a plus sign. -/
def parseU32 (s : String) : Option ℕ :=
  let cs := if s.toList.head? = some '+' then s.toList.tail else s.toList
  if cs ≠ [] ∧ cs.all Char.isDigit ∧ Nat.ofDigitChars 10 cs 0 < 2 ^ 32 then
    some (Nat.ofDigitChars 10 cs 0)
  else none

/-- `pve:<node>:<vmid>:route:<route>` -/
def parseRoute (r : Resource) : Option (ℕ × String) :=
  match (r.id.toList.splitOn ':').map String.ofList with
  | [pve, _, vmid, word, route] =>
    if pve = "pve" ∧ word = "route" then (parseU32 vmid).map (·, route) else none
  | _ => none

/-! ### Digits -/

lemma digits_toList (n : ℕ) : (toString n).toList = Nat.toDigits 10 n := by
  rw [Nat.toString_eq_repr, Nat.toList_repr]

lemma isDigit_of_mem_digits {n : ℕ} {c : Char} (h : c ∈ (toString n).toList) :
    c.isDigit = true := by
  rw [digits_toList] at h
  exact Nat.isDigit_of_mem_toDigits (by decide) (by decide) h

lemma length_digits_u64 (g : UInt64) : (toString g.toNat).toList.length ≤ 20 := by
  rw [digits_toList]
  refine (Nat.length_toDigits_le_iff (by decide) (by decide)).mpr ?_
  have := g.toNat_lt
  omega

lemma parseU32_toString {n : ℕ} (h : n < 2 ^ 32) : parseU32 (toString n) = some n := by
  have hall : (toString n).toList.all Char.isDigit = true :=
    List.all_eq_true.mpr fun _ hc => isDigit_of_mem_digits hc
  have hne : (toString n).toList ≠ [] := by
    rw [digits_toList]
    exact Nat.toDigits_ne_nil
  have hplus : (toString n).toList.head? ≠ some '+' := by
    intro hhead
    have := isDigit_of_mem_digits (List.mem_of_head? hhead)
    exact absurd this (by decide)
  have hvalue : Nat.ofDigitChars 10 (toString n).toList 0 = n := by
    rw [digits_toList, Nat.ofDigitChars_ten_toDigits]
  unfold parseU32
  rw [if_neg hplus]
  dsimp only
  rw [hvalue, if_pos ⟨hne, hall, h⟩]

lemma routeChar_of_isDigit {c : Char} (h : c.isDigit = true) : routeChar c = true := by
  simp [routeChar, h]

lemma routeChar_hexText {bytes : List UInt8} {c : Char} (h : c ∈ (hexText bytes).toList) :
    routeChar c = true := by
  have hdigit : ∀ k < 16, routeChar (Nat.digitChar k) = true := by decide
  simp only [hexText, String.toList_ofList, List.mem_flatMap] at h
  obtain ⟨b, -, hc⟩ := h
  have hb := b.toNat_lt
  rcases List.mem_cons.mp hc with rfl | hc
  · exact hdigit _ (by omega)
  · obtain rfl := List.mem_singleton.mp hc
    exact hdigit _ (Nat.mod_lt _ (by decide))

lemma length_hexText (bytes : List UInt8) : (hexText bytes).toList.length = 2 * bytes.length := by
  simp only [hexText, String.toList_ofList]
  induction bytes with
  | nil => rfl
  | cons b bytes ih =>
    rw [List.flatMap_cons, List.length_append, ih, List.length_cons]
    simp only [hexByte, List.length_cons, List.length_nil]
    omega

/-! ### The agent's part -/

lemma routeChar_of_identChar {c : Char} (h : identChar c = true) : routeChar c = true := h

lemma toLower_of_identChar {c : Char} (h : identChar c = true) : c.toLower = c := by
  unfold Char.toLower
  rw [dif_neg]
  rintro ⟨hlow, hhigh⟩
  simp only [identChar, Char.isLower, Char.isDigit, Bool.or_eq_true, Bool.and_eq_true,
    decide_eq_true_eq, beq_iff_eq] at h
  have hA : 65 ≤ c.val.toNat := UInt32.le_iff_toNat_le.mp hlow
  have hZ : c.val.toNat ≤ 90 := UInt32.le_iff_toNat_le.mp hhigh
  rcases h with (h | h) | rfl
  · have : 97 ≤ c.val.toNat := UInt32.le_iff_toNat_le.mp h.1
    omega
  · have : c.val.toNat ≤ 57 := UInt32.le_iff_toNat_le.mp h.2
    omega
  · exact absurd hA (by decide)

/-- The characters of an agent's name. -/
lemma chars_of_isIdentifier {agent : String} (h : isIdentifier agent = true) :
    (∀ c ∈ agent.toList, identChar c = true) ∧ agent.toList ≠ [] ∧
      agent.toList.head? ≠ some '-' := by
  simp only [isIdentifier, Bool.and_eq_true, List.all_eq_true, bne_iff_ne, ne_eq] at h
  obtain ⟨⟨⟨⟨hne, -⟩, hall⟩, hhead⟩, -⟩ := h
  exact ⟨hall, fun hnil => hne (String.toList_inj.mp hnil), hhead⟩

lemma tagSlug_of_isIdentifier {agent : String} (h : isIdentifier agent = true) :
    tagSlug agent = agent := by
  obtain ⟨hall, hne, -⟩ := chars_of_isIdentifier h
  have hmap : (agent.toList.map fun c => let c := c.toLower
      if c.isAlphanum || c = '_' || c = '-' then c else '-') = agent.toList := by
    refine (List.map_congr_left fun c hc => ?_).trans (List.map_id _)
    have hident := hall c hc
    dsimp only [id]
    rw [toLower_of_identChar hident]
    refine if_pos ?_
    simp only [identChar, Bool.or_eq_true, beq_iff_eq] at hident
    simp only [Char.isAlphanum, Char.isAlpha, Bool.or_eq_true, decide_eq_true_eq]
    tauto
  unfold tagSlug
  rw [hmap]
  simp only [List.isEmpty_iff, hne, if_false, String.ofList_toList]

lemma routeSlug_of_isIdentifier {agent : String} (h : isIdentifier agent = true) :
    routeSlug agent = agent.toList.take 32 := by
  obtain ⟨hall, hne, hhead⟩ := chars_of_isIdentifier h
  have hfilter : agent.toList.filter (· ≠ '_') = agent.toList := by
    refine List.filter_eq_self.mpr fun c hc => ?_
    have hident := hall c hc
    simp only [ne_eq, decide_not, Bool.not_eq_true', decide_eq_false_iff_not]
    rintro rfl
    exact absurd hident (by decide)
  unfold routeSlug
  rw [tagSlug_of_isIdentifier h, hfilter]
  obtain ⟨c, cs, hcs⟩ := List.exists_cons_of_ne_nil hne
  rw [hcs] at hhead ⊢
  have hdash : ¬ c = '-' := fun hc => hhead (by rw [hc]; rfl)
  rw [List.take_succ_cons, List.dropWhile_cons_of_neg (by simpa using hdash)]

/-! ### The name of a route -/

variable {agent : String} {generation : UInt64} {suffix : Except String (Vector UInt8 4)}
  {token : Except String (Vector UInt8 24)} {route : Route}

/-- What a route's name is made of. -/
lemma id_of_new (h : Route.new agent generation suffix token = .ok route) :
    ∃ bytes : Vector UInt8 4, route.id.toList = routeSlug agent ++ '-' :: 'g' ::
      ((toString generation.toNat).toList ++ '-' :: (hexText bytes.toList).toList) := by
  obtain ⟨bytes, -, h⟩ := bind_eq_ok.mp h
  obtain ⟨tokens, -, h⟩ := bind_eq_ok.mp h
  obtain rfl := Except.ok.inj h
  exact ⟨bytes, by simp⟩

/-- The grammar of a name: what `ROUTE_ID` says, without the newline it lets pass. -/
structure Named (id : String) : Prop where
  length : id.toList.length ≤ 63
  chars : ∀ c ∈ id.toList, routeChar c = true
  first : ∃ c cs, id.toList = c :: cs ∧ (c.isLower || c.isDigit) = true

lemma named_of_new (hagent : isIdentifier agent = true)
    (h : Route.new agent generation suffix token = .ok route) : Named route.id := by
  obtain ⟨bytes, hid⟩ := id_of_new h
  rw [routeSlug_of_isIdentifier hagent] at hid
  obtain ⟨hall, hne, hhead⟩ := chars_of_isIdentifier hagent
  refine ⟨?_, ?_, ?_⟩
  · have hslug : (agent.toList.take 32).length ≤ 32 := List.length_take_le _ _
    have hdigits := length_digits_u64 generation
    have hhex := length_hexText bytes.toList
    rw [Vector.length_toList] at hhex
    rw [hid]
    simp only [List.length_append, List.length_cons]
    omega
  · intro c hc
    rw [hid, List.mem_append, List.mem_cons, List.mem_cons, List.mem_append, List.mem_cons] at hc
    rcases hc with hc | rfl | rfl | hc | rfl | hc
    · exact routeChar_of_identChar (hall c (List.mem_of_mem_take hc))
    · decide
    · decide
    · exact routeChar_of_isDigit (isDigit_of_mem_digits hc)
    · decide
    · exact routeChar_hexText hc
  · obtain ⟨c, cs, hcs⟩ := List.exists_cons_of_ne_nil hne
    refine ⟨c, _, by rw [hid, hcs]; rfl, ?_⟩
    have hident := hall c (hcs ▸ List.mem_cons_self)
    have hdash : c ≠ '-' := fun hc => hhead (by rw [hcs, hc]; rfl)
    simp only [identChar, Bool.or_eq_true, beq_iff_eq, hdash, or_false] at hident
    simpa using hident

lemma isRouteId_of_named {id : String} (h : Named id) : isRouteId id = true := by
  obtain ⟨c, cs, hcs, hfirst⟩ := h.first
  have hall : id.toList.all routeChar = true := List.all_eq_true.mpr h.chars
  simp only [isRouteId, Supervisor.dollar, Bool.or_eq_true]
  refine .inl ?_
  rw [Bool.and_eq_true, Bool.and_eq_true, hall]
  exact ⟨⟨decide_eq_true h.length, rfl⟩, by rw [hcs]; simpa using hfirst⟩

lemma notMem_of_named {id : String} (h : Named id) {c : Char} (hc : routeChar c = false) :
    c ∉ id.toList := fun hmem => by
  rw [h.chars c hmem] at hc
  cases hc

lemma splitOn_joined {c : Char} {parts : List (List Char)} {text : List Char}
    (h : text = [c].intercalate parts) (hparts : ∀ p ∈ parts, c ∉ p) (hne : parts ≠ []) :
    text.splitOn c = parts := by
  rw [h]
  exact List.splitOn_intercalate c hparts hne

/-- The paths of a route's requests. -/
lemma routePath_of_named {id : String} (h : Named id) :
    routePath ("/routes/" ++ id) = some (id, "") ∧ ∀ action : String, '/' ∉ action.toList →
      routePath ("/routes/" ++ id ++ "/" ++ action) = some (id, action) := by
  have hslash : '/' ∉ id.toList := notMem_of_named h (by decide)
  have hgood := isRouteId_of_named h
  constructor
  · have hsplit : ("/routes/" ++ id).toList.splitOn '/' = [[], "routes".toList, id.toList] :=
      splitOn_joined (by simp [List.intercalate]) (by simpa using hslash) (by simp)
    unfold routePath
    rw [hsplit]
    simp [hgood]
  · intro action haction
    have hsplit : ("/routes/" ++ id ++ "/" ++ action).toList.splitOn '/' =
        [[], "routes".toList, id.toList, action.toList] :=
      splitOn_joined (by simp [List.intercalate]) (by simpa using ⟨hslash, haction⟩) (by simp)
    unfold routePath
    rw [hsplit]
    simp [hgood]

lemma parseRoute_of_named {record : ProxyRecord} (h : Named route.id)
    (hnode : ':' ∉ record.node.toList) (hvmid : record.vmid < 2 ^ 32) :
    parseRoute (routeResource record route) = some (record.vmid, route.id) := by
  have hid : ':' ∉ route.id.toList := notMem_of_named h (by decide)
  have hdigits : ':' ∉ (toString record.vmid).toList := fun hmem =>
    absurd (isDigit_of_mem_digits hmem) (by decide)
  have hparse := parseU32_toString hvmid
  have htext : (routeResource record route).id =
      "pve:" ++ record.node ++ ":" ++ toString record.vmid ++ ":route:" ++ route.id := rfl
  unfold parseRoute
  rw [htext]
  generalize toString record.vmid = vmid at hdigits hparse ⊢
  have hsplit : ("pve:" ++ record.node ++ ":" ++ vmid ++ ":route:" ++ route.id).toList.splitOn ':' =
      ["pve".toList, record.node.toList, vmid.toList, "route".toList, route.id.toList] :=
    splitOn_joined (by simp [List.intercalate]) (by simpa using ⟨hnode, hdigits, hid⟩) (by simp)
  rw [hsplit]
  simp [hparse]

/-- **Both sides know a route by its name.** A route that is made for a valid agent, whatever its
generation and the random bytes are, has a name of at most 63 characters that the supervisor's
grammar and paths take as it is; and from the resource under which it is journaled, with a proxy
on a node without a colon in its name, exactly its guest and its name are read back. -/
theorem route_name_round_trip (hagent : isIdentifier agent = true)
    (h : Route.new agent generation suffix token = .ok route) :
    isRouteId route.id = true ∧ Named route.id ∧
    (routePath ("/routes/" ++ route.id) = some (route.id, "") ∧
      ∀ action : String, '/' ∉ action.toList →
        routePath ("/routes/" ++ route.id ++ "/" ++ action) = some (route.id, action)) ∧
    ∀ record : ProxyRecord, ':' ∉ record.node.toList → record.vmid < 2 ^ 32 →
      parseRoute (routeResource record route) = some (record.vmid, route.id) := by
  have hnamed := named_of_new hagent h
  exact ⟨isRouteId_of_named hnamed, hnamed, routePath_of_named hnamed,
    fun record hnode hvmid => parseRoute_of_named hnamed hnode hvmid⟩

/-- The longest names: 32 characters of the agent and 20 digits. -/
theorem route_name_round_trip_sample :
    let agent := String.ofList (List.replicate 40 'a')
    ∃ route, Route.new agent (2 ^ 64 - 1) (.ok (Vector.replicate 4 255))
        (.ok (Vector.replicate 24 0)) = .ok route ∧
      route.id.toList.length = 63 ∧ isRouteId route.id = true := by
  obtain ⟨route, h⟩ : ∃ route, Route.new (String.ofList (List.replicate 40 'a')) (2 ^ 64 - 1)
      (.ok (Vector.replicate 4 255)) (.ok (Vector.replicate 24 0)) = .ok route := ⟨_, rfl⟩
  refine ⟨route, h, ?_, (route_name_round_trip (by decide) h).1⟩
  obtain rfl := Except.ok.inj h
  decide +kernel

end Bimo.Proxmox
