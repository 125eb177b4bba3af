import Mathlib.Data.Finset.Card
import Mathlib.Data.Finset.Dedup
import Bimo.ProxyConfig

/-!
The CA of an agent and the check of its certificate.

A CA is made for the hosts of the allowlist: its name constraints permit their subtrees, and
`0.0.0.0/32` where no entry is an address. `verifyCa` reads a certificate back. It looks for the
text of every entry among the texts of the permitted subtrees and then counts: it neither reads
the mask of an address, nor tells an address from a name that is spelled like one, nor looks for
the guard, and entries that come down to one host leave room for others.
-/

namespace Bimo.EngineSpec

/-! ### Counting -/

section Repeats

variable {α : Type} [DecidableEq α]

/-- How many elements of a list stand in it again. -/
def repeats (l : List α) : ℕ := l.length - l.toFinset.card

/-- Two lists of one length have the same elements when one of them holds the other's and repeats
itself as often. -/
lemma subset_of_repeats {required found : List α} (hsub : required ⊆ found)
    (hlen : found.length = required.length) (hrep : repeats required ≤ repeats found) :
    found ⊆ required := by
  have hr := List.toFinset_card_le required
  have hf := List.toFinset_card_le found
  have hcard : found.toFinset.card ≤ required.toFinset.card := by
    unfold repeats at hrep
    omega
  have hsubset : required.toFinset ⊆ found.toFinset := fun a ha =>
    List.mem_toFinset.mpr (hsub (List.mem_toFinset.mp ha))
  have heq := Finset.eq_of_subset_of_card_le hsubset hcard
  intro a ha
  rw [← List.mem_toFinset, heq, List.mem_toFinset]
  exact ha

lemma repeats_eq {required found : List α} (hlen : found.length = required.length)
    (h : ∀ a, a ∈ found ↔ a ∈ required) : repeats required = repeats found := by
  have heq : required.toFinset = found.toFinset := by
    ext a
    simp [h a]
  rw [repeats, repeats, heq, hlen]

end Repeats

/-! ### Certificates -/

/-- The name of a subtree. -/
inductive GeneralName
  | dnsName (name : String)
  | ipAddress (bytes : List UInt8)
  /-- A name of another kind, with what is shown of it. -/
  | other (kind shown : String)
  deriving DecidableEq, Repr

structure KeyUsage where
  keyCertSign : Bool := false
  crlSign : Bool := false
  digitalSignature : Bool := false
  keyEncipherment : Bool := false
  dataEncipherment : Bool := false
  keyAgreement : Bool := false
  deriving DecidableEq, Repr

inductive Extension
  | basicConstraints (critical ca : Bool) (pathLenConstraint : Option ℕ)
  | keyUsage (critical : Bool) (usage : KeyUsage)
  | nameConstraints (permittedSubtrees : Option (List GeneralName))
  | unread
  deriving DecidableEq, Repr

inductive CaError
  | unreadable (message : String)
  | basicConstraints
  | keyUsage
  | notPermitted (host : String)
  /-- With the permitted subtrees, which the message shows. -/
  | morePermitted (permitted : List String)
  deriving DecidableEq, Repr

def constraintHost (entry : String) : String := (stripStar entry).getD entry

/-- An address with its mask. -/
def subtreeBytes (ip : Ipv4Addr) : List UInt8 :=
  [ip.a, ip.b, ip.c, ip.d].map UInt8.ofNat ++ [255, 255, 255, 255]

def subtreeOf (entry : String) : GeneralName :=
  match parseIpv4 entry with
  | some ip => .ipAddress (subtreeBytes ip)
  | none => .dnsName (constraintHost entry)

/-- `0.0.0.0/32`, so that no certificate for a real address is valid. -/
def guard : GeneralName := .ipAddress (subtreeBytes ⟨0, 0, 0, 0⟩)

/-- What the CA of a spec is made with. -/
def permittedSubtrees (allow : List String) : List GeneralName :=
  allow.map subtreeOf ++ if allow.any isIpv4 then [] else [guard]

def dotted (bytes : List UInt8) : String :=
  String.ofList (['.'].intercalate (bytes.map fun b => Nat.toDigits 10 b.toNat))

/-- A name as the check keeps it. -/
def GeneralName.shown : GeneralName → String
  | .dnsName name => name
  | .ipAddress bytes =>
    if bytes.length = 8 then dotted (bytes.take 4)
    else "IPAddress([" ++ ", ".intercalate (bytes.map fun b => toString b.toNat) ++ "])"
  | .other kind shown => kind ++ "(" ++ shown ++ ")"

structure Found where
  caOk : Bool := false
  usageOk : Bool := false
  permitted : List String := []

def Found.read (f : Found) : Extension → Found
  | .basicConstraints critical ca pathLen =>
    { f with caOk := ca && pathLen == some 0 && critical }
  | .keyUsage critical u =>
    { f with usageOk := u.keyCertSign && u.crlSign && !u.digitalSignature && !u.keyEncipherment &&
        !u.dataEncipherment && !u.keyAgreement && critical }
  | .nameConstraints subtrees =>
    { f with permitted := f.permitted ++ (subtrees.getD []).map GeneralName.shown }
  | .unread => f

/-- The number of subtrees that are expected: one for each entry, and the guard. -/
def expected (allow : List String) : ℕ := allow.length + if allow.any isIpv4 then 0 else 1

lemma length_permittedSubtrees (allow : List String) :
    (permittedSubtrees allow).length = expected allow := by
  rw [permittedSubtrees, expected, List.length_append, List.length_map]
  split_ifs <;> rfl

/-- The check of a certificate, given what reads it. -/
def verifyCa (parse : String → Except String (List Extension)) (pem : String) (spec : AgentSpec) :
    Except CaError Unit := do
  let extensions ← (parse pem).mapError CaError.unreadable
  let found := extensions.foldl Found.read {}
  if found.caOk = false then .error .basicConstraints
  else if found.usageOk = false then .error .keyUsage
  else
    match spec.egress.allow.find? (constraintHost · ∉ found.permitted) with
    | some entry => .error (.notPermitted (constraintHost entry))
    | none =>
      if found.permitted.length ≠ expected spec.egress.allow then
        .error (.morePermitted found.permitted)
      else pure ()

/-- The subtrees that a certificate permits. -/
def subtrees (extensions : List Extension) : List GeneralName :=
  extensions.flatMap fun
    | .nameConstraints subtrees => subtrees.getD []
    | _ => []

lemma permitted_foldl (extensions : List Extension) (f : Found) :
    (extensions.foldl Found.read f).permitted =
      f.permitted ++ (subtrees extensions).map GeneralName.shown := by
  induction extensions generalizing f with
  | nil => simp [subtrees]
  | cons e extensions ih =>
    rw [List.foldl_cons, ih]
    cases e <;> simp [Found.read, subtrees]

/-- What the check comes to: every entry is found and the number is right. -/
lemma of_verifyCa {parse : String → Except String (List Extension)} {pem : String}
    {spec : AgentSpec} {extensions : List Extension} (hparse : parse pem = .ok extensions)
    (h : verifyCa parse pem spec = .ok ()) :
    (∀ entry ∈ spec.egress.allow,
        constraintHost entry ∈ (subtrees extensions).map GeneralName.shown) ∧
      (subtrees extensions).length = (permittedSubtrees spec.egress.allow).length := by
  unfold verifyCa at h
  rw [hparse] at h
  have hperm := permitted_foldl extensions {}
  rw [List.nil_append] at hperm
  obtain ⟨_, heq, h⟩ := bind_eq_ok.mp h
  obtain rfl := Except.ok.inj heq
  dsimp only at h
  rw [hperm] at h
  split at h
  · cases h
  split at h
  · cases h
  split at h
  · cases h
  rename_i hnone
  split at h
  · cases h
  rename_i hlen
  refine ⟨fun entry hentry => ?_, ?_⟩
  · simpa using List.find?_eq_none.mp hnone entry hentry
  · rw [length_permittedSubtrees, ← not_not.mp hlen, List.length_map]

/-! ### What a text says of a subtree -/

/-- The subtrees that a CA is made with. -/
def Proper : GeneralName → Prop
  | .dnsName name => isIpv4 name = false ∧ ∀ c ∈ name.toList, isHostChar c = true
  | .ipAddress bytes => ∃ a b c d, bytes = [a, b, c, d, 255, 255, 255, 255]
  | .other _ _ => False

lemma le_toNat (b : UInt8) : b.toNat ≤ 255 := Nat.le_of_lt_succ b.toNat_lt

lemma parseIpv4_dotted (a b c d : UInt8) :
    parseIpv4 (dotted [a, b, c, d]) = some ⟨a.toNat, b.toNat, c.toNat, d.toNat⟩ :=
  parseIpv4_intercalate (le_toNat a) (le_toNat b) (le_toNat c) (le_toNat d)

lemma isIpv4_dotted (a b c d : UInt8) : isIpv4 (dotted [a, b, c, d]) = true := by
  rw [isIpv4, parseIpv4_dotted]
  rfl

/-- A text with a bracket is none of a proper subtree. -/
lemma bracket_of_proper {s : GeneralName} (hs : Proper s) : '(' ∉ s.shown.toList := by
  intro hmem
  cases s with
  | dnsName name => exact absurd (hs.2 _ hmem) (by decide)
  | ipAddress bytes =>
    obtain ⟨a, b, c, d, rfl⟩ := hs
    have hchar := chars_of_parseIpv4 (parseIpv4_dotted a b c d) _ hmem
    exact absurd hchar (by decide)
  | other kind shown => exact hs

/-- Beside a proper subtree, one with its text is the same one, where names and masks are right. -/
lemma eq_of_shown {t s : GeneralName} (hs : Proper s)
    (hmask : ∀ bytes, t = .ipAddress bytes → bytes.length = 8 →
      bytes.drop 4 = [255, 255, 255, 255])
    (hname : ∀ name, t = .dnsName name → isIpv4 name = false) (h : t.shown = s.shown) : t = s := by
  have hbracket := bracket_of_proper hs
  rw [← h] at hbracket
  cases t with
  | other kind shown => exact absurd (by simp [GeneralName.shown]) hbracket
  | dnsName name =>
    have hip := hname name rfl
    cases s with
    | dnsName host => exact congrArg GeneralName.dnsName h
    | ipAddress bytes =>
      obtain ⟨a, b, c, d, rfl⟩ := hs
      have htext : name = dotted [a, b, c, d] := h
      rw [htext, isIpv4_dotted] at hip
      cases hip
    | other kind shown => exact hs.elim
  | ipAddress bytes =>
    by_cases hlen : bytes.length = 8
    · have hm := hmask bytes rfl hlen
      obtain ⟨a, b, c, d, rfl⟩ : ∃ a b c d, bytes = [a, b, c, d, 255, 255, 255, 255] := by
        match bytes, hlen, hm with
        | [a, b, c, d, _, _, _, _], _, hm => exact ⟨a, b, c, d, congrArg ([a, b, c, d] ++ ·) hm⟩
      cases s with
      | dnsName host =>
        have htext : dotted [a, b, c, d] = host := h
        have hip := hs.1
        rw [← htext, isIpv4_dotted] at hip
        cases hip
      | ipAddress bytes' =>
        obtain ⟨a', b', c', d', rfl⟩ := hs
        have htext : dotted [a, b, c, d] = dotted [a', b', c', d'] := h
        have hparse := (parseIpv4_dotted a b c d).symm.trans
          (htext ▸ parseIpv4_dotted a' b' c' d')
        simp only [Option.some.injEq, Ipv4Addr.mk.injEq, UInt8.toNat_inj] at hparse
        obtain ⟨rfl, rfl, rfl, rfl⟩ := hparse
        rfl
      | other kind shown => exact hs.elim
    · refine absurd ?_ hbracket
      simp [GeneralName.shown, hlen]

/-! ### The entries of an accepted spec -/

lemma constraintHost_toAsciiLowercase (s : String) :
    constraintHost (toAsciiLowercase s) = toAsciiLowercase (constraintHost s) := by
  rw [constraintHost, stripStar_toAsciiLowercase, constraintHost]
  cases stripStar s <;> rfl

/-- What the constraint host of an entry is like. -/
lemma of_mem_allow {spec : AgentSpec} (hc : HostsChecked spec) {entry : String}
    (hentry : entry ∈ spec.egress.allow) :
    (∀ c ∈ (constraintHost entry).toList, isHostChar c = true) ∧
      isIpv4 (constraintHost entry) = isIpv4 entry := by
  obtain ⟨hosts, heq, hvalid⟩ := hc.allow
  rw [heq] at hentry
  obtain ⟨raw, hraw, rfl⟩ := List.mem_map.mp hentry
  obtain ⟨hchars, hstarred⟩ := of_validHostPattern (hvalid raw hraw)
  constructor
  · intro c hmem
    rw [constraintHost_toAsciiLowercase, toList_toAsciiLowercase] at hmem
    obtain ⟨d, hd, rfl⟩ := List.mem_map.mp hmem
    exact isHostChar_toLower (hchars d hd)
  · cases hs : stripStar raw with
    | none => rw [constraintHost, stripStar_toAsciiLowercase, hs]; rfl
    | some u =>
      have hlow : stripStar (toAsciiLowercase raw) = some (toAsciiLowercase u) := by
        rw [stripStar_toAsciiLowercase, hs]
        rfl
      rw [isIpv4_of_stripStar hlow, constraintHost, hlow, Option.getD_some, Bool.eq_false_iff]
      exact fun h => absurd ((hstarred u hs).symm.trans (isIpv4_of_toAsciiLowercase h)) (by decide)

lemma constraintHost_of_isIpv4 {entry : String} (h : isIpv4 entry = true) :
    constraintHost entry = entry := by
  cases hs : stripStar entry with
  | none => rw [constraintHost, hs]; rfl
  | some t => rw [isIpv4_of_stripStar hs] at h; cases h

lemma subtreeBytes_eq (ip : Ipv4Addr) :
    ∃ a b c d, subtreeBytes ip = [a, b, c, d, 255, 255, 255, 255] :=
  ⟨_, _, _, _, rfl⟩

lemma proper_subtreeOf {spec : AgentSpec} (hc : HostsChecked spec) {entry : String}
    (hentry : entry ∈ spec.egress.allow) : Proper (subtreeOf entry) := by
  obtain ⟨hchars, hip⟩ := of_mem_allow hc hentry
  cases h : parseIpv4 entry with
  | some ip =>
    rw [subtreeOf, h]
    exact subtreeBytes_eq ip
  | none =>
    rw [subtreeOf, h]
    refine ⟨?_, hchars⟩
    rw [hip, isIpv4, h]
    rfl

lemma shown_subtreeOf (entry : String) : (subtreeOf entry).shown = constraintHost entry := by
  cases h : parseIpv4 entry with
  | none => rw [subtreeOf, h]; rfl
  | some ip =>
    obtain ⟨ha, hb, hc, hd⟩ := le_of_parseIpv4 h
    have hnat : ∀ {n : ℕ}, n ≤ 255 → (UInt8.ofNat n).toNat = n := fun hn => by
      rw [UInt8.toNat_ofNat']
      omega
    have hparse := parseIpv4_dotted (.ofNat ip.a) (.ofNat ip.b) (.ofNat ip.c) (.ofNat ip.d)
    rw [hnat ha, hnat hb, hnat hc, hnat hd] at hparse
    rw [constraintHost_of_isIpv4 (by rw [isIpv4, h]; rfl), subtreeOf, h]
    exact parseIpv4_injective hparse h

lemma proper_guard : Proper guard := subtreeBytes_eq _

lemma isIpv4_guard : isIpv4 guard.shown = true := isIpv4_dotted 0 0 0 0

lemma proper_of_mem {spec : AgentSpec} (hc : HostsChecked spec) {s : GeneralName}
    (hs : s ∈ permittedSubtrees spec.egress.allow) : Proper s := by
  obtain hs | hs := List.mem_append.mp hs
  · obtain ⟨entry, hentry, rfl⟩ := List.mem_map.mp hs
    exact proper_subtreeOf hc hentry
  · split_ifs at hs
    · cases hs
    · rw [List.mem_singleton.mp hs]
      exact proper_guard

/-! ### When the check is exact -/

/-- What a certificate has to be like, beside what is checked. -/
structure Faithful (allow : List String) (names : List GeneralName) : Prop where
  /-- An address is permitted with its whole mask. -/
  masks : ∀ bytes, .ipAddress bytes ∈ names → bytes.length = 8 →
    bytes.drop 4 = [255, 255, 255, 255]
  /-- No name is spelled like an address. -/
  spelled : ∀ name, .dnsName name ∈ names → isIpv4 name = false
  guarded : allow.any isIpv4 = false → guard ∈ names
  /-- Subtrees are repeated as often as entries come down to one host. -/
  repeated : repeats (allow.map constraintHost) ≤ repeats (names.map GeneralName.shown)

lemma repeats_append_singleton {α : Type} [DecidableEq α] {l : List α} {a : α} (h : a ∉ l) :
    repeats (l ++ [a]) = repeats l := by
  have hcard : (l ++ [a]).toFinset.card = l.toFinset.card + 1 := by
    have hinsert : (l ++ [a]).toFinset = insert a l.toFinset := by
      ext x
      simp
    rw [hinsert, Finset.card_insert_of_notMem (by simpa using h)]
  rw [repeats, repeats, hcard, List.length_append, List.length_singleton]
  omega

/-- The guard repeats no entry. -/
lemma repeats_required {spec : AgentSpec} (hc : HostsChecked spec) :
    repeats ((permittedSubtrees spec.egress.allow).map GeneralName.shown) =
      repeats (spec.egress.allow.map constraintHost) := by
  have hmap : (spec.egress.allow.map subtreeOf).map GeneralName.shown =
      spec.egress.allow.map constraintHost := by
    rw [List.map_map]
    exact List.map_congr_left fun entry _ => shown_subtreeOf entry
  rw [permittedSubtrees, List.map_append, hmap]
  split_ifs with hany
  · rw [List.map_nil, List.append_nil]
  · refine repeats_append_singleton fun hmem => hany ?_
    obtain ⟨entry, hentry, heq⟩ := List.mem_map.mp hmem
    refine List.any_eq_true.mpr ⟨entry, hentry, ?_⟩
    rw [← (of_mem_allow hc hentry).2, heq, isIpv4_guard]

/-- **When the check of a CA is exact.** A certificate that passes permits exactly the subtrees of
the spec's CA if and only if its addresses have their masks, no name is spelled like an address,
the guard is there when it is due, and no room is left by repeated entries. -/
theorem verifyCa_exact {host : Host} {text path base pem : String} {loaded : LoadedSpec}
    (h : parseAndValidate host text path base = .ok loaded)
    {parse : String → Except String (List Extension)} {extensions : List Extension}
    (hparse : parse pem = .ok extensions) (hverify : verifyCa parse pem loaded.spec = .ok ()) :
    (∀ name, name ∈ subtrees extensions ↔ name ∈ permittedSubtrees loaded.spec.egress.allow) ↔
      Faithful loaded.spec.egress.allow (subtrees extensions) := by
  have hc := hostsChecked_of_parse h
  obtain ⟨hfound, hlen⟩ := of_verifyCa hparse hverify
  generalize subtrees extensions = names at *
  have hlen' : (names.map GeneralName.shown).length =
      ((permittedSubtrees loaded.spec.egress.allow).map GeneralName.shown).length := by
    rw [List.length_map, List.length_map, hlen]
  constructor
  · intro hexact
    have hproper : ∀ name ∈ names, Proper name := fun name hname =>
      proper_of_mem hc ((hexact name).mp hname)
    refine ⟨fun bytes hbytes _ => ?_, fun name hname => (hproper _ hname).1, fun hany => ?_, ?_⟩
    · obtain ⟨a, b, c, d, rfl⟩ := hproper _ hbytes
      rfl
    · refine (hexact _).mpr (List.mem_append_right _ ?_)
      rw [hany]
      exact .head _
    · rw [← repeats_required hc]
      refine (repeats_eq hlen' fun s => ?_).le
      rw [List.mem_map, List.mem_map]
      exact exists_congr fun name => and_congr_left' (hexact name)
  · intro hf
    have hrequired : (permittedSubtrees loaded.spec.egress.allow).map GeneralName.shown ⊆
        names.map GeneralName.shown := by
      intro s hs
      obtain ⟨name, hname, rfl⟩ := List.mem_map.mp hs
      obtain hname | hname := List.mem_append.mp hname
      · obtain ⟨entry, hentry, rfl⟩ := List.mem_map.mp hname
        rw [shown_subtreeOf]
        exact hfound entry hentry
      · split_ifs at hname with hany
        · cases hname
        · rw [List.mem_singleton.mp hname]
          exact List.mem_map_of_mem (hf.guarded (by simpa using hany))
    have hback := subset_of_repeats hrequired hlen' (by rw [repeats_required hc]; exact hf.repeated)
    have hsame : ∀ t ∈ names, ∀ s ∈ permittedSubtrees loaded.spec.egress.allow,
        t.shown = s.shown → t = s := fun t ht s hs =>
      eq_of_shown (proper_of_mem hc hs) (fun bytes hb => hf.masks bytes (hb ▸ ht))
        fun name hn => hf.spelled name (hn ▸ ht)
    refine fun name => ⟨fun hname => ?_, fun hname => ?_⟩
    · obtain ⟨s, hs, heq⟩ := List.mem_map.mp (hback (List.mem_map_of_mem hname))
      rwa [hsame name hname s hs heq.symm]
    · obtain ⟨t, ht, heq⟩ := List.mem_map.mp (hrequired (List.mem_map_of_mem hname))
      rwa [← hsame t ht name hname heq]

/-! The certificate of the sample, and one that permits every address. -/

def sampleCa (mask : List UInt8) : List Extension :=
  [.basicConstraints true true (some 0), .keyUsage true { keyCertSign := true, crlSign := true },
    .nameConstraints (some [.dnsName "example.com", .ipAddress ([10, 0, 0, 1] ++ mask)])]

def sampleParse (mask : List UInt8) (_pem : String) : Except String (List Extension) :=
  .ok (sampleCa mask)

lemma sample_allow : ∃ loaded, parseAndValidate sampleHost sampleText "spec.toml" "." = .ok loaded ∧
    loaded.spec.egress.allow = ["*.example.com", "10.0.0.1"] := by
  have hok : (match parseAndValidate sampleHost sampleText "spec.toml" "." with
    | .ok loaded => loaded.spec.egress.allow == ["*.example.com", "10.0.0.1"]
    | .error _ => false) = true := by decide +kernel
  split at hok
  · rename_i loaded hloaded
    exact ⟨loaded, hloaded, by simpa using hok⟩
  · cases hok

def fullMask : List UInt8 := [255, 255, 255, 255]

def noMask : List UInt8 := [0, 0, 0, 0]

lemma verifyCa_full {spec : AgentSpec} (h : spec.egress.allow = ["*.example.com", "10.0.0.1"]) :
    verifyCa (sampleParse fullMask) "" spec = .ok () := by
  unfold verifyCa
  rw [h]
  rfl

lemma verifyCa_none {spec : AgentSpec} (h : spec.egress.allow = ["*.example.com", "10.0.0.1"]) :
    verifyCa (sampleParse noMask) "" spec = .ok () := by
  unfold verifyCa
  rw [h]
  rfl

/-- A certificate that passes, beside the condition. -/
theorem verifyCa_exact_sample : ∃ loaded,
    parseAndValidate sampleHost sampleText "spec.toml" "." = .ok loaded ∧
      ((∀ name, name ∈ subtrees (sampleCa fullMask) ↔
          name ∈ permittedSubtrees loaded.spec.egress.allow) ↔
        Faithful loaded.spec.egress.allow (subtrees (sampleCa fullMask))) := by
  obtain ⟨loaded, h, hallow⟩ := sample_allow
  exact ⟨loaded, h, verifyCa_exact h rfl (verifyCa_full hallow)⟩

/-- With `10.0.0.1` on the allowlist, a certificate that permits every address passes. -/
theorem every_address_passes : ∃ loaded,
    parseAndValidate sampleHost sampleText "spec.toml" "." = .ok loaded ∧
      verifyCa (sampleParse noMask) "" loaded.spec = .ok () ∧
      .ipAddress [10, 0, 0, 1, 0, 0, 0, 0] ∈ subtrees (sampleCa noMask) ∧
      .ipAddress [10, 0, 0, 1, 0, 0, 0, 0] ∉ permittedSubtrees loaded.spec.egress.allow := by
  obtain ⟨loaded, h, hallow⟩ := sample_allow
  refine ⟨loaded, h, verifyCa_none hallow, by decide +kernel, ?_⟩
  rw [hallow]
  decide +kernel

end Bimo.EngineSpec
