import Bimo.Prog
import Bimo.Substrate

/-!
The records of a Proxmox target: its pool of guests and its tenants' proxy guests.

Every change of the pool is a section under the pool's lock, so a section is one function from
the records to the records. What a section asks of the outside (is a process alive, is a VMID
free in the cluster) it gets as a function. Time stamps are left out, and of a proxy's record
the credentials, which only its routes use. A process is known by its pid and start time
together, as one number.
-/

namespace Bimo.Proxmox

/-! ### Settings -/

/-- Addresses are kept as numbers, in their order. -/
structure AddressRange where
  first : ℕ
  last : ℕ
  deriving DecidableEq, Repr

namespace AddressRange

def contains (r : AddressRange) (a : ℕ) : Prop := r.first ≤ a ∧ a ≤ r.last

/-- The lowest address in the range that is not used. -/
def allocate (r : AddressRange) (used : List ℕ) : Option ℕ :=
  (List.range' r.first (r.last + 1 - r.first)).find? fun a => a ∉ used

/-- That many addresses, each taken before the next. -/
def allocateAll (r : AddressRange) : ℕ → List ℕ → Option (List ℕ)
  | 0, _ => some []
  | n + 1, used => do
    let a ← r.allocate used
    let l ← allocateAll r n (a :: used)
    return a :: l

end AddressRange

structure Settings where
  target : String
  node : String
  pool : String
  vmidLow : ℕ
  vmidHigh : ℕ
  addresses : AddressRange
  tenantVlans : List (String × ℕ) := []
  warmPoolSize : ℕ := 0
  memoryMb : ℕ := 512

/-- The tenant's VLAN, if the target maps tenants to segments. -/
def tenantVlan (S : Settings) (tenant : String) : Except FabricError (Option ℕ) :=
  if S.tenantVlans.isEmpty then .ok none
  else match S.tenantVlans.lookup tenant with
  | some v => .ok (some v)
  | none => .error {
      code := .tenantConflict
      message := "tenant '" ++ tenant ++ "' has no segment on target '" ++ S.target ++ "'"
      next := ["add the tenant to tenant_vlans once its segment is provisioned"] }

/-- Refuse any VMID outside the target's range. -/
def checkScope (S : Settings) (vmid : ℕ) : Except FabricError Unit :=
  if vmid < S.vmidLow ∨ vmid > S.vmidHigh then .error {
      code := .substrateRefused
      message := "refusing VMID " ++ toString vmid ++ ": target '" ++ S.target ++
        "' may only touch VMIDs " ++ toString S.vmidLow ++ "-" ++ toString S.vmidHigh }
  else .ok ()

/-- A tag-safe form of a tenant id, which names its proxy's record and lock. -/
def tagSlug (v : String) : String :=
  let slug := v.toList.map fun c =>
    let c := c.toLower
    if c.isAlphanum || c = '_' || c = '-' then c else '-'
  if slug.isEmpty then "none" else String.ofList slug

/-! ### Records -/

inductive GuestState
  | cloning | ready | claimed
  deriving DecidableEq, Repr

structure PoolGuest where
  vmid : ℕ
  node : String
  tenant : String
  address : ℕ
  state : GuestState
  templateVersion : Option String
  owner : Option ℕ
  claimedBy : Option String
  warm : Option String
  deriving DecidableEq, Repr

inductive ProxyState
  | provisioning | ready
  deriving DecidableEq, Repr

structure ProxyRecord where
  tenant : String
  vmid : ℕ
  node : String
  address : ℕ
  /-- Where agents connect: on the tenant's VLAN, else `address`. -/
  agentAddress : ℕ
  vlan : Option ℕ
  templateVersion : Option String
  state : ProxyState
  owner : Option ℕ
  bootId : Option String
  provisions : ℕ
  deriving DecidableEq, Repr

def ProxyRecord.slug (r : ProxyRecord) : String := tagSlug r.tenant

/-- The addresses a proxy guest has: one, and on a VLAN one more. -/
def ProxyRecord.addresses (r : ProxyRecord) : List ℕ :=
  if r.vlan.isSome then [r.address, r.agentAddress] else [r.address]

/-- The address and port an agent's egress lock admits. -/
def ProxyRecord.egress (r : ProxyRecord) : String := toString r.agentAddress ++ ":3128"

/-- The pool's file and the files of the proxies. -/
structure Shelf where
  templateVersion : Option String := none
  guests : List PoolGuest := []
  proxies : List ProxyRecord := []
  deriving DecidableEq, Repr

namespace Shelf

def saveRecord (s : Shelf) (r : ProxyRecord) : Shelf :=
  { s with proxies := r :: s.proxies.filter fun x => x.slug ≠ r.slug }

def dropRecord (s : Shelf) (slug : String) : Shelf :=
  { s with proxies := s.proxies.filter fun x => x.slug ≠ slug }

def proxyRecord (s : Shelf) (slug : String) : Option ProxyRecord :=
  s.proxies.find? fun x => x.slug = slug

def vmids (s : Shelf) : List ℕ := s.guests.map (·.vmid) ++ s.proxies.map (·.vmid)

def addresses (s : Shelf) : List ℕ :=
  s.guests.map (·.address) ++ s.proxies.flatMap (·.addresses)

end Shelf

/-- Change the first guest that is as described. -/
def modifyFirst (p : PoolGuest → Bool) (f : PoolGuest → PoolGuest) :
    List PoolGuest → List PoolGuest
  | [] => []
  | g :: l => if p g then f g :: l else g :: modifyFirst p f l

/-! ### Reservations -/

/-- The guests the token can see, and the addresses they have. -/
structure Listing where
  vmids : List ℕ := []
  addresses : List ℕ := []
  deriving DecidableEq, Repr

/-- What the processes of a section ask of the outside. -/
structure Oracle where
  alive : ℕ → Bool
  /-- No guest anywhere in the cluster has this VMID. -/
  vmidFree : ℕ → Bool

def usedAddresses (s : Shelf) (seen : Listing) : List ℕ :=
  seen.addresses ++ (s.proxies.flatMap fun r => [r.address, r.agentAddress]) ++
    s.guests.map (·.address)

def freeVmid (S : Settings) (s : Shelf) (seen : Listing) (o : Oracle) : Option ℕ :=
  (List.range' S.vmidLow (S.vmidHigh + 1 - S.vmidLow)).find? fun v =>
    v ∉ s.guests.map (·.vmid) ∧ v ∉ seen.vmids ∧ v ∉ s.proxies.map (·.vmid) ∧ o.vmidFree v

/-- A free VMID and so many free addresses. -/
def reserveSlot (S : Settings) (s : Shelf) (seen : Listing) (o : Oracle) (count : ℕ) :
    Except FabricError (ℕ × List ℕ) :=
  match S.addresses.allocateAll count (usedAddresses s seen) with
  | none => .error {
      code := .substrateFailed
      message := "no free address in " ++ toString S.addresses.first ++ "-" ++
        toString S.addresses.last ++ " on target '" ++ S.target ++ "'"
      next := ["drain an idle pool (bimo pool drain) or widen address_range"] }
  | some addresses =>
    match freeVmid S s seen o with
    | none => .error {
        code := .substrateFailed
        message := "no free VMID in " ++ toString S.vmidLow ++ "-" ++ toString S.vmidHigh }
    | some vmid => do
      checkScope S vmid
      return (vmid, addresses)

/-! ### Sections -/

/-- A section under the pool's lock. -/
inductive Section
  /-- Take a guest for an agent. -/
  | take (tenant agent : String) (warm : Option String)
  | mark (vmid : ℕ) (state : GuestState) (agent : Option String)
  | forget (vmid : ℕ)
  /-- The dead, stale and ready guests at the start of a fill. -/
  | review (tenant version : String)
  /-- How many guests a fill counts as there. -/
  | held (tenant : String)
  /-- The tenant's ready guests. -/
  | ready (tenant : String)
  /-- The ready guests warmed with another key of the same family. -/
  | outdated (tenant key : String)
  /-- The ready guests warmed with a key. -/
  | warmed (tenant key : String)
  | unwarm (vmid : ℕ)
  /-- Take an unwarmed guest to warm it. -/
  | takeUnwarmed (tenant version : String) (pid : ℕ)
  | setWarm (vmid : ℕ) (key : String)
  /-- What a drain destroys. -/
  | victims (tenant : Option String)
  | reserve (tenant : String) (agent : Option String) (version : String) (pid : ℕ) (seen : Listing)
  | reserveProxy (tenant : String) (vlan : Option ℕ) (version : String) (pid : ℕ) (seen : Listing)

structure Review where
  dead : List ℕ
  stale : List ℕ
  ready : List ℕ

abbrev Section.Ret : Section → Type
  | .take _ _ _ | .takeUnwarmed _ _ _ => Option PoolGuest
  | .mark _ _ _ | .forget _ | .unwarm _ | .setWarm _ _ => Unit
  | .review _ _ => Review
  | .held _ => ℕ
  | .ready _ | .outdated _ _ | .victims _ => List ℕ
  | .warmed _ _ => List PoolGuest
  | .reserve _ _ _ _ _ => PoolGuest
  | .reserveProxy _ _ _ _ _ => ProxyRecord

def usable (s : Shelf) (tenant : String) (g : PoolGuest) : Bool :=
  g.tenant = tenant && g.state = .ready && s.templateVersion.isSome &&
    g.templateVersion = s.templateVersion

/-- Which guest a claim takes: one warmed with its key, else one that is not warmed. -/
def wanted (s : Shelf) (tenant : String) (warm : Option String) (g : PoolGuest) : Bool :=
  usable s tenant g &&
    if warm.isSome && s.guests.any (fun x => usable s tenant x && x.warm = warm) then g.warm = warm
    else g.warm = none

def claimedFor (agent : String) (g : PoolGuest) : PoolGuest :=
  { g with state := .claimed, claimedBy := some agent }

/-- The runtime a warm key is of: the key without what follows its last dash. -/
def family (key : String) : String :=
  let rest := key.toList.reverse.dropWhile (· ≠ '-')
  if rest.isEmpty then key else String.ofList rest.tail.reverse

def ownerAlive (o : Oracle) (g : PoolGuest) : Bool := g.owner.any o.alive

def isDead (o : Oracle) (g : PoolGuest) : Bool := g.state = .cloning && !ownerAlive o g

def isReady (tenant : String) (g : PoolGuest) : Bool := g.tenant = tenant && g.state = .ready

def vmidsOf (s : Shelf) (p : PoolGuest → Bool) : List ℕ := (s.guests.filter p).map (·.vmid)

/-- A guest that can be warmed with a template of this version. -/
def canWarm (tenant version : String) (g : PoolGuest) : Bool :=
  isReady tenant g && g.warm = none && g.templateVersion = some version

def warming (pid : ℕ) (g : PoolGuest) : PoolGuest :=
  { g with state := .cloning, owner := some pid }

def marked (state : GuestState) (agent : Option String) (g : PoolGuest) : PoolGuest :=
  { g with state := state, owner := none, claimedBy := agent.or g.claimedBy }

def warmWith (key : String) (g : PoolGuest) : PoolGuest :=
  { g with state := .ready, owner := none, warm := some key }

def readyAt (vmid : ℕ) (g : PoolGuest) : Bool := g.vmid = vmid && g.state = .ready

def unwarmed (g : PoolGuest) : PoolGuest := { g with warm := none }

/-- What a section returns, and the records it leaves. -/
def Section.run (S : Settings) (o : Oracle) (s : Shelf) :
    (c : Section) → Except FabricError (c.Ret × Shelf)
  | .take tenant agent warm =>
    .ok (s.guests.find? (wanted s tenant warm),
      { s with guests := modifyFirst (wanted s tenant warm) (claimedFor agent) s.guests })
  | .mark vmid state agent =>
    .ok ((), { s with guests := modifyFirst (·.vmid = vmid) (marked state agent) s.guests })
  | .forget vmid => .ok ((), { s with guests := s.guests.filter (·.vmid ≠ vmid) })
  | .review tenant version =>
    .ok ({
      dead := vmidsOf s (isDead o)
      stale := vmidsOf s fun g => g.state = .ready && g.templateVersion ≠ some version
      ready := vmidsOf s (isReady tenant) }, { s with templateVersion := some version })
  | .held tenant =>
    .ok ((s.guests.filter fun g => g.tenant = tenant && g.claimedBy = none &&
      (g.state = .ready || (g.state = .cloning && ownerAlive o g))).length, s)
  | .ready tenant => .ok (vmidsOf s (isReady tenant), s)
  | .outdated tenant key =>
    .ok (vmidsOf s fun g => isReady tenant g && g.warm.any fun k => k ≠ key && family k = family key,
      s)
  | .warmed tenant key => .ok (s.guests.filter fun g => isReady tenant g && g.warm = some key, s)
  | .unwarm vmid =>
    .ok ((), { s with guests := modifyFirst (readyAt vmid) unwarmed s.guests })
  | .takeUnwarmed tenant version pid =>
    .ok ((s.guests.find? (canWarm tenant version)).map (warming pid),
      { s with guests := modifyFirst (canWarm tenant version) (warming pid) s.guests })
  | .setWarm vmid key =>
    .ok ((), { s with guests := modifyFirst (·.vmid = vmid) (warmWith key) s.guests })
  | .victims tenant =>
    .ok (vmidsOf s fun g => tenant.all (fun t => g.tenant = t) &&
      (g.state = .ready || isDead o g), s)
  | .reserve tenant agent version pid seen => do
    let (vmid, addresses) ← reserveSlot S s seen o 1
    let g : PoolGuest := {
      vmid, tenant, node := S.node, address := addresses.headD 0, state := .cloning,
      templateVersion := some version, owner := some pid, claimedBy := agent, warm := none }
    return (g, { s with guests := s.guests ++ [g] })
  | .reserveProxy tenant vlan version pid seen => do
    let (vmid, addresses) ← reserveSlot S s seen o (if vlan.isSome then 2 else 1)
    let r : ProxyRecord := {
      tenant, vmid, vlan, node := S.node, address := addresses.headD 0,
      agentAddress := addresses.getLastD (addresses.headD 0), templateVersion := some version,
      state := .provisioning, owner := some pid, bootId := none, provisions := 0 }
    return (r, s.saveRecord r)

end Bimo.Proxmox
