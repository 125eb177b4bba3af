import Bimo.Pool

/-!
The Proxmox driver: claims, fills, drains and proxy guests as programs.

A section under the pool's lock is one call, and so is a request to the cluster or to a guest.
The loops of the source that have no bound, or end with a clock, have `fuel`: how many rounds
they get before the process is stopped.
-/

namespace Bimo.Proxmox

/-! ### Calls -/

/-- What the control plane keeps for a warm guest. -/
structure WarmSecrets where
  claimId : String
  credential : String
  goToken : String
  egress : Option String
  deriving DecidableEq, Repr

/-- What a bound guest says of its binding. -/
structure Status where
  claimId : Option String
  tenant : Option String
  warm : Option String
  deriving DecidableEq, Repr

/-- What a guest is bound with: by an agent's claim, by a warming, or as a proxy. -/
structure Payload where
  tenant : String
  agent : Option String := none
  warm : Option String := none
  deriving DecidableEq, Repr

structure Bound where
  claimId : String
  credential : String
  status : Status
  deriving DecidableEq, Repr

inductive ApiError
  | missing
  | failed (message : String)
  deriving DecidableEq, Repr

/-- A guest as the cluster lists it. -/
structure Entry where
  pool : String
  node : String
  kind : String
  deriving DecidableEq, Repr

/-- What a bind agent says of itself. -/
structure Health where
  hostname : String
  unbound : Bool
  deriving DecidableEq, Repr

structure WarmRecipe where
  key : String
  port : ℕ
  memoryMb : ℕ
  deriving DecidableEq, Repr

inductive Call
  | pool (c : Section)
  -- files beside the pool
  | removeSecrets (vmid : ℕ)
  | readSecrets (vmid : ℕ)
  | writeSecrets (vmid : ℕ) (s : WarmSecrets)
  | lockTenant (slug : String)
  | unlockTenant (slug : String)
  | readRecord (slug : String)
  | saveRecord (r : ProxyRecord)
  | dropRecord (slug : String)
  | proxyBundle
  | stageWarmBundle
  -- an agent's journal
  | touching (agent : String) (vmid : ℕ)
  | created (agent : String) (vmid : ℕ)
  -- the cluster
  | templateVersion
  | listing
  | visible (vmid : ℕ)
  | vmidFree (vmid : ℕ)
  | config (vmid : ℕ)
  | running (vmid : ℕ)
  /-- The same request, where it is not about to be destroyed. -/
  | runs (vmid : ℕ)
  | stop (vmid : ℕ)
  | delete (vmid : ℕ)
  /-- The agent is not part of the request: it is who the guest is for, if anyone yet. -/
  | clone (vmid : ℕ) (tenant : String) (agent : Option String)
  | configure (vmid address : ℕ)
  | start (vmid : ℕ)
  | setMemory (vmid memoryMb : ℕ)
  -- guests
  | waitForBindAgent (vmid address : ℕ)
  | bind (vmid address : ℕ) (payload : Payload)
  | guestStatus (vmid : ℕ) (credential : String)
  | guestRuntime (vmid : ℕ) (credential : String)
  | putBundle (vmid : ℕ)
  | startWarm (vmid : ℕ) (key egress : String)
  | waitUntilWarm (vmid : ℕ)
  | bindHealth (address : ℕ)
  | controlHealth (address : ℕ)
  | startSupervisor (vmid : ℕ)
  | randomHex
  /-- The time is up. -/
  | expired

abbrev Call.Ret : Call → Type
  | .pool c => Except FabricError c.Ret
  | .readSecrets _ => Except String (Option WarmSecrets)
  | .readRecord _ => Except FabricError (Option ProxyRecord)
  | .removeSecrets _ | .unlockTenant _ | .dropRecord _ => Unit
  | .writeSecrets _ _ | .putBundle _ | .startWarm _ _ _ | .waitUntilWarm _
  | .waitForBindAgent _ _ | .setMemory _ _ | .startSupervisor _ => Except String Unit
  | .lockTenant _ | .saveRecord _ | .proxyBundle | .stageWarmBundle | .touching _ _
  | .created _ _ | .clone _ _ _ | .configure _ _ | .start _ => Except FabricError Unit
  | .templateVersion => Except FabricError String
  | .listing => Except FabricError Listing
  | .visible _ => Except FabricError (Option Entry)
  | .vmidFree _ => Except FabricError Bool
  | .config _ => Except ApiError String
  | .running _ | .runs _ => Except ApiError Bool
  | .stop _ | .delete _ => Except ApiError Unit
  | .bind _ _ _ => Except String Bound
  | .guestStatus _ _ => Except String Status
  | .guestRuntime _ _ => Except String String
  | .bindHealth _ => Except String Health
  | .controlHealth _ => Except String (Option String)
  | .randomHex => Except String String
  | .expired => Bool

abbrev Io (α : Type) := Prog Call Call.Ret FabricError α

/-- A part whose errors are texts. -/
abbrev Told (α : Type) := Prog Call Call.Ret String α

def ask {ε : Type} (c : Call) : Prog Call Call.Ret ε c.Ret := Prog.ask c

def tryAsk {ε α : Type} (c : Call) (f : c.Ret → Except ε α) : Prog Call Call.Ret ε α := do
  let x ← ask c
  .ofExcept (f x)

def pool (c : Section) : Io c.Ret := tryAsk (.pool c) fun x => x

/-- A program whose failure is looked at. -/
def attempt {ε α : Type} (p : Prog Call Call.Ret ε α) : Io (Except ε α) := p.attempt

def refused (message : String) : FabricError := { code := .substrateRefused, message }

def failedError (message : String) : FabricError := { code := .substrateFailed, message }

def proxyError (message : String) : FabricError := { code := .proxyFailed, message }

/-- A program whose errors are put in a fabric error. -/
def orFail {α : Type} (f : String → FabricError) (p : Told α) : Io α := p.mapErr f

/-! ### Guests -/

section

variable (S : Settings)

def hostname (vmid : ℕ) : String := "mono-" ++ toString vmid

def apiError (context : String) : ApiError → FabricError
  | .missing => {
      code := .substrateFailed, message := context ++ ": missing",
      next := ["check the proxmox target '" ++ S.target ++ "' and retry"] }
  | .failed m => {
      code := .substrateFailed, message := context ++ ": " ++ m,
      next := ["check the proxmox target '" ++ S.target ++ "' and retry"] }

/-- An answer of the cluster, where a missing guest is one that is gone already. -/
def orGone {α : Type} (context : String) (x : Except ApiError α) : Except FabricError (Option α) :=
  match x with
  | .ok a => .ok (some a)
  | .error .missing => .ok none
  | .error e => .error (apiError S context e)

/-- Stop a guest that runs, unless it is gone. -/
def stopGuest (vmid : ℕ) (running : Bool) : Io (Option Unit) :=
  if running then tryAsk (.stop vmid) (orGone S ("could not stop guest " ++ toString vmid))
  else return some ()

/-- Stop and delete an owned guest. One that no longer exists is already destroyed. -/
def destroyGuest (vmid : ℕ) : Io Unit := do
  .ofExcept (checkScope S vmid)
  match ← tryAsk (.visible vmid) fun x => x with
  | none => do
    if ← tryAsk (.vmidFree vmid) fun x => x then return ()
    else .fail (refused ("refusing VMID " ++ toString vmid ++
      ": it exists but is not visible to the driver token, so it is not in pool '" ++ S.pool ++ "'"))
  | some e =>
    if e.pool ≠ S.pool ∨ e.node ≠ S.node ∨ e.kind ≠ "lxc" then
      .fail (refused ("refusing VMID " ++ toString vmid ++ ": it is not an lxc guest in pool '" ++
        S.pool ++ "' on " ++ S.node))
    else do
      match ← tryAsk (.config vmid) (orGone S ("could not read guest " ++ toString vmid)) with
      | none => return ()
      | some description =>
        if ¬ "monolith-owned".toList <:+: description.toList then
          .fail (refused ("refusing VMID " ++ toString vmid ++
            ": it does not carry the 'monolith-owned' marker"))
        else do
          match ← tryAsk (.running vmid)
              (orGone S ("could not read status of guest " ++ toString vmid)) with
          | none => return ()
          | some running => do
            match ← stopGuest S vmid running with
            | none => return ()
            | some _ => do
              let _ ← tryAsk (.delete vmid) (orGone S ("could not delete guest " ++ toString vmid))
              return ()

/-- Clone the template, configure the guest's network, start it and wait for its bind agent. -/
def cloneGuest (vmid address : ℕ) (tenant : String) (agent : Option String) : Io Unit := do
  let _ ← .ofExcept (tenantVlan S tenant)
  .ofExcept (checkScope S vmid)
  tryAsk (.clone vmid tenant agent) fun x => x
  tryAsk (.configure vmid address) fun x => x
  tryAsk (.start vmid) fun x => x
  orFail (fun m => failedError ("guest " ++ toString vmid ++
    " started, but its bind agent did not answer: " ++ m))
    (tryAsk (.waitForBindAgent vmid address) fun x => x)

/-- Whether the guest exists and runs. -/
def guestRunning (vmid : ℕ) : Io Bool := do
  .ofExcept (checkScope S vmid)
  let r ← tryAsk (.runs vmid) (orGone S ("could not read guest " ++ toString vmid))
  return r.getD false

/-- Drop a destroyed guest from the pool. -/
def forget (vmid : ℕ) : Io Unit := do
  ask (.removeSecrets vmid)
  pool (.forget vmid)

def mark (vmid : ℕ) (state : GuestState) (agent : Option String) : Io Unit :=
  pool (.mark vmid state agent)

def destroyAndForget (vmid : ℕ) : Io Unit := do
  destroyGuest S vmid
  forget vmid

/-- The same, whatever comes of either. -/
def discard (vmid : ℕ) : Io Unit := do
  let _ ← attempt (destroyGuest S vmid)
  let _ ← attempt (forget vmid)
  return ()

def reserve (tenant : String) (agent : Option String) (version : String) (pid : ℕ) :
    Io PoolGuest := do
  let seen ← tryAsk .listing fun x => x
  pool (.reserve tenant agent version pid seen)

/-! ### Claims -/

structure Claim where
  vmid : ℕ
  address : ℕ
  claimId : String
  credential : String
  /-- From the pool, not a cold clone. -/
  pooled : Bool
  templateVersion : String
  status : Status
  goToken : Option String
  deriving DecidableEq, Repr

/-- What is asked of a claim. -/
structure Request where
  tenant : String
  agent : String
  warm : Option String
  egress : Option String
  deriving DecidableEq, Repr

/-- A warm guest's secrets have to be there and name the egress that is asked for. -/
def secretsFor (egress : Option String) :
    Except String (Option WarmSecrets) → Except String WarmSecrets
  | .error e => .error ("the warm guest's credential is unreadable: " ++ e)
  | .ok none => .error "the warm guest's credential is missing"
  | .ok (some s) =>
    if egress.isSome ∧ s.egress ≠ egress then
      .error "the warm guest's egress lock names another proxy endpoint"
    else .ok s

/-- The guest has to be bound as it was when it was warmed. -/
def statusFor (g : PoolGuest) (key : String) (s : WarmSecrets) :
    Except String Status → Except String Status
  | .error e => .error e
  | .ok st =>
    if st.claimId ≠ some s.claimId ∨ st.tenant ≠ some g.tenant ∨ st.warm ≠ some key then
      .error "the warm guest's binding does not match"
    else .ok st

def runtimeFor : Except String String → Except String Unit
  | .error e => .error e
  | .ok state =>
    if state ≠ "running" then .error ("the warm runtime is not running: " ++ state) else .ok ()

/-- Before a warm guest is handed out. -/
def checkWarm (g : PoolGuest) (key : String) (egress : Option String) :
    Told (WarmSecrets × Status) := do
  let s ← tryAsk (.readSecrets g.vmid) (secretsFor egress)
  let st ← tryAsk (.guestStatus g.vmid s.credential) (statusFor g key s)
  tryAsk (.guestRuntime g.vmid s.credential) runtimeFor
  return (s, st)

def bindAs (g : PoolGuest) (p : Payload) : Told Bound := tryAsk (.bind g.vmid g.address p) fun x => x

/-- Make a guest that was taken the agent's. -/
def bindTaken (q : Request) (g : PoolGuest) : Told (String × String × Status × Option String) :=
  match g.warm with
  | some key => do
    let (s, st) ← checkWarm g key q.egress
    return (s.claimId, s.credential, st, some s.goToken)
  | none => do
    let b ← bindAs g { tenant := g.tenant, agent := some q.agent }
    return (b.claimId, b.credential, b.status, none)

/-- A reserved guest is cloned, bound and marked as the agent's. -/
def startCold (q : Request) (g : PoolGuest) : Io Bound := do
  cloneGuest S g.vmid g.address q.tenant (some q.agent)
  let b ← orFail (fun m => failedError ("guest " ++ toString g.vmid ++ " would not bind: " ++ m))
    (bindAs g { tenant := g.tenant, agent := some q.agent })
  mark g.vmid .claimed (some q.agent)
  return b

/-- Clone, start and bind a guest without the pool. -/
def coldClaim (q : Request) (pid : ℕ) : Io Claim := do
  let version ← tryAsk .templateVersion fun x => x
  let g ← reserve q.tenant (some q.agent) version pid
  match ← attempt (tryAsk (.touching q.agent g.vmid) fun x => x : Io Unit) with
  | .error e => do
    let _ ← attempt (forget g.vmid)
    .fail e
  | .ok _ => do
    match ← attempt (startCold S q g) with
    | .error e => do
      discard S g.vmid
      .fail e
    | .ok b => do
      tryAsk (.created q.agent g.vmid) fun x => x
      return {
        vmid := g.vmid, address := g.address, claimId := b.claimId, credential := b.credential,
        pooled := false, templateVersion := version, status := b.status, goToken := none }

/-- The rounds of a claim. A guest that will not bind is left to the next fill. -/
def claimLoop (q : Request) (pid : ℕ) : ℕ → Io Claim
  | 0 => .fail (failedError "stopped")
  | fuel + 1 => do
    match ← pool (.take q.tenant q.agent q.warm) with
    | none => coldClaim S q pid
    | some g => do
      match ← attempt (bindTaken q g) with
      | .ok (claimId, credential, status, goToken) => do
        tryAsk (.created q.agent g.vmid) fun x => x
        return {
          vmid := g.vmid, address := g.address, claimId := claimId, credential := credential,
          pooled := true, templateVersion := g.templateVersion.getD "", status := status,
          goToken := goToken }
      | .error _ => do
        mark g.vmid .cloning none
        claimLoop q pid fuel

def claimFor (q : Request) (pid fuel : ℕ) : Io Claim := do
  let _ ← .ofExcept (tenantVlan S q.tenant)
  claimLoop S q pid fuel

/-! ### Fills and drains -/

/-- Clone what is missing, one at a time. -/
def fillLoop (tenant version : String) (pid : ℕ) : ℕ → Io Unit
  | 0 => .fail (failedError "stopped")
  | fuel + 1 => do
    let held ← pool (.held tenant)
    if held ≥ S.warmPoolSize then return ()
    else do
      match ← attempt (reserve tenant none version pid) with
      | .error _ => return ()
      | .ok g => do
        match ← attempt (cloneGuest S g.vmid g.address tenant none) with
        | .ok _ => do
          mark g.vmid .ready none
          fillLoop tenant version pid fuel
        | .error _ => discard S g.vmid

def retireStopped (retired : List ℕ) (vmid : ℕ) : Io Unit := do
  if vmid ∈ retired then return ()
  else do
    if ← guestRunning S vmid then return ()
    else destroyAndForget S vmid

def fill (tenant : String) (pid fuel : ℕ) : Io Unit := do
  let _ ← .ofExcept (tenantVlan S tenant)
  let version ← tryAsk .templateVersion fun x => x
  let r ← pool (.review tenant version)
  Prog.each (destroyAndForget S) r.dead
  Prog.each (destroyAndForget S) r.stale
  Prog.each (retireStopped S r.stale) r.ready
  fillLoop S tenant version pid fuel
  let _ ← pool (.ready tenant)
  return ()

def raiseMemory (vmid : ℕ) (recipe : WarmRecipe) : Told Unit :=
  if recipe.memoryMb > S.memoryMb then tryAsk (.setMemory vmid recipe.memoryMb) fun x => x
  else return ()

/-- Bind a guest to its tenant's pool and start the warm runtime in it. -/
def warmGuest (g : PoolGuest) (recipe : WarmRecipe) (egress : String) : Told Unit := do
  raiseMemory S g.vmid recipe
  let b ← bindAs g { tenant := g.tenant, warm := some recipe.key }
  let goToken ← tryAsk .randomHex fun x => x
  tryAsk (.writeSecrets g.vmid
    { claimId := b.claimId, credential := b.credential, goToken, egress := some egress }) fun x => x
  tryAsk (.putBundle g.vmid) fun x => x
  tryAsk (.startWarm g.vmid recipe.key egress) fun x => x
  tryAsk (.waitUntilWarm g.vmid) fun x => x

/-- A guest that was restarted since it was warmed is marked as not warmed. -/
def recheck (key egress : String) (g : PoolGuest) : Io Unit := do
  match ← attempt (checkWarm g key (some egress)) with
  | .ok _ => return ()
  | .error _ => do
    pool (.unwarm g.vmid)
    ask (.removeSecrets g.vmid)

/-- A guest that would not warm was restarted meanwhile, and this is the first time. -/
def restarted (g : PoolGuest) (retried : List ℕ) : Io Bool := do
  if g.vmid ∈ retried then return false
  else do
    let x : Except String Unit ← ask (.waitForBindAgent g.vmid g.address)
    return x.isOk

/-- Warm the tenant's unwarmed guests one at a time. A guest restarted while it was warmed is
warmed once more; another one that fails is destroyed. -/
def warmLoop (tenant version : String) (recipe : WarmRecipe) (egress : String) (pid : ℕ) :
    ℕ → List ℕ → Io Unit
  | 0, _ => .fail (failedError "stopped")
  | fuel + 1, retried => do
    match ← pool (.takeUnwarmed tenant version pid) with
    | none => return ()
    | some g => do
      match ← attempt (warmGuest S g recipe egress) with
      | .ok _ => do
        pool (.setWarm g.vmid recipe.key)
        warmLoop tenant version recipe egress pid fuel retried
      | .error _ => do
        if ← restarted g retried then do
          ask (.removeSecrets g.vmid)
          mark g.vmid .ready none
          warmLoop tenant version recipe egress pid fuel (g.vmid :: retried)
        else do
          discard S g.vmid
          warmLoop tenant version recipe egress pid fuel retried

/-- The warming loops of a warm fill. -/
def warmPool (tenant version : String) (recipe : WarmRecipe) (egress : String) (pid fuel : ℕ) :
    Io Unit := do
  let warmed ← pool (.warmed tenant recipe.key)
  Prog.each (recheck recipe.key egress) warmed
  warmLoop S tenant version recipe egress pid fuel []

/-- Destroy the tenant's unclaimed guests. -/
def drain (tenant : Option String) : Io Unit := do
  let victims ← pool (.victims tenant)
  Prog.each (destroyAndForget S) victims

/-! ### Proxy guests -/

/-- Wait for the supervisor of a proxy guest. -/
def awaitSupervisor (r : ProxyRecord) : ℕ → Io (Option String)
  | 0 => .fail (proxyError "stopped")
  | fuel + 1 => do
    let x : Except String (Option String) ← ask (.controlHealth r.address)
    match x with
    | .ok boot => return boot
    | .error e => do
      let up : Bool ← ask .expired
      if up then .fail (proxyError ("proxy guest " ++ toString r.vmid ++
        ": the supervisor did not answer: " ++ e))
      else awaitSupervisor r fuel

/-- Bind a started, unbound proxy guest, deliver the supervisor, start it and wait for it. -/
def provision (r : ProxyRecord) (fuel : ℕ) : Io ProxyRecord := do
  let failed := fun m => proxyError ("proxy guest " ++ toString r.vmid ++ ": " ++ m)
  tryAsk .proxyBundle fun x => x
  let _ ← orFail failed (tryAsk (.bind r.vmid r.address { tenant := r.tenant }) fun x => x)
  let r := { r with state := .provisioning }
  tryAsk (.saveRecord r) fun x => x
  orFail failed (tryAsk (.putBundle r.vmid) fun x => x)
  orFail failed (tryAsk (.startSupervisor r.vmid) fun x => x)
  let boot ← awaitSupervisor r fuel
  let r := { r with bootId := boot, state := .ready, owner := none, provisions := r.provisions + 1 }
  tryAsk (.saveRecord r) fun x => x
  return r

/-- The record's guest exists, but its supervisor is not the one on record. -/
def recoverLoop (r : ProxyRecord) : ℕ → Io ProxyRecord
  | 0 => .fail (proxyError "stopped")
  | fuel + 1 => do
    let again : Io ProxyRecord := do
      let up : Bool ← ask .expired
      if up then .fail (proxyError ("proxy guest " ++ toString r.vmid ++ " did not come back"))
      else recoverLoop r fuel
    let x : Except String Health ← ask (.bindHealth r.address)
    match x with
    | .error _ => again
    | .ok h =>
      if h.hostname ≠ hostname r.vmid then
        .fail (proxyError ("the guest at " ++ toString r.address ++ " is not proxy guest " ++
          toString r.vmid))
      else if h.unbound then provision r fuel
      else do
        let y : Except String (Option String) ← ask (.controlHealth r.address)
        match y with
        | .ok (some boot) => do
          let r := { r with bootId := some boot, state := .ready }
          tryAsk (.saveRecord r) fun x => x
          return r
        | _ => again

def recoverProxy (r : ProxyRecord) (fuel : ℕ) : Io ProxyRecord := do
  if ← guestRunning S r.vmid then recoverLoop r fuel
  else .fail (proxyError ("proxy guest " ++ toString r.vmid ++ " is not running"))

/-- A proxy guest is cloned and provisioned. -/
def makeProxy (tenant : String) (r : ProxyRecord) (fuel : ℕ) : Io ProxyRecord := do
  cloneGuest S r.vmid r.address tenant none
  provision r fuel

def createProxy (tenant : String) (vlan : Option ℕ) (pid fuel : ℕ) : Io ProxyRecord := do
  tryAsk .proxyBundle fun x => x
  let version ← tryAsk .templateVersion fun x => x
  let seen ← tryAsk .listing fun x => x
  let r ← pool (.reserveProxy tenant vlan version pid seen)
  match ← attempt (makeProxy S tenant r fuel) with
  | .ok r => return r
  | .error e => do
    let _ ← attempt (destroyGuest S r.vmid)
    ask (.dropRecord (tagSlug tenant))
    .fail e

/-- The supervisor answers with the boot id on record. -/
def proxyAnswers (r : ProxyRecord) : Io Bool := do
  if r.state = .ready ∧ r.bootId ≠ none then do
    let x : Except String (Option String) ← ask (.controlHealth r.address)
    return x.toOption.any fun boot => boot = r.bootId
  else return false

def ensureLocked (tenant : String) (vlan : Option ℕ) (pid fuel : ℕ) : Io ProxyRecord := do
  match ← tryAsk (.readRecord (tagSlug tenant)) fun x => x with
  | none => createProxy S tenant vlan pid fuel
  | some r => do
    if ← proxyAnswers r then return r
    else do
      match ← attempt (recoverProxy S r fuel) with
      | .ok r => return r
      | .error e =>
        if e.code = .targetUnavailable then .fail e
        else do
          let _ ← attempt (destroyGuest S r.vmid)
          ask (.dropRecord (tagSlug tenant))
          createProxy S tenant vlan pid fuel

/-- A program under the tenant's lock, which is given back at its end. -/
def underLock {α : Type} (tenant : String) (p : Io α) : Io α := do
  tryAsk (.lockTenant (tagSlug tenant)) fun x => x
  let r ← attempt p
  ask (.unlockTenant (tagSlug tenant))
  .ofExcept r

/-- The tenant's proxy guest: the one on record, the same one provisioned again, or a new one. -/
def ensureProxy (tenant : String) (pid fuel : ℕ) : Io ProxyRecord := do
  let vlan ← .ofExcept (tenantVlan S tenant)
  underLock tenant (ensureLocked S tenant vlan pid fuel)

/-- Stop the tenant's proxy guest. `serves` is what its supervisor says of its routes. -/
def proxyDown (tenant : String) (force serves : Bool) : Io Unit :=
  underLock tenant do
    match ← tryAsk (.readRecord (tagSlug tenant)) fun x => x with
    | none => return ()
    | some r =>
      if !force && serves then .fail {
        code := .usage
        message := "tenant '" ++ tenant ++ "' proxy guest " ++ toString r.vmid ++ " still serves routes"
        next := ["destroy the tenant's agents first (bimo agent destroy <name>), or pass --force"] }
      else do
        destroyGuest S r.vmid
        ask (.dropRecord (tagSlug tenant))

/-- A fill, then the warm runtime in every ready, unwarmed guest of the tenant. -/
def fillWarm (tenant : String) (recipe : WarmRecipe) (pid fuel : ℕ) : Io Unit := do
  let proxy ← ensureProxy S tenant pid fuel
  fill S tenant pid fuel
  let version ← tryAsk .templateVersion fun x => x
  tryAsk .stageWarmBundle fun x => x
  let outdated ← pool (.outdated tenant recipe.key)
  Prog.each (destroyAndForget S) outdated
  warmPool S tenant version recipe proxy.egress pid fuel
  let _ ← pool (.ready tenant)
  return ()

/-- Destroy a guest an agent's journal or record names. -/
def destroy (vmid : ℕ) : Io Unit := do
  .ofExcept (checkScope S vmid)
  destroyAndForget S vmid

end

end Bimo.Proxmox
