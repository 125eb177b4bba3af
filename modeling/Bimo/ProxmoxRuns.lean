import Bimo.Proxmox
import Bimo.Threads

/-!
Processes of one Proxmox target, run at the same time.

Claims, fills, drains, proxy guests and clean-ups of any number of processes interleave at every
call, and a process is stopped anywhere. A call that changes something may have done so although
it comes back with an error. What the cluster lists, and what a guest says of itself, is any
answer at all; a bind agent takes one binding until its guest is restarted, and a guest may be
restarted at any time.

A thread's note has what the process has in its hands: a guest it has taken, reserved or is
warming, the guests it is going to destroy, and a proxy's record.
-/

namespace Bimo.Proxmox

/-! ### The target -/

/-- What is in a guest: nothing yet, or a binding and perhaps a warm runtime, known by its key
and the egress it is locked to. -/
inductive Inside
  | unbound
  | bound (warm : Option (String × String))
  deriving DecidableEq, Repr

def Inside.warm : Inside → Option (String × String)
  | .unbound => none
  | .bound w => w

structure World where
  shelf : Shelf := {}
  secrets : ℕ → Option WarmSecrets := fun _ => none
  inside : ℕ → Inside := fun _ => .unbound
  /-- The version of the template as it is now. -/
  template : String := ""
  /-- The guest at a VMID, by a number of its own. -/
  cluster : ℕ → Option ℕ := fun _ => none
  next : ℕ := 0
  /-- The VMIDs that agents' journals name. -/
  journal : List (String × ℕ) := []
  /-- The guests that agents' claims have touched. -/
  touched : List (String × ℕ) := []

namespace World

def put (s : World) (shelf : Shelf) : World := { s with shelf := shelf }

def enter (s : World) (vmid : ℕ) (x : Inside) : World :=
  { s with inside := Function.update s.inside vmid x }

/-- A guest is in an agent's journal, and the agent's from then on. -/
def journaled (s : World) (agent : String) (vmid : ℕ) : World :=
  { s with
    journal := (agent, vmid) :: s.journal
    touched := ((s.cluster vmid).map (agent, ·)).toList ++ s.touched }

def deleted (s : World) (vmid : ℕ) : World :=
  { s.enter vmid .unbound with cluster := Function.update s.cluster vmid none }

def cloned (s : World) (vmid : ℕ) (agent : Option String) : World :=
  { s.enter vmid .unbound with
    cluster := Function.update s.cluster vmid (some s.next)
    next := s.next + 1
    touched := (agent.map (·, s.next)).toList ++ s.touched }

end World

/-- A change that may be made although the answer is an error. -/
def Changed {ε α : Type} (s t d : World) (r : Except ε α) : Prop :=
  t = d ∨ (r.isOk = false ∧ t = s)

/-- A section: what it leaves when it is through. Taking a guest puts it in the journal first. -/
def stepPool (S : Settings) (s : World) (c : Section) (r : Except FabricError c.Ret)
    (t : World) : Prop :=
  (∃ o x shelf, c.run S o s.shelf = .ok (x, shelf) ∧ (∀ y, r = .ok y → y = x) ∧
    match c, x with
    | .take _ agent _, some g => t = (s.journaled agent g.vmid).put shelf ∨
        (r.isOk = false ∧ t = s.journaled agent g.vmid)
    | _, _ => t = s.put shelf) ∨
  (r.isOk = false ∧ t = s)

def step (S : Settings) (s : World) : (c : Call) → c.Ret → World → Prop
  | .pool c, r, t => stepPool S s c r t
  | .removeSecrets vmid, _, t =>
    t = { s with secrets := Function.update s.secrets vmid none } ∨ t = s
  | .readSecrets vmid, r, t => t = s ∧ ∀ x, r = .ok x → x = s.secrets vmid
  | .writeSecrets vmid x, r, t =>
    Changed s t { s with secrets := Function.update s.secrets vmid (some x) } r
  | .readRecord slug, r, t => t = s ∧ ∀ x, r = .ok x → x = s.shelf.proxyRecord slug
  | .saveRecord x, r, t => Changed s t (s.put (s.shelf.saveRecord x)) r
  | .dropRecord slug, _, t => t = s.put (s.shelf.dropRecord slug) ∨ t = s
  | .touching agent vmid, r, t => Changed s t (s.journaled agent vmid) r
  | .templateVersion, r, t => t = s ∧ ∀ x, r = .ok x → x = s.template
  | .stop vmid, r, t => Changed s t (s.enter vmid .unbound) r
  | .delete vmid, r, t => Changed s t (s.deleted vmid) r
  | .clone vmid _ agent, r, t =>
    (s.cluster vmid = none ∧ t = s.cloned vmid agent) ∨ (r.isOk = false ∧ t = s)
  | .waitForBindAgent vmid _, r, t => t = s ∧ (r.isOk = true → s.inside vmid = .unbound)
  | .bind vmid _ _, r, t =>
    (s.inside vmid = .unbound ∧ t = s.enter vmid (.bound none)) ∨ (r.isOk = false ∧ t = s)
  | .startWarm vmid key egress, r, t =>
    (s.inside vmid ≠ .unbound ∧ t = s.enter vmid (.bound (some (key, egress)))) ∨
      (r.isOk = false ∧ t = s)
  | .lockTenant _, _, t | .unlockTenant _, _, t | .proxyBundle, _, t | .stageWarmBundle, _, t
  | .created _ _, _, t | .listing, _, t | .visible _, _, t | .vmidFree _, _, t | .config _, _, t
  | .running _, _, t | .runs _, _, t | .configure _ _, _, t | .start _, _, t | .setMemory _ _, _, t
  | .guestStatus _ _, _, t | .guestRuntime _ _, _, t | .putBundle _, _, t | .waitUntilWarm _, _, t
  | .bindHealth _, _, t | .controlHealth _, _, t | .startSupervisor _, _, t | .randomHex, _, t
  | .expired, _, t => t = s

/-- A guest is restarted, its runtime ends, or the template is built anew. -/
inductive Moves (s : World) : World → Prop
  | restart (vmid : ℕ) : Moves s (s.enter vmid .unbound)
  | ends (vmid : ℕ) (h : s.inside vmid ≠ .unbound) : Moves s (s.enter vmid (.bound none))
  | rebuild (version : String) : Moves s { s with template := version }

/-! ### Processes -/

inductive Command
  | claim (q : Request)
  | fill (tenant : String)
  | fillWarm (tenant : String) (recipe : WarmRecipe)
  /-- The warming loops of a warm fill, by themselves. -/
  | warm (tenant version : String) (recipe : WarmRecipe) (egress : String)
  | drain (tenant : Option String)
  | ensureProxy (tenant : String)
  | proxyDown (tenant : String) (force serves : Bool)
  /-- A clean-up of what an agent's journal or record names. -/
  | destroy (agent : String) (vmid : ℕ)
  deriving DecidableEq

def Command.program (S : Settings) (pid fuel : ℕ) : Command → Io (Option Claim)
  | .claim q => do
    let x ← claimFor S q pid fuel
    return some x
  | .fill tenant => do
    Proxmox.fill S tenant pid fuel
    return none
  | .fillWarm tenant recipe => do
    Proxmox.fillWarm S tenant recipe pid fuel
    return none
  | .warm tenant version recipe egress => do
    warmPool S tenant version recipe egress pid fuel
    return none
  | .drain tenant => do
    Proxmox.drain S tenant
    return none
  | .ensureProxy tenant => do
    let _ ← Proxmox.ensureProxy S tenant pid fuel
    return none
  | .proxyDown tenant force serves => do
    Proxmox.proxyDown S tenant force serves
    return none
  | .destroy _ vmid => do
    Proxmox.destroy S vmid
    return none

/-- How a process came by the guest in its hands. -/
inductive Hand
  | taken | cold | filling | warming
  deriving DecidableEq, Repr

structure Doing where
  task : Command
  pid : ℕ
  hand : Option (Hand × PoolGuest) := none
  /-- The guest in hand would not bind, or failed its check. -/
  failed : Bool := false
  /-- It was cloned for an agent. -/
  cloned : Bool := false
  /-- It is bound, or has passed its check. -/
  checked : Bool := false
  /-- Its secrets, as they were read or written. -/
  secrets : Option WarmSecrets := none
  /-- The warm runtime that was started in it. -/
  began : Option (String × String) := none
  version : Option String := none
  /-- The guests to look at and perhaps destroy. -/
  victims : List ℕ := []
  lock : Option String := none
  record : Option ProxyRecord := none

namespace Doing

def hold (g : Doing) (h : Hand) (x : PoolGuest) : Doing :=
  { g with
    hand := some (h, x), failed := false, cloned := false, checked := false, secrets := none,
    began := none }

def release (g : Doing) : Doing :=
  { g with
    hand := none, failed := false, cloned := false, checked := false, secrets := none,
    began := none }

/-- The guest is none of this process's business any more. -/
def drop (g : Doing) (vmid : ℕ) : Doing :=
  let g := if g.hand.any (fun x => x.2.vmid = vmid) then g.release else g
  { g with victims := g.victims.erase vmid }

end Doing

def egressOf (g : Doing) : Option String :=
  match g.task with
  | .claim q => q.egress
  | _ => none

def notePool (g : Doing) : (c : Section) → Except FabricError c.Ret → Doing
  | .take _ _ _, .ok (some x) => g.hold .taken x
  | .takeUnwarmed _ _ _, .ok (some x) => g.hold .warming x
  | .reserve _ agent _ _ _, .ok x => g.hold (if agent.isSome then .cold else .filling) x
  | .mark _ state _, _ => if state = .claimed then g else g.release
  | .setWarm _ _, _ => g.release
  | .forget vmid, _ => g.drop vmid
  | .review _ _, .ok r => { g with victims := r.dead ++ (r.stale ++ r.ready.filter (· ∉ r.stale)) }
  | .outdated _ _, .ok l => { g with victims := l }
  | .victims _, .ok l => { g with victims := l }
  | .reserveProxy _ _ _ _ _, .ok r => { g with record := some r }
  | _, _ => g

/-- What the check of a warm guest says of the guest in hand. -/
def noteCheck (g : Doing) : (c : Call) → c.Ret → Doing
  | .readSecrets _, r =>
    match secretsFor (egressOf g) r with
    | .ok s => { g with secrets := some s }
    | .error _ => { g with failed := true }
  | .guestStatus _ _, r =>
    match g.hand, g.secrets with
    | some (_, x), some s =>
      if (statusFor x (x.warm.getD "") s r).isOk then g else { g with failed := true }
    | _, _ => g
  | .guestRuntime _ _, r =>
    if (runtimeFor r).isOk then { g with checked := true } else { g with failed := true }
  | _, _ => g

def note (g : Doing) : (c : Call) → c.Ret → Doing
  | .pool c, r => notePool g c r
  | .readSecrets v, r => if g.hand.any (·.1 = .taken) then noteCheck g (.readSecrets v) r else g
  | .guestStatus v k, r =>
    if g.hand.any (·.1 = .taken) then noteCheck g (.guestStatus v k) r else g
  | .guestRuntime v k, r =>
    if g.hand.any (·.1 = .taken) then noteCheck g (.guestRuntime v k) r else g
  | .clone _ _ (some _), .ok _ => { g with cloned := true }
  | .bind _ _ _, r => if r.isOk then { g with checked := true } else { g with failed := true }
  | .writeSecrets _ s, r => if r.isOk then { g with secrets := some s } else g
  | .startWarm _ key egress, r => if r.isOk then { g with began := some (key, egress) } else g
  | .templateVersion, .ok v => { g with version := some v }
  | .runs vmid, .ok true => { g with victims := g.victims.erase vmid }
  | .lockTenant slug, .ok _ => { g with lock := some slug, record := none }
  | .unlockTenant _, _ => { g with lock := none, record := none }
  | .readRecord _, .ok r => { g with record := r }
  | .dropRecord _, _ => { g with record := none }
  | _, _ => g

/-- The processes of a target, of the commands that are let run. -/
def driver (S : Settings) (runs : Command → Prop) (leaves : Io (Option Claim) → Prop) :
    Threads Call Call.Ret FabricError (Option Claim) World Doing where
  env := ⟨step S⟩
  idle := Moves
  begins g p := ∃ c pid fuel, runs c ∧ g = { task := c, pid } ∧ p = c.program S pid fuel
  note := note
  leaves := leaves

/-- The tenant's lock a call takes. -/
def locks : (c : Call) → c.Ret → Option String
  | .lockTenant slug, .ok _ => some slug
  | _, _ => none

/-- The lock of a tenant's proxy is given to one process at a time. -/
def Exclusive : Threads.Condition Call Call.Ret World Doing := fun _ ns i c r =>
  ∀ slug, locks c r = some slug → ∀ j g, j ≠ i → ns j = some g → g.lock ≠ some slug

/-! ### Played runs -/

abbrev Configured := Threads.Config Call Call.Ret FabricError (Option Claim) World Doing

/-- Processes are alive, and a VMID is free when there is no such guest. -/
def demoOracle (s : World) : Oracle where
  alive _ := true
  vmidFree v := (s.cluster v).isNone

/-- An answer that says the call failed, where there is one. -/
def refusal : (c : Call) → c.Ret
  | .removeSecrets _ | .unlockTenant _ | .dropRecord _ => ()
  | .readSecrets _ | .writeSecrets _ _ | .putBundle _ | .startWarm _ _ _ | .waitUntilWarm _
  | .waitForBindAgent _ _ | .setMemory _ _ | .startSupervisor _ | .bind _ _ _ | .guestStatus _ _
  | .guestRuntime _ _ | .bindHealth _ | .controlHealth _ | .randomHex => .error ""
  | .config _ | .running _ | .runs _ | .stop _ | .delete _ => .error (.failed "")
  | .pool _ | .lockTenant _ | .saveRecord _ | .proxyBundle | .stageWarmBundle | .touching _ _
  | .created _ _ | .clone _ _ _ | .configure _ _ | .start _ | .templateVersion | .listing
  | .visible _ | .vmidFree _ | .readRecord _ => .error (failedError "")
  | .expired => true

/-- The record of a guest in the pool. -/
def World.guest (s : World) (v : ℕ) : Option PoolGuest := s.shelf.guests.find? (·.vmid = v)

/-- An answer of a target on which all is well. -/
def goodAnswer (S : Settings) (s : World) : (c : Call) → c.Ret
  | .pool c => (c.run S (demoOracle s) s.shelf).map Prod.fst
  | .readSecrets v => .ok (s.secrets v)
  | .readRecord slug => .ok (s.shelf.proxyRecord slug)
  | .templateVersion => .ok s.template
  | .listing => .ok {}
  | .visible v => .ok ((s.cluster v).map fun _ => { pool := S.pool, node := S.node, kind := "lxc" })
  | .vmidFree v => .ok (s.cluster v).isNone
  | .config _ => .ok "monolith-owned"
  | .running _ | .runs _ => .ok true
  | .clone v _ _ => if s.cluster v = none then .ok () else .error (failedError "")
  | .waitForBindAgent v _ => if s.inside v = .unbound then .ok () else .error ""
  | .bind v _ p =>
    if s.inside v = .unbound then .ok {
      claimId := "c", credential := "k",
      status := { claimId := some "c", tenant := some p.tenant, warm := p.warm } }
    else .error ""
  | .guestStatus v _ => .ok {
      claimId := some "c", tenant := (s.guest v).map (·.tenant),
      warm := (s.inside v).warm.map Prod.fst }
  | .guestRuntime v _ => .ok (if (s.inside v).warm.isSome then "running" else "stopped")
  | .startWarm v _ _ => if s.inside v = .unbound then .error "" else .ok ()
  | .bindHealth _ => .ok { hostname := "", unbound := true }
  | .controlHealth _ => .ok (some "b")
  | .randomHex => .ok "r"
  | .writeSecrets _ _ | .putBundle _ | .waitUntilWarm _ | .setMemory _ _ | .startSupervisor _ => .ok ()
  | .stop _ | .delete _ => .ok ()
  | .lockTenant _ | .saveRecord _ | .proxyBundle | .stageWarmBundle | .touching _ _ | .created _ _
  | .configure _ _ | .start _ => .ok ()
  | .removeSecrets _ | .unlockTenant _ | .dropRecord _ => ()
  | .expired => true

/-- The same, but some calls of some processes fail. -/
def demoAnswer (S : Settings) (fails : ℕ → Call → Bool) (i : ℕ) (s : World) (c : Call) : c.Ret :=
  if fails i c then refusal c else goodAnswer S s c

/-- The records a section leaves; a guest that is taken is in the journal first. -/
def poolNext (S : Settings) (s : World) (c : Section) : World :=
  match c, c.run S (demoOracle s) s.shelf with
  | .take _ agent _, .ok (some g, shelf) => (s.journaled agent g.vmid).put shelf
  | _, .ok (_, shelf) => s.put shelf
  | _, .error _ => s

/-- A call leaves what it is for when it goes through, and nothing when it fails. -/
def demoNext (S : Settings) (s : World) : (c : Call) → c.Ret → World
  | .pool c, r => if r.isOk then poolNext S s c else s
  | .removeSecrets v, _ => { s with secrets := Function.update s.secrets v none }
  | .writeSecrets v x, r =>
    if r.isOk then { s with secrets := Function.update s.secrets v (some x) } else s
  | .saveRecord x, r => if r.isOk then s.put (s.shelf.saveRecord x) else s
  | .dropRecord slug, _ => s.put (s.shelf.dropRecord slug)
  | .touching agent v, r => if r.isOk then s.journaled agent v else s
  | .stop v, r => if r.isOk then s.enter v .unbound else s
  | .delete v, r => if r.isOk then s.deleted v else s
  | .clone v _ agent, r => if r.isOk then s.cloned v agent else s
  | .bind v _ _, r => if r.isOk then s.enter v (.bound none) else s
  | .startWarm v key egress, r =>
    if r.isOk then s.enter v (.bound (some (key, egress))) else s
  | _, _ => s

lemma step_refusal (S : Settings) (s : World) (c : Call) :
    step S s c (refusal c) (demoNext S s c (refusal c)) := by
  cases c with
  | pool | clone | bind | startWarm => exact .inr ⟨rfl, rfl⟩
  | writeSecrets | saveRecord | touching | stop | delete => exact .inr ⟨rfl, rfl⟩
  | removeSecrets | dropRecord => exact .inl rfl
  | readSecrets | readRecord | templateVersion | waitForBindAgent => exact ⟨rfl, nofun⟩
  | _ => rfl

lemma step_pool_good (S : Settings) (s : World) (c : Section) :
    step S s (.pool c) (goodAnswer S s (.pool c)) (demoNext S s (.pool c) (goodAnswer S s (.pool c))) := by
  change stepPool S s c ((c.run S (demoOracle s) s.shelf).map Prod.fst)
    (if ((c.run S (demoOracle s) s.shelf).map Prod.fst).isOk then poolNext S s c else s)
  unfold poolNext
  cases hrun : c.run S (demoOracle s) s.shelf with
  | error e => exact .inr ⟨rfl, rfl⟩
  | ok x =>
      obtain ⟨y, shelf⟩ := x
      refine .inl ⟨demoOracle s, y, shelf, hrun, fun z hz => (Except.ok.inj hz).symm, ?_⟩
      cases c with
      | take tenant agent warm =>
          cases y with
          | none => rfl
          | some g => exact .inl rfl
      | _ => rfl

lemma step_good (S : Settings) (s : World) (c : Call) :
    step S s c (goodAnswer S s c) (demoNext S s c (goodAnswer S s c)) := by
  cases c with
  | pool c => exact step_pool_good S s c
  | writeSecrets | saveRecord | touching | stop | delete => exact .inl rfl
  | removeSecrets | dropRecord => exact .inl rfl
  | readSecrets | readRecord | templateVersion =>
      exact ⟨rfl, fun y hy => (Except.ok.inj hy).symm⟩
  | clone v tenant agent =>
      simp only [goodAnswer]
      split_ifs with h
      · exact .inl ⟨h, rfl⟩
      · exact .inr ⟨rfl, rfl⟩
  | waitForBindAgent v address =>
      simp only [goodAnswer]
      split_ifs with h
      · exact ⟨rfl, fun _ => h⟩
      · exact ⟨rfl, nofun⟩
  | bind v address p =>
      simp only [goodAnswer]
      split_ifs with h
      · exact .inl ⟨h, rfl⟩
      · exact .inr ⟨rfl, rfl⟩
  | startWarm v key egress =>
      simp only [goodAnswer]
      split_ifs with h
      · exact .inr ⟨rfl, rfl⟩
      · exact .inl ⟨h, rfl⟩
  | _ => rfl

lemma step_demo (S : Settings) (fails : ℕ → Call → Bool) (i : ℕ) (s : World) (c : Call) :
    step S s c (demoAnswer S fails i s c) (demoNext S s c (demoAnswer S fails i s c)) := by
  unfold demoAnswer
  split_ifs
  · exact step_refusal S s c
  · exact step_good S s c

/-- The commands of a list, played by a schedule of turns. -/
def demo (S : Settings) (fails : ℕ → Call → Bool) (ok : Configured → ℕ → Call → Bool) (s : World)
    (cs : List Command) (l : List ℕ) : Option Configured :=
  Threads.play (demoNext S) note (demoAnswer S fails) (fun (_ : Empty) _ => none) ok (l.map .inl)
    (Threads.begun s (cs.mapIdx fun i c => ({ task := c, pid := i }, c.program S i 9)))

lemma run_demo {S : Settings} {runs : Command → Prop} {leaves : Io (Option Claim) → Prop}
    {fails : ℕ → Call → Bool} {ok : Configured → ℕ → Call → Bool}
    {M : Threads.Condition Call Call.Ret World Doing} {s : World} {cs : List Command} {l : List ℕ}
    {c : Configured} (hcs : ∀ x ∈ cs, runs x)
    (hok : ∀ (c : Configured) i o, (∀ j, cs.length ≤ j → c.threads j = none) → ok c i o = true →
      M c.shared c.notes i o (demoAnswer S fails i c.shared o))
    (h : demo S fails ok s cs l = some c) : Threads.Run (driver S runs leaves) M (.empty s) c := by
  refine Threads.run_begun_play (T := driver S runs leaves) ?_ ?_ ?_ ?_ h
  · intro x hx
    obtain ⟨i, hi, rfl⟩ := List.mem_mapIdx.mp hx
    exact ⟨cs[i], i, 9, hcs _ (List.getElem_mem hi), rfl, rfl⟩
  · exact fun c i o _ => step_demo S fails i c.shared o
  · exact fun x => x.elim
  · exact fun c i o _ hn => hok c i o (by simpa using hn)

/-- A schedule of turns, played on. -/
def resume (S : Settings) (fails : ℕ → Call → Bool) (ok : Configured → ℕ → Call → Bool)
    (l : List ℕ) (c : Configured) : Option Configured :=
  Threads.play (demoNext S) note (demoAnswer S fails) (fun (_ : Empty) _ => none) ok (l.map .inl) c

lemma run_resume {S : Settings} {runs : Command → Prop} {leaves : Io (Option Claim) → Prop}
    {fails : ℕ → Call → Bool} {l : List ℕ} {c c' : Configured} {n : ℕ}
    (hn : ∀ j, n ≤ j → c.threads j = none)
    (h : resume S fails (fun _ _ _ => true) l c = some c') :
    Threads.Run (driver S runs leaves) Threads.always c c' := by
  refine Threads.run_play (T := driver S runs leaves) (n := n) ?_ ?_ ?_ .refl hn h
  · exact fun c i o _ => step_demo S fails i c.shared o
  · exact fun x => x.elim
  · exact fun _ _ _ _ _ _ => trivial

lemma threads_demo {S : Settings} {fails : ℕ → Call → Bool}
    {ok : Configured → ℕ → Call → Bool} {s : World} {cs : List Command} {l : List ℕ}
    {c : Configured} (h : demo S fails ok s cs l = some c) :
    ∀ j, cs.length ≤ j → c.threads j = none := by
  refine Threads.threads_play _ (fun j hj => ?_) h
  exact List.getElem?_eq_none (by simpa using hj)

/-- What a process was asked, and has come back with. -/
def outcome (c : Configured) (i : ℕ) : Option (Command × Claim) :=
  match c.threads i with
  | some (g, .ret (some x)) => some (g.task, x)
  | _ => none

/-- A lock is asked for when none of the first `n` others has one. -/
def exclusive (n : ℕ) (c : Configured) (i : ℕ) : Call → Bool
  | .lockTenant _ => (List.range n).all fun j => j == i || (c.notes j).all fun g => g.lock = none
  | _ => true

lemma exclusive_of {n : ℕ} {c : Configured} {i : ℕ} {o : Call} {r : o.Ret}
    (hn : ∀ j, n ≤ j → c.threads j = none) (h : exclusive n c i o = true) :
    Exclusive c.shared c.notes i o r := by
  intro slug hs j g hji hj hg
  have hjn : j < n := by
    by_contra hge
    simp [Threads.Config.notes, hn j (not_lt.mp hge)] at hj
  cases o with
  | lockTenant slug' =>
      have hlock := List.all_eq_true.mp h j (List.mem_range.mpr hjn)
      simp [hji, hj, hg] at hlock
  | _ => cases hs

end Bimo.Proxmox
