import Bimo.ProxmoxRuns

/-!
The calls of a target's processes that leave its loops alone.

A fill counts and reserves, a claim takes a guest and a warming loop takes one, makes one ready or
changes one that is. All the other calls are plain, and most programs make no other calls.
-/

namespace Bimo.Proxmox

def plain : Call → Bool
  | .pool (.held _) | .pool (.reserve _ none _ _ _) => false
  | .pool (.take _ _ _) | .pool (.takeUnwarmed _ _ _) => false
  | .pool (.mark _ .ready _) | .pool (.setWarm _ _) => false
  | .pool (.unwarm _) | .pool (.review _ _) => false
  | _ => true

variable {S : Settings}

/-- Only a section changes the pool's file. -/
lemma pool_of_step {s t : World} {c : Call} {r : c.Ret} (h : step S s c r t) :
    (t.shelf.guests = s.shelf.guests ∧ t.shelf.templateVersion = s.shelf.templateVersion) ∨
      ∃ sec o x, c = .pool sec ∧ sec.run S o s.shelf = .ok (x, t.shelf) := by
  cases c with
  | pool sec =>
    rcases h with ⟨o, x, shelf, hrun, -, h⟩ | ⟨-, rfl⟩
    · cases sec with
      | take owner agent warm =>
        cases x with
        | none =>
          obtain rfl : t = s.put shelf := h
          exact .inr ⟨_, o, _, rfl, hrun⟩
        | some g =>
          rcases h with rfl | ⟨-, rfl⟩
          · exact .inr ⟨_, o, _, rfl, hrun⟩
          · exact .inl ⟨rfl, rfl⟩
      | _ =>
        obtain rfl : t = s.put shelf := h
        exact .inr ⟨_, o, x, rfl, hrun⟩
    · exact .inl ⟨rfl, rfl⟩
  | removeSecrets | dropRecord =>
    rcases h with rfl | rfl
    · exact .inl ⟨rfl, rfl⟩
    · exact .inl ⟨rfl, rfl⟩
  | writeSecrets | saveRecord | touching | stop | delete =>
    rcases h with rfl | ⟨-, rfl⟩
    · exact .inl ⟨rfl, rfl⟩
    · exact .inl ⟨rfl, rfl⟩
  | clone | bind | startWarm =>
    rcases h with ⟨-, rfl⟩ | ⟨-, rfl⟩
    · exact .inl ⟨rfl, rfl⟩
    · exact .inl ⟨rfl, rfl⟩
  | readSecrets | readRecord | templateVersion | waitForBindAgent =>
    obtain rfl := h.1
    exact .inl ⟨rfl, rfl⟩
  | _ =>
    obtain rfl := h
    exact .inl ⟨rfl, rfl⟩

abbrev Plain {ε α : Type} (p : Prog Call Call.Ret ε α) : Prop :=
  p.Does (fun c => plain c = true) fun _ => True

section

variable {ε ε' α β : Type}

lemma plain_ret (a : α) : Plain (.ret a : Prog Call Call.Ret ε α) := trivial

lemma plain_fail (e : ε) : Plain (.fail e : Prog Call Call.Ret ε α) := trivial

lemma plain_ofExcept (x : Except ε α) : Plain (.ofExcept x : Prog Call Call.Ret ε α) :=
  Prog.does_ofExcept x

lemma plain_bind {p : Prog Call Call.Ret ε α} {f : α → Prog Call Call.Ret ε β} (hp : Plain p)
    (hf : ∀ a, Plain (f a)) : Plain (p >>= f) := Prog.Does.bind hp fun a _ => hf a

lemma plain_attempt {p : Prog Call Call.Ret ε α} (hp : Plain p) :
    Plain (p.attempt : Prog Call Call.Ret ε' (Except ε α)) :=
  (Prog.Does.attempt hp).mono fun _ _ => trivial

lemma plain_mapErr {f : ε → ε'} {p : Prog Call Call.Ret ε α} (hp : Plain p) :
    Plain (p.mapErr f) := by
  induction p with
  | ret a => trivial
  | fail e => trivial
  | call o k ih => exact ⟨hp.1, fun r => ih r (hp.2 r)⟩

lemma plain_ask {c : Call} (hc : plain c = true) : Plain (ask c : Prog Call Call.Ret ε _) :=
  Prog.does_ask hc

lemma plain_tryAsk {c : Call} {f : c.Ret → Except ε α} (hc : plain c = true) :
    Plain (tryAsk c f : Prog Call Call.Ret ε α) :=
  plain_bind (plain_ask hc) fun _ => plain_ofExcept _

end

/-! ### Guests -/

lemma plain_forget (vmid : ℕ) : Plain (forget vmid) :=
  plain_bind (plain_ask rfl) fun _ => plain_tryAsk rfl

lemma plain_stopGuest (S : Settings) (vmid : ℕ) (running : Bool) :
    Plain (stopGuest S vmid running) := by
  unfold stopGuest
  split_ifs
  · exact plain_tryAsk rfl
  · exact plain_ret _

lemma plain_destroyGuest (S : Settings) (vmid : ℕ) : Plain (destroyGuest S vmid) := by
  refine plain_bind (plain_ofExcept _) fun _ => plain_bind (plain_tryAsk rfl) fun entry => ?_
  cases entry with
  | none =>
    refine plain_bind (plain_tryAsk rfl) fun free => ?_
    split_ifs
    · exact plain_ret _
    · exact plain_fail _
  | some e =>
    dsimp only
    split_ifs
    · exact plain_fail _
    refine plain_bind (plain_tryAsk rfl) fun description => ?_
    cases description with
    | none => exact plain_ret _
    | some description =>
      dsimp only
      split_ifs
      · refine plain_bind (plain_tryAsk rfl) fun running => ?_
        cases running with
        | none => exact plain_ret _
        | some running =>
          refine plain_bind (plain_stopGuest S vmid running) fun stopped => ?_
          cases stopped with
          | none => exact plain_ret _
          | some _ => exact plain_bind (plain_tryAsk rfl) fun _ => plain_ret _
      · exact plain_fail _

lemma plain_destroyAndForget (S : Settings) (vmid : ℕ) : Plain (destroyAndForget S vmid) :=
  plain_bind (plain_destroyGuest S vmid) fun _ => plain_forget vmid

lemma plain_discard (S : Settings) (vmid : ℕ) : Plain (discard S vmid) :=
  plain_bind (plain_attempt (plain_destroyGuest S vmid)) fun _ =>
    plain_bind (plain_attempt (plain_forget vmid)) fun _ => plain_ret _

lemma plain_cloneGuest (S : Settings) (vmid address : ℕ) (owner : String) (agent : Option String) :
    Plain (cloneGuest S vmid address owner agent) :=
  plain_bind (plain_ofExcept _) fun _ => plain_bind (plain_ofExcept _) fun _ =>
    plain_bind (plain_tryAsk rfl) fun _ => plain_bind (plain_tryAsk rfl) fun _ =>
      plain_bind (plain_tryAsk rfl) fun _ => plain_mapErr (plain_tryAsk rfl)

lemma plain_guestRunning (S : Settings) (vmid : ℕ) : Plain (guestRunning S vmid) :=
  plain_bind (plain_ofExcept _) fun _ => plain_bind (plain_tryAsk rfl) fun _ => plain_ret _

/-! ### Claims and warming -/

lemma plain_checkWarm (g : PoolGuest) (key : String) (egress : Option String) :
    Plain (checkWarm g key egress) :=
  plain_bind (plain_tryAsk rfl) fun _ => plain_bind (plain_tryAsk rfl) fun _ =>
    plain_bind (plain_tryAsk rfl) fun _ => plain_ret _

lemma plain_bindTaken (q : Request) (g : PoolGuest) : Plain (bindTaken q g) := by
  unfold bindTaken
  cases g.warm with
  | some key => exact plain_bind (plain_checkWarm g key q.egress) fun _ => plain_ret _
  | none => exact plain_bind (plain_tryAsk rfl) fun _ => plain_ret _

lemma plain_startCold (S : Settings) (q : Request) (g : PoolGuest) : Plain (startCold S q g) :=
  plain_bind (plain_cloneGuest S _ _ _ _) fun _ => plain_bind (plain_mapErr (plain_tryAsk rfl))
    fun _ => plain_bind (plain_tryAsk rfl) fun _ => plain_ret _

/-- A claim reserves for its agent. -/
lemma plain_reserve_agent (owner agent version : String) (pid : ℕ) :
    Plain (reserve owner (some agent) version pid) :=
  plain_bind (plain_tryAsk rfl) fun _ => plain_tryAsk rfl

lemma plain_coldClaim (S : Settings) (q : Request) (pid : ℕ) : Plain (coldClaim S q pid) := by
  refine plain_bind (plain_tryAsk rfl) fun version => plain_bind (plain_reserve_agent _ _ _ _)
    fun g => plain_bind (plain_attempt (plain_tryAsk rfl)) fun touched => ?_
  cases touched with
  | error e => exact plain_bind (plain_attempt (plain_forget _)) fun _ => plain_fail e
  | ok _ =>
    refine plain_bind (plain_attempt (plain_startCold S q g)) fun bound => ?_
    cases bound with
    | error e => exact plain_bind (plain_discard S _) fun _ => plain_fail e
    | ok b => exact plain_bind (plain_tryAsk rfl) fun _ => plain_ret _

lemma plain_warmGuest (S : Settings) (g : PoolGuest) (recipe : WarmRecipe) (egress : String) :
    Plain (warmGuest S g recipe egress) := by
  have hmemory : Plain (raiseMemory S g.vmid recipe) := by
    unfold raiseMemory
    split_ifs
    · exact plain_tryAsk rfl
    · exact plain_ret _
  exact plain_bind hmemory fun _ => plain_bind (plain_tryAsk rfl) fun _ =>
    plain_bind (plain_tryAsk rfl) fun _ => plain_bind (plain_tryAsk rfl) fun _ =>
      plain_bind (plain_tryAsk rfl) fun _ => plain_bind (plain_tryAsk rfl) fun _ =>
        plain_tryAsk rfl

lemma plain_restarted (g : PoolGuest) (retried : List ℕ) : Plain (restarted g retried) := by
  unfold restarted
  split_ifs
  · exact plain_ret _
  · exact plain_bind (plain_ask rfl) fun _ => plain_ret _

/-! ### Proxy guests -/

lemma plain_awaitSupervisor (r : ProxyRecord) (fuel : ℕ) : Plain (awaitSupervisor r fuel) := by
  induction fuel with
  | zero => exact plain_fail _
  | succ fuel ih =>
    refine plain_bind (plain_ask rfl) fun x => ?_
    cases x with
    | ok boot => exact plain_ret boot
    | error e =>
      refine plain_bind (plain_ask rfl) fun up => ?_
      split_ifs
      · exact plain_fail _
      · exact ih

lemma plain_provision (r : ProxyRecord) (fuel : ℕ) : Plain (provision r fuel) :=
  plain_bind (plain_tryAsk rfl) fun _ => plain_bind (plain_mapErr (plain_tryAsk rfl)) fun _ =>
    plain_bind (plain_tryAsk rfl) fun _ => plain_bind (plain_mapErr (plain_tryAsk rfl)) fun _ =>
      plain_bind (plain_mapErr (plain_tryAsk rfl)) fun _ =>
        plain_bind (plain_awaitSupervisor _ fuel) fun _ => plain_bind (plain_tryAsk rfl) fun _ =>
          plain_ret _

lemma plain_recoverLoop (r : ProxyRecord) (fuel : ℕ) : Plain (recoverLoop r fuel) := by
  induction fuel with
  | zero => exact plain_fail _
  | succ fuel ih =>
    have hagain : Plain (do
        let up : Bool ← ask .expired
        if up then .fail (proxyError ("proxy guest " ++ toString r.vmid ++ " did not come back"))
        else recoverLoop r fuel : Io ProxyRecord) := by
      refine plain_bind (plain_ask rfl) fun up => ?_
      split_ifs
      · exact plain_fail _
      · exact ih
    refine plain_bind (plain_ask rfl) fun x => ?_
    cases x with
    | error e => exact hagain
    | ok h =>
      dsimp only
      split_ifs
      · exact plain_fail _
      · exact plain_provision r fuel
      · refine plain_bind (plain_ask rfl) fun y => ?_
        split
        · exact plain_bind (plain_tryAsk rfl) fun _ => plain_ret _
        · exact hagain

lemma plain_createProxy (S : Settings) (owner : String) (vlan : Option ℕ) (pid fuel : ℕ) :
    Plain (createProxy S owner vlan pid fuel) := by
  refine plain_bind (plain_tryAsk rfl) fun _ => plain_bind (plain_tryAsk rfl) fun _ =>
    plain_bind (plain_tryAsk rfl) fun _ => plain_bind (plain_tryAsk rfl) fun r =>
      plain_bind (plain_attempt (plain_bind (plain_cloneGuest S _ _ _ _) fun _ =>
        plain_provision r fuel)) fun made => ?_
  cases made with
  | ok r => exact plain_ret r
  | error e =>
    exact plain_bind (plain_attempt (plain_destroyGuest S _)) fun _ =>
      plain_bind (plain_ask rfl) fun _ => plain_fail e

lemma plain_ensureLocked (S : Settings) (owner : String) (vlan : Option ℕ) (pid fuel : ℕ) :
    Plain (ensureLocked S owner vlan pid fuel) := by
  refine plain_bind (plain_tryAsk rfl) fun record => ?_
  cases record with
  | none => exact plain_createProxy S owner vlan pid fuel
  | some r =>
    have hanswers : Plain (proxyAnswers r) := by
      unfold proxyAnswers
      split_ifs
      · exact plain_bind (plain_ask rfl) fun _ => plain_ret _
      · exact plain_ret _
    have hrecover : Plain (recoverProxy S r fuel) := by
      refine plain_bind (plain_guestRunning S _) fun running => ?_
      split_ifs
      · exact plain_recoverLoop r fuel
      · exact plain_fail _
    refine plain_bind hanswers fun answers => ?_
    split_ifs
    · exact plain_ret r
    refine plain_bind (plain_attempt hrecover) fun recovered => ?_
    cases recovered with
    | ok r => exact plain_ret r
    | error e =>
      dsimp only
      split_ifs
      · exact plain_fail e
      · exact plain_bind (plain_attempt (plain_destroyGuest S _)) fun _ =>
          plain_bind (plain_ask rfl) fun _ => plain_createProxy S owner vlan pid fuel

lemma plain_underLock {α : Type} (owner : String) {p : Io α} (hp : Plain p) :
    Plain (underLock owner p) :=
  plain_bind (plain_tryAsk rfl) fun _ => plain_bind (plain_attempt hp) fun _ =>
    plain_bind (plain_ask rfl) fun _ => plain_ofExcept _

lemma plain_ensureProxy (S : Settings) (owner : String) (pid fuel : ℕ) :
    Plain (ensureProxy S owner pid fuel) :=
  plain_bind (plain_ofExcept _) fun vlan =>
    plain_underLock owner (plain_ensureLocked S owner vlan pid fuel)

lemma plain_proxyDown (S : Settings) (owner : String) (force serves : Bool) :
    Plain (proxyDown S owner force serves) := by
  refine plain_underLock owner (plain_bind (plain_tryAsk rfl) fun record => ?_)
  cases record with
  | none => exact plain_ret _
  | some r =>
    dsimp only
    split_ifs
    · exact plain_fail _
    · exact plain_bind (plain_destroyGuest S _) fun _ => plain_ask rfl

end Bimo.Proxmox
