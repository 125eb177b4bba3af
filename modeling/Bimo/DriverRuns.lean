import Bimo.ProxmoxRuns

/-!
What a process of the Proxmox driver does, whatever the others do.

`Allowed` says where each call is made, in terms of what the process has in its hands, and
`safe_begins` that every program keeps to it.
-/

namespace Bimo.Proxmox

/-! ### Where each call is made -/

/-- The commands that destroy guests they have found in the pool. -/
def Command.retires : Command → Bool
  | .fill _ | .fillWarm _ _ | .drain _ => true
  | .claim _ | .warm _ _ _ _ | .ensureProxy _ | .proxyDown _ _ _ | .destroy _ _ => false

/-- The commands that see to a tenant's proxy guest. -/
def Command.proxies : Command → Bool
  | .fillWarm _ _ | .ensureProxy _ | .proxyDown _ _ _ => true
  | .claim _ | .fill _ | .warm _ _ _ _ | .drain _ | .destroy _ _ => false

/-- The guest is one that the process may do away with. -/
def InHands (g : Doing) (v : ℕ) : Prop :=
  (∃ h x, g.hand = some (h, x) ∧ x.vmid = v ∧ h ≠ .taken) ∨ v ∈ g.victims ∨
    (∃ r, g.record = some r ∧ r.vmid = v) ∨ ∃ a, g.task = .destroy a v

/-- How the guest in hand is marked. -/
def Marks (g : Doing) (h : Hand) (state : GuestState) (agent : Option String) : Prop :=
  match h with
  | .taken => state = .cloning ∧ agent = none ∧ g.failed = true
  | .cold => state = .claimed ∧ agent.isSome
  | .filling | .warming => state = .ready ∧ agent = none

def AllowedPool (g : Doing) : Section → Prop
  | .take tenant agent warm => g.hand = none ∧
      ∃ q, g.task = .claim q ∧ tenant = q.tenant ∧ agent = q.agent ∧ warm = q.warm
  | .takeUnwarmed _ _ pid => g.hand = none ∧ pid = g.pid
  | .reserve tenant agent version pid _ => g.hand = none ∧ g.version = some version ∧ pid = g.pid ∧
      (agent = none → g.task.retires = true) ∧
      ∀ a, agent = some a → ∃ q, g.task = .claim q ∧ tenant = q.tenant ∧ a = q.agent
  | .mark v state agent => ∃ h x, g.hand = some (h, x) ∧ x.vmid = v ∧ Marks g h state agent
  | .setWarm v key => ∃ x s e, g.hand = some (.warming, x) ∧ x.vmid = v ∧ g.secrets = some s ∧
      s.egress = some e ∧ g.began = some (key, e)
  | .forget v => InHands g v
  | .reserveProxy tenant _ _ _ _ => g.lock = some (tagSlug tenant) ∧ g.record = none
  | .review _ _ | .outdated _ _ | .victims _ => g.task.retires = true
  | .held _ | .ready _ | .warmed _ _ | .unwarm _ => True

/-- Two records of the same guest. -/
def ProxyRecord.Same (r r' : ProxyRecord) : Prop :=
  r.slug = r'.slug ∧ r.vmid = r'.vmid ∧ r.addresses = r'.addresses ∧
    r.address = r'.address ∧ r.agentAddress = r'.agentAddress

def Allowed (g : Doing) : Call → Prop
  | .pool c => AllowedPool g c
  | .writeSecrets v _ => ∃ x, g.hand = some (.warming, x) ∧ x.vmid = v ∧ g.secrets = none
  | .startWarm v _ _ => ∃ x, g.hand = some (.warming, x) ∧ x.vmid = v ∧ g.began = none
  | .bind v _ _ =>
      (∃ h x, g.hand = some (h, x) ∧ x.vmid = v ∧ (h = .cold → g.cloned = true)) ∨
      ∃ r, g.record = some r ∧ r.vmid = v
  | .clone v _ agent =>
      (∃ h x, g.hand = some (h, x) ∧ x.vmid = v ∧
        ((h = .cold ∧ agent.isSome) ∨ (h = .filling ∧ agent = none))) ∨
      (agent = none ∧ ∃ r, g.record = some r ∧ r.vmid = v)
  | .touching a v => ∃ x q, g.hand = some (.cold, x) ∧ x.vmid = v ∧ g.task = .claim q ∧ a = q.agent
  | .saveRecord r => g.lock = some r.slug ∧ ∃ r', g.record = some r' ∧ r.Same r'
  | .readSecrets v => ∀ x, g.hand = some (.taken, x) → x.vmid = v
  | .guestRuntime _ _ => ∀ x, g.hand = some (.taken, x) → x.warm ≠ none
  | .lockTenant _ => g.task.proxies = true
  | .readRecord slug => g.lock = some slug
  | .dropRecord slug => g.lock = some slug
  | .visible v => InHands g v
  | .stop v => InHands g v
  | .delete v => InHands g v
  | _ => True

/-- What is known of a process that has handed out a guest. -/
def Handed (g : Doing) (x : Claim) : Prop :=
  ∃ q h y, g.task = .claim q ∧ g.hand = some (h, y) ∧ x.vmid = y.vmid ∧ g.failed = false ∧
    g.checked = true ∧
    ((x.pooled = true ∧ h = .taken ∧ x.templateVersion = y.templateVersion.getD "" ∧
        (y.warm ≠ none → ∃ s, g.secrets = some s ∧ (q.egress ≠ none → s.egress = q.egress))) ∨
      (x.pooled = false ∧ h = .cold ∧ g.cloned = true ∧ g.version = some x.templateVersion))

/-! ### The judgement -/

variable {S : Settings} {g g' : Doing} {α β ε : Type}

/-- What a process may count on in an answer: a record is the tenant's it asked for. -/
def Answers : (c : Call) → c.Ret → Prop
  | .pool (.reserveProxy tenant _ _ _ _), .ok r => r.tenant = tenant
  | .readRecord slug, .ok (some r) => r.slug = slug
  | _, _ => True

abbrev SafeD (p : Prog Call Call.Ret ε α) (g : Doing) (Q : Except ε α → Doing → Prop) : Prop :=
  Safe (.of (fun _ => Answers) note) Allowed p g Q

lemma safe_answer {c : Call} {f : c.Ret → Except ε α} {Q : Except ε α → Doing → Prop}
    (hpre : Allowed g c) (h : ∀ x, Answers c x → Q (f x) (note g c x)) :
    SafeD (tryAsk c f) g Q := by
  refine (safe_ask_of _ _ _ _).mpr ⟨hpre, fun x hx => ?_⟩
  rw [safe_ofExcept]
  exact h x hx

lemma safe_tryAsk {c : Call} {f : c.Ret → Except ε α} {Q : Except ε α → Doing → Prop}
    (hpre : Allowed g c) (h : ∀ x, Q (f x) (note g c x)) : SafeD (tryAsk c f) g Q :=
  safe_answer hpre fun x _ => h x

lemma safe_pool {c : Section} {Q : Except FabricError c.Ret → Doing → Prop}
    (hpre : AllowedPool g c) (h : ∀ x, Q x (notePool g c x)) : SafeD (pool c) g Q :=
  safe_tryAsk hpre h

lemma safe_attempted {p : Prog Call Call.Ret ε α}
    {Q : Except FabricError (Except ε α) → Doing → Prop}
    (h : SafeD p g fun r t => Q (.ok r) t) : SafeD (attempt p) g Q :=
  (safe_attempt _ _ _).mpr h

/-- A part that is not followed by anything where it fails. -/
lemma safe_seq {p : Io α} {f : α → Io β} {R : Except FabricError α → Doing → Prop}
    {Q : Except FabricError β → Doing → Prop} (h : SafeD p g R)
    (hok : ∀ a t, R (.ok a) t → SafeD (f a) t Q) (herr : ∀ e t, R (.error e) t → Q (.error e) t) :
    SafeD (p >>= f) g Q :=
  h.bind hok herr

/-! ### Guests -/

/-- Calls that say nothing new to the process. -/
lemma safe_quiet {c : Call} {f : c.Ret → Except ε α} (hpre : Allowed g c)
    (hnote : ∀ x, note g c x = g) : SafeD (tryAsk c f) g fun _ t => t = g :=
  safe_tryAsk hpre hnote

lemma safe_stopGuest {v : ℕ} (h : InHands g v) (running : Bool) :
    SafeD (stopGuest S v running) g fun _ t => t = g := by
  unfold stopGuest
  split_ifs
  · exact safe_quiet h fun _ => rfl
  · exact rfl

lemma safe_destroyGuest {v : ℕ} (h : InHands g v) :
    SafeD (destroyGuest S v) g fun _ t => t = g := by
  unfold destroyGuest
  refine (safe_bind _ _ _ _).mpr ((safe_ofExcept _ _ _).mpr ?_)
  cases checkScope S v with
  | error e => exact rfl
  | ok _ =>
      refine safe_seq (safe_quiet h fun _ => rfl) ?_ fun _ _ ht => ht
      rintro (_ | entry) _ rfl
      · refine safe_seq (safe_quiet trivial fun _ => rfl) ?_ fun _ _ ht => ht
        rintro free _ rfl
        split_ifs <;> exact rfl
      · dsimp only
        split_ifs
        · exact rfl
        · refine safe_seq (safe_quiet trivial fun _ => rfl) ?_ fun _ _ ht => ht
          rintro (_ | description) _ rfl
          · exact rfl
          · dsimp only
            split_ifs
            · refine safe_seq (safe_quiet trivial fun _ => rfl) ?_ fun _ _ ht => ht
              rintro (_ | running) _ rfl
              · exact rfl
              · refine safe_seq (safe_stopGuest h running) ?_ fun _ _ ht => ht
                rintro (_ | _) _ rfl
                · exact rfl
                · refine safe_seq (safe_quiet h fun _ => rfl) ?_ fun _ _ ht => ht
                  rintro _ _ rfl
                  exact rfl
            · exact rfl

lemma safe_cloneGuest {v address : ℕ} {tenant : String} {agent : Option String}
    (h : Allowed g (.clone v tenant agent)) :
    SafeD (cloneGuest S v address tenant agent) g fun r t =>
      t = { g with cloned := t.cloned } ∧ (agent = none → t = g) ∧
        (r.isOk → agent.isSome → t.cloned = true) := by
  unfold cloneGuest
  refine (safe_bind _ _ _ _).mpr ((safe_ofExcept _ _ _).mpr ?_)
  cases tenantVlan S tenant with
  | error e => exact ⟨rfl, fun _ => rfl, nofun⟩
  | ok _ =>
      refine (safe_bind _ _ _ _).mpr ((safe_ofExcept _ _ _).mpr ?_)
      cases checkScope S v with
      | error e => exact ⟨rfl, fun _ => rfl, nofun⟩
      | ok _ =>
          refine (safe_bind _ _ _ _).mpr (safe_tryAsk h fun x => ?_)
          have hnote : note g (.clone v tenant agent) x =
              { g with cloned := (note g (.clone v tenant agent) x).cloned } ∧
              (agent = none → note g (.clone v tenant agent) x = g) ∧
              (x.isOk → agent.isSome → (note g (.clone v tenant agent) x).cloned = true) := by
            cases agent with
            | none => exact ⟨rfl, fun _ => rfl, nofun⟩
            | some a =>
                match x with
                | .error e => exact ⟨rfl, nofun, nofun⟩
                | .ok _ => exact ⟨rfl, nofun, fun _ _ => rfl⟩
          match x with
          | .error e => exact ⟨hnote.1, hnote.2.1, nofun⟩
          | .ok _ =>
              have hlast : ∀ r : Except FabricError Unit, _ :=
                fun r => And.intro hnote.1 (And.intro hnote.2.1 fun _ : r.isOk => hnote.2.2 rfl)
              refine safe_seq (safe_quiet trivial fun _ => rfl) ?_ ?_
              · rintro _ _ rfl
                refine safe_seq (safe_quiet trivial fun _ => rfl) ?_ ?_
                · rintro _ _ rfl
                  refine (safe_mapErr _ _ _ _).mpr (safe_tryAsk trivial fun x => ?_)
                  exact hlast _
                · rintro e _ rfl
                  exact hlast (.error e)
              · rintro e _ rfl
                exact hlast (.error e)

lemma safe_forget {v : ℕ} (h : InHands g v) : SafeD (forget v) g fun _ t => t = g.drop v := by
  unfold forget
  refine (safe_ask_of _ _ _ _).mpr ⟨trivial, fun _ _ => ?_⟩
  exact safe_pool h fun _ => rfl

lemma safe_discard {v : ℕ} (h : InHands g v) : SafeD (discard S v) g fun _ t => t = g.drop v := by
  unfold discard
  refine (safe_bind _ _ _ _).mpr (safe_attempted ((safe_destroyGuest h).mono ?_))
  rintro _ _ rfl
  refine (safe_bind _ _ _ _).mpr (safe_attempted ((safe_forget h).mono ?_))
  rintro _ _ rfl
  exact rfl

lemma safe_destroyAndForget {v : ℕ} (h : InHands g v) :
    SafeD (destroyAndForget S v) g fun r t => r.isOk → t = g.drop v := by
  unfold destroyAndForget
  refine safe_seq (safe_destroyGuest h) ?_ fun _ _ _ => nofun
  rintro _ _ rfl
  exact (safe_forget h).mono fun _ _ ht _ => ht

lemma safe_reserve {tenant version : String} {agent : Option String} (hhand : g.hand = none)
    (hversion : g.version = some version) (hnone : agent = none → g.task.retires = true)
    (hagent : ∀ a, agent = some a → ∃ q, g.task = .claim q ∧ tenant = q.tenant ∧ a = q.agent) :
    SafeD (reserve tenant agent version g.pid) g fun r t =>
      match r with
      | .ok x => t = g.hold (if agent.isSome then .cold else .filling) x
      | .error _ => t = g := by
  unfold reserve
  refine safe_seq (safe_quiet trivial fun _ => rfl) ?_ fun _ _ ht => ht
  rintro seen _ rfl
  refine safe_pool ⟨hhand, hversion, rfl, hnone, hagent⟩ fun x => ?_
  cases x with
  | ok x => exact rfl
  | error e => exact rfl

/-! ### Claims -/

/-- The same guest in hand, and more or less known of it. -/
def Tried (g t : Doing) : Prop :=
  t = { g with
    failed := t.failed, cloned := t.cloned, checked := t.checked, secrets := t.secrets,
    began := t.began }

lemma Tried.refl (g : Doing) : Tried g g := rfl

lemma Tried.trans {t u : Doing} (h : Tried g t) (h' : Tried t u) : Tried g u := by
  rw [Tried, h', h]

lemma Tried.hand (h : Tried g g') : g'.hand = g.hand := by rw [h]

lemma Tried.task (h : Tried g g') : g'.task = g.task := by rw [h]

lemma Tried.version (h : Tried g g') : g'.version = g.version := by rw [h]

lemma Tried.release (h : Tried g g') : g'.release = g.release := by rw [h]; rfl

lemma Tried.drop (h : Tried g g') {v : ℕ} {k : Hand} {x : PoolGuest} (hx : g.hand = some (k, x))
    (hv : x.vmid = v) : g'.drop v = g.drop v := by
  have hx' : g'.hand = some (k, x) := h.hand.trans hx
  unfold Doing.drop
  simp only [hx, hx', Option.any_some, hv, decide_true, if_true, h.release]

lemma secretsFor_ok {egress : Option String} {x : Except String (Option WarmSecrets)}
    {s : WarmSecrets} (h : secretsFor egress x = .ok s) :
    x = .ok (some s) ∧ (egress ≠ none → s.egress = egress) := by
  match x with
  | .error e => cases h
  | .ok none => cases h
  | .ok (some s') =>
      simp only [secretsFor] at h
      split_ifs at h with hegress
      obtain rfl := Except.ok.inj h
      refine ⟨rfl, fun hne => ?_⟩
      rw [not_and_not_right] at hegress
      exact hegress (Option.isSome_iff_ne_none.mpr hne)

section

variable {y : PoolGuest} (hy : g.hand = some (.taken, y))

include hy

lemma note_readSecrets {q : Request} (hq : g.task = .claim q) (v : ℕ)
    (x : Except String (Option WarmSecrets)) :
    note g (.readSecrets v) x = match secretsFor q.egress x with
      | .ok s => { g with secrets := some s }
      | .error _ => { g with failed := true } := by
  have hegress : egressOf g = q.egress := by unfold egressOf; rw [hq]
  cases hsecrets : secretsFor q.egress x <;>
    simp only [note, noteCheck, hegress, hy, hsecrets, Option.any_some, decide_true, if_true]

lemma note_guestStatus {s : WarmSecrets} (hs : g.secrets = some s) (v : ℕ) (k : String)
    (x : Except String Status) :
    note g (.guestStatus v k) x =
      if (statusFor y (y.warm.getD "") s x).isOk then g else { g with failed := true } := by
  simp only [note, noteCheck, hy, hs, Option.any_some, decide_true, if_true]

lemma note_guestRuntime (v : ℕ) (k : String) (x : Except String String) :
    note g (.guestRuntime v k) x =
      if (runtimeFor x).isOk then { g with checked := true } else { g with failed := true } := by
  simp only [note, noteCheck, hy, Option.any_some, decide_true, if_true]

/-- What a check says is noted of the guest in hand. -/
lemma safe_checkTaken {q : Request} {key : String} (hq : g.task = .claim q)
    (hkey : y.warm = some key) (hf : g.failed = false) :
    SafeD (checkWarm y key q.egress) g fun r t => Tried g t ∧
      match r with
      | .ok _ => t.failed = false ∧ t.checked = true ∧
          ∃ s, t.secrets = some s ∧ (q.egress ≠ none → s.egress = q.egress)
      | .error _ => t.failed = true := by
  have hthis : ∀ x, g.hand = some (.taken, x) → x = y := by
    intro x hx
    exact (Prod.mk.inj (Option.some.inj (hx.symm.trans hy))).2
  have hread : Allowed g (.readSecrets y.vmid) := fun x hx => by rw [hthis x hx]
  unfold checkWarm
  refine (safe_bind _ _ _ _).mpr (safe_tryAsk hread fun x => ?_)
  rw [note_readSecrets hy hq]
  cases hs : secretsFor q.egress x with
  | error e => exact ⟨rfl, rfl⟩
  | ok s =>
      refine (safe_bind _ _ _ _).mpr (safe_tryAsk trivial fun x => ?_)
      rw [note_guestStatus (g := { g with secrets := some s }) hy rfl, hkey, Option.getD_some]
      cases statusFor y key s x with
      | error e => exact ⟨rfl, rfl⟩
      | ok st =>
          have hruntime : ∀ credential, Allowed { g with secrets := some s }
              (.guestRuntime y.vmid credential) := by
            intro credential x hx
            rw [hthis x hx, hkey]
            exact nofun
          refine (safe_bind _ _ _ _).mpr (safe_tryAsk (hruntime _) fun x => ?_)
          have hok : (Except.ok st : Except String Status).isOk = true := rfl
          rw [if_pos hok, note_guestRuntime (g := { g with secrets := some s }) hy]
          cases runtimeFor x with
          | error e => exact ⟨rfl, rfl⟩
          | ok _ => exact ⟨rfl, hf, rfl, s, rfl, (secretsFor_ok hs).2⟩

end

lemma safe_bindAs {y : PoolGuest} {p : Payload}
    (hy : ∃ h x, g.hand = some (h, x) ∧ x.vmid = y.vmid ∧ (h = .cold → g.cloned = true)) :
    SafeD (bindAs y p) g fun r t =>
      match r with
      | .ok _ => t = { g with checked := true }
      | .error _ => t = { g with failed := true } := by
  refine safe_tryAsk (.inl hy) fun x => ?_
  match x with
  | .ok b => exact rfl
  | .error e => exact rfl

lemma safe_bindTaken {q : Request} {y : PoolGuest} (hq : g.task = .claim q)
    (hy : g.hand = some (.taken, y)) (hf : g.failed = false) :
    SafeD (bindTaken q y) g fun r t => Tried g t ∧
      match r with
      | .ok _ => t.failed = false ∧ t.checked = true ∧
          (y.warm ≠ none → ∃ s, t.secrets = some s ∧ (q.egress ≠ none → s.egress = q.egress))
      | .error _ => t.failed = true := by
  unfold bindTaken
  cases hkey : y.warm with
  | some key =>
      dsimp only
      refine (safe_bind _ _ _ _).mpr ((safe_checkTaken hy hq hkey hf).mono ?_)
      rintro (e | ⟨s, st⟩) t ⟨ht, hrest⟩
      · exact ⟨ht, hrest⟩
      · exact ⟨ht, hrest.1, hrest.2.1, fun _ => hrest.2.2⟩
  | none =>
      dsimp only
      refine (safe_bind _ _ _ _).mpr ((safe_bindAs ⟨_, y, hy, rfl, nofun⟩).mono ?_)
      rintro (e | b) t ht
      · obtain rfl := ht
        exact ⟨rfl, rfl⟩
      · obtain rfl := ht
        exact ⟨rfl, hf, rfl, fun h => absurd rfl h⟩

/-- A claim that comes back has a guest in hand. -/
def Delivers (r : Except FabricError Claim) (g : Doing) : Prop := ∀ x, r = .ok x → Handed g x

lemma delivers_error (e : FabricError) (g : Doing) : Delivers (.error e) g := nofun

lemma safe_startCold {q : Request} {x : PoolGuest} (hx : g.hand = some (.cold, x)) :
    SafeD (startCold S q x) g fun r t => Tried g t ∧
      (r.isOk → t = { g with cloned := true, checked := true }) := by
  unfold startCold
  refine safe_seq (safe_cloneGuest (.inl ⟨_, x, hx, rfl, .inl ⟨rfl, rfl⟩⟩)) ?_ ?_
  · rintro _ t ⟨ht, -, hcloned⟩
    obtain rfl : t = { g with cloned := true } := by rw [ht, hcloned rfl rfl]
    have hbind : ∀ p, SafeD (bindAs x p) { g with cloned := true } _ := fun p =>
      safe_bindAs ⟨_, x, hx, rfl, fun _ => rfl⟩
    refine (safe_bind _ _ _ _).mpr ((safe_mapErr _ _ _ _).mpr ((hbind _).mono ?_))
    rintro (e | b) t ht
    · obtain rfl := ht
      exact ⟨rfl, nofun⟩
    · obtain rfl := ht
      refine (safe_bind _ _ _ _).mpr (safe_pool ⟨_, x, hx, rfl, rfl, rfl⟩ fun y => ?_)
      cases y with
      | error e => exact ⟨rfl, nofun⟩
      | ok _ => exact ⟨rfl, fun _ => rfl⟩
  · rintro e t ⟨ht, -, -⟩
    refine ⟨?_, nofun⟩
    rw [ht]
    rfl

lemma inHands_of_hand {h : Hand} {x : PoolGuest} (hx : g.hand = some (h, x)) (hne : h ≠ .taken) :
    InHands g x.vmid := .inl ⟨h, x, hx, rfl, hne⟩

lemma safe_coldClaim {q : Request} (hq : g.task = .claim q) (hhand : g.hand = none) :
    SafeD (coldClaim S q g.pid) g Delivers := by
  unfold coldClaim
  refine (safe_bind _ _ _ _).mpr (safe_tryAsk trivial fun x => ?_)
  match x with
  | .error e => exact delivers_error e _
  | .ok version =>
      change SafeD _ { g with version := some version } _
      refine safe_seq (safe_reserve hhand rfl nofun ?_) ?_ fun e t _ => delivers_error e t
      · intro a ha
        exact ⟨q, hq, rfl, (Option.some.inj ha).symm⟩
      rintro y _ rfl
      refine (safe_bind _ _ _ _).mpr (safe_attempted (safe_tryAsk ?_ fun x => ?_))
      · exact ⟨y, q, rfl, rfl, hq, rfl⟩
      have hy : InHands ({ g with version := some version }.hold .cold y) y.vmid :=
        inHands_of_hand rfl nofun
      match x with
      | .error e =>
          refine (safe_bind _ _ _ _).mpr (safe_attempted ((safe_forget hy).mono fun _ t _ => ?_))
          exact delivers_error e t
      | .ok _ =>
          refine (safe_bind _ _ _ _).mpr (safe_attempted ((safe_startCold rfl).mono ?_))
          rintro (e | b) t ⟨ht, hok⟩
          · have hhand' : InHands t y.vmid := inHands_of_hand (ht.hand.trans rfl) nofun
            refine safe_seq (safe_discard hhand') (fun _ t _ => ?_) fun e t _ => delivers_error e t
            exact delivers_error e t
          · obtain rfl := hok rfl
            refine (safe_bind _ _ _ _).mpr (safe_tryAsk trivial fun x => ?_)
            match x with
            | .error e => exact delivers_error e _
            | .ok _ =>
                intro c hc
                obtain rfl := Except.ok.inj hc
                exact ⟨q, .cold, y, hq, rfl, rfl, rfl, rfl, .inr ⟨rfl, rfl, rfl, rfl⟩⟩

lemma safe_claimLoop {q : Request} (fuel : ℕ) (hq : g.task = .claim q) (hhand : g.hand = none) :
    SafeD (claimLoop S q g.pid fuel) g Delivers := by
  induction fuel generalizing g with
  | zero => exact delivers_error _ _
  | succ fuel ih =>
      unfold claimLoop
      refine (safe_bind _ _ _ _).mpr (safe_pool ⟨hhand, q, hq, rfl, rfl, rfl⟩ fun x => ?_)
      match x with
      | .error e => exact delivers_error e _
      | .ok none => exact safe_coldClaim hq hhand
      | .ok (some y) =>
          change SafeD _ (g.hold .taken y) _
          have hbind := safe_bindTaken (g := g.hold .taken y) hq rfl rfl
          refine (safe_bind _ _ _ _).mpr (safe_attempted (hbind.mono ?_))
          rintro (e | ⟨claimId, credential, status, goToken⟩) t ⟨ht, hrest⟩
          · -- the guest is left to the next fill
            refine (safe_bind _ _ _ _).mpr (safe_pool ?_ fun x => ?_)
            · exact ⟨.taken, y, ht.hand, rfl, rfl, rfl, hrest⟩
            cases x with
            | error e => exact delivers_error e _
            | ok _ =>
                change SafeD (claimLoop S q g.pid fuel) t.release Delivers
                rw [ht.release]
                exact ih (g := (g.hold .taken y).release) hq rfl
          · refine (safe_bind _ _ _ _).mpr (safe_tryAsk trivial fun x => ?_)
            match x with
            | .error e => exact delivers_error e _
            | .ok _ =>
                intro c hc
                obtain rfl := Except.ok.inj hc
                exact ⟨q, .taken, y, ht.task.trans hq, ht.hand, rfl, hrest.1, hrest.2.1,
                  .inl ⟨rfl, rfl, rfl, hrest.2.2⟩⟩

lemma safe_claimFor {q : Request} (fuel : ℕ) (hq : g.task = .claim q) (hhand : g.hand = none) :
    SafeD (claimFor S q g.pid fuel) g Delivers := by
  unfold claimFor
  refine (safe_bind _ _ _ _).mpr ((safe_ofExcept _ _ _).mpr ?_)
  cases tenantVlan S q.tenant with
  | error e => exact delivers_error e g
  | ok _ => exact safe_claimLoop fuel hq hhand

/-! ### Fills and drains -/

/-- The process has nothing in its hands, and these guests before it. -/
structure Idle (g : Doing) (task : Command) (pid : ℕ) (version : Option String) (l : List ℕ) :
    Prop where
  task : g.task = task
  pid : g.pid = pid
  version : g.version = version
  hand : g.hand = none
  victims : g.victims = l

section

variable {task : Command} {pid v : ℕ} {version : Option String} {l rest : List ℕ}

lemma Idle.drop (h : Idle g task pid version (v :: l)) : Idle (g.drop v) task pid version l := by
  unfold Doing.drop
  simp only [h.hand, Option.any_none, Bool.false_eq_true, if_false]
  exact ⟨h.task, h.pid, h.version, rfl, by simp [h.victims]⟩

lemma Idle.released (h : Idle g task pid version l) (k : Hand) (x : PoolGuest) :
    Idle (g.hold k x).release task pid version l :=
  ⟨h.task, h.pid, h.version, rfl, h.victims⟩

/-- A guest in hand is dropped, with nothing else before the process. -/
lemma Idle.dropped (h : Idle g task pid version []) (k : Hand) (x : PoolGuest) :
    Idle ((g.hold k x).drop x.vmid) task pid version [] := by
  unfold Doing.drop Doing.hold
  simp only [Option.any_some, decide_true, if_true]
  refine ⟨h.task, h.pid, h.version, rfl, ?_⟩
  change g.victims.erase x.vmid = []
  rw [h.victims, List.erase_nil]

lemma safe_destroyEach (l : List ℕ) (h : Idle g task pid version (l ++ rest)) :
    SafeD (Prog.each (destroyAndForget S) l) g fun r t => r.isOk → Idle t task pid version rest := by
  refine safe_each (I := fun l g => Idle g task pid version (l ++ rest)) ?_ ?_ l g h
  swap
  · exact fun g hg _ => hg
  intro v l g hg
  have hv : InHands g v := .inr (.inl (by rw [hg.victims]; exact List.mem_cons_self))
  refine (safe_destroyAndForget hv).mono ?_
  rintro (e | _) t ht
  · exact nofun
  · rw [ht rfl]
    exact hg.drop

lemma safe_guestRunning (h : Idle g task pid version (v :: l)) :
    SafeD (guestRunning S v) g fun r t =>
      ∀ b, r = .ok b → Idle t task pid version (if b then l else v :: l) := by
  unfold guestRunning
  refine (safe_bind _ _ _ _).mpr ((safe_ofExcept _ _ _).mpr ?_)
  cases checkScope S v with
  | error e => exact nofun
  | ok _ =>
      refine (safe_bind _ _ _ _).mpr (safe_tryAsk trivial fun x => ?_)
      match x with
      | .error .missing =>
          intro b hb
          obtain rfl := Except.ok.inj hb
          exact h
      | .error (.failed m) => exact nofun
      | .ok false =>
          intro b hb
          obtain rfl := Except.ok.inj hb
          exact h
      | .ok true =>
          intro b hb
          obtain rfl := Except.ok.inj hb
          exact ⟨h.task, h.pid, h.version, h.hand, by simp [note, h.victims]⟩

lemma safe_retireEach {stale : List ℕ} (l : List ℕ)
    (h : Idle g task pid version (l.filter (· ∉ stale))) :
    SafeD (Prog.each (retireStopped S stale) l) g fun r t => r.isOk → Idle t task pid version [] := by
  refine safe_each (I := fun l g => Idle g task pid version (l.filter (· ∉ stale))) ?_ ?_ l g h
  swap
  · exact fun g hg _ => hg
  intro v l g hg
  unfold retireStopped
  split_ifs with hv
  · have hskip : (v :: l).filter (· ∉ stale) = l.filter (· ∉ stale) := by simp [hv]
    rw [hskip] at hg
    exact hg
  · have hkeep : (v :: l).filter (· ∉ stale) = v :: l.filter (· ∉ stale) := by simp [hv]
    rw [hkeep] at hg
    refine (safe_bind _ _ _ _).mpr ((safe_guestRunning hg).mono ?_)
    rintro (e | b) t ht
    · exact nofun
    · have hidle := ht b rfl
      cases b with
      | true => exact hidle
      | false =>
          have hv : InHands t v := .inr (.inl (by rw [hidle.victims]; exact List.mem_cons_self))
          refine (safe_destroyAndForget hv).mono ?_
          rintro (e | _) t ht
          · exact nofun
          · rw [ht rfl]
            exact hidle.drop

lemma safe_fillLoop {tenant version : String} (fuel : ℕ)
    (h : Idle g task pid (some version) []) (htask : task.retires = true) :
    SafeD (fillLoop S tenant version pid fuel) g fun _ t =>
      Idle t task pid (some version) [] := by
  induction fuel generalizing g with
  | zero => exact h
  | succ fuel ih =>
      unfold fillLoop
      refine (safe_bind _ _ _ _).mpr (safe_pool trivial fun x => ?_)
      cases x with
      | error e => exact h
      | ok held =>
          change SafeD _ g _
          split_ifs
          · exact h
          · obtain rfl := h.pid
            have hreserve : SafeD (reserve tenant none version g.pid) g _ :=
              safe_reserve h.hand h.version (fun _ => h.task ▸ htask) nofun
            refine (safe_bind _ _ _ _).mpr (safe_attempted (hreserve.mono ?_))
            rintro (e | x) t ht
            · obtain rfl := ht
              exact h
            · obtain rfl := ht
              have hclone : Allowed (g.hold .filling x) (.clone x.vmid tenant none) :=
                .inl ⟨_, x, rfl, rfl, .inr ⟨rfl, rfl⟩⟩
              refine (safe_bind _ _ _ _).mpr (safe_attempted ((safe_cloneGuest hclone).mono ?_))
              rintro (e | _) t ⟨-, ht, -⟩
              · obtain rfl := ht rfl
                refine (safe_discard (inHands_of_hand (h := .filling) rfl nofun)).mono ?_
                rintro _ _ rfl
                exact h.dropped .filling x
              · obtain rfl := ht rfl
                refine (safe_bind _ _ _ _).mpr (safe_pool ⟨_, x, rfl, rfl, rfl, rfl⟩ fun y => ?_)
                cases y with
                | error e => exact h.released .filling x
                | ok _ => exact ih (h.released .filling x)

lemma safe_fill {tenant : String} (fuel : ℕ) (h : Idle g task pid version [])
    (htask : task.retires = true) :
    SafeD (fill S tenant pid fuel) g fun r t => r.isOk → ∃ v, Idle t task pid v [] := by
  unfold fill
  refine (safe_bind _ _ _ _).mpr ((safe_ofExcept _ _ _).mpr ?_)
  cases tenantVlan S tenant with
  | error e => exact nofun
  | ok _ =>
      refine (safe_bind _ _ _ _).mpr (safe_tryAsk trivial fun x => ?_)
      match x with
      | .error e => exact nofun
      | .ok version =>
          have hretires : AllowedPool { g with version := some version } (.review tenant version) :=
            (congrArg Command.retires h.task).trans htask
          refine (safe_bind _ _ _ _).mpr (safe_pool hretires fun x => ?_)
          cases x with
          | error e => exact nofun
          | ok r =>
              have hreview : Idle (notePool { g with version := some version }
                  (.review tenant version) (.ok r)) task pid (some version)
                  (r.dead ++ (r.stale ++ r.ready.filter (· ∉ r.stale))) :=
                ⟨h.task, h.pid, rfl, h.hand, rfl⟩
              refine safe_seq (safe_destroyEach r.dead hreview) ?_ fun _ _ _ => nofun
              intro _ t ht
              refine safe_seq (safe_destroyEach r.stale (ht rfl)) ?_ fun _ _ _ => nofun
              intro _ t ht
              refine safe_seq (safe_retireEach r.ready (ht rfl)) ?_ fun _ _ _ => nofun
              intro _ t ht
              refine safe_seq (safe_fillLoop fuel (ht rfl) htask) ?_ fun _ _ _ => nofun
              intro _ t ht
              refine (safe_bind _ _ _ _).mpr (safe_pool trivial fun x => ?_)
              cases x with
              | error e => exact nofun
              | ok l => exact fun _ => ⟨_, ht⟩

lemma safe_drain {tenant : Option String} (h : Idle g task pid version [])
    (htask : task.retires = true) : SafeD (drain S tenant) g fun _ _ => True := by
  unfold drain
  have hretires : AllowedPool g (.victims tenant) := (congrArg Command.retires h.task).trans htask
  refine (safe_bind _ _ _ _).mpr (safe_pool hretires fun x => ?_)
  cases x with
  | error e => exact trivial
  | ok l =>
      have hlist : Idle (notePool g (.victims tenant) (.ok l)) task pid version (l ++ []) :=
        ⟨h.task, h.pid, h.version, h.hand, (List.append_nil l).symm⟩
      exact (safe_destroyEach l hlist).mono fun _ _ _ => trivial

/-! ### Warming -/

lemma safe_warmGuest {y : PoolGuest} (recipe : WarmRecipe) (egress : String)
    (hy : g.hand = some (.warming, y)) (hsecrets : g.secrets = none) (hbegan : g.began = none) :
    SafeD (warmGuest S y recipe egress) g fun r t => Tried g t ∧ (r.isOk →
      ∃ s, t.secrets = some s ∧ s.egress = some egress ∧ t.began = some (recipe.key, egress)) := by
  have hmemory : SafeD (raiseMemory S y.vmid recipe) g fun _ t => t = g := by
    unfold raiseMemory
    split_ifs
    · exact safe_quiet trivial fun _ => rfl
    · exact rfl
  unfold warmGuest
  refine (safe_bind _ _ _ _).mpr (hmemory.mono ?_)
  rintro (e | _) t rfl
  · exact ⟨rfl, nofun⟩
  refine (safe_bind _ _ _ _).mpr ((safe_bindAs ⟨_, y, hy, rfl, nofun⟩).mono ?_)
  rintro (e | b) t ht
  · obtain rfl := ht
    exact ⟨rfl, nofun⟩
  obtain rfl := ht
  refine (safe_bind _ _ _ _).mpr (safe_tryAsk trivial fun x => ?_)
  match x with
  | .error e => exact ⟨rfl, nofun⟩
  | .ok token =>
      refine (safe_bind _ _ _ _).mpr (safe_tryAsk ⟨y, hy, rfl, hsecrets⟩ fun x => ?_)
      match x with
      | .error e => exact ⟨rfl, nofun⟩
      | .ok _ =>
          refine (safe_bind _ _ _ _).mpr (safe_tryAsk trivial fun x => ?_)
          match x with
          | .error e => exact ⟨rfl, nofun⟩
          | .ok _ =>
              refine (safe_bind _ _ _ _).mpr (safe_tryAsk ⟨y, hy, rfl, hbegan⟩ fun x => ?_)
              match x with
              | .error e => exact ⟨rfl, nofun⟩
              | .ok _ =>
                  refine safe_tryAsk trivial fun x => ?_
                  match x with
                  | .error e => exact ⟨rfl, nofun⟩
                  | .ok _ => exact ⟨rfl, fun _ => ⟨_, rfl, rfl, rfl⟩⟩

/-- Where no guest is in hand, a check leaves nothing to note. -/
lemma safe_checkWarm {y : PoolGuest} {key : String} {egress : Option String}
    (hhand : g.hand = none) : SafeD (checkWarm y key egress) g fun _ t => t = g := by
  have hnone : (g.hand.any fun x => x.1 = .taken) = false := by rw [hhand]; rfl
  have hempty : ∀ x, g.hand ≠ some (.taken, x) := by
    intro x hx
    cases hhand.symm.trans hx
  unfold checkWarm
  refine (safe_bind _ _ _ _).mpr (safe_tryAsk (fun x hx => absurd hx (hempty x)) fun x => ?_)
  simp only [note, hnone, Bool.false_eq_true, if_false]
  cases secretsFor egress x with
  | error e => exact trivial
  | ok s =>
      refine (safe_bind _ _ _ _).mpr (safe_tryAsk trivial fun x => ?_)
      simp only [note, hnone, Bool.false_eq_true, if_false]
      cases statusFor y key s x with
      | error e => exact trivial
      | ok st =>
          refine (safe_bind _ _ _ _).mpr (safe_tryAsk (fun x hx => absurd hx (hempty x)) fun x => ?_)
          simp only [note, hnone, Bool.false_eq_true, if_false]
          cases runtimeFor x with
          | error e => exact trivial
          | ok _ => exact rfl

lemma safe_recheck {key egress : String} {y : PoolGuest} (hhand : g.hand = none) :
    SafeD (recheck key egress y) g fun _ t => t = g := by
  unfold recheck
  refine (safe_bind _ _ _ _).mpr (safe_attempted ((safe_checkWarm hhand).mono ?_))
  rintro (e | _) _ rfl
  · refine (safe_bind _ _ _ _).mpr (safe_pool trivial fun x => ?_)
    cases x with
    | error e => exact rfl
    | ok _ => exact (safe_ask_of _ _ _ _).mpr ⟨trivial, fun _ _ => rfl⟩
  · exact rfl

lemma safe_restarted {y : PoolGuest} {retried : List ℕ} :
    SafeD (restarted y retried) g fun _ t => t = g := by
  unfold restarted
  split_ifs
  · exact rfl
  · exact (safe_ask_of _ _ _ _).mpr ⟨trivial, fun _ _ => rfl⟩

lemma safe_warmLoop {tenant v : String} {recipe : WarmRecipe} {egress : String} (fuel : ℕ)
    {retried : List ℕ} (h : Idle g task pid version []) :
    SafeD (warmLoop S tenant v recipe egress pid fuel retried) g fun r t =>
      r.isOk → Idle t task pid version [] := by
  induction fuel generalizing g retried with
  | zero => exact nofun
  | succ fuel ih =>
      unfold warmLoop
      refine (safe_bind _ _ _ _).mpr (safe_pool ⟨h.hand, h.pid.symm⟩ fun x => ?_)
      match x with
      | .error e => exact nofun
      | .ok none => exact fun _ => h
      | .ok (some y) =>
          change SafeD _ (g.hold .warming y) _
          have hwarm := safe_warmGuest (S := S) (g := g.hold .warming y) recipe egress rfl rfl rfl
          refine (safe_bind _ _ _ _).mpr (safe_attempted (hwarm.mono ?_))
          rintro (e | _) t ⟨ht, hok⟩
          · -- it would not warm: once more, or it is discarded
            refine (safe_bind _ _ _ _).mpr (safe_restarted.mono ?_)
            rintro (e | again) t rfl
            · exact nofun
            cases again with
            | true =>
                refine (safe_ask_of _ _ _ _).mpr ⟨trivial, fun _ _ => ?_⟩
                refine (safe_bind _ _ _ _).mpr (safe_pool ?_ fun x => ?_)
                · exact ⟨.warming, y, ht.hand, rfl, rfl, rfl⟩
                cases x with
                | error e => exact nofun
                | ok _ =>
                    change SafeD _ t.release _
                    rw [ht.release]
                    exact ih (h.released .warming y)
            | false =>
                have hy : InHands t y.vmid := inHands_of_hand ht.hand nofun
                refine safe_seq (safe_discard hy) ?_ fun _ _ _ => nofun
                rintro _ _ rfl
                rw [ht.drop rfl rfl]
                exact ih (h.dropped .warming y)
          · obtain ⟨s, hs, hegress, hbegan⟩ := hok rfl
            refine (safe_bind _ _ _ _).mpr (safe_pool ?_ fun x => ?_)
            · exact ⟨y, s, egress, ht.hand, rfl, hs, hegress, hbegan⟩
            cases x with
            | error e => exact nofun
            | ok _ =>
                change SafeD _ t.release _
                rw [ht.release]
                exact ih (h.released .warming y)

lemma safe_warmPool {tenant v : String} {recipe : WarmRecipe} {egress : String} (fuel : ℕ)
    (h : Idle g task pid version []) :
    SafeD (warmPool S tenant v recipe egress pid fuel) g fun r t =>
      r.isOk → Idle t task pid version [] := by
  unfold warmPool
  refine (safe_bind _ _ _ _).mpr (safe_pool trivial fun x => ?_)
  cases x with
  | error e => exact nofun
  | ok warmed =>
      change SafeD _ g _
      have hchecks : SafeD (Prog.each (recheck recipe.key egress) warmed) g fun _ t => t = g := by
        refine safe_each (I := fun _ t => t = g) ?_ (fun _ ht => ht) warmed g rfl
        rintro y l _ rfl
        refine (safe_recheck h.hand).mono ?_
        rintro (e | _) _ rfl
        · exact rfl
        · exact rfl
      refine safe_seq hchecks ?_ fun _ _ _ => nofun
      rintro _ _ rfl
      exact safe_warmLoop fuel h

end

/-! ### Proxy guests -/

/-- What the process does about a proxy leaves the rest of its hands alone. -/
structure Beside (g t : Doing) : Prop where
  task : t.task = g.task
  pid : t.pid = g.pid
  hand : t.hand = g.hand
  victims : t.victims = g.victims
  lock : t.lock = g.lock

lemma Beside.refl (g : Doing) : Beside g g := ⟨rfl, rfl, rfl, rfl, rfl⟩

lemma Beside.trans {t u : Doing} (h : Beside g t) (h' : Beside t u) : Beside g u :=
  ⟨h'.task.trans h.task, h'.pid.trans h.pid, h'.hand.trans h.hand, h'.victims.trans h.victims,
    h'.lock.trans h.lock⟩

/-- The same, with the proxy's record still in hand. -/
structure Along (g t : Doing) : Prop extends Beside g t where
  record : t.record = g.record

lemma Along.refl (g : Doing) : Along g g := ⟨.refl g, rfl⟩

/-- The process has the record, under its lock. -/
def Keeps (g : Doing) (r : ProxyRecord) : Prop :=
  g.lock = some r.slug ∧ ∃ r', g.record = some r' ∧ r.Same r'

lemma safe_awaitSupervisor {r : ProxyRecord} (fuel : ℕ) :
    SafeD (awaitSupervisor r fuel) g fun _ t => t = g := by
  induction fuel with
  | zero => exact rfl
  | succ fuel ih =>
      unfold awaitSupervisor
      refine (safe_ask_of _ _ _ _).mpr ⟨trivial, fun x _ => ?_⟩
      match x with
      | .ok boot => exact rfl
      | .error e =>
          refine (safe_ask_of _ _ _ _).mpr ⟨trivial, fun up _ => ?_⟩
          change SafeD (if up = true then _ else _) g _
          split_ifs
          · exact rfl
          · exact ih

/-- A record, its guest provisioned, names the same guest. -/
lemma safe_provision {r : ProxyRecord} (fuel : ℕ) (h : Keeps g r) :
    SafeD (provision r fuel) g fun _ t => Along g t := by
  obtain ⟨hlock, r', hr', hsame⟩ := id h
  unfold provision
  refine (safe_bind _ _ _ _).mpr (safe_tryAsk trivial fun x => ?_)
  match x with
  | .error e => exact .refl g
  | .ok _ =>
      have hbind : Allowed g (.bind r.vmid r.address { tenant := r.tenant }) :=
        .inr ⟨r', hr', hsame.2.1.symm⟩
      refine (safe_bind _ _ _ _).mpr ((safe_mapErr _ _ _ _).mpr (safe_tryAsk hbind fun x => ?_))
      match x with
      | .error e => exact ⟨⟨rfl, rfl, rfl, rfl, rfl⟩, rfl⟩
      | .ok _ =>
          refine (safe_bind _ _ _ _).mpr (safe_tryAsk ⟨hlock, r', hr', hsame⟩ fun x => ?_)
          match x with
          | .error e => exact ⟨⟨rfl, rfl, rfl, rfl, rfl⟩, rfl⟩
          | .ok _ =>
              refine (safe_bind _ _ _ _).mpr ((safe_mapErr _ _ _ _).mpr
                (safe_tryAsk trivial fun x => ?_))
              match x with
              | .error e => exact ⟨⟨rfl, rfl, rfl, rfl, rfl⟩, rfl⟩
              | .ok _ =>
                  refine (safe_bind _ _ _ _).mpr ((safe_mapErr _ _ _ _).mpr
                    (safe_tryAsk trivial fun x => ?_))
                  match x with
                  | .error e => exact ⟨⟨rfl, rfl, rfl, rfl, rfl⟩, rfl⟩
                  | .ok _ =>
                      refine safe_seq (safe_awaitSupervisor fuel) ?_ ?_
                      · rintro boot _ rfl
                        refine (safe_bind _ _ _ _).mpr
                          (safe_tryAsk ⟨hlock, r', hr', hsame⟩ fun x => ?_)
                        match x with
                        | .error e => exact ⟨⟨rfl, rfl, rfl, rfl, rfl⟩, rfl⟩
                        | .ok _ => exact ⟨⟨rfl, rfl, rfl, rfl, rfl⟩, rfl⟩
                      · rintro e _ rfl
                        exact ⟨⟨rfl, rfl, rfl, rfl, rfl⟩, rfl⟩

lemma safe_recoverLoop {r : ProxyRecord} (fuel : ℕ) (h : Keeps g r) :
    SafeD (recoverLoop r fuel) g fun _ t => Along g t := by
  induction fuel with
  | zero => exact .refl g
  | succ fuel ih =>
      have hagain : SafeD (do
          let up : Bool ← ask .expired
          if up then .fail (proxyError ("proxy guest " ++ toString r.vmid ++ " did not come back"))
          else recoverLoop r fuel : Io ProxyRecord) g fun _ t => Along g t := by
        refine (safe_ask_of _ _ _ _).mpr ⟨trivial, fun up _ => ?_⟩
        change SafeD (if up = true then _ else _) g _
        split_ifs
        · exact .refl g
        · exact ih
      unfold recoverLoop
      refine (safe_ask_of _ _ _ _).mpr ⟨trivial, fun x _ => ?_⟩
      match x with
      | .error e => exact hagain
      | .ok health =>
          change SafeD (if _ then _ else if _ then _ else _) g _
          split_ifs
          · exact .refl g
          · exact safe_provision fuel h
          · refine (safe_ask_of _ _ _ _).mpr ⟨trivial, fun x _ => ?_⟩
            match x with
            | .error e => exact hagain
            | .ok none => exact hagain
            | .ok (some boot) =>
                refine (safe_bind _ _ _ _).mpr (safe_tryAsk h fun x => ?_)
                match x with
                | .error e => exact .refl g
                | .ok _ => exact .refl g

lemma safe_recoverProxy {r : ProxyRecord} (fuel : ℕ) (h : Keeps g r) (hvictims : g.victims = []) :
    SafeD (recoverProxy S r fuel) g fun _ t => Along g t := by
  have hrunning : SafeD (guestRunning S r.vmid) g fun _ t => t = g := by
    unfold guestRunning
    refine (safe_bind _ _ _ _).mpr ((safe_ofExcept _ _ _).mpr ?_)
    cases checkScope S r.vmid with
    | error e => exact rfl
    | ok _ =>
        refine (safe_bind _ _ _ _).mpr (safe_tryAsk trivial fun x => ?_)
        match x with
        | .error .missing => exact rfl
        | .error (.failed m) => exact rfl
        | .ok false => exact rfl
        | .ok true =>
            change { g with victims := g.victims.erase r.vmid } = g
            rw [hvictims, List.erase_nil, ← hvictims]
  unfold recoverProxy
  refine safe_seq hrunning ?_ ?_
  · rintro b _ rfl
    split_ifs
    · exact safe_recoverLoop fuel h
    · exact .refl _
  · rintro e _ rfl
    exact .refl _

lemma safe_makeProxy {tenant : String} {r : ProxyRecord} (fuel : ℕ) (h : Keeps g r) :
    SafeD (makeProxy S tenant r fuel) g fun _ t => Along g t := by
  obtain ⟨-, r', hr', hsame⟩ := id h
  unfold makeProxy
  refine safe_seq (safe_cloneGuest (.inr ⟨rfl, r', hr', hsame.2.1.symm⟩)) ?_ ?_
  · rintro _ _ ⟨-, ht, -⟩
    obtain rfl := ht rfl
    exact safe_provision fuel h
  · rintro e _ ⟨-, ht, -⟩
    obtain rfl := ht rfl
    exact .refl _

lemma safe_createProxy {tenant : String} {vlan : Option ℕ} {pid : ℕ} (fuel : ℕ)
    (hlock : g.lock = some (tagSlug tenant)) (hrecord : g.record = none) :
    SafeD (createProxy S tenant vlan pid fuel) g fun _ t => Beside g t := by
  unfold createProxy
  refine (safe_bind _ _ _ _).mpr (safe_tryAsk trivial fun x => ?_)
  match x with
  | .error e => exact .refl g
  | .ok _ =>
      refine (safe_bind _ _ _ _).mpr (safe_tryAsk trivial fun x => ?_)
      match x with
      | .error e => exact .refl g
      | .ok version =>
          refine (safe_bind _ _ _ _).mpr (safe_tryAsk trivial fun x => ?_)
          match x with
          | .error e => exact ⟨rfl, rfl, rfl, rfl, rfl⟩
          | .ok seen =>
              refine (safe_bind _ _ _ _).mpr (safe_answer ⟨hlock, hrecord⟩ fun x hx => ?_)
              match x, hx with
              | .error e, _ => exact ⟨rfl, rfl, rfl, rfl, rfl⟩
              | .ok r, hx =>
                  have hbeside : Beside g { g with version := some version, record := some r } :=
                    ⟨rfl, rfl, rfl, rfl, rfl⟩
                  have hkeeps : Keeps { g with version := some version, record := some r } r :=
                    ⟨hlock.trans (by rw [ProxyRecord.slug, hx]), r, rfl, rfl, rfl, rfl, rfl, rfl⟩
                  refine (safe_bind _ _ _ _).mpr (safe_attempted ((safe_makeProxy fuel hkeeps).mono ?_))
                  rintro (e | r') t ht
                  · refine (safe_bind _ _ _ _).mpr (safe_attempted ((safe_destroyGuest ?_).mono ?_))
                    · exact .inr (.inr (.inl ⟨r, ht.record, rfl⟩))
                    rintro _ _ rfl
                    refine (safe_ask_of _ _ _ _).mpr ⟨ht.lock.trans hlock, fun _ _ => ?_⟩
                    exact ⟨ht.task, ht.pid, ht.hand, ht.victims, ht.lock⟩
                  · exact hbeside.trans ht.toBeside

/-- The process keeps to the tenant's proxy while it has the lock. -/
lemma safe_ensureLocked {tenant : String} {vlan : Option ℕ} {pid : ℕ} (fuel : ℕ)
    (hlock : g.lock = some (tagSlug tenant)) (hvictims : g.victims = []) :
    SafeD (ensureLocked S tenant vlan pid fuel) g fun _ t => Beside g t := by
  unfold ensureLocked
  refine (safe_bind _ _ _ _).mpr (safe_answer hlock fun x hx => ?_)
  match x, hx with
  | .error e, _ => exact .refl g
  | .ok none, _ =>
      exact (safe_createProxy (g := { g with record := none }) fuel hlock rfl).mono fun _ _ ht =>
        ⟨ht.task, ht.pid, ht.hand, ht.victims, ht.lock⟩
  | .ok (some r), hx =>
      have hkeeps : Keeps { g with record := some r } r :=
        ⟨hlock.trans (by rw [hx]), r, rfl, rfl, rfl, rfl, rfl, rfl⟩
      have hanswers : SafeD (proxyAnswers r) { g with record := some r } fun _ t =>
          t = { g with record := some r } := by
        unfold proxyAnswers
        split_ifs
        · exact (safe_ask_of _ _ _ _).mpr ⟨trivial, fun _ _ => rfl⟩
        · exact rfl
      refine safe_seq hanswers ?_ ?_
      · rintro b _ rfl
        split_ifs
        · exact ⟨rfl, rfl, rfl, rfl, rfl⟩
        · have hrecover := safe_recoverProxy (S := S) fuel hkeeps hvictims
          refine (safe_bind _ _ _ _).mpr (safe_attempted (hrecover.mono ?_))
          rintro (e | r') t ht
          · dsimp only
            split_ifs
            · exact ⟨ht.task, ht.pid, ht.hand, ht.victims, ht.lock⟩
            · refine (safe_bind _ _ _ _).mpr (safe_attempted ((safe_destroyGuest ?_).mono ?_))
              · exact .inr (.inr (.inl ⟨r, ht.record, rfl⟩))
              rintro _ t rfl
              refine (safe_ask_of _ _ _ _).mpr ⟨ht.lock.trans hlock, fun _ _ => ?_⟩
              refine (safe_createProxy (g := { t with record := none }) fuel
                (ht.lock.trans hlock) rfl).mono fun _ _ hu => ?_
              exact ⟨hu.task.trans ht.task, hu.pid.trans ht.pid, hu.hand.trans ht.hand,
                hu.victims.trans ht.victims, hu.lock.trans ht.lock⟩
          · exact ⟨ht.task, ht.pid, ht.hand, ht.victims, ht.lock⟩
      · rintro e _ rfl
        exact ⟨rfl, rfl, rfl, rfl, rfl⟩

section

variable {task : Command} {pid : ℕ} {version : Option String}

/-- The lock is given back, and the process has nothing in its hands. -/
lemma safe_underLock {tenant : String} {p : Io α} (htask : g.task.proxies = true)
    (hhand : g.hand = none) (hvictims : g.victims = [])
    (h : ∀ g' : Doing, g'.lock = some (tagSlug tenant) → g'.hand = none → g'.victims = [] →
      SafeD p g' fun _ t => Beside g' t) :
    SafeD (underLock tenant p) g fun _ t => ∃ v, Idle t g.task g.pid v [] := by
  unfold underLock
  refine (safe_bind _ _ _ _).mpr (safe_tryAsk htask fun x => ?_)
  match x with
  | .error e => exact ⟨_, rfl, rfl, rfl, hhand, hvictims⟩
  | .ok _ =>
      have hp := h { g with lock := some (tagSlug tenant), record := none } rfl hhand hvictims
      refine (safe_bind _ _ _ _).mpr (safe_attempted (hp.mono fun r t ht => ?_))
      refine (safe_ask_of _ _ _ _).mpr ⟨trivial, fun _ _ => ?_⟩
      rw [safe_ofExcept]
      exact ⟨t.version, ht.task, ht.pid, rfl, ht.hand.trans hhand, ht.victims.trans hvictims⟩

lemma safe_ensureProxy {tenant : String} (fuel : ℕ) (h : Idle g task pid version [])
    (htask : task.proxies = true) :
    SafeD (ensureProxy S tenant pid fuel) g fun _ t => ∃ v, Idle t task pid v [] := by
  obtain ⟨rfl, rfl, -, hhand, hvictims⟩ := id h
  unfold ensureProxy
  refine (safe_bind _ _ _ _).mpr ((safe_ofExcept _ _ _).mpr ?_)
  cases tenantVlan S tenant with
  | error e => exact ⟨_, h⟩
  | ok vlan =>
      exact safe_underLock htask hhand hvictims fun g' hlock _ hv => safe_ensureLocked fuel hlock hv

lemma safe_proxyDown {tenant : String} {force serves : Bool} (h : Idle g task pid version [])
    (htask : task.proxies = true) : SafeD (proxyDown S tenant force serves) g fun _ _ => True := by
  unfold proxyDown
  refine (safe_underLock (h.task ▸ htask) h.hand h.victims fun g' hlock _ hv => ?_).mono fun _ _ _ => trivial
  refine (safe_bind _ _ _ _).mpr (safe_tryAsk hlock fun x => ?_)
  match x with
  | .error e => exact .refl g'
  | .ok none => exact ⟨rfl, rfl, rfl, rfl, rfl⟩
  | .ok (some r) =>
      change SafeD (if _ then _ else _) { g' with record := some r } _
      split_ifs
      · exact ⟨rfl, rfl, rfl, rfl, rfl⟩
      · refine safe_seq (safe_destroyGuest (.inr (.inr (.inl ⟨r, rfl, rfl⟩)))) ?_ ?_
        · rintro _ _ rfl
          exact (safe_ask_of _ _ _ _).mpr ⟨hlock, fun _ _ => ⟨rfl, rfl, rfl, rfl, rfl⟩⟩
        · rintro e _ rfl
          exact ⟨rfl, rfl, rfl, rfl, rfl⟩

lemma safe_fillWarm {tenant : String} {recipe : WarmRecipe} (fuel : ℕ)
    (h : Idle g task pid version []) (htask : task.retires = true) (hproxy : task.proxies = true) :
    SafeD (fillWarm S tenant recipe pid fuel) g fun _ _ => True := by
  unfold fillWarm
  refine safe_seq (safe_ensureProxy fuel h hproxy) ?_ fun _ _ _ => trivial
  rintro proxy t ⟨v, ht⟩
  refine safe_seq (safe_fill fuel ht htask) ?_ fun _ _ _ => trivial
  intro _ t ht
  obtain ⟨v, ht⟩ := ht rfl
  refine (safe_bind _ _ _ _).mpr (safe_tryAsk trivial fun x => ?_)
  match x with
  | .error e => exact trivial
  | .ok v =>
      refine (safe_bind _ _ _ _).mpr (safe_tryAsk trivial fun x => ?_)
      match x with
      | .error e => exact trivial
      | .ok _ =>
          have hidle : Idle { t with version := some v } task pid (some v) [] :=
            ⟨ht.task, ht.pid, rfl, ht.hand, ht.victims⟩
          have hretires : AllowedPool { t with version := some v } (.outdated tenant recipe.key) :=
            (congrArg Command.retires ht.task).trans htask
          refine (safe_bind _ _ _ _).mpr (safe_pool hretires fun x => ?_)
          cases x with
          | error e => exact trivial
          | ok l =>
              have hlist : Idle (notePool { t with version := some v }
                  (.outdated tenant recipe.key) (.ok l)) task pid (some v) (l ++ []) :=
                ⟨ht.task, ht.pid, rfl, ht.hand, (List.append_nil l).symm⟩
              refine safe_seq (safe_destroyEach l hlist) ?_ fun _ _ _ => trivial
              intro _ t ht
              refine safe_seq (safe_warmPool fuel (ht rfl)) ?_ fun _ _ _ => trivial
              intro _ t ht
              refine (safe_bind _ _ _ _).mpr (safe_pool trivial fun x => ?_)
              cases x with
              | error e => exact trivial
              | ok _ => exact trivial

end

/-! ### Every process -/

/-- A process that hands out a guest has it in hand. -/
def Hands (r : Except FabricError (Option Claim)) (g : Doing) : Prop :=
  ∀ x, r = .ok (some x) → Handed g x

/-- A command that hands out nothing. -/
lemma safe_none {p : Io α} (h : SafeD p g fun _ _ => True) :
    SafeD (do let _ ← p; return none) g Hands := by
  refine safe_seq h (fun _ t _ x hx => ?_) fun _ t _ x hx => ?_
  · cases hx
  · cases hx

lemma safe_begins {runs : Command → Prop} {leaves : Io (Option Claim) → Prop} {p : Io (Option Claim)}
    (h : (driver S runs leaves).begins g p) : SafeD p g Hands := by
  obtain ⟨c, pid, fuel, -, rfl, rfl⟩ := h
  have hidle : Idle { task := c, pid } c pid none [] := ⟨rfl, rfl, rfl, rfl, rfl⟩
  cases c with
  | claim q =>
      refine safe_seq (safe_claimFor (g := { task := .claim q, pid }) fuel rfl rfl) ?_ ?_
      · intro x t ht y hy
        obtain rfl := Option.some.inj (Except.ok.inj hy)
        exact ht x rfl
      · rintro e t - x hx
        cases hx
  | fill tenant => exact safe_none ((safe_fill fuel hidle rfl).mono fun _ _ _ => trivial)
  | fillWarm tenant recipe => exact safe_none (safe_fillWarm fuel hidle rfl rfl)
  | warm tenant version recipe egress =>
      exact safe_none ((safe_warmPool fuel hidle).mono fun _ _ _ => trivial)
  | drain tenant => exact safe_none (safe_drain hidle rfl)
  | ensureProxy tenant =>
      exact safe_none ((safe_ensureProxy fuel hidle rfl).mono fun _ _ _ => trivial)
  | proxyDown tenant force serves => exact safe_none (safe_proxyDown hidle rfl)
  | destroy agent v =>
      refine safe_none ?_
      unfold destroy
      refine (safe_bind _ _ _ _).mpr ((safe_ofExcept _ _ _).mpr ?_)
      cases checkScope S v with
      | error e => exact trivial
      | ok _ =>
          have hv : InHands { task := .destroy agent v, pid } v := .inr (.inr (.inr ⟨agent, rfl⟩))
          exact (safe_destroyAndForget hv).mono fun _ _ _ => trivial

end Bimo.Proxmox
