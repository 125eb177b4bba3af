import Bimo.FabricRecovery

/-!
Planning: what an apply would do, without doing it.

`plan` compares the spec with the record field by field and asks the driver of the record's
target what is alive. `apply` asks after it has cleared whatever the journal says remains. So
the two decide on different substrates whenever clearing takes down something the record
lists, and only then.

Here an agent's directory stands beside the substrate its driver works on. What is assumed of
a driver is in `Watches`: its `alive` reads the substrate, and its `destroy` takes down what
it is said to take down. The local driver does.
-/

namespace Bimo.Fabric

/-! ### The plan -/

/-- The value of one field of a spec. -/
inductive FieldValue
  | text (s : String)
  | source (s : Source)
  | secrets (l : List SecretRef)
  | egress (allow : List String)
  | placement (substrate : String)
  deriving DecidableEq, Repr

/-- The fields of a spec by name, in the order a JSON object keeps them. -/
def specFields (s : AgentSpec) : List (String × FieldValue) :=
  [("egress", .egress s.egress), ("name", .text s.name), ("placement", .placement s.substrate),
    ("runtime", .text s.runtime), ("secrets", .secrets s.secrets), ("source", .source s.source),
    ("tenant_id", .text s.tenantId)]

structure FieldChange where
  field : String
  before : Option FieldValue
  after : FieldValue
  deriving DecidableEq, Repr

def diff (old new : AgentSpec) (fingerprintChanged : Bool) : List FieldChange :=
  let changes := (specFields new).filterMap fun (key, value) =>
    let before := (specFields old).lookup key
    if before ≠ some value then some ⟨key, before, value⟩ else none
  if changes.isEmpty && fingerprintChanged then
    [⟨"source.content", some (.text "previous config content"), .text "changed config content"⟩]
  else changes

lemma diff_eq_nil {old new : AgentSpec} {c : Bool} :
    diff old new c = [] ↔ old = new ∧ c = false := by
  unfold diff
  dsimp only
  constructor
  · intro h
    split_ifs at h with hc
    have hfields : ∀ x ∈ specFields new, (specFields old).lookup x.1 = some x.2 := by
      intro x hx
      have hnone := List.filterMap_eq_nil_iff.mp h x hx
      simpa using hnone
    rw [h] at hc
    refine ⟨?_, by simpa using hc⟩
    cases old
    cases new
    simp only [specFields, List.forall_mem_cons, List.lookup] at hfields
    simp_all
  · rintro ⟨rfl, rfl⟩
    simp [specFields, List.lookup]

/-- What an apply is expected to do. -/
inductive Action
  | create | replace | restart | none
  deriving DecidableEq, Repr

structure PlanResult where
  name : String
  action : Action
  reason : String
  changes : List FieldChange
  currentGeneration : Option ℕ
  fingerprint : String
  idempotencyKey : String
  remains : List Remain

variable {X : Type} {XRet : X → Type}

/-- The decision of a plan: action, reason and field changes. -/
def planFor (F : Fabric X XRet) (loaded : LoadedSpec) :
    Option AgentRecord → Eff X XRet FabricError (Action × String × List FieldChange)
  | none => return (.create, "no agent with this name exists", [])
  | some record =>
    if record.status = .destroyed then return (.create, "the agent was destroyed", [])
    else
      let changes :=
        diff record.spec loaded.spec (decide (record.fingerprint ≠ loaded.fingerprint))
      if !changes.isEmpty then return (.replace, "the spec differs from what runs", changes)
      else do
        target record.target
        let dead ← deadResources (F.driver record.target) record.resources
        if dead.isEmpty then return (.none, "what runs matches the spec", [])
        else return (.restart, toString dead.length ++ " resource(s) are not running: " ++
          String.intercalate ", " dead, [])

def plan (F : Fabric X XRet) (loaded : LoadedSpec) : Eff X XRet FabricError PlanResult := do
  agentDir loaded.spec.name
  let record ← readRecord loaded.spec.name
  let found := remains (← readJournal loaded.spec.name)
  checkTenant record loaded.spec
  let (action, reason, changes) ← planFor F loaded record
  return {
    name := loaded.spec.name, action, reason, changes,
    currentGeneration := record.map (·.generation), fingerprint := loaded.fingerprint,
    idempotencyKey := F.idempotencyKey loaded, remains := found }

/-! ### An agent's directory and its substrate -/

section Site

variable {ω : Type}

/-- An agent's directory beside the substrate: each side answers its own calls. -/
def site (D : Env X XRet ω) : Env (Call ⊕ X) (Sum.elim Call.Ret XRet) (World × ω) where
  step s o :=
    match o with
    | .inl c => fun x t => s.1.can c x ∧ t = (s.1.next c x, s.2)
    | .inr o => fun x t => D.step s.2 o x t.2 ∧ t.1 = s.1

/-- A resource with the target whose driver is asked about it. -/
abbrev Held := String × Resource

def held (m : Remain) : Held := (m.target, m.resource)

/-- What is assumed of the drivers: `alive` reads the substrate, and a `destroy` that comes
back well takes down what it `takes` and nothing else. -/
structure Watches (F : Fabric X XRet) (D : Env X XRet ω) (live : ω → Held → Bool)
    (takes : Held → Held → Bool) : Prop where
  alive : ∀ name r s, Safe D (fun _ _ => True) ((F.driver name).alive r) s fun x t =>
    (∀ b, x = .ok b → b = live s (name, r)) ∧ live t = live s
  destroy : ∀ name r s, Safe D (fun _ _ => True) ((F.driver name).destroy r) s fun x t =>
    x = .ok () → ∀ h, live t h = (live s h && !takes (name, r) h)

/-- No remain takes a resource down. -/
def Spares (takes : Held → Held → Bool) (j : List JournalEntry) (h : Held) : Prop :=
  ∀ m ∈ remains j, takes (held m) h = false

/-- Every run of a program beside the substrate ends as `Q` says. -/
abbrev Ends {ε α : Type} (D : Env X XRet ω) (p : Eff X XRet ε α) (s : World × ω)
    (Q : Except ε α → World × ω → Prop) : Prop :=
  Safe (site D) (fun _ _ => True) p s Q

variable {D : Env X XRet ω} {ε α β : Type}

/-- A driver's program leaves the agent's directory alone. -/
lemma ends_inr {p : Prog X XRet ε α} {d : World} {w : ω} {Q : Except ε α → ω → Prop}
    (h : Safe D (fun _ _ => True) p w Q) : Ends D p.inr (d, w) fun x t => t.1 = d ∧ Q x t.2 := by
  induction p generalizing w with
  | ret a => exact ⟨rfl, h⟩
  | fail e => exact ⟨rfl, h⟩
  | call o k ih =>
      refine ⟨trivial, fun r t ht => ?_⟩
      obtain ⟨ht, hd⟩ := ht
      obtain ⟨d', w'⟩ := t
      obtain rfl : d' = d := hd
      exact ih r (h.2 r w' ht)

/-- Whatever comes first, what follows ends well. -/
lemma ends_after (p : Eff X XRet ε α) {f : α → Eff X XRet ε β} {s : World × ω}
    {Q : Except ε β → World × ω → Prop} (hok : ∀ a t, Ends D (f a) t Q)
    (herr : ∀ e t, Q (.error e) t) : Ends D (p >>= f) s Q := by
  induction p generalizing s with
  | ret a => exact hok a s
  | fail e => exact herr e s
  | call o k ih => exact ⟨trivial, fun r t _ => ih r⟩

/-- The program changes nothing on either side. -/
def Still (D : Env X XRet ω) (p : Eff X XRet ε α) : Prop := ∀ s, Ends D p s fun _ t => t = s

lemma Still.ends {p : Eff X XRet ε α} (h : Still D p) {s : World × ω}
    {Q : Except ε α → World × ω → Prop} (hQ : ∀ x, Q x s) : Ends D p s Q :=
  (h s).mono fun x _ ht => ht ▸ hQ x

lemma Still.bind {p : Eff X XRet ε α} {f : α → Eff X XRet ε β} (hp : Still D p)
    (hf : ∀ a, Still D (f a)) : Still D (p >>= f) := fun s =>
  Safe.bind (hp s) (fun a _ ht => ht ▸ hf a s) fun _ _ ht => ht

lemma Still.ret (a : α) : Still D (pure a : Eff X XRet ε α) := fun _ => rfl

lemma Still.fail (e : ε) : Still D (.fail e : Eff X XRet ε α) := fun _ => rfl

lemma Still.ofExcept (x : Except ε α) : Still D (.ofExcept x : Eff X XRet ε α) := fun _ => by
  cases x <;> rfl

lemma Still.ask (c : Call) (h : ∀ (w : World) x, w.next c x = w) :
    Still D (ask c : Eff X XRet ε c.Ret) := fun s =>
  ⟨trivial, fun x t ht => show t = s by rw [ht.2, h s.1 x]⟩

lemma still_target (name : String) : Still D (target name : Eff X XRet _ _) :=
  .bind (.ask _ fun _ _ => rfl) fun _ => .ofExcept _

lemma still_lock (agent : String) : Still D (lock agent : Eff X XRet _ _) :=
  .bind (.ask _ fun _ _ => rfl) fun _ => .ofExcept _

lemma still_controlKey (agent : String) : Still D (controlKey agent : Eff X XRet _ _) :=
  .bind (.ask _ fun _ _ => rfl) fun _ => .ofExcept _

lemma still_agentDir (name : String) : Still D (agentDir name : Eff X XRet _ _) := by
  unfold agentDir
  split
  · exact .fail _
  · exact .ret _

lemma still_checkTenant (record : Option AgentRecord) (spec : AgentSpec) :
    Still D (checkTenant record spec : Eff X XRet _ _) := by
  unfold checkTenant
  split
  · split
    · exact .fail _
    · exact .ret _
  · exact .ret _

lemma still_resolveSecrets (substrate : String) (l : List SecretRef) :
    Still D (resolveSecrets substrate l : Eff X XRet _ _) := by
  induction l with
  | nil => exact .ret _
  | cons s l ih =>
      refine .bind (.ask _ fun _ _ => rfl) fun _ => ?_
      exact .bind (.ofExcept _) fun _ => .bind ih fun _ => .ret _

lemma ends_readRecord {s : World × ω} {agent : String}
    {Q : Except FabricError (Option AgentRecord) → World × ω → Prop}
    (hok : Q (.ok s.1.record) s) (herr : ∀ e, Q (.error e) s) :
    Ends D (readRecord agent) s Q := by
  refine ⟨trivial, fun x t ht => ?_⟩
  match x, ht with
  | .ok _, ⟨hx, ht⟩ =>
      obtain rfl : t = s := ht
      exact hx ▸ hok
  | .error e, ⟨_, ht⟩ =>
      obtain rfl : t = s := ht
      exact herr e

lemma ends_readJournal {s : World × ω} {agent : String}
    {Q : Except FabricError (List JournalEntry) → World × ω → Prop}
    (hok : Q (.ok s.1.journal) s) (herr : ∀ e, Q (.error e) s) :
    Ends D (readJournal agent) s Q := by
  refine ⟨trivial, fun x t ht => ?_⟩
  match x, ht with
  | .ok _, ⟨hx, ht⟩ =>
      obtain rfl : t = s := ht
      exact hx ▸ hok
  | .error e, ⟨_, ht⟩ =>
      obtain rfl : t = s := ht
      exact herr e

/-- A line of the journal: the record and the substrate stay. -/
lemma ends_write (s : World × ω) (agent : String) (e : JournalEntry) :
    Ends D (write agent e) s fun _ t => t.1.record = s.1.record ∧ t.2 = s.2 := by
  refine ⟨trivial, fun x t ht => ?_⟩
  obtain ⟨-, rfl⟩ := ht
  match x with
  | .ok _ => exact ⟨rfl, rfl⟩
  | .error _ => exact ⟨rfl, rfl⟩

/-! ### What a plan and an apply see -/

section Decide

variable {F : Fabric X XRet} {live : ω → Held → Bool} {takes : Held → Held → Bool}

/-- All resources of a record are alive, as the driver of a target sees them. -/
def AllLive (live : ω → Held → Bool) (w : ω) (name : String) (l : List Resource) : Prop :=
  ∀ r ∈ l, live w (name, r) = true

lemma ends_deadResources (hW : Watches F D live takes) (name : String) (l : List Resource)
    (s : World × ω) :
    Ends D (deadResources (F.driver name) l) s fun x t => t.1 = s.1 ∧ live t.2 = live s.2 ∧
      ∀ dead, x = .ok dead → (dead.isEmpty = true ↔ AllLive live s.2 name l) := by
  induction l generalizing s with
  | nil =>
      refine ⟨rfl, rfl, fun dead hd => ?_⟩
      obtain rfl := Except.ok.inj hd
      simp [AllLive]
  | cons r l ih =>
      refine Safe.bind (ends_inr (d := s.1) (hW.alive name r s.2)) (fun b t ht => ?_) ?_
      · obtain ⟨hdir, hb, hlive⟩ := ht
        refine Safe.bind (ih t) (fun dead t' ht' => ?_) fun e t' ht' => ?_
        · obtain ⟨hdir', hlive', hdead⟩ := ht'
          refine ⟨hdir'.trans hdir, hlive'.trans hlive, fun dead' hd => ?_⟩
          obtain rfl := Except.ok.inj hd
          have hb := hb b rfl
          have hrest := hdead dead rfl
          have hsame : AllLive live t.2 name l ↔ AllLive live s.2 name l := by
            unfold AllLive
            rw [hlive]
          cases b with
          | true => simp [AllLive, ← hb, hrest.trans hsame]
          | false => simp [AllLive, ← hb]
        · exact ⟨ht'.1.trans hdir, ht'.2.1.trans hlive, nofun⟩
      · exact fun e t ht => ⟨ht.1, ht.2.2, nofun⟩

lemma ends_destroyResource (hW : Watches F D live takes) (name : String) (r : Resource)
    (s : World × ω) :
    Ends D (F.destroyResource name r) s fun x t => t.1.record = s.1.record ∧
      (x = .ok () → ∀ h, live t.2 h = (live s.2 h && !takes (name, r) h)) := by
  unfold Fabric.destroyResource
  refine (safe_bind _ _ _ _).mpr ((safe_attempt _ _ _).mpr ?_)
  refine (ends_inr (d := s.1) (hW.destroy name r s.2)).mono fun x t ht => ?_
  obtain ⟨hdir, hlive⟩ := ht
  refine ⟨trivial, fun _ t' ht' => ?_⟩
  obtain ⟨-, rfl⟩ := ht'
  have hrec : (World.returned t.1 r x.isOk).record = s.1.record := by
    rw [← hdir]
    rfl
  cases x with
  | ok a => exact ⟨hrec, fun _ => hlive rfl⟩
  | error e => exact ⟨hrec, nofun⟩

lemma ends_clearRemain (hW : Watches F D live takes) (agent : String) (j : Journal) (m : Remain)
    (s : World × ω) :
    Ends D (F.clearRemain agent j m) s fun x t => t.1.record = s.1.record ∧
      (x = .ok () → ∀ h, live t.2 h = (live s.2 h && !takes (held m) h)) := by
  refine Safe.bind (still_target m.target s) (fun _ t ht => ?_) ?_
  · subst ht
    refine Safe.bind (ends_destroyResource hW m.target m.resource t) (fun _ t' ht' => ?_) ?_
    · refine (ends_write t' agent _).mono fun x t'' ht'' => ?_
      exact ⟨ht''.1.trans ht'.1, fun _ => ht''.2 ▸ ht'.2 rfl⟩
    · exact fun e t' ht' => ⟨ht'.1, nofun⟩
  · rintro e t rfl
    exact ⟨rfl, nofun⟩

/-- What is alive after some remains have been cleared. -/
def Cleared (live : ω → Held → Bool) (takes : Held → Held → Bool) (s : World × ω)
    (done : List Remain) (t : World × ω) : Prop :=
  t.1.record = s.1.record ∧ ∀ h, live t.2 h = true ↔
    live s.2 h = true ∧ ∀ m ∈ done, takes (held m) h = false

lemma cleared_nil (live : ω → Held → Bool) (takes : Held → Held → Bool) (s : World × ω) :
    Cleared live takes s [] s := by
  simp [Cleared]

lemma ends_clearRemains (hW : Watches F D live takes) (agent : String) (j : Journal)
    (found : List Remain) (s : World × ω) :
    Ends D (Prog.each (F.clearRemain agent j) found) s fun x t =>
      x = .ok () → Cleared live takes s found t := by
  refine safe_each (I := fun rest t => ∃ done, done ++ rest = found ∧
    Cleared live takes s done t) ?_ ?_ _ _ ⟨[], List.nil_append _, cleared_nil _ _ _⟩
  · -- one more of the remains is cleared
    rintro m rest t ⟨done, hsplit, hrec, hlive⟩
    refine (ends_clearRemain hW agent j m t).mono fun x t' ht' => ?_
    cases x with
    | error e => exact nofun
    | ok _ =>
        refine ⟨done ++ [m], by simpa using hsplit, ht'.1.trans hrec, fun h => ?_⟩
        rw [ht'.2 rfl h, Bool.and_eq_true, hlive h]
        simp only [List.mem_append, List.mem_singleton, Bool.not_eq_true', or_imp, forall_and,
          forall_eq, and_assoc]
  · rintro t ⟨done, hsplit, hcl⟩ _
    rw [← hsplit, List.append_nil]
    exact hcl

lemma ends_closeIntents (agent : String) (j : Journal) (gs : List ℕ) (s : World × ω) :
    Ends D (Prog.each (closeIntent agent j) gs) s fun _ t =>
      t.1.record = s.1.record ∧ t.2 = s.2 := by
  refine safe_each (I := fun _ t => t.1.record = s.1.record ∧ t.2 = s.2) ?_ (fun _ h => h) _ _
    ⟨rfl, rfl⟩
  intro g rest t ht
  refine (ends_write t agent _).mono fun x t' ht' => ?_
  have hsame := And.intro (ht'.1.trans ht.1) (ht'.2.trans ht.2)
  cases x with
  | ok _ => exact hsame
  | error _ => exact hsame

/-- **Recovery takes down what the remains say.** It leaves the record alone. -/
lemma ends_recover (hW : Watches F D live takes) (agent : String) (s : World × ω) :
    Ends D (F.recover agent) s fun x t => ∀ found, x = .ok found →
      Cleared live takes s (remains s.1.journal) t := by
  unfold Fabric.recover
  refine (safe_bind _ _ _ _).mpr (ends_readJournal ?_ fun _ _ h => nomatch h)
  dsimp only
  split_ifs with hnil
  · intro found _
    rw [List.isEmpty_iff.mp hnil]
    exact cleared_nil live takes s
  · refine Safe.bind (ends_clearRemains hW agent _ _ s) (fun _ t ht => ?_)
      fun _ _ _ _ h => nomatch h
    obtain ⟨hrec, hlive⟩ := ht rfl
    refine (safe_bind _ _ _ _).mpr (ends_readJournal ?_ fun _ _ h => nomatch h)
    refine Safe.bind (ends_closeIntents agent _ _ t) (fun _ t' ht' => ?_)
      fun _ _ _ _ h => nomatch h
    exact fun found _ => ⟨ht'.1.trans hrec, ht'.2 ▸ hlive⟩

/-- What a plan goes by: the record says the spec runs, and what it lists is alive. -/
def Matches (live : ω → Held → Bool) (loaded : LoadedSpec) (s : World × ω) : Prop :=
  ∃ r, s.1.record = some r ∧ r.status = .ready ∧ r.spec = loaded.spec ∧
    r.fingerprint = loaded.fingerprint ∧ AllLive live s.2 r.target r.resources

/-- What an apply goes by, before it has cleared anything. -/
def Stays (live : ω → Held → Bool) (takes : Held → Held → Bool) (loaded : LoadedSpec)
    (s : World × ω) : Prop :=
  ∃ r, s.1.record = some r ∧ r.status = .ready ∧ r.fingerprint = loaded.fingerprint ∧
    r.target = loaded.spec.substrate ∧ AllLive live s.2 loaded.spec.substrate r.resources ∧
    ∀ x ∈ r.resources, Spares takes s.1.journal (loaded.spec.substrate, x)

lemma ends_planFor (hW : Watches F D live takes) (loaded : LoadedSpec) (s : World × ω) :
    Ends D (F.planFor loaded s.1.record) s fun x t => ∀ p, x = .ok p → t.1 = s.1 ∧
      live t.2 = live s.2 ∧ (p.1 = .none ↔ Matches live loaded s) := by
  unfold Fabric.planFor
  cases hrec : s.1.record with
  | none =>
      rintro p hp
      obtain rfl := Except.ok.inj hp
      exact ⟨rfl, rfl, by simp [Matches, hrec]⟩
  | some r =>
      dsimp only
      split_ifs with hdes hchg
      · rintro p hp
        obtain rfl := Except.ok.inj hp
        refine ⟨rfl, rfl, iff_of_false nofun ?_⟩
        rintro ⟨r', hr', hst, -⟩
        obtain rfl := Option.some.inj (hrec.symm.trans hr')
        simp [hdes] at hst
      · rintro p hp
        obtain rfl := Except.ok.inj hp
        refine ⟨rfl, rfl, iff_of_false nofun ?_⟩
        rintro ⟨r', hr', -, hspec, hfp, -⟩
        obtain rfl := Option.some.inj (hrec.symm.trans hr')
        have hnil : diff r.spec loaded.spec (decide (r.fingerprint ≠ loaded.fingerprint)) = [] :=
          diff_eq_nil.mpr ⟨hspec, decide_eq_false (not_not.mpr hfp)⟩
        rw [hnil] at hchg
        cases hchg
      · -- the spec is the recorded one: what is alive decides
        have hnil : diff r.spec loaded.spec (decide (r.fingerprint ≠ loaded.fingerprint)) = [] := by
          simpa using hchg
        obtain ⟨hspec, hfp⟩ := diff_eq_nil.mp hnil
        have hready : r.status = .ready := by
          cases hst : r.status with
          | ready => rfl
          | destroyed => exact absurd hst hdes
        refine Safe.bind (still_target r.target s) ?_ fun _ _ _ _ h => nomatch h
        rintro _ t rfl
        refine Safe.bind (ends_deadResources hW r.target r.resources t) (fun dead t' ht' => ?_)
          fun _ _ _ _ h => nomatch h
        obtain ⟨hdir, hlive, hdead⟩ := ht'
        have hmatch : dead.isEmpty = true ↔ Matches live loaded t := by
          rw [hdead dead rfl]
          refine ⟨fun h => ⟨r, hrec, hready, hspec, by simpa using hfp, h⟩, ?_⟩
          rintro ⟨r', hr', -, -, -, h⟩
          obtain rfl := Option.some.inj (hrec.symm.trans hr')
          exact h
        split_ifs with hd
        · rintro p hp
          obtain rfl := Except.ok.inj hp
          exact ⟨hdir, hlive, iff_of_true rfl (hmatch.mp hd)⟩
        · rintro p hp
          obtain rfl := Except.ok.inj hp
          exact ⟨hdir, hlive, iff_of_false nofun (mt hmatch.mpr hd)⟩

/-- **What a plan says.** It changes nothing, and reports no action exactly when the record
matches the spec and everything it lists is alive. -/
lemma ends_plan (hW : Watches F D live takes) (loaded : LoadedSpec) (s : World × ω) :
    Ends D (F.plan loaded) s fun x t => ∀ p, x = .ok p → t.1 = s.1 ∧
      live t.2 = live s.2 ∧ (p.action = .none ↔ Matches live loaded s) := by
  unfold Fabric.plan
  refine Safe.bind (still_agentDir _ s) ?_ fun _ _ _ _ h => nomatch h
  rintro _ t rfl
  refine (safe_bind _ _ _ _).mpr (ends_readRecord ?_ fun _ _ h => nomatch h)
  refine (safe_bind _ _ _ _).mpr (ends_readJournal ?_ fun _ _ h => nomatch h)
  refine Safe.bind (still_checkTenant _ _ t) ?_ fun _ _ _ _ h => nomatch h
  rintro _ s rfl
  refine Safe.bind (ends_planFor hW loaded s) (fun p t ht => ?_) fun _ _ _ _ h => nomatch h
  rintro q hq
  obtain rfl := Except.ok.inj hq
  exact ht p rfl

lemma ends_upToDate (hW : Watches F D live takes) (loaded : LoadedSpec)
    (previous : Option AgentRecord) (s : World × ω) :
    Ends D (upToDate loaded (F.driver loaded.spec.substrate) previous) s fun x _ =>
      ∀ found, x = .ok found → (found.isSome = true ↔ ∃ r, previous = some r ∧ r.status = .ready ∧
        r.fingerprint = loaded.fingerprint ∧ r.target = loaded.spec.substrate ∧
        AllLive live s.2 loaded.spec.substrate r.resources) := by
  unfold upToDate
  cases previous with
  | none =>
      rintro found hf
      obtain rfl := Except.ok.inj hf
      simp
  | some r =>
      dsimp only
      split_ifs with hr
      · refine Safe.bind (ends_deadResources hW _ r.resources s) (fun dead t ht => ?_)
          fun _ _ _ _ h => nomatch h
        rintro found hf
        obtain rfl := Except.ok.inj hf
        have hdead := ht.2.2 dead rfl
        split_ifs with hd
        · simpa [hr.1, hr.2.1, hr.2.2] using hdead.mp hd
        · simpa [hr.1, hr.2.1, hr.2.2] using mt hdead.mpr hd
      · rintro found hf
        obtain rfl := Except.ok.inj hf
        simp only [Option.isSome_none, Bool.false_eq_true, false_iff]
        rintro ⟨r', hr', hst, hfp, htgt, -⟩
        obtain rfl := Option.some.inj hr'
        exact hr ⟨hst, hfp, htgt⟩

lemma ends_keep (v : Resolved) (d : Driver X XRet) (record : AgentRecord) (s : World × ω) :
    Ends D (keep v d record) s fun x _ => ∀ o, x = .ok o → o.result.readyMs = none := by
  unfold keep
  dsimp only
  split_ifs
  all_goals
    refine ends_after _ (fun _ t => ?_) fun _ _ _ h => nomatch h
    refine ends_after _ (fun _ t => ?_) fun _ _ _ h => nomatch h
    rintro o ho
    obtain rfl := Except.ok.inj ho
    rfl

lemma ends_commit (v : Resolved) (d : Driver X XRet) (j : Journal) (created : Created)
    (readyMs : ℕ) (taskId : String) (s : World × ω) :
    Ends D (F.commit v d j created readyMs taskId) s fun x _ =>
      ∀ o, x = .ok o → o.result.readyMs ≠ none := by
  unfold Fabric.commit
  refine ends_after _ (fun written t => ?_) fun _ _ _ h => nomatch h
  match written with
  | .error error =>
      refine ends_after _ (fun _ t => ?_) fun _ _ _ h => nomatch h
      exact ends_after _ (fun _ _ _ h => nomatch h) fun _ _ _ h => nomatch h
  | .ok _ =>
      refine ends_after _ (fun _ t => ?_) fun _ _ _ h => nomatch h
      refine ends_after _ (fun _ t => ?_) fun _ _ _ h => nomatch h
      rintro o ho
      obtain rfl := Except.ok.inj ho
      nofun

lemma ends_replace (v : Resolved) (d : Driver X XRet) (s : World × ω) :
    Ends D (F.replace v d) s fun x _ => ∀ o, x = .ok o → o.result.readyMs ≠ none := by
  unfold Fabric.replace
  refine ends_after _ (fun _ t => ?_) fun _ _ _ h => nomatch h
  refine ends_after _ (fun _ t => ?_) fun _ _ _ h => nomatch h
  refine ends_after _ (fun started t => ?_) fun _ _ _ h => nomatch h
  match started with
  | .error (error, touched) =>
      refine ends_after _ (fun _ t => ?_) fun _ _ _ h => nomatch h
      exact ends_after _ (fun _ _ _ h => nomatch h) fun _ _ _ h => nomatch h
  | .ok (created, readyMs, taskId) => exact ends_commit v d _ created readyMs taskId t

/-- **What an apply does.** When it comes back well it has started nothing exactly when the
record is of the spec and its resources are alive and outlive the recovery. -/
lemma ends_apply (hW : Watches F D live takes) (loaded : LoadedSpec) (s : World × ω) :
    Ends D (F.apply loaded) s fun x _ => ∀ o, x = .ok o →
      (o.result.readyMs = none ↔ Stays live takes loaded s) := by
  unfold Fabric.apply
  refine Safe.bind (still_target _ s) ?_ fun _ _ _ _ h => nomatch h
  rintro _ s rfl
  refine Safe.bind (still_agentDir _ s) ?_ fun _ _ _ _ h => nomatch h
  rintro _ s rfl
  refine Safe.bind (still_lock _ s) ?_ fun _ _ _ _ h => nomatch h
  rintro _ s rfl
  refine (safe_bind _ _ _ _).mpr (ends_readRecord ?_ fun _ _ h => nomatch h)
  refine Safe.bind (still_checkTenant _ _ s) ?_ fun _ _ _ _ h => nomatch h
  rintro _ s rfl
  refine Safe.bind (ends_recover hW _ s) (fun found t ht => ?_) fun _ _ _ _ h => nomatch h
  obtain ⟨-, hlive⟩ := ht found rfl
  refine Safe.bind (still_resolveSecrets _ _ t) ?_ fun _ _ _ _ h => nomatch h
  rintro secrets t rfl
  refine Safe.bind (still_controlKey _ t) ?_ fun _ _ _ _ h => nomatch h
  rintro key t rfl
  refine Safe.bind (ends_upToDate hW loaded s.1.record t) (fun found t' ht' => ?_)
    fun _ _ _ _ h => nomatch h
  have hstays : found.isSome = true ↔ Stays live takes loaded s := by
    rw [ht' found rfl]
    unfold Stays AllLive Spares
    simp only [hlive, forall_and]
  cases found with
  | none =>
      refine (ends_replace _ _ t').mono fun x _ hx o ho => ?_
      exact iff_of_false (hx o ho) (mt hstays.mpr nofun)
  | some record =>
      refine (ends_keep _ _ record t').mono fun x _ hx o ho => ?_
      exact iff_of_true (hx o ho) (hstays.mp rfl)

/-- A record as `apply` writes it: its target is its spec's placement, and it is of the loaded
spec if it has its fingerprint. -/
structure Recorded (loaded : LoadedSpec) (r : AgentRecord) : Prop where
  target : r.target = r.spec.substrate
  spec : r.fingerprint = loaded.fingerprint → r.spec = loaded.spec

/-- **Plan and apply agree** on a plan that is applied at once, exactly when the recovery takes
down nothing the record lists, or there is nothing to take down: the record is not a Ready one
of this spec with everything alive. -/
theorem plan_agrees_iff (hW : Watches F D live takes) {loaded : LoadedSpec} {s t t' : World × ω}
    (hrec : ∀ r, s.1.record = some r → Recorded loaded r) {p : PlanResult}
    {o : Outcome ApplyResult} (hplan : Exec (site D) (F.plan loaded) s (.ret p) t)
    (happly : Exec (site D) (F.apply loaded) t (.ret o) t') :
    (p.action = .none ↔ o.result.readyMs = none) ↔
      ∀ r, s.1.record = some r → r.status = .ready → r.fingerprint = loaded.fingerprint →
        AllLive live s.2 r.target r.resources →
        ∀ x ∈ r.resources, Spares takes s.1.journal (r.target, x) := by
  obtain ⟨hdir, hlive, hnone⟩ := (ends_plan hW loaded s).exec hplan p rfl
  have hstays := (ends_apply hW loaded t).exec happly o rfl
  rw [hnone, hstays]
  constructor
  · intro hiff r hr hst hfp hall
    have hwritten := hrec r hr
    obtain ⟨r', hr', -, -, htgt, -, hspares⟩ :=
      hiff.mp ⟨r, hr, hst, hwritten.spec hfp, hfp, hall⟩
    obtain rfl : r = r' := Option.some.inj (hr.symm.trans (hdir ▸ hr'))
    rw [← hdir, htgt]
    exact hspares
  · intro hspare
    constructor
    · rintro ⟨r, hr, hst, hspec, hfp, hall⟩
      have htgt : r.target = loaded.spec.substrate := by rw [(hrec r hr).target, hspec]
      refine ⟨r, hdir ▸ hr, hst, hfp, htgt, ?_, ?_⟩
      · unfold AllLive
        rw [hlive, ← htgt]
        exact hall
      · rw [hdir, ← htgt]
        exact hspare r hr hst hfp hall
    · rintro ⟨r, hr, hst, hfp, htgt, hall, -⟩
      refine ⟨r, hdir ▸ hr, hst, (hrec r (hdir ▸ hr)).spec hfp, hfp, ?_⟩
      unfold AllLive at hall
      rw [hlive] at hall
      rw [htgt]
      exact hall

end Decide

end Site

/-! ### The local driver -/

section OnHost

/-- The processes that run on the control-plane host. -/
abbrev Host := List ProcessIdentity

def hostCan (h : Host) : (c : Local.Call) → c.Ret → Prop
  | .identityAlive i, b => b = decide (i ∈ h)
  | _, _ => True

/-- A spawn that comes back well adds a process, a stop that does removes it. -/
def hostNext (h : Host) : (c : Local.Call) → c.Ret → Host
  | .spawnGroup _ _, .ok i => i :: h
  | .stopGroup i, .ok _ => h.filter (· ≠ i)
  | _, _ => h

def host : Env Local.Call Local.Call.Ret Host := .of hostCan hostNext

def processLive (h : Host) (x : Held) : Bool := x.2.process.any (· ∈ h)

/-- Two resources of one process go together. -/
def sameProcess (x y : Held) : Bool := x.2.process.isSome && x.2.process == y.2.process

lemma watches_local (root : String) (sha256 : String → String) :
    Watches ⟨root, fun _ => Local.driver, sha256⟩ host processLive sameProcess where
  alive name r s := by
    show Safe host _ (Local.processAlive r) s _
    unfold Local.processAlive
    cases hp : r.process with
    | none =>
        refine ⟨fun b hb => ?_, rfl⟩
        obtain rfl := Except.ok.inj hb
        simp [processLive, hp]
    | some i =>
        refine (safe_call_of _ _ _ _).mpr ⟨trivial, fun b hb => ⟨fun b' hb' => ?_, rfl⟩⟩
        obtain rfl := Except.ok.inj hb'
        rw [show b = decide (i ∈ s) from hb]
        simp [processLive, hp]
  destroy name r s := by
    show Safe host _ (Local.stopProcess r) s _
    unfold Local.stopProcess
    cases hp : r.process with
    | none => exact fun _ h => by simp [sameProcess, hp]
    | some i =>
        refine (safe_ask_of _ _ _ _).mpr ⟨trivial, fun (b : Bool) hb => ?_⟩
        have hb : b = decide (i ∈ s) := hb
        show Safe host _ _ s _
        split_ifs with halive
        · -- gone already
          have hi : i ∉ s := by simpa [hb] using halive
          intro _ h
          cases hh : h.2.process with
          | none => simp [processLive, sameProcess, hh]
          | some j =>
              by_cases hij : i = j
              · subst hij
                simp [processLive, hh, hi]
              · simp [processLive, sameProcess, hp, hh, hij]
        · refine (safe_ask_of _ _ _ _).mpr ⟨trivial, fun (x : Except String Unit) _ => ?_⟩
          cases x with
          | error e => exact nofun
          | ok _ =>
              intro _ h
              cases hh : h.2.process with
              | none => simp [processLive, hostNext, sameProcess, hh]
              | some j =>
                  by_cases hij : i = j
                  · subst hij
                    simp [processLive, hostNext, sameProcess, hp, hh]
                  · simp [processLive, hostNext, sameProcess, hp, hh, hij, Ne.symm hij]

def siteCan (s : World × Host) : (c : Call ⊕ Local.Call) → Sum.elim Call.Ret Local.Call.Ret c → Prop
  | .inl c, x => s.1.can c x
  | .inr c, x => hostCan s.2 c x

def siteNext (s : World × Host) :
    (c : Call ⊕ Local.Call) → Sum.elim Call.Ret Local.Call.Ret c → World × Host
  | .inl c, x => (s.1.next c x, s.2)
  | .inr c, x => (s.1, hostNext s.2 c x)

instance (s : World × Host) (c : Call ⊕ Local.Call) (x : Sum.elim Call.Ret Local.Call.Ret c) :
    Decidable (siteCan s c x) :=
  match c with
  | .inl c => s.1.decidableCan c x
  | .inr (.identityAlive i) => instDecidableEqBool x (decide (i ∈ s.2))
  | .inr .timestampMillis | .inr .freeLocalPort | .inr (.launch _) | .inr (.recipe _ _ _)
  | .inr (.spawnGroup _ _) | .inr (.waitForPort _ _) | .inr (.stopGroup _)
  | .inr (.writeSecretFile _ _ _ _) | .inr (.reload _ _ _) => inferInstanceAs (Decidable True)

lemma step_site (s : World × Host) (c : Call ⊕ Local.Call)
    (x : Sum.elim Call.Ret Local.Call.Ret c) (h : siteCan s c x) :
    (site host).step s c x (siteNext s c x) := by
  cases c with
  | inl c => exact ⟨h, rfl⟩
  | inr c => exact ⟨⟨h, rfl⟩, rfl⟩

/-- Every call answered well, and truly about the processes of the host. -/
def wellOn (s : World × Host) : (c : Call ⊕ Local.Call) → Sum.elim Call.Ret Local.Call.Ret c
  | .inr (.identityAlive i) => decide (i ∈ s.2)
  | c => well s.1 c

def demoProcess : Resource where
  kind := .agentProcess
  id := "local:a-g1-0"
  process := some ⟨7, 7, "a-g1-0", "f1", 1⟩

def demoRecord : AgentRecord where
  name := "a"
  tenantId := "acme"
  runtime := "hermes"
  target := "local"
  substrate := "local"
  generation := 1
  fingerprint := "f1"
  idempotencyKey := ""
  spec := demoSpec.spec
  status := .ready
  resources := [demoProcess]
  endpoint := none
  readyMs := none
  firstTaskId := none
  proxyManagement := none
  secretsDigest := some (onLocal.secretsDigest "a" [])

/-- The agent's process runs; `j` is what its journal says. -/
def demoSite (j : List JournalEntry) : World × Host :=
  ({ record := some demoRecord, journal := j }, demoProcess.process.toList)

/-- A destroy was stopped after its first `destroying` line. -/
def interrupted : List JournalEntry :=
  [{ event := .destroying, generation := some 1, target := some "local",
     resource := some demoProcess }]

lemma recorded_demo (j : List JournalEntry) :
    ∀ r, (demoSite j).1.record = some r → Recorded demoSpec r := by
  rintro r hr
  obtain rfl := Option.some.inj hr
  exact ⟨rfl, fun _ => rfl⟩

/-- Nothing remains: the plan reports no action and the apply starts nothing. -/
theorem plan_agrees_iff_undisturbed : ∃ p o t t',
    Exec (site host) (onLocal.plan demoSpec) (demoSite []) (.ret p) t ∧
    Exec (site host) (onLocal.apply demoSpec) t (.ret o) t' ∧
    (p.action = .none ↔ o.result.readyMs = none) := by
  obtain ⟨p, -, hplan⟩ := exec_reach_returns (fun s c => step_site s c (wellOn s c)) (n := 10)
    (p := onLocal.plan demoSpec) (s := demoSite []) (P := fun p => p.action = .none)
    (by decide +kernel)
  obtain ⟨o, -, happly⟩ := exec_reach_returns (fun s c => step_site s c (wellOn s c)) (n := 20)
    (p := onLocal.apply demoSpec)
    (s := reach siteCan siteNext wellOn 10 (onLocal.plan demoSpec) (demoSite []))
    (P := fun o => o.result.readyMs = none) (by decide +kernel)
  refine ⟨p, o, _, _, hplan, happly, ?_⟩
  refine (plan_agrees_iff (watches_local _ _) (recorded_demo []) hplan happly).mpr ?_
  intro r hr _ _ _ x _ m hm
  cases hm

/-- A destroy was interrupted before it stopped anything. The plan reports no action; the apply
that follows stops the process the destroy was about and starts a new generation. -/
theorem plan_misses_recovery : ∃ p o t t',
    Exec (site host) (onLocal.plan demoSpec) (demoSite interrupted) (.ret p) t ∧
    Exec (site host) (onLocal.apply demoSpec) t (.ret o) t' ∧
    p.action = .none ∧ o.result.readyMs ≠ none := by
  obtain ⟨p, hp, hplan⟩ := exec_reach_returns (fun s c => step_site s c (wellOn s c)) (n := 10)
    (p := onLocal.plan demoSpec) (s := demoSite interrupted) (P := fun p => p.action = .none)
    (by decide +kernel)
  obtain ⟨o, ho, happly⟩ := exec_reach_returns (fun s c => step_site s c (wellOn s c)) (n := 60)
    (p := onLocal.apply demoSpec)
    (s := reach siteCan siteNext wellOn 10 (onLocal.plan demoSpec) (demoSite interrupted))
    (P := fun o => o.result.readyMs ≠ none) (by decide +kernel)
  exact ⟨p, o, _, _, hplan, happly, of_decide_eq_true hp, of_decide_eq_true ho⟩

end OnHost

end Bimo.Fabric
