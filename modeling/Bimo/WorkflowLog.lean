import Bimo.WorkflowRuns

/-!
The log of a workflow's run.

A line is numbered before it is appended, and the details of an event are spread over the fields
that every line has. So a line that could not be appended leaves a gap, a result with a field of
its own named like one of them replaces it, and a changelog that cannot be written after the last
line leads to another last line. Where none of this happens the log is as it should be.
-/

namespace Bimo.Flow

open Wire (Json)
open PodStore (Fields put spread lookup_put require_eq)

/-! ### What is said of a log -/

/-- The line has this number, the id of the run and the type it was recorded under. -/
structure Line (runId : String) (sequence : ℕ) (p : String × Fields) : Prop where
  sequence : p.2.lookup "sequence" = some (Wire.ofNat sequence)
  runId : p.2.lookup "runId" = some (.str runId)
  type : p.2.lookup "type" = some (.str p.1)

/-- The lines are numbered from one on. -/
def Numbered (runId : String) (l : List (String × Fields)) : Prop :=
  ∀ k p, l[k]? = some p → Line runId (k + 1) p

def isTerminal (event : Fields) : Bool := isType event "run.finished" || isType event "run.failed"

/-- The log is numbered, and its last line is the only one that ends a run. -/
structure WellFormed (runId : String) (t : Trace) : Prop where
  numbered : Numbered runId (recorded t)
  terminal : ∃ l p, recorded t = l ++ [p] ∧ isTerminal p.2 = true ∧
    ∀ q ∈ l, isTerminal q.2 = false

/-- Whether a call to append a line succeeded. -/
def appends : (c : Call) × c.Ret → Option Bool
  | ⟨.append _ _, .ok _⟩ => some true
  | ⟨.append _ _, .error _⟩ => some false
  | _ => none

/-- The last line that was to be appended is in the log. -/
def LastAppended (t : Trace) : Prop := (t.filterMap appends).getLast? = some true

instance (t : Trace) : Decidable (LastAppended t) :=
  inferInstanceAs (Decidable ((t.filterMap appends).getLast? = some true))

/-! ### The condition -/

/-- The fields that a result must not have. -/
def reserved : List String := ["sequence", "runId", "type"]

/-- A result leaves the fields of the line alone. -/
def Free (details : Fields) : Prop := ∀ key ∈ reserved, details.lookup key = none

/-- The type of the last line. -/
def lastType (t : Trace) : Option String := (recorded t).getLast?.map Prod.fst

instance (details : Fields) : Decidable (Free details) :=
  inferInstanceAs (Decidable (∀ key ∈ reserved, details.lookup key = none))

/-- A step that keeps the log in order: what is verified and published has no field that stands
for one of the line, the time is there, only the first and a failed last line may be refused, and
the changelog is written after the first line and after the line of a run that succeeded. -/
def inOrder (t : Trace) : (c : Call) → c.Ret → Bool
  | .verify _, .ok (.obj l) | .publish _, .ok (.obj l) => decide (Free l)
  | .now, .error _ => false
  | .append type _, .error _ => decide (type = "run.started" ∨ type = "run.failed")
  | .changelog _, .error _ =>
    decide (lastType t ≠ some "run.started" ∧ lastType t ≠ some "run.finished")
  | _, _ => true

/-- The environment whose steps keep the log in order. -/
def orderly : Env Call Call.Ret Trace := traced.given fun t c r => inOrder t c r = true

/-! ### Lines -/

lemma lookup_spread_none {l l' : Fields} {k : String} (h : l'.lookup k = none) :
    (spread l l').lookup k = l.lookup k := by
  induction l' generalizing l with
  | nil => rfl
  | cons p l' ih =>
      obtain ⟨k', v⟩ := p
      rw [PodStore.lookup_cons_eq] at h
      split_ifs at h with hk
      rw [PodStore.spread_cons, ih h, lookup_put, if_neg hk]

lemma Free.spread {l l' : Fields} (h : Free l) (h' : Free l') : Free (spread l l') := by
  intro key hkey
  rw [lookup_spread_none (h' key hkey), h key hkey]

lemma line_eventOf {runId type timestamp : String} {sequence : ℕ} {details : Fields}
    (h : Free details) :
    Line runId sequence (type, eventOf runId type timestamp sequence details) := by
  refine ⟨?_, ?_, ?_⟩ <;> unfold eventOf <;> rw [lookup_spread_none (h _ (by decide))] <;> rfl

lemma isTerminal_of_line {runId : String} {sequence : ℕ} {p : String × Fields}
    (h : Line runId sequence p) :
    isTerminal p.2 = (decide (p.1 = "run.finished") || decide (p.1 = "run.failed")) := by
  rw [isTerminal, isType, isType, field, h.type]
  rfl

lemma Numbered.snoc {runId : String} {l : List (String × Fields)} {p : String × Fields}
    (h : Numbered runId l) (hp : Line runId (l.length + 1) p) : Numbered runId (l ++ [p]) := by
  intro k q hq
  rw [List.getElem?_append] at hq
  split_ifs at hq with hk
  · exact h k q hq
  · rw [List.getElem?_singleton] at hq
    split_ifs at hq with hk'
    obtain rfl := Option.some.inj hq
    have hkl : k = l.length := by omega
    rw [hkl]
    exact hp

lemma of_validatePublication {v : Json} {l : Fields} (h : validatePublication v = .ok l) :
    v = .obj l := by
  unfold validatePublication at h
  obtain ⟨l', hl, h⟩ := bind_eq_ok.mp h
  obtain ⟨_, -, h⟩ := bind_eq_ok.mp h
  obtain rfl := Except.ok.inj h
  exact PodStore.plainObject_eq hl

/-! ### Runs -/

section Runs

variable {i : Input} {α β : Type} {t : Trace}

/-- What a program does to an orderly log. -/
abbrev Keeps (p : Io α) (t : Trace) (Q : Except (Err × Memory) α → Trace → Prop) : Prop :=
  Safe orderly (fun _ _ => True) p t Q

/-- The log so far: as many lines as were numbered, and none that ends a run. -/
structure Log (runId : String) (m : Memory) (t : Trace) : Prop where
  numbered : Numbered runId (recorded t)
  length : (recorded t).length = m.sequence
  open' : ∀ p ∈ recorded t, isTerminal p.2 = false

variable {Q : Except (Err × Memory) α → Trace → Prop}

lemma keeps_ask {c : Call} {f : c.Ret → Io α}
    (h : ∀ r, inOrder t c r = true → Keeps (f r) (t ++ [⟨c, r⟩]) Q) : Keeps (ask c >>= f) t Q := by
  refine ⟨trivial, fun r t' ht => ?_⟩
  obtain ⟨⟨-, rfl⟩, hr⟩ := ht
  exact h r hr

lemma keeps_orFail {m : Memory} {x : Except Err β} {f : β → Io α}
    (herr : ∀ e, x = .error e → Q (.error (e, m)) t)
    (hok : ∀ a, x = .ok a → Keeps (f a) t Q) : Keeps (orFail m x >>= f) t Q := by
  cases x with
  | error e => exact herr e rfl
  | ok a => exact hok a rfl

lemma keeps_check {m : Memory} {x : Except String β} {f : β → Io α}
    (herr : ∀ e, Q (.error (e, m)) t) (hok : ∀ a, x = .ok a → Keeps (f a) t Q) :
    Keeps (check m x >>= f) t Q := by
  cases x with
  | error e => exact herr _
  | ok a => exact hok a rfl

lemma recorded_append (t new : Trace) : recorded (t ++ new) = recorded t ++ recorded new := by
  simp [recorded]

lemma recorded_none {e : (c : Call) × c.Ret} (he : appended e = none) : recorded [e] = [] := by
  rw [recorded, List.filterMap_cons, he, List.filterMap_nil]

lemma log_empty (runId : String) (t : Trace) (h : recorded t = []) : Log runId {} t := by
  refine ⟨fun k p hp => ?_, by rw [h]; rfl, fun p hp => ?_⟩
  · rw [h] at hp
    cases hp
  · rw [h] at hp
    cases hp

/-- A call that appends nothing. -/
lemma Log.quiet {runId : String} {m : Memory} (h : Log runId m t) {e : (c : Call) × c.Ret}
    (he : appended e = none) : Log runId m (t ++ [e]) := by
  have hrec : recorded (t ++ [e]) = recorded t := by
    rw [recorded_append, recorded_none he, List.append_nil]
  obtain ⟨hnum, hlen, hopen⟩ := h
  exact ⟨hrec ▸ hnum, hrec ▸ hlen, hrec ▸ hopen⟩

/-- What recording an event may leave behind: the line is refused, where the log allows that, or
it is the last line of the log. -/
lemma keeps_record {runId type : String} {details : Fields} {m : Memory}
    {Q : Except (Err × Memory) Memory → Trace → Prop} (hfree : Free details)
    (hrefused : (type = "run.started" ∨ type = "run.failed") →
      ∀ e m' t', ¬ LastAppended t' → Q (.error (e, m')) t')
    (hok : ∀ m' t' event, m'.sequence = m.sequence + 1 →
      recorded t' = recorded t ++ [(type, event)] → Line runId (m.sequence + 1) (type, event) →
      Q (.ok m') t')
    (herr : type ≠ "run.started" → type ≠ "run.finished" → ∀ e m' t' event,
      m'.sequence = m.sequence + 1 → recorded t' = recorded t ++ [(type, event)] →
      Line runId (m.sequence + 1) (type, event) → Q (.error (e, m')) t') :
    Keeps (record runId type details m) t Q := by
  unfold record
  refine keeps_ask fun now hnow => keeps_orFail (fun e he => ?_) fun timestamp _ => ?_
  · subst he
    cases hnow
  refine keeps_ask fun r hr => keeps_orFail (fun e he => ?_) fun u hu => ?_
  · -- the line is refused
    subst he
    refine hrefused (of_decide_eq_true hr) _ _ _ fun hlast => ?_
    rw [LastAppended, List.filterMap_append, List.getLast?_append] at hlast
    cases hlast
  · subst hu
    have hline : Line runId (m.sequence + 1)
        (type, eventOf runId type timestamp (m.sequence + 1) details) := line_eventOf hfree
    have hrec : ∀ e, appended e = none → recorded (t ++ [⟨.now, now⟩] ++
        [⟨.append type (eventOf runId type timestamp (m.sequence + 1) details), .ok u⟩] ++ [e]) =
        recorded t ++ [(type, eventOf runId type timestamp (m.sequence + 1) details)] := by
      intro e he
      rw [recorded_append, recorded_append, recorded_append, recorded_none he]
      exact (List.append_nil _).trans (by rw [recorded_none rfl, List.append_nil]; rfl)
    refine keeps_ask fun r hr => keeps_orFail (fun e he => ?_) fun _ _ => ?_
    · subst he
      have htype : lastType (t ++ [⟨.now, now⟩] ++
          [⟨.append type (eventOf runId type timestamp (m.sequence + 1) details), .ok u⟩]) =
          some type := by
        rw [lastType, recorded_append, List.getLast?_append]
        rfl
      obtain ⟨hstarted, hfinished⟩ := of_decide_eq_true hr
      refine herr (fun h => hstarted ?_) (fun h => hfinished ?_) _ _ _ _ rfl (hrec _ rfl) hline
      · rw [← h]
        exact htype
      · rw [← h]
        exact htype
    · exact hok _ _ _ rfl (hrec _ rfl) hline

/-- One more line that does not end the run. -/
lemma Log.snoc {runId type : String} {m m' : Memory} {t' : Trace} {event : Fields}
    (h : Log runId m t) (hm : m'.sequence = m.sequence + 1)
    (hrec : recorded t' = recorded t ++ [(type, event)])
    (hline : Line runId (m.sequence + 1) (type, event)) (hfinished : type ≠ "run.finished")
    (hfailed : type ≠ "run.failed") : Log runId m' t' := by
  refine ⟨?_, ?_, ?_⟩
  · rw [hrec]
    exact h.numbered.snoc (h.length ▸ hline)
  · rw [hrec, List.length_append, h.length, hm]
    rfl
  · intro p hp
    rw [hrec, List.mem_append, List.mem_singleton] at hp
    rcases hp with hp | rfl
    · exact h.open' p hp
    · rw [isTerminal_of_line hline, decide_eq_false hfinished, decide_eq_false hfailed]
      rfl

/-- The line that ends the run. -/
lemma Log.ended {runId type : String} {m : Memory} {t' : Trace} {event : Fields}
    (h : Log runId m t) (hrec : recorded t' = recorded t ++ [(type, event)])
    (hline : Line runId (m.sequence + 1) (type, event))
    (htype : type = "run.finished" ∨ type = "run.failed") : WellFormed runId t' := by
  refine ⟨?_, recorded t, (type, event), hrec, ?_, h.open'⟩
  · rw [hrec]
    exact h.numbered.snoc (h.length ▸ hline)
  · rw [isTerminal_of_line hline]
    rcases htype with rfl | rfl <;> rfl

/-- The log after a part of the run, whether it failed or not. -/
def After (runId : String) (memory : α → Memory) : Except (Err × Memory) α → Trace → Prop
  | .ok a, t => Log runId (memory a) t
  | .error (_, m), t => Log runId m t

/-- An event in the middle of a run. -/
lemma keeps_event {runId type : String} {details : Fields} {m : Memory} (hfree : Free details)
    (htype : type ∉ ["run.started", "run.finished", "run.failed"]) (h : Log runId m t) :
    Keeps (record runId type details m) t (After runId id) := by
  rw [List.mem_cons, List.mem_cons, List.mem_singleton, not_or, not_or] at htype
  obtain ⟨hstarted, hfinished, hfailed⟩ := htype
  refine keeps_record hfree (fun h => ?_) (fun m' t' event hm hrec hline => ?_)
    fun _ _ e m' t' event hm hrec hline => ?_
  · exact absurd h (not_or.mpr ⟨hstarted, hfailed⟩)
  · exact h.snoc hm hrec hline hfinished hfailed
  · exact h.snoc hm hrec hline hfinished hfailed

lemma keeps_remaining {runId : String} {d : ℚ} {m : Memory} {minimum : ℕ} {f : ℕ → Io α}
    (h : Log runId m t) (herr : ∀ e t', Log runId m t' → Q (.error (e, m)) t')
    (hok : ∀ seconds t', Log runId m t' → Keeps (f seconds) t' Q) :
    Keeps (remainingTimeoutSeconds d m minimum >>= f) t Q := by
  rw [Keeps, safe_bind]
  refine keeps_ask fun r _ => ?_
  have hclock := h.quiet (e := ⟨.clock, r⟩) rfl
  match r with
  | .error e => exact herr e _ hclock
  | .ok none => exact herr _ _ hclock
  | .ok (some now) =>
    change Keeps (check m (PodStore.require (now < d ∧ _) _) >>= fun _ => pure _) _ _
    exact keeps_check (fun e => herr e _ hclock) fun _ _ => hok _ _ hclock

/-- An event in the middle of a run, and what follows it. -/
lemma keeps_event_bind {runId type : String} {details : Fields} {m : Memory} {f : Memory → Io α}
    (hfree : Free details) (htype : type ∉ ["run.started", "run.finished", "run.failed"])
    (h : Log runId m t) (herr : ∀ e m' t', Log runId m' t' → Q (.error (e, m')) t')
    (hok : ∀ m' t', Log runId m' t' → Keeps (f m') t' Q) :
    Keeps (record runId type details m >>= f) t Q := by
  refine (keeps_event hfree htype h).bind (fun m' t' h' => hok m' t' h') fun e t' h' => ?_
  obtain ⟨e, m'⟩ := e
  exact herr e m' t' h'

lemma free_of_keys {l : Fields} (h : ∀ key ∈ reserved, key ∉ l.map Prod.fst) : Free l :=
  fun key hkey => lookup_eq_none (h key hkey)

/-- A receipt that was checked has no field of the line. -/
lemma free_of_validateReceipt {v : Json} {role : Role} {receipt : Fields}
    (h : validateReceipt v role = .ok receipt) : Free receipt := by
  refine free_of_keys fun key hkey hmem => ?_
  have hother : ∀ key ∈ reserved, key ∉ receiptFields := by decide
  exact hother key hkey ((keys_of_validateReceipt h).mem_iff.mp hmem)

lemma free_about (name : Name) (step attempt : ℕ) : Free (about name step attempt) :=
  free_of_keys (by simp [reserved, about])

/-- The role is run, which leaves the log alone. -/
lemma keeps_runRole {runId : String} {cfg : Config} {role : Role} {input : RoleInput} {m : Memory}
    (h : Log runId m t) : Keeps (runRole cfg role input m) t fun r t' =>
      match r with
      | .ok (receipt, _) => Log runId m t' ∧ Free receipt
      | .error (_, m') => Log runId m' t' := by
  unfold runRole
  refine keeps_remaining h (fun _ _ h => h) fun seconds t h => ?_
  refine keeps_ask fun r _ => ?_
  have h := h.quiet (e := ⟨.runRole _, r⟩) rfl
  refine keeps_orFail (fun _ _ => h) fun result _ => ?_
  rw [Keeps, safe_bind, safe_attempt]
  unfold runRole.receiptOf
  refine keeps_remaining h (fun _ _ h => h) fun seconds t h => ?_
  refine keeps_check (fun _ => h) fun l _ => ?_
  cases hv : validateReceipt (field l "receipt") role with
  | error e => exact h
  | ok receipt => exact ⟨h, free_of_validateReceipt hv⟩

lemma keeps_roleStep {runId : String} {cfg : Config} (hid : cfg.input.runId = runId)
    {step attempt : ℕ} {name : Name} {role : Role} {instructions : String} {m : Memory}
    (h : Log runId m t) :
    Keeps (roleStep cfg step name attempt role instructions m) t (After runId Prod.snd) := by
  subst hid
  unfold roleStep
  refine keeps_check (fun _ => h) fun prompt _ => ?_
  refine keeps_event_bind (free_of_keys (by simp [reserved, about])) (by decide) h
    (fun _ _ _ h => h) fun m t h => ?_
  rw [Keeps, safe_bind, safe_attempt]
  refine (keeps_runRole h).mono fun r t hr => ?_
  rcases r with ⟨e, m⟩ | ⟨receipt, runtime⟩
  · refine keeps_event_bind (free_of_keys (by simp [reserved, about])) (by decide) hr
      (fun _ _ _ h => h) fun m t h => ?_
    exact h
  · obtain ⟨h, hreceipt⟩ := hr
    refine keeps_event_bind (((free_about _ _ _).spread hreceipt).spread
      (free_of_keys (by simp [reserved]))) (by decide) h (fun _ _ _ h => h) fun m t h => ?_
    cases follow role receipt with
    | none => exact h
    | some target => exact h

lemma keeps_takeStep {runId : String} {cfg : Config} (hid : cfg.input.runId = runId)
    {step attempt : ℕ} {name : Name} {m : Memory} (h : Log runId m t) :
    Keeps (takeStep cfg step name attempt m) t (After runId Prod.snd) := by
  unfold takeStep
  refine keeps_remaining h (fun _ _ h => h) fun seconds t h => ?_
  cases cfg.workflow.roles.lookup name.key with
  | none => exact h
  | some role =>
      cases cfg.input.prompts.lookup name.key with
      | none => exact h
      | some instructions =>
          dsimp only
          exact keeps_roleStep hid h

/-- The log when what is tried is over: complete, or still to be closed. -/
def Ended (runId : String) : Except (Err × Memory) Result → Trace → Prop
  | .ok _, t => WellFormed runId t
  | .error (_, m), t => Log runId m t

lemma keeps_complete {runId : String} {cfg : Config} (hid : cfg.input.runId = runId) {step : ℕ}
    {m : Memory} (h : Log runId m t) : Keeps (complete cfg step m) t (Ended runId) := by
  subst hid
  unfold complete
  refine keeps_remaining h (fun _ _ h => h) fun seconds t h => ?_
  refine keeps_ask fun r hr => ?_
  have h := h.quiet (e := ⟨.verify seconds, r⟩) rfl
  refine keeps_orFail (fun _ _ => h) fun v hv => keeps_check (fun _ => h) fun l hl => ?_
  subst hv
  obtain rfl := of_validateVerification hl
  have hfree : Free l := of_decide_eq_true hr
  refine keeps_remaining h (fun _ _ h => h) fun _ t h => ?_
  refine keeps_event_bind hfree (by decide) h (fun _ _ _ h => h) fun m t h => ?_
  refine keeps_check (fun _ => h) fun _ _ => ?_
  refine keeps_remaining h (fun _ _ h => h) fun seconds t h => ?_
  refine keeps_ask fun r hr => ?_
  have h := h.quiet (e := ⟨.publish seconds, r⟩) rfl
  refine keeps_orFail (fun _ _ => h) fun v hv => keeps_check (fun _ => h) fun l hl => ?_
  subst hv
  obtain rfl := of_validatePublication hl
  have hfree : Free l := of_decide_eq_true hr
  refine keeps_event_bind hfree (by decide) h (fun _ _ _ h => h) fun m t h => ?_
  -- neither the last line nor the changelog after it is refused
  refine Safe.bind (R := fun r t => ∃ m, r = .ok m ∧ WellFormed cfg.input.runId t)
    (keeps_record (free_of_keys (by simp [reserved])) (fun h => ?_) ?_ ?_) ?_ ?_
  · exact absurd h (by decide)
  · intro m' t' event _ hrec hline
    exact ⟨m', rfl, h.ended hrec hline (.inl rfl)⟩
  · exact fun _ h => absurd rfl h
  · rintro m t ⟨-, -, h⟩
    exact h
  · rintro e t ⟨m, he, -⟩
    cases he

lemma keeps_steps {runId : String} {cfg : Config} (hid : cfg.input.runId = runId) (left : ℕ) :
    ∀ {t : Trace} {step : ℕ} {name : Name} {attempts : Name → ℕ} {m : Memory},
      Log runId m t → Keeps (steps cfg left step name attempts m) t (Ended runId) := by
  induction left with
  | zero =>
      intro t step name attempts m h
      exact h
  | succ left ih =>
      intro t step name attempts m h
      unfold steps
      refine (keeps_takeStep hid h).bind (fun a t h => ?_) fun e t h => h
      obtain ⟨target, m⟩ := a
      cases target with
      | done => exact keeps_complete hid h
      | role next => exact ih h

end Runs

/-- An orderly run, from its first call on. -/
lemma keeps_runWorkflow (i : Input) :
    Keeps (runWorkflow i) [] fun _ t => LastAppended t → WellFormed i.runId t := by
  -- without a line there is no last one
  have hnone : ∀ t : Trace, t.filterMap appends = [] → LastAppended t → WellFormed i.runId t := by
    intro t ht hlast
    rw [LastAppended, ht] at hlast
    cases hlast
  unfold runWorkflow
  refine keeps_check (fun _ => hnone _ rfl) fun w _ => ?_
  refine ⟨trivial, fun r t ht => ?_⟩
  obtain ⟨⟨-, rfl⟩, -⟩ := ht
  match r with
  | .error e => exact hnone _ rfl
  | .ok none => exact hnone _ rfl
  | .ok (some now) =>
    refine keeps_check (fun _ => hnone _ rfl) fun d _ => ?_
    refine keeps_ask fun r _ => keeps_orFail (fun _ _ => hnone _ rfl) fun _ _ => ?_
    refine keeps_ask fun r _ => keeps_orFail (fun _ _ => hnone _ rfl) fun _ _ => ?_
    refine keeps_ask fun previous _ => ?_
    refine keeps_ask fun r _ => keeps_orFail (fun _ _ => hnone _ rfl) fun _ _ => ?_
    refine keeps_ask fun r _ => keeps_orFail (fun _ _ => hnone _ rfl) fun _ _ => ?_
    refine Safe.bind (R := fun r t =>
        match r with
        | .ok m => Log i.runId m t
        | .error _ => ¬ LastAppended t)
      (keeps_record (free_of_keys (by simp [reserved])) ?_ ?_ ?_) (fun m t h => ?_) ?_
    · exact fun _ e m' t h => h
    · intro m' t event hm hrec hline
      exact (log_empty _ _ rfl).snoc hm hrec hline (by decide) (by decide)
    · exact fun h => absurd rfl h
    · rw [safe_bind, safe_attempt]
      unfold body
      have hclose : ∀ e m t, Log i.runId m t → Keeps (do
          let m ← record i.runId "run.failed"
            [("status", .str "failed"), ("reason", .str (safeReason e))] m
          Prog.fail (e, m) : Io Result) t fun _ t => LastAppended t → WellFormed i.runId t := by
        intro e m t h
        refine Safe.bind (R := fun _ t => LastAppended t → WellFormed i.runId t)
          (keeps_record (free_of_keys (by simp [reserved])) ?_ ?_ ?_) (fun _ _ h => h)
          fun _ _ h => h
        · exact fun _ _ _ _ h hlast => absurd hlast h
        · exact fun _ _ _ _ hrec hline _ => h.ended hrec hline (.inr rfl)
        · exact fun _ _ _ _ _ _ _ hrec hline _ => h.ended hrec hline (.inr rfl)
      refine keeps_ask fun r _ => ?_
      have h := h.quiet (e := ⟨.writeLatest, r⟩) rfl
      refine keeps_orFail (fun e _ => hclose e m _ h) fun _ _ => ?_
      refine (keeps_steps rfl _ h).mono fun r t hr => ?_
      match r with
      | .ok result => exact fun _ => hr
      | .error (e, m) => exact hclose e m t hr
    · exact fun e t h hlast => absurd hlast h

/-- The program is through, whether it failed or not. -/
def Settled (p : Io Result) : Prop := (∃ a, p = .ret a) ∨ ∃ e, p = .fail e

/-- **The log of an orderly run.** When a run settles whose steps all keep the log in order, and
the last line that was to be appended is in the log, the lines carry the numbers from one on, the
id of the run and the type each was recorded under, and the last of them, and no other, ends the
run. -/
theorem workflow_log (i : Input) {q : Io Result} {t : Trace}
    (h : Exec orderly (runWorkflow i) [] q t) (hq : Settled q)
    (hlast : LastAppended t) : WellFormed i.runId t := by
  have hsafe := (keeps_runWorkflow i).exec h
  rcases hq with ⟨a, rfl⟩ | ⟨e, rfl⟩
  · exact hsafe hlast
  · exact hsafe hlast

/-! ### Runs with and without order -/

/-- The program is through. -/
def settled : Io Result → Bool
  | .ret _ | .fail _ => true
  | .call _ _ => false

lemma settled_of {q : Io Result} (h : settled q = true) : Settled q := by
  cases q with
  | ret a => exact .inl ⟨a, rfl⟩
  | fail e => exact .inr ⟨e, rfl⟩
  | call c k => cases h

/-- A failure of a file or of the time while an event is recorded. -/
def refused : (c : Call) × c.Ret → Bool
  | ⟨.now, .error _⟩ | ⟨.append _ _, .error _⟩ | ⟨.changelog _, .error _⟩ => true
  | _ => false

/-- What can be computed of a log that is well formed: each line has its number, and one ends the
run. -/
def wellFormedCheck (t : Trace) : Bool :=
  ((recorded t).zipIdx.all fun x => PodStore.isNum (x.1.2.lookup "sequence") (x.2 + 1)) &&
    (recorded t).countP (fun p => isTerminal p.2) == 1

lemma WellFormed.check {runId : String} {t : Trace} (h : WellFormed runId t) :
    wellFormedCheck t = true := by
  rw [wellFormedCheck, Bool.and_eq_true]
  constructor
  · rw [List.all_eq_true]
    rintro ⟨p, k⟩ hmem
    rw [(h.numbered k p (List.mem_zipIdx_iff_getElem?.mp hmem)).sequence]
    exact decide_eq_true rfl
  · obtain ⟨l, p, hrec, hp, hl⟩ := h.terminal
    rw [hrec, List.countP_append, List.countP_eq_zero.mpr (fun q hq => by simp [hl q hq]),
      List.countP_singleton, if_pos hp]
    rfl

/-- A run whose answers are given, as far as these calls go. -/
def sampleRun (can : Trace → (c : Call) → c.Ret → Bool) (answer : Trace → (c : Call) → c.Ret)
    (n : ℕ) : Option (Io Result × Trace) :=
  Bimo.follow (fun t c r => can t c r = true) (fun t c r => t ++ [⟨c, r⟩]) answer n
    (runWorkflow sampleInput) []

lemma exec_sampleRun (can : Trace → (c : Call) → c.Ret → Bool)
    (answer : Trace → (c : Call) → c.Ret) (n : ℕ) (P : Io Result × Trace → Bool)
    (h : (sampleRun can answer n).any P = true) :
    ∃ q t, Exec (traced.given fun t c r => can t c r = true) (runWorkflow sampleInput) [] q t ∧
      P (q, t) = true := by
  obtain ⟨⟨q, t⟩, hq, hP⟩ := (Option.any_eq_true _ _).mp h
  have hx := exec_of_follow (E := traced.given fun t c r => can t c r = true)
    (fun t c hc => ⟨traced_step t c _, hc⟩) hq
  exact ⟨q, t, hx, hP⟩

/-- A run in which everything goes well has a log that is well formed. -/
theorem workflow_log_sample : ∃ q t, Exec orderly (runWorkflow sampleInput) [] q t ∧ Settled q ∧
    LastAppended t ∧ WellFormed sampleInput.runId t := by
  obtain ⟨q, t, hx, hP⟩ := exec_sampleRun inOrder (answers samplePassed samplePublication) 40
    (fun x => settled x.1 && decide (LastAppended x.2)) (by
      delta sampleRun runWorkflow body steps
      delta steps._f takeStep
      delta roleStep
      rw [buildPrompt_eq_quickPrompt]
      decide +kernel)
  rw [Bool.and_eq_true, decide_eq_true_eq] at hP
  have hq := settled_of hP.1
  exact ⟨q, t, hx, hq, hP.2, workflow_log sampleInput hx hq hP.2⟩

/-- A verification that passed and has a number of its own. -/
def sampleNumbered : Json :=
  .obj [("status", .str "passed"), ("evidence", .arr [.str "e"]), ("sequence", .num "1")]

/-- The changelog of the first line cannot be written. -/
def unwritten (t : Trace) : (c : Call) → c.Ret
  | .changelog events =>
    if events.length = 1 then .error { message := "ENOSPC" } else .ok ()
  | c => answers samplePassed samplePublication t c

/-- The log is not well formed after a verification with a field of its own named like one of the
line, without any failure, nor after one failure to write the changelog. -/
theorem log_not_wellFormed :
    (∃ q t, Exec traced (runWorkflow sampleInput) [] q t ∧ Settled q ∧ t.countP refused = 0 ∧
      LastAppended t ∧ ¬ WellFormed sampleInput.runId t) ∧
    ∃ q t, Exec traced (runWorkflow sampleInput) [] q t ∧ Settled q ∧ t.countP refused = 1 ∧
      LastAppended t ∧ ¬ WellFormed sampleInput.runId t := by
  have hrun : ∀ (answer : Trace → (c : Call) → c.Ret) (n : ℕ),
      (sampleRun (fun _ _ _ => true) answer 40).any (fun x => settled x.1 &&
        x.2.countP refused == n && decide (LastAppended x.2) && !wellFormedCheck x.2) = true →
      ∃ q t, Exec traced (runWorkflow sampleInput) [] q t ∧ Settled q ∧ t.countP refused = n ∧
        LastAppended t ∧ ¬ WellFormed sampleInput.runId t := by
    intro answer n h
    obtain ⟨q, t, hx, hP⟩ := exec_sampleRun _ _ _ _ h
    simp only [Bool.and_eq_true, decide_eq_true_eq, beq_iff_eq, Bool.not_eq_true'] at hP
    obtain ⟨⟨⟨hq, hn⟩, hlast⟩, hcheck⟩ := hP
    refine ⟨q, t, hx.of_given, settled_of hq, hn, hlast, fun hwf => ?_⟩
    rw [hwf.check] at hcheck
    cases hcheck
  constructor
  · apply hrun (answers sampleNumbered samplePublication) 0
    delta sampleRun runWorkflow body steps
    delta steps._f takeStep
    delta roleStep
    rw [buildPrompt_eq_quickPrompt]
    decide +kernel
  · apply hrun unwritten 1
    delta sampleRun runWorkflow body steps
    delta steps._f takeStep
    delta roleStep
    rw [buildPrompt_eq_quickPrompt]
    decide +kernel

end Bimo.Flow
