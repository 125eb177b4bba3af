import Bimo.History

/-!
The prompts of a workflow: that they fit, and what they show of the past.

The instructions of a role, the task, the changelog of the run before and the receipts of this
run are bounded one by one, and together they stay below the limit of a prompt. The receipts are
bounded in their compact form, and the names of the roles with them as long as these are written
as strings: a name may also be a list around a string, and then it has no bound when it is shown.
-/

namespace Bimo.Flow

open Wire (Json len bytes)
open PodStore (Fields isRunId require_eq)
open Contract (isName printed)

/-! ### The parts of a prompt -/

lemma bytes_le (cs : List Char) : bytes cs ≤ 4 * cs.length := by
  induction cs with
  | nil => rfl
  | cons c cs ih =>
      have hc := c.utf8Size_le_four
      rw [Wire.bytes_cons, List.length_cons]
      omega

lemma len_le (s : String) : len s ≤ 4 * s.length := by
  rw [← String.length_toList]
  exact bytes_le s.toList

/-- The outcomes that a role has, with what separates them. -/
lemma sum_allowed {allowed : List String} (hcount : allowed.length ≤ 8)
    (hlength : ∀ s ∈ allowed, s.length ≤ 32) :
    (allowed.map fun s => len s + 2).sum ≤ 1040 := by
  have hsum : ∀ l : List String, (∀ s ∈ l, s.length ≤ 32) →
      (l.map fun s => len s + 2).sum ≤ 130 * l.length := by
    intro l hl
    induction l with
    | nil => rfl
    | cons s l ih =>
        have hs := len_le s
        have hshort := hl s List.mem_cons_self
        have hrest := ih fun x hx => hl x (List.mem_cons_of_mem _ hx)
        simp only [List.map_cons, List.sum_cons, List.length_cons]
        omega
  have hall := hsum allowed hlength
  omega

/-- A prompt whose parts are in bounds is not refused. -/
lemma buildPrompt_ok {roleName instructions task : String} {previous : Past}
    {events : List Fields} {allowed : List String} (hname : roleName.length ≤ 32)
    (hinstructions : len instructions ≤ 32 * 1024) (htask : len task ≤ 64 * 1024)
    (hcurrent : len (currentHistory events) ≤ maxCurrentHistoryBytes)
    (hcount : allowed.length ≤ 8) (hlength : ∀ s ∈ allowed, s.length ≤ 32) :
    ∃ prompt, buildPrompt roleName instructions task previous events allowed = .ok prompt := by
  have hallowed := sum_allowed hcount hlength
  have hroleName := len_le roleName
  have hmax : maxAgentPromptBytes = 258048 := rfl
  have hpast : maxPreviousHistoryBytes = 49152 := rfl
  have hshown : maxCurrentHistoryBytes = 98304 := rfl
  refine exists_prompt ?_
  omega

/-! ### The bounds of a workflow -/

lemma length_of_isName {s : String} (h : isName s = true) : s.length ≤ 32 := by
  unfold isName at h
  rw [← String.length_toList]
  split at h
  · cases h
  · rename_i c cs hcs
    rw [Bool.and_eq_true, decide_eq_true_eq] at h
    rw [hcs, List.length_cons]
    omega

/-- A name that prints as its key. -/
def Name.Printed (n : Name) : Prop := n.key = printed n.value

/-- A name that is written as a string is its key. -/
lemma Name.Printed.value {n : Name} (h : n.Printed) (hplain : n.plain = true) :
    n.value = .str n.key := by
  unfold Name.plain at hplain
  split at hplain
  · rename_i s hs
    rw [h, hs]
    rfl
  · cases hplain

lemma printed_of_nameOf {place : Option (String × String)} {v : Json} {n : Name}
    (h : nameOf place v = some n) : n.Printed := by
  unfold nameOf at h
  split_ifs at h
  obtain rfl := Option.some.inj h
  rfl

/-- What is known of the transitions of a role. -/
structure Transitions (on : List (String × Target)) : Prop where
  outcomes : ∀ p ∈ on, isName p.1 = true
  names : ∀ p ∈ on, ∀ n, p.2 = .role n → n.Printed

lemma printed_of_checkTarget {roles : Fields} {roleName outcome : String} {v : Json} {n : Name}
    (h : checkTarget roles roleName outcome v = .ok (.role n)) : n.Printed := by
  unfold checkTarget at h
  split at h
  · cases h
  · split at h
    · rename_i m hm
      obtain rfl := Target.role.inj (Except.ok.inj h)
      exact printed_of_nameOf (Option.filter_eq_some_iff.mp hm).1
    · cases h

lemma transitions_of_checkTransitions {roles : Fields} {roleName : String} (l : Fields) :
    ∀ {on : List (String × Target)}, checkTransitions roles roleName l = .ok on →
      on.length = l.length ∧ Transitions on := by
  induction l with
  | nil =>
      intro on h
      obtain rfl := Except.ok.inj h
      exact ⟨rfl, nofun, nofun⟩
  | cons p l ih =>
      intro on h
      obtain ⟨_, hname, h⟩ := bind_eq_ok.mp h
      obtain ⟨target, htarget, h⟩ := bind_eq_ok.mp h
      obtain ⟨rest, hrest, h⟩ := bind_eq_ok.mp h
      obtain rfl := Except.ok.inj h
      obtain ⟨hlength, hout, hnames⟩ := ih hrest
      refine ⟨by rw [List.length_cons, List.length_cons, hlength], ?_, ?_⟩
      · rintro q (_ | ⟨_, hq⟩)
        · exact require_eq.mp hname
        · exact hout q hq
      · rintro q (_ | ⟨_, hq⟩) n hn
        · dsimp only at hn
          subst hn
          exact printed_of_checkTarget htarget
        · exact hnames q hq n hn

/-- What is known of a role with its name. -/
structure RoleBounds (p : String × Role) : Prop where
  name : isName p.1 = true
  count : p.2.on.length ≤ 8
  transitions : Transitions p.2.on

lemma bounds_of_checkRole {roles : Fields} {roleName : String} {v : Json} {role : Role}
    (h : checkRole roles roleName v = .ok role) : RoleBounds (roleName, role) := by
  obtain ⟨_, hname, h⟩ := bind_eq_ok.mp h
  obtain ⟨l, -, h⟩ := bind_eq_ok.mp h
  obtain ⟨_, -, h⟩ := bind_eq_ok.mp h
  obtain ⟨prompt, -, h⟩ := bind_eq_ok.mp h
  obtain ⟨write, -, h⟩ := bind_eq_ok.mp h
  obtain ⟨transitions, -, h⟩ := bind_eq_ok.mp h
  obtain ⟨_, hcount, h⟩ := bind_eq_ok.mp h
  obtain ⟨on, hon, h⟩ := bind_eq_ok.mp h
  obtain rfl := Except.ok.inj h
  obtain ⟨hlength, htransitions⟩ := transitions_of_checkTransitions transitions hon
  exact ⟨require_eq.mp hname, hlength ▸ (require_eq.mp hcount).2, htransitions⟩

lemma bounds_of_checkRoles {roles : Fields} (l : Fields) :
    ∀ {checked : List (String × Role)}, checkRoles roles l = .ok checked →
      ∀ p ∈ checked, RoleBounds p := by
  induction l with
  | nil =>
      intro checked h
      obtain rfl := Except.ok.inj h
      exact nofun
  | cons q l ih =>
      intro checked h
      obtain ⟨role, hrole, h⟩ := bind_eq_ok.mp h
      obtain ⟨rest, hrest, h⟩ := bind_eq_ok.mp h
      obtain rfl := Except.ok.inj h
      rintro p (_ | ⟨_, hp⟩)
      · exact bounds_of_checkRole hrole
      · exact ih hrest p hp

/-- What is known of a workflow that was checked. -/
lemma bounds_of_validateWorkflow {v : Json} {w : Workflow} (h : validateWorkflow v = .ok w) :
    w.maxSteps ≤ 20 ∧ w.start.Printed ∧ ∀ p ∈ w.roles, RoleBounds p := by
  obtain ⟨l, -, h⟩ := bind_eq_ok.mp h
  obtain ⟨_, -, h⟩ := bind_eq_ok.mp h
  obtain ⟨_, -, h⟩ := bind_eq_ok.mp h
  obtain ⟨name, -, h⟩ := bind_eq_ok.mp h
  obtain ⟨start, hstart, h⟩ := bind_eq_ok.mp h
  obtain ⟨maxSteps, hsteps, h⟩ := bind_eq_ok.mp h
  obtain ⟨timeouts, -, h⟩ := bind_eq_ok.mp h
  obtain ⟨_, -, h⟩ := bind_eq_ok.mp h
  obtain ⟨stepSeconds, -, h⟩ := bind_eq_ok.mp h
  obtain ⟨workflowSeconds, -, h⟩ := bind_eq_ok.mp h
  obtain ⟨raw, -, h⟩ := bind_eq_ok.mp h
  obtain ⟨_, -, h⟩ := bind_eq_ok.mp h
  obtain ⟨_, -, h⟩ := bind_eq_ok.mp h
  obtain ⟨roles, hroles, h⟩ := bind_eq_ok.mp h
  obtain ⟨_, -, h⟩ := bind_eq_ok.mp h
  obtain ⟨_, -, h⟩ := bind_eq_ok.mp h
  obtain ⟨output, -, h⟩ := bind_eq_ok.mp h
  obtain rfl := Except.ok.inj h
  refine ⟨(Contract.assertInteger_eq hsteps).2, ?_, bounds_of_checkRoles raw hroles⟩
  unfold assertName at hstart
  split at hstart
  · rename_i n hn
    obtain rfl := Except.ok.inj hstart
    exact printed_of_nameOf hn
  · cases hstart

lemma mem_of_lookup {α : Type} {l : List (String × α)} {key : String} {v : α}
    (h : l.lookup key = some v) : (key, v) ∈ l := by
  induction l with
  | nil => cases h
  | cons p l ih =>
      obtain ⟨k, x⟩ := p
      rw [List.lookup_cons] at h
      split at h
      · rename_i hk
        obtain rfl := Option.some.inj h
        obtain rfl := beq_iff_eq.mp hk
        exact List.mem_cons_self
      · exact List.mem_cons_of_mem _ (ih h)

/-! ### What a prompt has to be -/

/-- The target, where it is a role, is written as a string. -/
def Target.plain : Target → Bool
  | .done => true
  | .role n => n.plain

/-- The start and the targets are written as strings. -/
def PlainNames (w : Workflow) : Prop :=
  w.start.plain = true ∧ ∀ p ∈ w.roles, ∀ q ∈ p.2.on, q.2.plain = true

instance (w : Workflow) : Decidable (PlainNames w) := inferInstanceAs (Decidable (_ ∧ _))

/-- The prompts are as a template is loaded with. -/
def Loaded (i : Input) : Prop := ∀ p ∈ i.prompts, len p.2 ≤ 32 * 1024

instance (i : Input) : Decidable (Loaded i) := inferInstanceAs (Decidable (∀ p ∈ _, _))

/-- The changelog that was found, when it was asked for. -/
def previousAnswer : (c : Call) × c.Ret → Option (Option (String × String))
  | ⟨.previousHistory, r⟩ => some r
  | _ => none

def previousIn (t : Trace) : Option (String × String) := (t.filterMap previousAnswer).head?.join

/-- The prompt of every role can be built from these events, given the changelog that was found
and the receipts on record; and what it shows of the past. -/
structure Prompted (i : Input) (w : Workflow) (found : Option (String × String))
    (receipts events : List Fields) : Prop where
  build : ∀ key role instructions, w.roles.lookup key = some role →
    i.prompts.lookup key = some instructions →
    ∃ prompt, buildPrompt key instructions i.task (previousOf found).2 events
      (role.on.map Prod.fst) = .ok prompt
  bound : len (previousOf found).2.text ≤ maxPreviousHistoryBytes
  previous : (previousOf found).2.text = "None." ∨ ∃ runId changelog,
    found = some (runId, changelog) ∧
      Kept maxPreviousHistoryBytes changelog (previousOf found).2.text
  current : Shows (receipts.map handoff) (currentHistory events)

/-- The line of a step at which the next prompt is built. -/
def beforePrompt (type : String) : Bool := type = "run.started" || type = "role.finished"

/-- What is said of the calls of a run: after the line that says that the run has started or a
role was finished, every prompt can be built, and a role is called with one that was. -/
def Tells (i : Input) (w : Workflow) (t : Trace) : Call → Prop
  | .changelog events => ∀ type event r, t.getLast? = some ⟨.append type event, r⟩ →
      beforePrompt type = true → Prompted i w (previousIn t) (finished t) events
  | .runRole input => ∃ events role instructions,
      w.roles.lookup input.role.key = some role ∧
      i.prompts.lookup input.role.key = some instructions ∧
      Prompted i w (previousIn t) (finished t) events ∧
      buildPrompt input.role.key instructions i.task (previousOf (previousIn t)).2 events
        (role.on.map Prod.fst) = .ok input.prompt
  | _ => True

section Bounds

variable {i : Input} {w : Workflow} (hw : checkInput i = .ok w) (hloaded : Loaded i)

include hw in
lemma bounds_of_checkInput : w.maxSteps ≤ 20 ∧ w.start.Printed ∧
    (∀ p ∈ w.roles, RoleBounds p) ∧ len i.task ≤ 64 * 1024 := by
  obtain ⟨w', hvalid, h⟩ := bind_eq_ok.mp hw
  obtain ⟨task, htask, h⟩ := bind_eq_ok.mp h
  obtain ⟨_, -, h⟩ := bind_eq_ok.mp h
  obtain ⟨_, -, h⟩ := bind_eq_ok.mp h
  obtain rfl := Except.ok.inj h
  obtain ⟨hsteps, hstart, hroles⟩ := bounds_of_validateWorkflow hvalid
  refine ⟨hsteps, hstart, hroles, ?_⟩
  obtain ⟨_, hlen, -⟩ := bind_eq_ok.mp htask
  exact (require_eq.mp hlen).2

lemma previousOf_cases (found : Option (String × String)) :
    (previousOf found).2.text = "None." ∨ ∃ runId changelog, found = some (runId, changelog) ∧
      Kept maxPreviousHistoryBytes changelog (previousOf found).2.text := by
  cases found with
  | none => exact .inl rfl
  | some p =>
      obtain ⟨runId, changelog⟩ := p
      unfold previousOf
      dsimp only
      split_ifs
      · exact .inr ⟨runId, changelog, rfl, kept_truncateHistory (by decide) changelog⟩
      · exact .inl rfl

lemma len_of_shows {receipts : List Json} {shown : String} (h : Shows receipts shown) :
    len shown ≤ maxCurrentHistoryBytes := by
  rcases h with ⟨-, rfl⟩ | ⟨_, -, -, h, -⟩
  · decide
  · exact h

include hw hloaded in
/-- From events with the receipts on record every prompt can be built. -/
lemma prompted {receipts events : List Fields}
    (hevents : events.filter (isType · "role.finished") = receipts)
    (hsized : ∀ event ∈ receipts, Sized (handoff event)) (hcount : receipts.length ≤ 20)
    (found : Option (String × String)) : Prompted i w found receipts events := by
  obtain ⟨-, -, hroles, htask⟩ := bounds_of_checkInput hw
  have hshows : Shows (receipts.map handoff) (currentHistory events) := by
    rw [currentHistory, hevents]
    refine shows_history (fun v hv => ?_) (by rwa [List.length_map])
    obtain ⟨event, hevent, rfl⟩ := List.mem_map.mp hv
    exact hsized event hevent
  refine ⟨fun key role instructions hrole hinstructions => ?_, (previousOf found).2.bound,
    previousOf_cases found, hshows⟩
  have hbounds := hroles _ (mem_of_lookup hrole)
  refine buildPrompt_ok (length_of_isName hbounds.name) (hloaded _ (mem_of_lookup hinstructions))
    htask (len_of_shows hshows) ?_ fun s hs => ?_
  · rw [List.length_map]
    exact hbounds.count
  · obtain ⟨q, hq, rfl⟩ := List.mem_map.mp hs
    exact length_of_isName (hbounds.transitions.outcomes q hq)

end Bounds

/-! ### The parts of a run -/

section Parts

variable {i : Input} {w : Workflow} {α β : Type} {Q : Except (Err × Memory) α → Trace → Prop}
  {t : Trace} {m : Memory}

/-- A part of a run that does as is said of its calls. -/
abbrev Telling (i : Input) (w : Workflow) (p : Io α) (t : Trace)
    (Q : Except (Err × Memory) α → Trace → Prop) : Prop :=
  Safe traced (Tells i w) p t Q

/-- The receipts in memory are those on record, of a size that is known, and there are at most so
many of them. -/
structure Ready (found : Option (String × String)) (m : Memory) (n : ℕ) (t : Trace) : Prop where
  found : (t.filterMap previousAnswer).head? = some found
  events : m.events.filter (isType · "role.finished") = finished t
  sized : ∀ event ∈ finished t, Sized (handoff event)
  count : (finished t).length ≤ n

variable {found : Option (String × String)} {n : ℕ}

lemma Ready.previousIn (h : Ready found m n t) : previousIn t = found := by
  rw [Flow.previousIn, h.found]
  rfl

lemma finished_quiet {e : (c : Call) × c.Ret} (he : appended e = none) (t : Trace) :
    finished (t ++ [e]) = finished t := by
  have hnone : finished [e] = [] := by
    rw [finished, recorded_none he, List.filter_nil, List.map_nil]
  rw [finished_append, hnone, List.append_nil]

lemma head?_filterMap_append {t new : Trace} (h : (t.filterMap previousAnswer).head? = some found) :
    ((t ++ new).filterMap previousAnswer).head? = some found := by
  rw [List.filterMap_append, List.head?_append, h, Option.some_or]

/-- A call that appends nothing. -/
lemma Ready.quiet (h : Ready found m n t) {e : (c : Call) × c.Ret} (he : appended e = none) :
    Ready found m n (t ++ [e]) := by
  obtain ⟨hfound, hevents, hsized, hcount⟩ := h
  have hfin := finished_quiet he t
  exact ⟨head?_filterMap_append hfound, hfin ▸ hevents, hfin ▸ hsized, hfin ▸ hcount⟩

lemma tells_ask {c : Call} {f : c.Ret → Io α} (hc : Tells i w t c)
    (hf : ∀ r, Telling i w (f r) (t ++ [⟨c, r⟩]) Q) : Telling i w (ask c >>= f) t Q :=
  safe_traced hc hf

lemma tells_orFail {x : Except Err β} {f : β → Io α} (herr : ∀ e, Q (.error (e, m)) t)
    (hf : ∀ a, x = .ok a → Telling i w (f a) t Q) : Telling i w (orFail m x >>= f) t Q := by
  cases x with
  | error e => exact herr e
  | ok a => exact hf a rfl

lemma tells_check {x : Except String β} {f : β → Io α} (herr : ∀ e, Q (.error (e, m)) t)
    (hf : ∀ a, x = .ok a → Telling i w (f a) t Q) : Telling i w (check m x >>= f) t Q := by
  cases x with
  | error e => exact herr _
  | ok a => exact hf a rfl

lemma tells_remaining {d : ℚ} {minimum : ℕ} {f : ℕ → Io α}
    (herr : ∀ e r, Q (.error (e, m)) (t ++ [⟨.clock, r⟩]))
    (hf : ∀ seconds r, Telling i w (f seconds) (t ++ [⟨.clock, r⟩]) Q) :
    Telling i w (remainingTimeoutSeconds d m minimum >>= f) t Q := by
  rw [Telling, safe_bind]
  refine tells_ask trivial fun r => ?_
  match r with
  | .error e => exact herr e _
  | .ok none => exact herr _ _
  | .ok (some now) =>
    change Telling i w (check m (PodStore.require (now < d ∧ _) _) >>= fun _ => pure _) _ _
    exact tells_check (fun e => herr e _) fun _ _ => hf _ _

/-- An event that no prompt is built after. -/
lemma tells_loose {runId type : String} {details : Fields} {f : Memory → Io α}
    (htype : beforePrompt type = false) (herr : ∀ e t', Q (.error e) t')
    (hf : ∀ m' t', Telling i w (f m') t' Q) :
    Telling i w (record runId type details m >>= f) t Q := by
  rw [Telling, safe_bind]
  unfold record
  refine tells_ask trivial fun now => tells_orFail (fun _ => herr _ _) fun timestamp _ => ?_
  refine tells_ask trivial fun r => tells_orFail (fun _ => herr _ _) fun _ _ => ?_
  refine tells_ask (fun type' event r' hlast hbefore => ?_) fun r => ?_
  · rw [List.getLast?_concat] at hlast
    obtain ⟨heq, -⟩ := Sigma.mk.inj (Option.some.inj hlast)
    obtain ⟨rfl, -⟩ := Call.append.inj heq
    rw [htype] at hbefore
    cases hbefore
  · exact tells_orFail (fun _ => herr _ _) fun _ _ => hf _ _

lemma isType_eventOf {runId type timestamp : String} {sequence : ℕ} {details : Fields}
    (h : Free details) (type' : String) :
    isType (eventOf runId type timestamp sequence details) type' = decide (type = type') := by
  have hline : Line runId sequence (type, eventOf runId type timestamp sequence details) :=
    line_eventOf h
  have htype : (eventOf runId type timestamp sequence details).lookup "type" = some (.str type) :=
    hline.type
  rw [isType, field, htype]
  rfl

/-- An event of the run, with its receipt, if it has one, of a size that is known. -/
lemma tells_record (hw : checkInput i = .ok w) (hloaded : Loaded i) {runId type : String}
    {details : Fields} {f : Memory → Io α} {n' : ℕ} (h : Ready found m n t) (hfree : Free details)
    (hcount : n ≤ n' ∧ n' ≤ 20) (hsized : type = "role.finished" → n + 1 ≤ n' ∧
      ∀ timestamp sequence, Sized (handoff (eventOf runId type timestamp sequence details)))
    (herr : ∀ e t', Q (.error e) t')
    (hf : ∀ m' t', Ready found m' n' t' → (type ≠ "role.finished" → finished t' = finished t) →
      Telling i w (f m') t' Q) : Telling i w (record runId type details m >>= f) t Q := by
  rw [Telling, safe_bind]
  unfold record
  refine tells_ask trivial fun now => tells_orFail (fun _ => herr _ _) fun timestamp _ => ?_
  refine tells_ask trivial fun r => tells_orFail (fun _ => herr _ _) fun u hu => ?_
  subst hu
  generalize hevent : eventOf runId type timestamp (m.sequence + 1) details = event
  have hfin : finished (t ++ [⟨.now, now⟩] ++ [⟨.append type event, .ok u⟩]) =
      finished t ++ if type = "role.finished" then [event] else [] := by
    rw [finished_append, finished_quiet rfl, finished_singleton]
  have hready : Ready found { m with sequence := m.sequence + 1, events := m.events ++ [event] } n'
      (t ++ [⟨.now, now⟩] ++ [⟨.append type event, .ok u⟩]) := by
    refine ⟨head?_filterMap_append (head?_filterMap_append h.found), ?_, ?_, ?_⟩
    · have htype : isType event "role.finished" = decide (type = "role.finished") :=
        hevent ▸ isType_eventOf hfree _
      rw [hfin, List.filter_append, h.events, List.filter_singleton, htype]
      by_cases hrole : type = "role.finished" <;> simp [hrole]
    · rw [hfin]
      intro e he
      rcases List.mem_append.mp he with he | he
      · exact h.sized e he
      · split_ifs at he with hrole
        · rw [List.mem_singleton] at he
          rw [he, ← hevent]
          exact (hsized hrole).2 timestamp (m.sequence + 1)
        · cases he
    · have hlength := h.count
      rw [hfin, List.length_append]
      split_ifs with hrole
      · have := (hsized hrole).1
        rw [List.length_singleton]
        omega
      · rw [List.length_nil]
        omega
  refine tells_ask (fun type' event' r' _ _ => ?_) fun r => ?_
  · rw [hready.previousIn]
    exact prompted hw hloaded hready.events hready.sized (hready.count.trans hcount.2) found
  · refine tells_orFail (fun _ => herr _ _) fun _ _ => hf _ _ (hready.quiet rfl) fun hrole => ?_
    rw [finished_quiet rfl, hfin, if_neg hrole, List.append_nil]

/-! ### The steps -/

variable {cfg : Config} {role : Role} {name : Name} {step attempt : ℕ} {instructions : String}

/-- The role is called once, and its receipt is checked. -/
lemma tells_runRole {input : RoleInput} (h : Ready found m n t)
    (hcall : ∀ seconds t', finished t' = finished t → previousIn t' = found →
      Tells i w t' (.runRole { input with timeoutSeconds := seconds })) :
    Telling i w (runRole cfg role input m) t fun r t' => ∀ receipt runtime,
      r = .ok (receipt, runtime) → Ready found m n t' ∧
        ∃ v, validateReceipt v role = .ok receipt := by
  unfold runRole
  refine tells_remaining (fun _ _ => nofun) fun seconds now => ?_
  have hclock := h.quiet (e := ⟨.clock, now⟩) rfl
  refine tells_ask (hcall _ _ (finished_quiet rfl t) hclock.previousIn) fun r => ?_
  have hcalled := hclock.quiet (e := ⟨.runRole _, r⟩) rfl
  refine tells_orFail (fun _ => nofun) fun result _ => ?_
  rw [Telling, safe_bind, safe_attempt]
  unfold runRole.receiptOf
  refine tells_remaining (fun _ _ => nofun) fun seconds now => ?_
  have hclock := hcalled.quiet (e := ⟨.clock, now⟩) rfl
  refine tells_check (fun _ => nofun) fun l _ => ?_
  cases hv : validateReceipt (field l "receipt") role with
  | error e => exact nofun
  | ok receipt =>
      intro receipt' runtime hr
      obtain ⟨rfl, -⟩ := Prod.mk.inj (Except.ok.inj hr)
      exact ⟨hclock, _, hv⟩

/-- The line of a role that was called by a string, at a step that is counted. -/
lemma sized_finishedEvent {runId timestamp : String} {sequence : ℕ} {runtime v : Json}
    {receipt : Fields} (hrole : w.roles.lookup name.key = some role)
    (hname : name.value = .str name.key) (hlength : name.key.length ≤ 32) (hstep : step ≤ 20)
    (hreceipt : validateReceipt v role = .ok receipt) :
    Sized (handoff (eventOf runId "role.finished" timestamp sequence
      (PodStore.spread (PodStore.spread (about name step attempt) receipt)
        [("runtime", runtime)]))) := by
  obtain ⟨outcome, target, hout, hon, -⟩ := follow_of_validateReceipt hreceipt
  have hfin : Finished w name (eventOf runId "role.finished" timestamp sequence
      (PodStore.spread (PodStore.spread (about name step attempt) receipt)
        [("runtime", runtime)])) target := finished_eventOf hrole hreceipt hout hon
  obtain ⟨_, _, _, _, -, hvalid, hfields, -, -⟩ := hfin.receipt
  have hkeys := keys_of_validateReceipt hreceipt
  have hnone : receipt.lookup "step" = none :=
    lookup_eq_none fun h => absurd (hkeys.mem_iff.mp h) (by decide)
  refine sized_handoff hvalid hfields (hname ▸ hfin.role) hlength ?_ hstep
  rw [lookup_finishedEvent (by simp [about]) (hkeys.nodup_iff.mpr (by decide)) (by decide), hnone,
    Option.none_or]
  rfl

lemma tells_roleStep (hw : checkInput i = .ok w) (hloaded : Loaded i) (hinput : cfg.input = i)
    (hprevious : cfg.previous = (previousOf found).2)
    (hrole : w.roles.lookup name.key = some role)
    (hinstructions : i.prompts.lookup name.key = some instructions)
    (hname : name.value = .str name.key) (hn : n + 1 ≤ 20) (hstep : step ≤ 20)
    (h : Ready found m n t) :
    Telling i w (roleStep cfg step name attempt role instructions m) t fun r t' =>
      ∀ target m', r = .ok (target, m') → Ready found m' (n + 1) t' ∧
        ∃ outcome, role.on.lookup outcome = some target := by
  obtain ⟨-, -, hroles, -⟩ := bounds_of_checkInput hw
  have hlength := length_of_isName (hroles _ (mem_of_lookup hrole)).name
  subst hinput
  unfold roleStep
  refine tells_check (fun _ _ _ h => by cases h) fun prompt hprompt => ?_
  rw [hprevious] at hprompt
  have hprompted := prompted hw hloaded h.events h.sized (h.count.trans (by omega)) found
  refine tells_record hw hloaded h (free_of_keys (by simp [reserved, about])) ⟨le_rfl, by omega⟩
    (fun h => absurd h (by decide)) (fun _ _ _ _ h => by cases h) fun m' t' hready hfin => ?_
  have hfin := hfin (by decide)
  rw [Telling, safe_bind, safe_attempt]
  refine (tells_runRole hready fun seconds u hu hfound => ?_).mono fun r u hr => ?_
  · refine ⟨m.events, role, instructions, hrole, hinstructions, ?_, ?_⟩
    · rw [hfound, hu, hfin]
      exact hprompted
    · rw [hfound]
      exact hprompt
  · rcases r with ⟨e, m⟩ | ⟨receipt, runtime⟩
    · exact tells_loose (by decide) (fun _ _ _ _ h => by cases h) fun _ _ _ _ h => by cases h
    · obtain ⟨hready, v, hreceipt⟩ := hr receipt runtime rfl
      obtain ⟨outcome, target, -, hon, hfollow⟩ := follow_of_validateReceipt hreceipt
      refine tells_record hw hloaded hready (((free_about _ _ _).spread
        (free_of_validateReceipt hreceipt)).spread (free_of_keys (by simp [reserved])))
        ⟨Nat.le_succ n, hn⟩ (fun _ => ⟨le_rfl, fun timestamp sequence => ?_⟩) (fun _ _ _ _ h => by cases h)
        fun m' t' hready _ => ?_
      · exact sized_finishedEvent hrole hname hlength hstep hreceipt
      · rw [hfollow]
        intro target' m'' hr
        obtain ⟨rfl, rfl⟩ := Prod.mk.inj (Except.ok.inj hr)
        exact ⟨hready, outcome, hon⟩

lemma tells_takeStep (hw : checkInput i = .ok w) (hloaded : Loaded i) (hinput : cfg.input = i)
    (hworkflow : cfg.workflow = w) (hprevious : cfg.previous = (previousOf found).2)
    (hname : name.value = .str name.key) (hn : n + 1 ≤ 20) (hstep : step ≤ 20)
    (h : Ready found m n t) :
    Telling i w (takeStep cfg step name attempt m) t fun r t' =>
      ∀ target m', r = .ok (target, m') → Ready found m' (n + 1) t' ∧
        ∃ role outcome, w.roles.lookup name.key = some role ∧
          role.on.lookup outcome = some target := by
  unfold takeStep
  refine tells_remaining (fun _ _ => nofun) fun seconds now => ?_
  rw [hworkflow]
  cases hrole : w.roles.lookup name.key with
  | none => exact nofun
  | some role =>
      cases hprompt : cfg.input.prompts.lookup name.key with
      | none => exact nofun
      | some instructions =>
          dsimp only
          refine (tells_roleStep hw hloaded hinput hprevious hrole (hinput ▸ hprompt) hname hn hstep
            (h.quiet (e := ⟨.clock, now⟩) rfl)).mono fun r t' hr target m' heq => ?_
          obtain ⟨hready, outcome, hon⟩ := hr target m' heq
          exact ⟨hready, role, outcome, rfl, hon⟩

/-- No prompt is built once a role is done. -/
lemma tells_complete : Telling i w (complete cfg step m) t fun _ _ => True := by
  unfold complete
  refine tells_remaining (fun _ _ => trivial) fun seconds now => ?_
  refine tells_ask trivial fun r => tells_orFail (fun _ => trivial) fun v _ => ?_
  refine tells_check (fun _ => trivial) fun verification _ => ?_
  refine tells_remaining (fun _ _ => trivial) fun _ now => ?_
  refine tells_loose (by decide) (fun _ _ => trivial) fun m t => ?_
  refine tells_check (fun _ => trivial) fun _ _ => ?_
  refine tells_remaining (fun _ _ => trivial) fun seconds now => ?_
  refine tells_ask trivial fun r => tells_orFail (fun _ => trivial) fun v _ => ?_
  refine tells_check (fun _ => trivial) fun publication _ => ?_
  refine tells_loose (by decide) (fun _ _ => trivial) fun m t => ?_
  exact tells_loose (by decide) (fun _ _ => trivial) fun _ _ => trivial

/-- The steps, by induction on how many are left. -/
lemma tells_steps (hw : checkInput i = .ok w) (hplain : PlainNames w) (hloaded : Loaded i)
    (hinput : cfg.input = i) (hworkflow : cfg.workflow = w)
    (hprevious : cfg.previous = (previousOf found).2) (left : ℕ) :
    ∀ {t : Trace} {n : ℕ} {name : Name} {attempts : Name → ℕ} {m : Memory}, n + left ≤ 20 →
      name.value = .str name.key → Ready found m n t →
      Telling i w (steps cfg left (n + 1) name attempts m) t fun _ _ => True := by
  induction left with
  | zero => exact fun _ _ _ => trivial
  | succ left ih =>
      intro t n name attempts m hn hname h
      unfold steps
      refine (tells_takeStep hw hloaded hinput hworkflow hprevious hname (by omega) (by omega)
        h).bind (fun a t' hr => ?_) fun _ _ _ => trivial
      obtain ⟨target, m'⟩ := a
      obtain ⟨hready, role, outcome, hrole, hon⟩ := hr target m' rfl
      cases target with
      | done => exact tells_complete
      | role next =>
          obtain ⟨-, -, hroles, -⟩ := bounds_of_checkInput hw
          have hmem := mem_of_lookup hrole
          have hprinted := (hroles _ hmem).transitions.names _ (mem_of_lookup hon) next rfl
          have hnext := hprinted.value (hplain.2 _ hmem _ (mem_of_lookup hon))
          exact ih (by omega) hnext hready

end Parts

lemma tells_runWorkflow (i : Input) {w : Workflow} (hw : checkInput i = .ok w)
    (hplain : PlainNames w) (hloaded : Loaded i) :
    Telling i w (runWorkflow i) [] fun _ _ => True := by
  obtain ⟨hsteps, hstart, -, -⟩ := bounds_of_checkInput hw
  unfold runWorkflow
  rw [hw]
  refine tells_check (fun _ => trivial) fun w' hw' => ?_
  obtain rfl := Except.ok.inj hw'
  rw [Telling, safe_bind]
  refine tells_ask trivial fun r => ?_
  rcases r with e | now | now
  · trivial
  · trivial
  · refine tells_check (fun _ => trivial) fun d _ => ?_
    refine tells_ask trivial fun r₁ => tells_orFail (fun _ => trivial) fun _ _ => ?_
    refine tells_ask trivial fun r₂ => tells_orFail (fun _ => trivial) fun _ _ => ?_
    refine tells_ask trivial fun found => ?_
    refine tells_ask trivial fun r₃ => tells_orFail (fun _ => trivial) fun _ _ => ?_
    refine tells_ask trivial fun r₄ => tells_orFail (fun _ => trivial) fun _ _ => ?_
    have hready : Ready found {} 0 ([] ++ [⟨.clock, .ok (some now)⟩] ++ [⟨.mkdirState, r₁⟩] ++
        [⟨.mkdirWorkspace, r₂⟩] ++ [⟨.previousHistory, found⟩] ++ [⟨.mkdirRun, r₃⟩] ++
        [⟨.createEvents, r₄⟩]) := ⟨rfl, rfl, by rintro _ ⟨⟩, le_rfl⟩
    refine tells_record hw hloaded hready (free_of_keys (by simp [reserved])) ⟨le_rfl, by omega⟩
      (fun h => absurd h (by decide)) (fun _ _ => trivial) fun m t hready _ => ?_
    rw [Telling, safe_bind, safe_attempt]
    unfold body
    refine tells_ask trivial fun r => tells_orFail (fun _ => ?_) fun _ _ => ?_
    · exact tells_loose (by decide) (fun _ _ => trivial) fun _ _ => trivial
    · refine (tells_steps hw hplain hloaded rfl rfl rfl _
        ((Nat.zero_add w.maxSteps).trans_le hsteps) (hstart.value hplain.1)
        (hready.quiet (e := ⟨.writeLatest, r⟩) rfl)).mono fun r t' _ => ?_
      rcases r with ⟨e, m⟩ | result
      · exact tells_loose (by decide) (fun _ _ => trivial) fun _ _ => trivial
      · trivial

/-- **Prompts fit.** In every run of a workflow whose start and targets are written as strings,
with prompts as a template is loaded with: after the run has started and after each role the
prompt of every role can be built, the changelog of the run before is whole or cut to its front
and its back, and of the receipts on record the longest list of the last ones that fits is shown,
with the number of those before it; and each role is called with a prompt that was built so. -/
theorem prompts_fit (i : Input) {w : Workflow} (hw : checkInput i = .ok w) (hplain : PlainNames w)
    (hloaded : Loaded i) {c : Call} {k : c.Ret → Io Result} {t : Trace}
    (hx : Exec traced (runWorkflow i) [] (.call c k) t) : Tells i w t c :=
  (tells_runWorkflow i hw hplain hloaded).allowed hx

/-! ### Runs on fixed inputs -/

/-- The role asks to be run again. -/
def again (t : Trace) : (c : Call) → c.Ret
  | .runRole _ => .ok (.obj [("receipt", .obj [("outcome", .str "again"), ("what", .str "w"),
      ("why", .str "y"), ("evidence", .arr [.str "e"]), ("files", .arr [])])])
  | c => answers samplePassed samplePublication t c

def againInput : Input :=
  { sampleInput with
    workflow := oneRole (.str "build") [("ready", .str "done"), ("again", .str "build")] }

/-- A changelog of so many letters. -/
def logOf (n : ℕ) : String := String.ofList (List.replicate n 'x')

lemma len_logOf (n : ℕ) : len (logOf n) = n := by
  have hsize : 'x'.utf8Size = 1 := by decide
  rw [logOf, len, String.toList_ofList, bytes, List.map_replicate, List.sum_replicate, hsize,
    smul_eq_mul, mul_one]

/-- One that is too long for a prompt. -/
def longLog : String := logOf 50000

/-- So it does after a run with that changelog. -/
def againLong (t : Trace) : (c : Call) → c.Ret
  | .previousHistory => some ("r0", longLog)
  | c => again t c

/-- The trace of a followed run has the answers that were given. -/
lemma answered_of_follow {P : (c : Call) × c.Ret → Prop} {answer : Trace → (c : Call) → c.Ret}
    (hanswer : ∀ t c, P ⟨c, answer t c⟩) {n : ℕ} {p q : Io Result} {s t : Trace}
    (hs : ∀ e ∈ s, P e) (h : Bimo.follow (fun _ _ _ => True) (fun t c r => t ++ [⟨c, r⟩]) answer n
      p s = some (q, t)) : ∀ e ∈ t, P e := by
  induction n generalizing p s with
  | zero =>
      obtain ⟨-, rfl⟩ := Prod.mk.inj (Option.some.inj h)
      exact hs
  | succ n ih =>
      cases p with
      | ret a =>
          cases h
          exact hs
      | fail e =>
          cases h
          exact hs
      | call c k =>
          refine ih (fun e he => ?_) h
          rcases List.mem_append.mp he with he | he
          · exact hs e he
          · obtain rfl := List.mem_singleton.mp he
            exact hanswer s c

lemma previousIn_eq {found : Option (String × String)} {t : Trace}
    (h : ∀ e ∈ t, ∀ r, previousAnswer e = some r → r = found) (hasked : (previousIn t).isSome) :
    previousIn t = found := by
  unfold previousIn at hasked ⊢
  cases hl : t.filterMap previousAnswer with
  | nil =>
      rw [hl] at hasked
      cases hasked
  | cons r l =>
      obtain ⟨e, he, hr⟩ := List.mem_filterMap.mp (hl ▸ List.mem_cons_self : r ∈ t.filterMap _)
      rw [h e he r hr]
      rfl

/-- The next call is to a role. -/
def callsRole : Io Result → Bool
  | .call (.runRole _) _ => true
  | _ => false

/-- A role is called for the second time, after a run with a changelog that is too long. -/
theorem prompts_fit_sample : ∃ w input k t, checkInput againInput = .ok w ∧
    Exec traced (runWorkflow againInput) [] (.call (.runRole input) k) t ∧
      (finished t).length = 1 ∧ previousIn t = some ("r0", longLog) ∧
      maxPreviousHistoryBytes < len longLog ∧ Tells againInput w t (.runRole input) := by
  obtain ⟨w, hw⟩ := ok_of_isOk (show (checkInput againInput).isOk = true by decide +kernel)
  have hplain : PlainNames w := by
    have hall : (checkInput againInput).toOption.all fun w => decide (PlainNames w) := by
      decide +kernel
    rw [hw] at hall
    exact of_decide_eq_true hall
  obtain ⟨⟨q, t⟩, hq, hr⟩ := (Option.any_eq_true _ _).mp
    (show (Bimo.follow (fun _ _ _ => True) (fun t c r => t ++ [⟨c, r⟩]) againLong 25
      (runWorkflow againInput) []).any (fun x => callsRole x.1 &&
        decide ((finished x.2).length = 1) && (previousIn x.2).isSome) = true by
        delta runWorkflow body steps
        delta steps._f takeStep
        delta roleStep
        rw [buildPrompt_eq_quickPrompt]
        decide +kernel)
  have hx := exec_of_follow (E := traced) (fun t c _ => traced_step t c _) hq
  rw [Bool.and_eq_true, Bool.and_eq_true, decide_eq_true_eq] at hr
  obtain ⟨⟨hrole, hfinished⟩, hasked⟩ := hr
  have hanswers : ∀ e ∈ t, ∀ r, previousAnswer e = some r → r = some ("r0", longLog) := by
    refine answered_of_follow (fun t c r hr => ?_) (by simp) hq
    cases c with
    | previousHistory => exact (Option.some.inj hr).symm
    | _ => cases hr
  have hfound := previousIn_eq hanswers hasked
  have hlong : maxPreviousHistoryBytes < len longLog := by
    rw [longLog, len_logOf]
    decide
  unfold callsRole at hrole
  dsimp only at hrole
  split at hrole
  · rename_i input k
    exact ⟨w, input, k, t, hw, hx, hfinished, hfound, hlong,
      prompts_fit againInput hw hplain (by decide) hx⟩
  · cases hrole

/-- A list around a list, so many times, with a string in the middle. -/
def nest (s : String) : ℕ → Json
  | 0 => .str s
  | n + 1 => .arr [nest s n]

def nestDepth : Json → ℕ
  | .arr [v] => nestDepth v + 1
  | _ => 0

/-- Indented once more at every level, a text grows with the square of the depth. -/
lemma le_bytes_pretty (v : Json) (indent : ℕ) :
    2 * nestDepth v * (indent + nestDepth v) ≤ bytes (PodStore.pretty indent v) := by
  fun_induction nestDepth v generalizing indent with
  | case1 v ih =>
      have hrest := ih (indent + 2)
      rw [Sizes.bytes_pretty_arr indent (List.cons_ne_nil _ _), List.map_singleton,
        List.sum_singleton]
      have hexpand : 2 * (nestDepth v + 1) * (indent + (nestDepth v + 1)) =
          2 * nestDepth v * (indent + 2 + nestDepth v) + 2 * indent + 2 := by ring
      omega
  | case2 => simp

/-- A receipt under a name that is nested this deep does not fit. -/
lemma currentHistory_nested {events : List Fields} {event : Fields}
    (hevents : events.filter (isType · "role.finished") = [event])
    (hdepth : 250 ≤ nestDepth (field event "role")) : currentHistory events = "None." := by
  have hrole : event.lookup "role" = some (field event "role") := by
    refine lookup_of_field rfl fun hnull => ?_
    rw [hnull] at hdepth
    exact absurd hdepth (by decide)
  have hhandoff : ∃ l, handoff event = .obj (("role", field event "role") :: l) := by
    refine ⟨["step", "outcome", "what", "why", "evidence", "files"].filterMap fun key =>
      (event.lookup key).map fun v => (key, v), ?_⟩
    rw [handoff, List.filterMap_cons, hrole]
    rfl
  obtain ⟨l, hl⟩ := hhandoff
  have hname := le_bytes_pretty (field event "role") (2 + 2)
  have hlong : 98304 < bytes (PodStore.pretty (0 + 2) (handoff event)) := by
    have hmul : 2 * 250 * (2 + 2 + 250) ≤ 2 * nestDepth (field event "role") *
        (2 + 2 + nestDepth (field event "role")) :=
      Nat.mul_le_mul (by omega) (by omega)
    rw [hl, Sizes.bytes_pretty_obj (0 + 2) (List.cons_ne_nil _ _), List.map_cons, List.sum_cons,
      Sizes.prettyFieldBytes]
    simp only [Nat.zero_add, Nat.reduceAdd] at hname hmul ⊢
    omega
  have hmax : maxCurrentHistoryBytes = 98304 := rfl
  rw [currentHistory, hevents]
  simp only [List.map_singleton, List.reverse_singleton, history]
  rw [if_pos]
  rw [len, String.toList_append, Wire.bytes_append, String.toList_ofList,
    Sizes.bytes_pretty_arr 0 (List.cons_ne_nil _ _), List.map_singleton, List.sum_singleton]
  omega

/-- A workflow of one role that is started by a nested name and calls itself by a string. -/
def nestedInput : Input :=
  { sampleInput with
    workflow := oneRole (nest "build" 250) [("ready", .str "done"), ("again", .str "build")] }

/-- The next call renders a log with one receipt, of a role with a name nested this deep. -/
def rendersNested : Io Result → Bool
  | .call (.changelog events) _ =>
    match events.filter (isType · "role.finished") with
    | [event] => decide (250 ≤ nestDepth (field event "role"))
    | _ => false
  | _ => false

/-- A role that was started by a nested name is finished, and nothing is shown of it. -/
theorem prompt_shows_nothing : ∃ events k t,
    Exec traced (runWorkflow nestedInput) [] (.call (.changelog events) k) t ∧
      (finished t).length = 1 ∧ currentHistory events = "None." := by
  obtain ⟨⟨q, t⟩, hq, hr⟩ := (Option.any_eq_true _ _).mp
    (show (Bimo.follow (fun _ _ _ => True) (fun t c r => t ++ [⟨c, r⟩]) again 19
      (runWorkflow nestedInput) []).any
      (fun x => rendersNested x.1 && decide ((finished x.2).length = 1)) = true by
        delta runWorkflow body steps
        delta steps._f takeStep
        delta roleStep
        rw [buildPrompt_eq_quickPrompt]
        decide +kernel)
  have hx := exec_of_follow (E := traced) (fun t c _ => traced_step t c _) hq
  rw [Bool.and_eq_true, decide_eq_true_eq] at hr
  obtain ⟨hr, hfinished⟩ := hr
  unfold rendersNested at hr
  dsimp only at hr
  split at hr
  · rename_i events k
    split at hr
    · rename_i event hevents
      exact ⟨events, k, t, hx, hfinished, currentHistory_nested hevents (of_decide_eq_true hr)⟩
    · cases hr
  · cases hr

end Bimo.Flow
