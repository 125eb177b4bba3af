import Bimo.DockerRuntime
import Mathlib.Logic.Function.Basic

/-!
What a publication leaves behind, whatever fails.

A command that ended with status zero has taken effect. One that ended otherwise may have taken
effect or not, and a removal may have got no further than to stop the container. What an
inspection says of a container is true. Containers under other names come and go at any time.

The trace keeps every call with its answer and the container that a command was about.
-/

namespace Bimo.Docker

open Js (Text lit)

/-! ### Containers -/

abbrev Containers := String → Option Container

/-- `Takes c w w' subject`: the command takes effect, and `subject` is the id of the container
that it is about. -/
def Takes (c : Command) (w w' : Containers) (subject : Option Text) : Prop :=
  match c with
  | .create name _ => w name = none ∧ ∃ x : Container, x.running = false ∧
      w' = Function.update w name (some x) ∧ subject = some x.id
  | .start name => ∃ x, w name = some x ∧
      w' = Function.update w name (some { x with running := true }) ∧ subject = some x.id
  | .stop name => ∃ x, w name = some x ∧
      w' = Function.update w name (some { x with running := false }) ∧ subject = some x.id
  | .exec name _ => ∃ x, w name = some x ∧ w' = w ∧ subject = some x.id
  | .rename name newName => ∃ x, w name = some x ∧ w newName = none ∧
      w' = Function.update (Function.update w name none) newName (some x) ∧ subject = some x.id
  | .rm name => w' = Function.update w name none ∧ subject = (w name).map (·.id)
  | .inspect _ name => w' = w ∧ subject = (w name).map (·.id)

/-- What a command may have done that did not end well. -/
def May (c : Command) (w w' : Containers) (subject : Option Text) : Prop :=
  (w' = w ∧ subject = none) ∨ Takes c w w' subject ∨
    ∃ name x, c = .rm name ∧ w name = some x ∧
      w' = Function.update w name (some { x with running := false }) ∧ subject = some x.id

def Ending.code : Ending → Option ℤ
  | .error _ => none
  | .closed code _ _ _ _ _ => code

/-- The process came to its end by itself, with status zero. -/
def Ending.succeeded (e : Ending) : Bool := e.code = some 0

/-- What an inspection prints. -/
def Format.render : Format → Container → Text
  | .id, x => x.id ++ lit "\n"
  | .idAndRunning, x => x.id ++ lit (if x.running then " true\n" else " false\n")

/-- An inspection tells of the container of that name, or says that there is none. -/
def Tells (c : Command) (w : Containers) (e : Ending) : Prop :=
  match c, e with
  | .inspect format name, .closed code stdout stderr _ _ _ =>
      (code = some 0 → ∃ x, w name = some x ∧ stdout = format.render x) ∧
        (code ≠ some 0 → noSuchContainer stderr = true → w name = none)
  | _, _ => True

/-! ### Runs -/

structure Event where
  call : (c : Call) × c.Ret
  subject : Option Text

structure State where
  containers : Containers
  trace : List Event

/-- The containers of these names are the same. -/
def Agree (names : List String) (w w' : Containers) : Prop := ∀ n ∈ names, w' n = w n

/-- The step that a command is. -/
def Ran.Step (names : List String) (s : State) (c : Command) (timeoutMs : ℤ) (ran : Ran)
    (t : State) : Prop :=
  ∃ w w' subject, Agree names s.containers w ∧ Tells c w ran.ending ∧
    (if ran.ending.succeeded then Takes c w w' subject else May c w w' subject) ∧
    t = ⟨w', s.trace ++ [⟨⟨.docker c timeoutMs, ran⟩, subject⟩]⟩

/-- The machine that a publication runs on. Nothing but the commands of the publication touches
the containers of the given names. -/
def machine (names : List String) : Env Call Call.Ret State where
  step s o r t :=
    match o, r with
    | .docker c timeoutMs, ran => ran.Step names s c timeoutMs t
    | o, r => ∃ w, Agree names s.containers w ∧ t = ⟨w, s.trace ++ [⟨⟨o, r⟩, none⟩]⟩

/-- The containers that a publication changes. -/
def namesOf (r : Runtime) (i : Input) : List String := [appName r, backupName r i.runId]

/-- The app is a container that this run has made, the probe has passed in it, and a whole reading
of the artifact after that gave what was verified. -/
def Published (p : Platform) (r : Runtime) (i : Input) (s t : State) : Prop :=
  ∃ x before scan after expected deadlineAt receipt,
    t.containers (appName r) = some x ∧ t.trace = s.trace ++ before ++ scan ++ after ∧
    (∃ args ms ran, ran.ending.succeeded = true ∧
      ⟨⟨.docker (.create (appName r) args) ms, ran⟩, some x.id⟩ ∈ before) ∧
    (∃ ms ran, ran.ending.succeeded = true ∧
      ⟨⟨.docker (probe (appName r) i.smoke) ms, ran⟩, some x.id⟩ ∈ before) ∧
    i.receipt = some expected ∧
    Reads (scanSnapshot (scanOf p r i expected deadlineAt)) (scan.map (·.call)) (.ok receipt) ∧
    sameArtifact receipt expected = true

/-- The app is what it was, and nothing was left under the name of the backup. -/
def Restored (r : Runtime) (i : Input) (s t : State) : Prop :=
  t.containers (appName r) = s.containers (appName r) ∧
    ∀ x, t.containers (backupName r i.runId) = some x →
      s.containers (backupName r i.runId) = some x

lemma Container.eq_of {x y : Container} (hid : x.id = y.id) (hrunning : x.running = y.running) :
    x = y := by
  cases x
  cases y
  subst hid hrunning
  rfl

/-! ### What a command changes -/

/-- The names whose containers a command may change. -/
def Command.touches : Command → List String
  | .create name _ | .start name | .stop name | .rm name => [name]
  | .rename name newName => [name, newName]
  | .exec _ _ | .inspect _ _ => []

lemma Takes.frame {c : Command} {w w' : Containers} {subject : Option Text}
    (h : Takes c w w' subject) {n : String} (hn : n ∉ c.touches) : w' n = w n := by
  cases c with
  | create name args =>
      obtain ⟨-, x, -, rfl, -⟩ := h
      exact Function.update_of_ne (by simpa [Command.touches] using hn) _ _
  | start name | stop name =>
      obtain ⟨x, -, rfl, -⟩ := h
      exact Function.update_of_ne (by simpa [Command.touches] using hn) _ _
  | exec name args =>
      obtain ⟨x, -, rfl, -⟩ := h
      rfl
  | rename name newName =>
      obtain ⟨x, -, -, rfl, -⟩ := h
      simp only [Command.touches, List.mem_cons, List.not_mem_nil, or_false, not_or] at hn
      rw [Function.update_of_ne hn.2, Function.update_of_ne hn.1]
  | rm name =>
      obtain ⟨rfl, -⟩ := h
      exact Function.update_of_ne (by simpa [Command.touches] using hn) _ _
  | inspect format name => exact congrFun h.1 n

lemma May.frame {c : Command} {w w' : Containers} {subject : Option Text}
    (h : May c w w' subject) {n : String} (hn : n ∉ c.touches) : w' n = w n := by
  rcases h with ⟨rfl, -⟩ | h | ⟨name, x, rfl, -, rfl, -⟩
  · rfl
  · exact h.frame hn
  · exact Function.update_of_ne (by simpa [Command.touches] using hn) _ _

lemma Takes.may {c : Command} {w w' : Containers} {subject : Option Text}
    (h : Takes c w w' subject) : May c w w' subject := .inr (.inl h)

/-! ### What an inspection says -/

lemma isSpace_of_isHexUnit {u : UInt16} (h : isHexUnit u = true) : Js.isSpace u = false := by
  have hu : (48 ≤ u.toNat ∧ u.toNat ≤ 57) ∨ (97 ≤ u.toNat ∧ u.toNat ≤ 102) := by
    simpa [isHexUnit, Js.isDigit] using h
  simp only [Js.isSpace, List.mem_cons, List.not_mem_nil, or_false, Bool.or_eq_false_iff,
    decide_eq_false_iff_not]
  omega

lemma trim_state {id : Text} (hid : isContainerId id) (running : Bool) :
    Js.trim (id ++ lit (if running then " true\n" else " false\n")) =
      id ++ lit (if running then " true" else " false") := by
  obtain ⟨u, rest, rfl⟩ := List.exists_cons_of_length_pos (by rw [hid.1]; omega : 0 < id.length)
  have hu : Js.isSpace u = false := isSpace_of_isHexUnit (by
    have := hid.2
    simp only [List.all_cons, Bool.and_eq_true] at this
    exact this.1)
  unfold Js.trim
  rw [List.cons_append, List.dropWhile_cons_of_neg (by simp [hu]), ← List.cons_append,
    List.reverse_append]
  cases running with
  | true =>
      have : (lit " true\n").reverse = 10 :: (lit " true").reverse := by decide
      rw [if_pos rfl, if_pos rfl, this, List.cons_append,
        List.dropWhile_cons_of_pos (by decide)]
      have : (lit " true").reverse = 101 :: (lit " tru").reverse := by decide
      rw [this, List.cons_append, List.dropWhile_cons_of_neg (by decide), ← List.cons_append,
        ← this, ← List.reverse_append, List.reverse_reverse]
  | false =>
      have : (lit " false\n").reverse = 10 :: (lit " false").reverse := by decide
      rw [if_neg (by decide), if_neg (by decide), this, List.cons_append,
        List.dropWhile_cons_of_pos (by decide)]
      have : (lit " false").reverse = 101 :: (lit " fals").reverse := by decide
      rw [this, List.cons_append, List.dropWhile_cons_of_neg (by decide), ← List.cons_append,
        ← this, ← List.reverse_append, List.reverse_reverse]

/-- What is printed of a container is read back. -/
lemma matchState_render (x : Container) : matchState (Format.idAndRunning.render x) = some x := by
  obtain ⟨id, running, hid⟩ := x
  have htake (l : Text) : (id ++ l).take 64 = id := by rw [← hid.1, List.take_left]
  have hdrop (l : Text) : (id ++ l).drop 64 = l := by rw [← hid.1, List.drop_left]
  have htrue : lit " false" ≠ lit " true" := by decide
  unfold matchState
  simp only [Format.render, trim_state hid, htake, hdrop]
  cases running with
  | true => simp [hid]
  | false => simp [hid, htrue]

/-! ### Calls that are no command -/

def IsQuiet : Call → Prop
  | .docker _ _ => False
  | _ => True

/-- The program makes no command. -/
abbrev Quiet {ε α : Type} (p : Prog Call Call.Ret ε α) : Prop := p.Does IsQuiet fun _ => True

abbrev Ends {ε α : Type} (names : List String) (p : Prog Call Call.Ret ε α) (s : State)
    (Q : Except ε α → State → Prop) : Prop := Safe (machine names) (fun _ _ => True) p s Q

lemma Agree.refl (names : List String) (w : Containers) : Agree names w w := fun _ _ => rfl

lemma Agree.trans {names : List String} {w w' w'' : Containers} (h : Agree names w w')
    (h' : Agree names w' w'') : Agree names w w'' := fun n hn => (h' n hn).trans (h n hn)

/-- `Later names s t new`: from `s` to `t` the containers stayed and the trace grew. -/
structure Later (names : List String) (s t : State) (new : List Event) : Prop where
  agree : Agree names s.containers t.containers
  trace : t.trace = s.trace ++ new

lemma Later.refl (names : List String) (s : State) : Later names s s [] :=
  ⟨.refl _ _, (List.append_nil _).symm⟩

lemma Later.trans {names : List String} {s t u : State} {new more : List Event}
    (h : Later names s t new) (h' : Later names t u more) : Later names s u (new ++ more) :=
  ⟨h.agree.trans h'.agree, by rw [h'.trace, h.trace, List.append_assoc]⟩

section Quiet

variable {ε α β : Type} {names : List String}

/-- A program without commands leaves the containers, and the trace is what it has read. -/
lemma ends_does {R : α → Prop} {p : Prog Call Call.Ret ε α} (hp : p.Does IsQuiet R) {s : State}
    {Q : Except ε α → State → Prop}
    (h : ∀ x t new, Later names s t new → Reads p (new.map (·.call)) x →
      (∀ a, x = .ok a → R a) → Q x t) : Ends names p s Q := by
  induction p generalizing s with
  | ret a =>
      refine h _ s [] (.refl _ _) (.ret a) fun b hb => ?_
      rw [← Except.ok.inj hb]
      exact hp
  | fail e => exact h _ s [] (.refl _ _) (.fail e) nofun
  | call o k ih =>
      obtain ⟨ho, hk⟩ := hp
      refine ⟨trivial, fun r t hstep => ?_⟩
      obtain ⟨w, hw, rfl⟩ : ∃ w, Agree names s.containers w ∧
          t = ⟨w, s.trace ++ [⟨⟨o, r⟩, none⟩]⟩ := by
        cases o with
        | docker c timeoutMs => exact ho.elim
        | now | cancelled | wait _ | lstatOrNull _ | lstat _ | readdir _ | «open» _ | stat _
        | readFile _ | close _ => exact hstep
      refine ih r (hk r) fun x u new hu hread hR => ?_
      have hlater : Later names s ⟨w, s.trace ++ [⟨⟨o, r⟩, none⟩]⟩ [⟨⟨o, r⟩, none⟩] := ⟨hw, rfl⟩
      exact h x u _ (hlater.trans hu) (.call hread) hR

/-- Where what was read does not matter. -/
lemma ends_quiet {p : Prog Call Call.Ret ε α} (hp : Quiet p) {s : State}
    {Q : Except ε α → State → Prop} (h : ∀ x t new, Later names s t new → Q x t) :
    Ends names p s Q :=
  ends_does hp fun x t new hl _ _ => h x t new hl

lemma Quiet.bind {p : Prog Call Call.Ret ε α} {f : α → Prog Call Call.Ret ε β} (hp : Quiet p)
    (hf : ∀ a, Quiet (f a)) : Quiet (p >>= f) := Prog.Does.bind hp fun a _ => hf a

lemma quiet_ask {c : Call} (h : IsQuiet c) : Quiet (ask c) := ⟨h, fun _ => trivial⟩

lemma quiet_remaining (deadlineAt : ℤ) (label : String) : Quiet (remaining deadlineAt label) := by
  refine Quiet.bind (quiet_ask trivial) fun now => ?_
  split_ifs <;> exact trivial

lemma quiet_bounded {operation : Io (Timed α)} (h : Quiet operation) (deadlineAt : ℤ)
    (label : String) : Quiet (bounded operation deadlineAt label) := by
  refine Quiet.bind (quiet_remaining _ _) fun _ => Quiet.bind h fun outcome => ?_
  rcases outcome with - | (e | a)
  · exact trivial
  · exact trivial
  · refine Quiet.bind (quiet_ask trivial) fun now => ?_
    split_ifs <;> exact trivial

lemma quiet_abortableFs {operation : Io (Timed α)} (h : Quiet operation) (deadlineAt : ℤ)
    (label : String) : Quiet (abortableFs operation deadlineAt label) := by
  refine Quiet.bind (quiet_remaining _ _) fun _ => Quiet.bind h fun outcome => ?_
  rcases outcome with - | (e | a)
  · exact trivial
  · exact trivial
  · exact Quiet.bind (quiet_remaining _ _) fun _ => trivial

lemma quiet_readRegularFile (target : Path) (deadlineAt : ℤ) (label : String) :
    Quiet (readRegularFile target deadlineAt label) := by
  have hopen (handle : ℕ) : Quiet (readOpen target handle deadlineAt label) := by
    refine Quiet.bind (quiet_bounded (by exact quiet_ask trivial) _ _) fun before => ?_
    split_ifs
    · exact trivial
    · refine Quiet.bind (quiet_abortableFs (by exact quiet_ask trivial) _ _) fun content => ?_
      refine Quiet.bind (quiet_bounded (by exact quiet_ask trivial) _ _) fun after => ?_
      split_ifs <;> exact trivial
  refine Quiet.bind (quiet_bounded (by exact quiet_ask trivial) _ _) fun handle => ?_
  refine Quiet.bind ((hopen handle).attempt.mono fun _ _ => trivial) fun outcome => ?_
  refine Quiet.bind (quiet_ask trivial) fun now => ?_
  exact Quiet.bind (quiet_bounded (by exact quiet_ask trivial) _ _) fun _ => Prog.does_ofExcept _

lemma quiet_scanEntries {s : Scan} {descend : Path → Tally → Io Tally}
    (hd : ∀ p t, Quiet (descend p t)) (depth : ℕ) (directory : Path) (names : List String)
    (t : Tally) : Quiet (scanEntries s descend depth directory names t) := by
  have hbounds (t : Tally) (relative : Path) : Quiet (assertSnapshotBounds t relative depth) := by
    unfold assertSnapshotBounds
    dsimp only
    split_ifs <;> exact trivial
  have hfile (relative : Path) (stat : Stat) (t : Tally) : Quiet (scanFile s relative stat t) := by
    unfold scanFile
    dsimp only
    split_ifs
    · exact trivial
    · exact trivial
    · exact trivial
    · exact Quiet.bind (quiet_readRegularFile _ _ _) fun _ => trivial
  induction names generalizing t with
  | nil => exact trivial
  | cons name names ih =>
      refine Quiet.bind (Quiet.bind (hbounds _ _) fun t => ?_) ih
      refine Quiet.bind (quiet_bounded (by exact quiet_ask trivial) _ _) fun stat => ?_
      rcases stat.kind
      · exact hfile _ _ _
      · exact hd _ _
      · exact trivial
      · exact trivial

lemma quiet_visit (s : Scan) (left : ℕ) (directory : Path) (t : Tally) :
    Quiet (visit s left directory t) := by
  induction left generalizing directory t with
  | zero =>
      unfold visit
      refine Quiet.bind (quiet_bounded (by exact quiet_ask trivial) _ _) fun stat => ?_
      split_ifs
      · exact trivial
      · refine Quiet.bind (quiet_bounded (by exact quiet_ask trivial) _ _) fun names => ?_
        have hstop (p : Path) (t : Tally) : Quiet ((fun _ t => pure t : Path → Tally → Io _) p t) :=
          trivial
        exact quiet_scanEntries hstop _ _ _ _
  | succ left ih =>
      unfold visit
      refine Quiet.bind (quiet_bounded (by exact quiet_ask trivial) _ _) fun stat => ?_
      split_ifs
      · exact trivial
      · refine Quiet.bind (quiet_bounded (by exact quiet_ask trivial) _ _) fun names => ?_
        exact quiet_scanEntries ih _ _ _ _

lemma quiet_scanSnapshot (s : Scan) : Quiet (scanSnapshot s) :=
  Quiet.bind (quiet_visit _ _ _ _) fun _ => trivial

lemma quiet_throwIfCancelled : Quiet throwIfCancelled := by
  refine Quiet.bind (quiet_ask trivial) fun cancelled => ?_
  cases cancelled <;> exact trivial

lemma quiet_unlessCleanup (cleanup : Bool) : Quiet (unlessCleanup cleanup) := by
  cases cleanup
  · exact quiet_throwIfCancelled
  · exact trivial

lemma quiet_assertArtifact (s : Scan) : Quiet (assertArtifact s) := by
  refine Quiet.bind quiet_throwIfCancelled fun _ => ?_
  refine Quiet.bind (quiet_scanSnapshot s) fun receipt => ?_
  split_ifs
  · exact quiet_throwIfCancelled
  · exact trivial

lemma quiet_waitWithin (milliseconds deadlineAt : ℤ) (label : String) :
    Quiet (waitWithin milliseconds deadlineAt label) := by
  refine Quiet.bind (quiet_remaining _ _) fun _ => Quiet.bind (quiet_ask trivial) fun _ => ?_
  exact quiet_bounded (by exact quiet_ask trivial) _ _

lemma quiet_cleanupDeadline (r : Runtime) : Quiet (cleanupDeadline r) :=
  Quiet.bind (quiet_ask trivial) fun _ => trivial

lemma quiet_phaseDeadline (r : Runtime) (timeoutSeconds : ℤ) (label : String)
    (maximumSeconds : ℤ) : Quiet (phaseDeadline r timeoutSeconds label maximumSeconds) := by
  unfold phaseDeadline
  split_ifs
  · exact trivial
  · exact Quiet.bind (quiet_ask trivial) fun _ => trivial

end Quiet

/-! ### Commands -/

section Commands

variable {names : List String} {r : Runtime} {c : Command} {s : State}

/-- `Changes names s c t`: the containers that a command which was tried in `s` may leave. -/
def Changes (names : List String) (s : State) (c : Command) (t : State) : Prop :=
  ∃ w w' subject new, Agree names s.containers w ∧ May c w w' subject ∧
    Agree names w' t.containers ∧ t.trace = s.trace ++ new

/-- `Done names s c out t`: the command was run and its outcome taken. -/
def Done (names : List String) (s : State) (c : Command) (out : Output) (t : State) : Prop :=
  ∃ w w' subject before timeoutMs, ∃ ran : Ran, ∃ after, Agree names s.containers w ∧
    Tells c w (.closed out.code out.stdout out.stderr false false false) ∧
    (if out.code = some 0 then Takes c w w' subject else May c w w' subject) ∧
    Agree names w' t.containers ∧ ran.ending.code = out.code ∧
    t.trace = s.trace ++ (before ++ ⟨⟨.docker c timeoutMs, ran⟩, subject⟩ :: after)

lemma Done.changes {out : Output} {t : State} (h : Done names s c out t) :
    Changes names s c t := by
  obtain ⟨w, w', subject, before, ms, ran, after, hw, -, hmay, hw', -, ht⟩ := h
  refine ⟨w, w', subject, _, hw, ?_, hw', ht⟩
  split_ifs at hmay
  · exact hmay.may
  · exact hmay

/-- A command with status zero took effect and is in the trace. -/
lemma Done.takes {out : Output} {t : State} (h : Done names s c out t)
    (hcode : out.code = some 0) : ∃ w w' subject new timeoutMs ran,
      Agree names s.containers w ∧ Takes c w w' subject ∧ Agree names w' t.containers ∧
      t.trace = s.trace ++ new ∧ ran.ending.succeeded = true ∧
      ⟨⟨.docker c timeoutMs, ran⟩, subject⟩ ∈ new := by
  obtain ⟨w, w', subject, before, timeoutMs, ran, after, hw, -, htakes, hw', hran, ht⟩ := h
  rw [if_pos hcode] at htakes
  refine ⟨w, w', subject, _, timeoutMs, ran, hw, htakes, hw', ht, ?_, ?_⟩
  · simp [Ending.succeeded, hran, hcode]
  · exact List.mem_append_right _ List.mem_cons_self

lemma Changes.frame {t : State} (h : Changes names s c t) {n : String} (hn : n ∈ names)
    (hc : n ∉ c.touches) : t.containers n = s.containers n := by
  obtain ⟨w, w', subject, new, hw, hmay, hw', -⟩ := h
  rw [hw' n hn, hmay.frame hc, hw n hn]

lemma Changes.trace {t : State} (h : Changes names s c t) : ∃ new, t.trace = s.trace ++ new := by
  obtain ⟨_, _, _, new, -, -, -, ht⟩ := h
  exact ⟨new, ht⟩

/-- A command that touches none of the names. -/
lemma Changes.later {t : State} (h : Changes names s c t) (hc : ∀ n ∈ names, n ∉ c.touches) :
    ∃ new, Later names s t new := by
  obtain ⟨new, ht⟩ := h.trace
  exact ⟨new, fun n hn => h.frame hn (hc n hn), ht⟩

lemma execute_eq_ok {command : String} {allowFailure : Bool} {e : Ending} {out : Output}
    (h : execute command allowFailure e = .ok out) :
    e = .closed out.code out.stdout out.stderr false false false ∧
      (out.code = some 0 ∨ allowFailure = true) := by
  cases e with
  | error m => cases h
  | closed code stdout stderr cancelled timedOut outputExceeded =>
      unfold execute at h
      dsimp only at h
      split_ifs at h with h1 h2 h3 h4
      obtain rfl := Except.ok.inj h
      simp only [Bool.not_eq_true] at h1 h2 h3
      subst h1 h2 h3
      refine ⟨rfl, ?_⟩
      by_contra hne
      simp only [not_or, Bool.not_eq_true] at hne
      exact h4 hne

/-- What is settled is the outcome, or a failure. -/
lemma does_settle (outcome : Except Text Output) (expired cleanup : Bool) (commandDeadline : ℤ)
    (label : String) : (settle outcome expired cleanup commandDeadline label).Does IsQuiet
      fun out => outcome = .ok out := by
  have hlate : Quiet (do
      let now ← ask .now
      if expired ∨ commandDeadline ≤ now then fail (label ++ " deadline exceeded")
      else pure () : Io Unit) := by
    refine Quiet.bind (quiet_ask trivial) fun now => ?_
    split_ifs <;> exact trivial
  unfold settle
  refine Prog.Does.bind (R := fun x => ∀ out, x = .ok out → outcome = .ok out) ?_ fun tried h => ?_
  · refine Prog.Does.attempt ?_
    cases outcome with
    | error e => exact trivial
    | ok out =>
        refine Prog.Does.bind (R := fun y => y = out) rfl ?_
        rintro _ rfl
        refine Prog.Does.bind (quiet_unlessCleanup cleanup) fun _ _ => ?_
        exact Prog.Does.bind hlate fun _ _ => rfl
  · cases tried with
    | ok out => exact h out rfl
    | error e =>
        refine Prog.Does.bind (quiet_unlessCleanup cleanup) fun _ _ => ?_
        exact Prog.Does.bind hlate fun _ _ => trivial

/-- A command may have been made or not when it fails, and its outcome is true when it does
not. -/
lemma ends_commandWithin {o : Options} {deadlineAt : ℤ} {label : String} {cleanup : Bool}
    {Q : Except Text Output → State → Prop} (herr : ∀ e t, Changes names s c t → Q (.error e) t)
    (hok : ∀ out t, Done names s c out t → (out.code = some 0 ∨ o.allowFailure = true) →
      Q (.ok out) t) : Ends names (commandWithin r c o deadlineAt label cleanup) s Q := by
  have hstay {e : Text} {t : State} {new : List Event} (h : Later names s t new) :
      Q (.error e) t := herr e t ⟨_, _, none, new, .refl _ _, .inl ⟨rfl, rfl⟩, h.agree, h.trace⟩
  have hquiet {α : Type} {p : Io α} {f : α → Io Output} {t : State} {new : List Event}
      (hl : Later names s t new) (hp : Quiet p)
      (hf : ∀ a u new, Later names s u new → Ends names (f a) u Q) : Ends names (p >>= f) t Q := by
    refine Safe.bind (R := fun _ u => ∃ new, Later names s u new)
      (ends_quiet hp fun _ u more hu => ⟨_, hl.trans hu⟩) ?_ ?_
    · rintro a u ⟨new, hu⟩
      exact hf a u new hu
    · rintro e u ⟨new, hu⟩
      exact hstay hu
  unfold commandWithin
  refine hquiet (.refl _ s) (quiet_unlessCleanup cleanup) fun _ _ _ hl => ?_
  refine hquiet hl (quiet_remaining _ _) fun available _ _ hl => ?_
  refine hquiet hl (quiet_ask trivial) fun now _ _ hl => ?_
  refine hquiet hl (quiet_remaining _ _) fun _ t before hl => ?_
  refine ⟨trivial, fun ran u hstep => ?_⟩
  obtain ⟨w, w', subject, hw, htells, hmay, rfl⟩ := hstep
  refine ends_does (does_settle _ _ _ _ _) fun x u after hu _ hx => ?_
  have htrace : u.trace = s.trace ++ (before ++ ⟨⟨.docker c _, ran⟩, subject⟩ :: after) := by
    rw [hu.trace, hl.trace]
    simp
  have hchanges : Changes names s c u := by
    refine ⟨w, w', subject, _, hl.agree.trans hw, ?_, hu.agree, htrace⟩
    split_ifs at hmay
    · exact hmay.may
    · exact hmay
  cases x with
  | error e => exact herr e u hchanges
  | ok out =>
      obtain ⟨hending, hcode⟩ := execute_eq_ok (hx out rfl)
      rw [hending] at htells
      refine hok out u ⟨w, w', subject, before, _, ran, after, hl.agree.trans hw, htells, ?_,
        hu.agree, by rw [hending]; rfl, htrace⟩ hcode
      simpa [hending, Ending.succeeded, Ending.code] using hmay

end Commands

/-! ### The app and its backup -/

section App

variable {names : List String} {r : Runtime} {s : State}

lemma ends_command {c : Command} {deadlineAt : ℤ} {Q : Except Text Output → State → Prop}
    (herr : ∀ e t, Changes names s c t → Q (.error e) t)
    (hok : ∀ out t, Done names s c out t → out.code = some 0 → Q (.ok out) t) :
    Ends names (command r c deadlineAt) s Q :=
  ends_commandWithin herr fun out t h hc => hok out t h (by simpa using hc)

lemma ends_cleanupWithin {c : Command} {deadlineAt : ℤ} {Q : Except Text Output → State → Prop}
    (herr : ∀ e t, Changes names s c t → Q (.error e) t)
    (hok : ∀ out t, Done names s c out t → Q (.ok out) t) :
    Ends names (cleanupWithin r c deadlineAt) s Q :=
  ends_commandWithin herr fun out t h _ => hok out t h

lemma ends_cleanupCommand {c : Command} {deadlineAt : ℤ} {Q : Except Text Unit → State → Prop}
    (h : ∀ t, Changes names s c t → Q (.ok ()) t) :
    Ends names (cleanupCommand r c deadlineAt) s Q := by
  refine Safe.bind (R := fun x t => Changes names s c t ∧ x.isOk = true) ?_ ?_ ?_
  · rw [safe_attempt]
    exact ends_cleanupWithin (fun _ t ht => ⟨ht, rfl⟩) fun _ t ht => ⟨ht.changes, rfl⟩
  · intro _ t ht
    exact h t ht.1
  · intro _ t ht
    cases ht.2

/-- An inspection with status zero is about a container, which is told as it is. -/
lemma Done.told {name : String} {out : Output} {t : State}
    (h : Done names s (.inspect .idAndRunning name) out t) (hn : name ∈ names)
    (hcode : out.code = some 0) :
    ∃ x, matchState out.stdout = some x ∧ t.containers name = some x := by
  have hframe := h.changes.frame hn (List.not_mem_nil)
  obtain ⟨w, w', subject, _, _, _, _, hw, htells, -, -, -, -⟩ := h
  obtain ⟨x, hx, hout⟩ := htells.1 hcode
  refine ⟨x, ?_, ?_⟩
  · rw [hout, matchState_render]
  · rw [hframe, ← hw name hn, hx]

/-- An inspection that finds no container of that name. -/
lemma Done.missing {name : String} {format : Format} {out : Output} {t : State}
    (h : Done names s (.inspect format name) out t) (hn : name ∈ names)
    (hcode : out.code ≠ some 0) (hno : noSuchContainer out.stderr = true) :
    t.containers name = none := by
  have hframe := h.changes.frame hn (List.not_mem_nil)
  obtain ⟨w, w', subject, _, _, _, _, hw, htells, -, -, -, -⟩ := h
  rw [hframe, ← hw name hn, htells.2 hcode hno]

lemma ends_appState {name : String} {deadlineAt : ℤ} (hn : name ∈ names) :
    Ends names (appState r name deadlineAt) s fun x t =>
      (∃ new, Later names s t new) ∧ ∀ previous, x = .ok previous →
        s.containers name = previous := by
  have hlater {t : State} (h : Changes names s (.inspect .idAndRunning name) t) :
      ∃ new, Later names s t new := h.later fun _ _ => List.not_mem_nil
  refine Safe.bind (R := fun x t => (∃ new, Later names s t new) ∧ ∀ out, x = .ok out →
    Done names s (.inspect .idAndRunning name) out t) ?_ ?_ ?_
  · refine ends_commandWithin (fun e t h => ⟨hlater h, nofun⟩) fun out t h _ => ?_
    refine ⟨hlater h.changes, fun out' hout => ?_⟩
    obtain rfl := Except.ok.inj hout
    exact h
  · rintro out t ⟨⟨new, hl⟩, hdone⟩
    have hdone := hdone out rfl
    have hsame := hl.agree name hn
    split_ifs with hcode hno
    · refine ⟨⟨new, hl⟩, fun previous hp => ?_⟩
      rw [← hsame, ← Except.ok.inj hp]
      exact hdone.missing hn hcode hno
    · exact ⟨⟨new, hl⟩, nofun⟩
    · obtain ⟨x, hx, ht⟩ := hdone.told hn (not_not.mp hcode)
      rw [hx]
      refine ⟨⟨new, hl⟩, fun previous hp => ?_⟩
      rw [← hsame, ← Except.ok.inj hp, ht]
  · rintro e t ⟨hl, -⟩
    exact ⟨hl, nofun⟩

lemma ends_cleaned {i : Input} {deadline : ℤ} {c : Command} {α : Type} {f : Output → Io α}
    {Q : Except Text α → State → Prop} {u : State}
    (hf : ∀ out t, Done (namesOf r i) u c out t → Ends (namesOf r i) (f out) t Q)
    (herr : ∀ e t, Q (.error e) t) :
    Ends (namesOf r i) (cleanupWithin r c deadline >>= f) u Q := by
  refine Safe.bind (R := fun x t => ∀ out, x = .ok out → Done (namesOf r i) u c out t)
    (ends_cleanupWithin (fun _ _ _ _ h => by cases h) fun out t h out' hout => ?_) ?_ ?_
  · obtain rfl := Except.ok.inj hout
    exact h
  · exact fun out t h => hf out t (h out rfl)
  · exact fun e t _ => herr e t

lemma ends_look {i : Input} {previous : Container} {deadline : ℤ} (u : State) :
    Ends (namesOf r i) (do
    let restored ← cleanupWithin r (.inspect .idAndRunning (appName r)) deadline
    let backup ← cleanupWithin r (.inspect .id (backupName r i.runId)) deadline
    let backupGone := decide (backup.code ≠ some 0) && noSuchContainer backup.stderr
    let good := match matchState restored.stdout with
      | none => false
      | some state => decide (restored.code = some 0 ∧ state.id = previous.id ∧
          state.running = previous.running)
    if good && backupGone then pure ()
    else fail "the previous published app could not be restored" : Io Unit) u fun x t =>
      x = .ok () → t.containers (appName r) = some previous ∧
        t.containers (backupName r i.runId) = none := by
  have happ : appName r ∈ namesOf r i := List.mem_cons_self
  have hbackup : backupName r i.runId ∈ namesOf r i := List.mem_cons_of_mem _ List.mem_cons_self
  refine ends_cleaned (fun restored t hrestored => ?_) fun _ _ h => by cases h
  refine ends_cleaned (fun backup v hgone => ?_) fun _ _ h => by cases h
  dsimp only
  split_ifs with hgood
  · intro _
    simp only [Bool.and_eq_true, decide_eq_true_eq] at hgood
    obtain ⟨hsame, hcode, hno⟩ := hgood
    refine ⟨?_, hgone.missing hbackup hcode hno⟩
    rw [hgone.changes.frame happ List.not_mem_nil]
    split at hsame
    · cases hsame
    · rename_i state hstate
      obtain ⟨hcode, hid, hrunning⟩ := of_decide_eq_true hsame
      obtain ⟨x, hx, ht⟩ := hrestored.told happ hcode
      obtain rfl := Option.some.inj (hx.symm.trans hstate)
      rw [ht, Container.eq_of hid hrunning]
  · intro h
    cases h

/-- Wherever the containers are, an app that is found to be restored is restored. -/
lemma ends_restore {i : Input} {previous : Container} {deadline : ℤ} :
    Ends (namesOf r i) (restore r i previous deadline) s fun x t => x = .ok () →
      t.containers (appName r) = some previous ∧
        t.containers (backupName r i.runId) = none := by
  unfold restore
  refine ends_cleaned (fun _ t _ => ?_) fun _ _ h => by cases h
  split_ifs
  · refine ends_cleaned (fun _ u _ => ?_) fun _ _ h => by cases h
    exact ends_look u
  · exact ends_look t

lemma ends_reconcile {i : Input} {deadline : ℤ} :
    Ends (namesOf r i) (reconcile r deadline) s fun x t =>
      (∃ new, Later (namesOf r i) s t new) ∧ (x = .ok () → t.containers (appName r) = none) := by
  have happ : appName r ∈ namesOf r i := List.mem_cons_self
  refine Safe.bind (R := fun x t => (∃ new, Later (namesOf r i) s t new) ∧ ∀ out, x = .ok out →
    Done (namesOf r i) s (.inspect .id (appName r)) out t) ?_ ?_ ?_
  · refine ends_cleanupWithin (fun e t h => ⟨h.later fun _ _ => List.not_mem_nil, nofun⟩)
      fun out t h => ?_
    refine ⟨h.changes.later fun _ _ => List.not_mem_nil, fun out' hout => ?_⟩
    obtain rfl := Except.ok.inj hout
    exact h
  · rintro out t ⟨hl, hdone⟩
    split_ifs with hcode
    · exact ⟨hl, nofun⟩
    · simp only [Bool.or_eq_true, decide_eq_true_eq, Bool.not_eq_true', not_or,
        Bool.not_eq_false] at hcode
      exact ⟨hl, fun _ => (hdone out rfl).missing happ hcode.1 hcode.2⟩
  · rintro e t ⟨hl, -⟩
    exact ⟨hl, nofun⟩

lemma appName_ne_backupName (r : Runtime) (runId : String) : appName r ≠ backupName r runId := by
  intro h
  have := congrArg String.length h
  simp only [appName, backupName, containerName, String.length_append] at this
  have h1 : "app".length = 3 := by decide
  have h2 : "app-backup-".length = 11 := by decide
  omega

/-- What is made of an attempt to put things back. -/
lemma ends_attempt {i : Input} {p : Io Unit} {replacementError message : Text} {R : State → Prop}
    (h : Ends (namesOf r i) p s fun x t => x = .ok () → R t) :
    Ends (namesOf r i) (do
      let tried ← p.attempt
      match tried with
      | .ok _ => .fail (.error replacementError)
      | .error e => .fail (.aggregate replacementError e message) :
        Prog Call Call.Ret Failure Unit) s fun x t =>
      (∀ u, x ≠ .ok u) ∧ ∀ m, x = .error (.error m) → R t := by
  refine Safe.bind (R := fun x t => x.isOk = true ∧ (x = .ok (.ok ()) → R t)) ?_ ?_ ?_
  · rw [safe_attempt]
    refine h.mono fun x t hx => ⟨rfl, fun hok => hx (Except.ok.inj hok)⟩
  · rintro tried t ⟨-, hR⟩
    cases tried with
    | ok u => exact ⟨nofun, fun _ _ => hR rfl⟩
    | error e => exact ⟨nofun, nofun⟩
  · rintro e t ⟨h, -⟩
    cases h

/-- A replacement that failed is rejected with its own error only where all is as it was. -/
lemma ends_rollback {i : Input} {previous : Option Container} {replacementAttempted : Bool}
    {replacementError : Text} (hrep : previous = none → replacementAttempted = true) :
    Ends (namesOf r i) (rollback r i previous replacementAttempted replacementError) s fun x t =>
      (∀ u, x ≠ .ok u) ∧ ∀ m, x = .error (.error m) → t.containers (appName r) = previous ∧
        ∀ y, t.containers (backupName r i.runId) = some y →
          previous = none ∧ s.containers (backupName r i.runId) = some y := by
  have hbackup : backupName r i.runId ∈ namesOf r i := List.mem_cons_of_mem _ List.mem_cons_self
  have hne := appName_ne_backupName r i.runId
  unfold rollback
  refine Safe.bind (R := fun x t => x.isOk = true ∧
    t.containers (backupName r i.runId) = s.containers (backupName r i.runId)) ?_ ?_ ?_
  · refine ⟨trivial, fun now t hstep => ?_⟩
    obtain ⟨w, hw, rfl⟩ := hstep
    exact ⟨rfl, hw _ hbackup⟩
  · rintro deadline t ⟨-, ht⟩
    refine Safe.bind (R := fun x u => x.isOk = true ∧
      u.containers (backupName r i.runId) = s.containers (backupName r i.runId)) ?_ ?_ ?_
    · rw [safe_mapErr]
      cases replacementAttempted with
      | false => exact ⟨rfl, ht⟩
      | true =>
          refine ends_cleanupCommand fun u h => ⟨rfl, ?_⟩
          rw [h.frame hbackup (by simpa [Command.touches] using hne.symm), ht]
    · rintro _ u ⟨-, hu⟩
      cases previous with
      | some state =>
          refine ends_attempt (ends_restore.mono fun x t h hx => ?_)
          obtain ⟨happ, hnone⟩ := h hx
          refine ⟨happ, fun y hy => ?_⟩
          cases hnone.symm.trans hy
      | none =>
          unfold putBack
          rw [if_pos (hrep rfl)]
          refine ends_attempt (ends_reconcile.mono fun x t h hx => ?_)
          obtain ⟨⟨new, hl⟩, hnone⟩ := h
          exact ⟨hnone hx, fun y hy => ⟨rfl, by rw [← hu, ← hl.agree _ hbackup, hy]⟩⟩
    · rintro e u ⟨h, -⟩
      cases h
  · rintro e t ⟨h, -⟩
    cases h

end App

/-! ### Commands about other containers -/

section Aloof

variable {names : List String} {ε α β : Type}

/-- The call is no command that changes a container of the given names. -/
def Aloof (names : List String) : Call → Prop
  | .docker c _ => ∀ n ∈ names, n ∉ c.touches
  | _ => True

lemma Quiet.aloof {R : α → Prop} {p : Prog Call Call.Ret ε α} (hp : p.Does IsQuiet R) :
    p.Does (Aloof names) R := by
  induction p with
  | ret a => exact hp
  | fail e => exact trivial
  | call o k ih =>
      refine ⟨?_, fun x => ih x (hp.2 x)⟩
      cases o with
      | docker c timeoutMs => exact hp.1.elim
      | now | cancelled | wait _ | lstatOrNull _ | lstat _ | readdir _ | «open» _ | stat _
      | readFile _ | close _ => exact trivial

lemma Later.aloof {s t : State} {o : Call} {x : o.Ret} (ho : Aloof names o)
    (h : (machine names).step s o x t) : ∃ new, Later names s t new := by
  cases o with
  | docker c timeoutMs =>
      obtain ⟨w, w', subject, hw, -, hmay, rfl⟩ := h
      have hmay : May c w w' subject := by
        split_ifs at hmay
        · exact hmay.may
        · exact hmay
      exact ⟨_, fun n hn => (hmay.frame (ho n hn)).trans (hw n hn), rfl⟩
  | now | cancelled | wait _ | lstatOrNull _ | lstat _ | readdir _ | «open» _ | stat _
  | readFile _ | close _ =>
      obtain ⟨w, hw, rfl⟩ := h
      exact ⟨_, hw, rfl⟩

/-- What follows a program that leaves the containers starts with the same ones. -/
lemma ends_aloof {R : α → Prop} {p : Prog Call Call.Ret ε α} {f : α → Prog Call Call.Ret ε β}
    {s t : State} {new : List Event} {Q : Except ε β → State → Prop} (hl : Later names s t new)
    (hp : p.Does (Aloof names) R)
    (hf : ∀ a u new, R a → Later names s u new → Ends names (f a) u Q)
    (herr : ∀ e u new, Later names s u new → Q (.error e) u) : Ends names (p >>= f) t Q := by
  induction p generalizing t new with
  | ret a => exact hf a t new hp hl
  | fail e => exact herr e t new hl
  | call o k ih =>
      refine ⟨trivial, fun x u hstep => ?_⟩
      obtain ⟨more, hu⟩ := Later.aloof hp.1 hstep
      exact ih x (hl.trans hu) (hp.2 x)

lemma does_commandWithin {c : Command} (hc : ∀ n ∈ names, n ∉ c.touches) (r : Runtime)
    (o : Options) (deadlineAt : ℤ) (label : String) (cleanup : Bool) :
    (commandWithin r c o deadlineAt label cleanup).Does (Aloof names) fun _ => True := by
  refine Prog.Does.bind (Quiet.aloof (quiet_unlessCleanup cleanup)) fun _ _ => ?_
  refine Prog.Does.bind (Quiet.aloof (quiet_remaining _ _)) fun available _ => ?_
  refine Prog.Does.bind (Quiet.aloof (quiet_ask trivial)) fun now _ => ?_
  refine Prog.Does.bind (Quiet.aloof (quiet_remaining _ _)) fun _ _ => ?_
  refine ⟨hc, fun ran => ?_⟩
  exact (Quiet.aloof (does_settle _ _ _ _ _)).mono fun _ _ => trivial

lemma does_probeFrom (r : Runtime) (name : String) (smoke : Smoke) (deadlineAt : ℤ)
    (attempts : ℕ) (lastError : Text) :
    (probeFrom r name smoke deadlineAt attempts lastError).Does (Aloof names) fun _ => True := by
  induction attempts generalizing lastError with
  | zero => exact trivial
  | succ attempts ih =>
      refine Prog.Does.bind (does_commandWithin (fun _ _ => List.not_mem_nil) _ _ _ _ _).attempt
        fun tried _ => ?_
      cases tried with
      | ok out => exact trivial
      | error e => exact Prog.Does.bind (Quiet.aloof (quiet_waitWithin _ _ _)) fun _ _ => ih e

lemma does_serverCreateArgs (r : Runtime) (s : Server) : (serverCreateArgs r s).Does IsQuiet
    fun c => ∃ args, c = .create (containerName r.deployment s.nameSuffix) args :=
  Prog.Does.bind (Prog.does_ofExcept _) fun _ _ => ⟨_, rfl⟩

lemma candidateName_ne (r : Runtime) (i : Input) : candidateName r i.runId ∉ namesOf r i := by
  have h1 : "app".length = 3 := by decide
  have h2 : "app-backup-".length = 11 := by decide
  have h3 : "app-candidate-".length = 14 := by decide
  have hname : candidateName r i.runId =
      containerName r.deployment ("app-candidate-" ++ i.runId) := rfl
  simp only [namesOf, List.mem_cons, List.not_mem_nil, or_false, not_or]
  refine ⟨fun h => ?_, fun h => ?_⟩ <;>
  · have := congrArg String.length h
    simp only [appName, backupName, hname, containerName, String.length_append] at this
    omega

lemma does_tryCandidate (r : Runtime) (i : Input) (s : Scan) (args : List String) :
    (tryCandidate r i s (.create (candidateName r i.runId) args)).Does (Aloof (namesOf r i))
      fun _ => True := by
  have hone {c : Command} (hc : c.touches = [candidateName r i.runId]) :
      ∀ n ∈ namesOf r i, n ∉ c.touches := by
    intro n hn hmem
    rw [hc, List.mem_singleton] at hmem
    exact candidateName_ne r i (hmem ▸ hn)
  refine Prog.Does.bind (Prog.Does.attempt (R := fun _ => True) ?_) fun tried _ => ?_
  · refine Prog.Does.bind (does_commandWithin (hone rfl) _ _ _ _ _) fun _ _ => ?_
    refine Prog.Does.bind (does_commandWithin (hone rfl) _ _ _ _ _) fun _ _ => ?_
    refine Prog.Does.bind (does_probeFrom _ _ _ _ _ _) fun _ _ => ?_
    exact Quiet.aloof (quiet_assertArtifact s)
  · refine Prog.Does.bind (Quiet.aloof (quiet_cleanupDeadline r)) fun deadline _ => ?_
    refine Prog.Does.bind (R := fun _ => True) ?_ fun _ _ => Prog.does_ofExcept _
    exact Prog.Does.bind (does_commandWithin (hone rfl) _ _ _ _ _).attempt fun _ _ => trivial

end Aloof

/-! ### Publication -/

section Publication

variable {p : Platform} {r : Runtime} {i : Input} {s : State}

/-- What is known of a publication that is about to change the app. -/
structure Ready (p : Platform) (r : Runtime) (i : Input) (s : State) (ready : Prepared) : Prop where
  previous : s.containers (appName r) = ready.previous
  scan : ∃ expected deadlineAt, i.receipt = some expected ∧
    ready.scan = scanOf p r i expected deadlineAt

lemma ends_prepare : Ends (namesOf r i) (prepare p r i) s fun x t =>
    (∃ new, Later (namesOf r i) s t new) ∧ ∀ ready, x = .ok ready → Ready p r i s ready := by
  have herr {e : Text} {t : State} {new : List Event} (h : Later (namesOf r i) s t new) :
      (∃ new, Later (namesOf r i) s t new) ∧
        ∀ ready, (.error e : Except Text Prepared) = .ok ready → Ready p r i s ready :=
    ⟨⟨new, h⟩, nofun⟩
  unfold prepare
  refine ends_aloof (.refl _ s) (Quiet.aloof quiet_throwIfCancelled) (fun _ t _ _ hl => ?_)
    fun _ _ _ => herr
  split
  swap
  · exact herr hl
  rename_i port publicUrl _ _
  refine ends_aloof hl (Quiet.aloof (quiet_phaseDeadline _ _ _ _)) (fun deadlineAt t _ _ hl => ?_)
    fun _ _ _ => herr
  split_ifs
  · exact herr hl
  refine ends_aloof hl (Quiet.aloof (quiet_ask trivial)) (fun stat t _ _ hl => ?_) fun _ _ _ => herr
  split_ifs
  · exact herr hl
  cases hreceipt : i.receipt with
  | none => exact herr hl
  | some expected =>
      refine ends_aloof hl (Quiet.aloof (quiet_assertArtifact _)) (fun _ t _ _ hl => ?_)
        fun _ _ _ => herr
      refine ends_aloof hl (Quiet.aloof (does_serverCreateArgs r _)) (fun c t _ hc hl => ?_)
        fun _ _ _ => herr
      obtain ⟨args, rfl⟩ := hc
      refine ends_aloof hl (does_tryCandidate r i _ args) (fun _ t new _ hl => ?_)
        fun _ _ _ => herr
      refine Safe.bind (ends_appState (List.mem_cons_self)) ?_ ?_
      · rintro previous u ⟨⟨more, hu⟩, hprevious⟩
        refine ⟨⟨_, hl.trans hu⟩, fun ready hready => ?_⟩
        obtain rfl := Except.ok.inj hready
        refine ⟨?_, expected, deadlineAt, hreceipt, rfl⟩
        rw [← hprevious previous rfl, hl.agree _ List.mem_cons_self]
      · rintro e u ⟨⟨more, hu⟩, -⟩
        exact herr (hl.trans hu)

/-- `Passed names r i id s t`: between the two states the probe of the app has passed in the
container with this id. -/
def Passed (r : Runtime) (i : Input) (id : Text) (s t : State) : Prop :=
  ∃ new ms ran, Later (namesOf r i) s t new ∧ ran.ending.succeeded = true ∧
    ⟨⟨.docker (probe (appName r) i.smoke) ms, ran⟩, some id⟩ ∈ new

lemma ends_probeApp {x : Container} {deadlineAt : ℤ} (hx : s.containers (appName r) = some x) :
    Ends (namesOf r i) (probeApp r (appName r) i.smoke deadlineAt) s fun y t =>
      (∃ new, Later (namesOf r i) s t new) ∧ (y = .ok () → Passed r i x.id s t) := by
  have happ : appName r ∈ namesOf r i := List.mem_cons_self
  have hfrom (attempts : ℕ) (lastError : Text) (t : State) (new : List Event)
      (hl : Later (namesOf r i) s t new) :
      Ends (namesOf r i) (probeFrom r (appName r) i.smoke deadlineAt attempts lastError) t
        fun y t => (∃ new, Later (namesOf r i) s t new) ∧ (y = .ok () → Passed r i x.id s t) := by
    induction attempts generalizing lastError t new with
    | zero => exact ⟨⟨new, hl⟩, nofun⟩
    | succ attempts ih =>
        refine Safe.bind (R := fun y u => y.isOk = true ∧ (∃ new, Later (namesOf r i) s u new) ∧
          ∀ out, y = .ok (.ok out) → Passed r i x.id s u) ?_ ?_ ?_
        · rw [safe_attempt]
          refine ends_commandWithin (fun e u h => ?_) fun out u h hcode => ?_
          · obtain ⟨more, hu⟩ := h.later fun _ _ => List.not_mem_nil
            exact ⟨rfl, ⟨_, hl.trans hu⟩, nofun⟩
          · obtain ⟨more, hu⟩ := h.changes.later fun _ _ => List.not_mem_nil
            refine ⟨rfl, ⟨_, hl.trans hu⟩, fun _ _ => ?_⟩
            have hcode : out.code = some 0 := by simpa using hcode
            obtain ⟨w, w', subject, noted, ms, ran, hw, htakes, -, ht, hran, hmem⟩ := h.takes hcode
            obtain ⟨x', hx', -, rfl⟩ := htakes
            have hsame : x' = x := by
              have := hw _ happ
              rw [hx', hl.agree _ happ, hx] at this
              exact Option.some.inj this
            subst hsame
            refine ⟨new ++ noted, ms, ran, ⟨hl.agree.trans hu.agree, ?_⟩, hran,
              List.mem_append_right _ hmem⟩
            rw [ht, hl.trace, List.append_assoc]
        · rintro tried u ⟨-, ⟨more, hu⟩, hpassed⟩
          cases tried with
          | ok out => exact ⟨⟨more, hu⟩, fun _ => hpassed out rfl⟩
          | error e =>
              refine ends_aloof hu (Quiet.aloof (quiet_waitWithin _ _ _))
                (fun _ v more _ hv => ih e v more hv) fun e v more hv => ⟨⟨more, hv⟩, nofun⟩
        · rintro e u ⟨h, -⟩
          cases h
  exact hfrom _ _ s [] (.refl _ _)

/-- The artifact is read, and what was read gave this receipt. -/
lemma ends_assertArtifact {names : List String} {scan : Scan} :
    Ends names (assertArtifact scan) s fun y t => (∃ new, Later names s t new) ∧ (y = .ok () →
      ∃ before new after receipt, Later names s t (before ++ new ++ after) ∧
        Reads (scanSnapshot scan) (new.map (·.call)) (.ok receipt) ∧
        sameArtifact receipt scan.expected = true) := by
  unfold assertArtifact
  refine ends_aloof (.refl _ s) (Quiet.aloof quiet_throwIfCancelled) (fun _ t before _ hl => ?_)
    fun _ _ new hl => ⟨⟨new, hl⟩, nofun⟩
  refine Safe.bind (ends_does (quiet_scanSnapshot scan) fun x u new hu hread _ => ?_)
    (R := fun x u => ∃ new, Later names t u new ∧ Reads (scanSnapshot scan) (new.map (·.call)) x)
    ?_ ?_
  · exact ⟨new, hu, hread⟩
  · rintro receipt u ⟨new, hu, hread⟩
    split_ifs with hsame
    · refine ends_quiet quiet_throwIfCancelled fun x v after hv => ?_
      exact ⟨⟨_, (hl.trans hu).trans hv⟩, fun _ =>
        ⟨before, new, after, receipt, (hl.trans hu).trans hv, hread, hsame⟩⟩
    · exact ⟨⟨_, hl.trans hu⟩, nofun⟩
  · rintro e u ⟨new, hu, -⟩
    exact ⟨⟨_, hl.trans hu⟩, nofun⟩

/-- `Standing r i s t x new`: since `s` the app `x` was made, and the backup was left alone. -/
structure Standing (r : Runtime) (i : Input) (s t : State) (x : Container) (new : List Event) :
    Prop where
  app : t.containers (appName r) = some x
  backup : t.containers (backupName r i.runId) = s.containers (backupName r i.runId)
  trace : t.trace = s.trace ++ new
  made : ∃ args ms ran, ran.ending.succeeded = true ∧
    ⟨⟨.docker (.create (appName r) args) ms, ran⟩, some x.id⟩ ∈ new

lemma Standing.later {t u : State} {x : Container} {new more : List Event}
    (h : Standing r i s t x new) (hl : Later (namesOf r i) t u more) :
    Standing r i s u x (new ++ more) := by
  obtain ⟨args, ms, ran, hran, hmem⟩ := h.made
  refine ⟨?_, ?_, ?_, args, ms, ran, hran, List.mem_append_left _ hmem⟩
  · rw [hl.agree _ List.mem_cons_self, h.app]
  · rw [hl.agree _ (List.mem_cons_of_mem _ List.mem_cons_self), h.backup]
  · rw [hl.trace, h.trace, List.append_assoc]

/-- A new app. -/
lemma standing_of_create {args : List String} {t u : State} {new : List Event} {out : Output}
    (hl : Later (namesOf r i) s t new)
    (h : Done (namesOf r i) t (.create (appName r) args) out u) (hcode : out.code = some 0) :
    ∃ x new, Standing r i s u x new := by
  have hne := appName_ne_backupName r i.runId
  have hframe := h.changes.frame (List.mem_cons_of_mem _ List.mem_cons_self)
    (by simpa [Command.touches] using hne.symm)
  obtain ⟨w, w', subject, noted, ms, ran, -, ⟨-, x, -, rfl, rfl⟩, hw', ht, hran, hmem⟩ :=
    h.takes hcode
  refine ⟨x, new ++ noted, ?_, ?_, ?_, args, ms, ran, hran, List.mem_append_right _ hmem⟩
  · rw [hw' _ List.mem_cons_self, Function.update_self]
  · rw [hframe, hl.agree _ (List.mem_cons_of_mem _ List.mem_cons_self)]
  · rw [ht, hl.trace, List.append_assoc]

/-- The app is still the same once it was started. -/
lemma Standing.start {t u : State} {x : Container} {new : List Event} {out : Output}
    (hs : Standing r i s t x new) (h : Done (namesOf r i) t (.start (appName r)) out u)
    (hcode : out.code = some 0) : ∃ x new, Standing r i s u x new := by
  have hne := appName_ne_backupName r i.runId
  have hframe := h.changes.frame (List.mem_cons_of_mem _ List.mem_cons_self)
    (by simpa [Command.touches] using hne.symm)
  obtain ⟨w, w', subject, noted, ms, ran, hw, ⟨x', hx', rfl, -⟩, hw', ht, -, -⟩ := h.takes hcode
  obtain rfl : x' = x := by
    have := hw _ List.mem_cons_self
    rw [hx', hs.app] at this
    exact Option.some.inj this
  obtain ⟨args, ms, ran, hran, hmem⟩ := hs.made
  refine ⟨{ x' with running := true }, new ++ noted, ?_, ?_, ?_, args, ms, ran, hran,
    List.mem_append_left _ hmem⟩
  · rw [hw' _ List.mem_cons_self, Function.update_self]
  · rw [hframe, hs.backup]
  · rw [ht, hs.trace, List.append_assoc]

/-- A replacement that succeeds is published, and one that fails has left the backup alone. -/
lemma ends_replace {port : ℕ} {expected : Artifact} {deadlineAt : ℤ}
    (hreceipt : i.receipt = some expected) :
    Ends (namesOf r i) (replace r i port (scanOf p r i expected deadlineAt)) s fun y t =>
      t.containers (backupName r i.runId) = s.containers (backupName r i.runId) ∧
        (y = .ok () → Published p r i s t) := by
  have hbackup : backupName r i.runId ∈ namesOf r i := List.mem_cons_of_mem _ List.mem_cons_self
  have hne := appName_ne_backupName r i.runId
  -- a command about the app leaves the backup alone whatever comes of it
  have hcommand {c : Command} {f : Output → Io Unit} {t : State} {ms : ℤ}
      {Q : State → Prop} (hc : c.touches = [appName r])
      (ht : t.containers (backupName r i.runId) = s.containers (backupName r i.runId))
      (hf : ∀ out u, Done (namesOf r i) t c out u → out.code = some 0 →
        Ends (namesOf r i) (f out) u fun y v =>
          v.containers (backupName r i.runId) = s.containers (backupName r i.runId) ∧
            (y = .ok () → Q v)) :
      Ends (namesOf r i) (command r c ms >>= f) t fun y v =>
        v.containers (backupName r i.runId) = s.containers (backupName r i.runId) ∧
          (y = .ok () → Q v) := by
    refine Safe.bind (R := fun y u =>
      u.containers (backupName r i.runId) = s.containers (backupName r i.runId) ∧
        ∀ out, y = .ok out → Done (namesOf r i) t c out u ∧ out.code = some 0) ?_ ?_ ?_
    · have hframe {u : State} (h : Changes (namesOf r i) t c u) :
          u.containers (backupName r i.runId) = s.containers (backupName r i.runId) := by
        rw [h.frame hbackup (by rw [hc]; simpa using hne.symm), ht]
      refine ends_command (fun e u h => ⟨hframe h, nofun⟩) fun out u h hcode => ?_
      refine ⟨hframe h.changes, fun out' hout => ?_⟩
      obtain rfl := Except.ok.inj hout
      exact ⟨h, hcode⟩
    · rintro out u ⟨-, h⟩
      exact hf out u (h out rfl).1 (h out rfl).2
    · rintro e u ⟨hu, -⟩
      exact ⟨hu, nofun⟩
  unfold replace
  refine ends_aloof (.refl _ s) (Quiet.aloof (does_serverCreateArgs r _)) (fun c t _ hc hl => ?_)
    fun _ _ _ hl => ⟨hl.agree _ hbackup, nofun⟩
  obtain ⟨args, rfl⟩ := hc
  refine hcommand rfl (hl.agree _ hbackup) fun out u hdone hcode => ?_
  obtain ⟨x, new, hs⟩ := standing_of_create hl hdone hcode
  refine hcommand rfl hs.backup fun out v hdone hcode => ?_
  obtain ⟨x, new, hs⟩ := hs.start hdone hcode
  refine Safe.bind (ends_probeApp hs.app) ?_ ?_
  swap
  · rintro e v' ⟨⟨more, hl⟩, -⟩
    exact ⟨(hs.later hl).backup, nofun⟩
  rintro _ v' ⟨-, hpassed⟩
  obtain ⟨probed, ms, ran, hl, hran, hmem⟩ := hpassed rfl
  replace hs := hs.later hl
  refine Safe.bind ends_assertArtifact ?_ ?_
  swap
  · rintro e v'' ⟨⟨more, hl⟩, -⟩
    exact ⟨(hs.later hl).backup, nofun⟩
  rintro _ v'' ⟨-, hread⟩
  obtain ⟨before, scan, after, receipt, hl, hread, hsame⟩ := hread rfl
  have hs' := hs.later hl
  refine ends_does (R := fun _ => True) ?_ fun y w rest hw _ _ => ?_
  · refine Quiet.bind quiet_throwIfCancelled fun _ => Quiet.bind (quiet_remaining _ _) fun left => ?_
    split_ifs <;> exact trivial
  · refine ⟨(hs'.later hw).backup, fun _ => ?_⟩
    obtain ⟨args, ms', ran', hran', hmade⟩ := hs.made
    refine ⟨x, new ++ probed ++ before, scan, after ++ rest, expected, deadlineAt, receipt,
      (hs'.later hw).app, ?_, ?_, ?_, hreceipt, hread, hsame⟩
    · rw [(hs'.later hw).trace]
      simp
    · exact ⟨args, ms', ran', hran', List.mem_append_left _ hmade⟩
    · exact ⟨ms, ran, hran, List.mem_append_left _ (List.mem_append_right _ hmem)⟩

lemma Published.since {t u : State} {new : List Event} (ht : t.trace = s.trace ++ new)
    (h : Published p r i t u) : Published p r i s u := by
  obtain ⟨x, before, scan, after, expected, deadlineAt, receipt, happ, htrace, hmade, hprobed,
    hrest⟩ := h
  refine ⟨x, new ++ before, scan, after, expected, deadlineAt, receipt, happ, ?_, ?_, ?_, hrest⟩
  · rw [htrace, ht]
    simp
  · obtain ⟨args, ms, ran, hran, hmem⟩ := hmade
    exact ⟨args, ms, ran, hran, List.mem_append_right _ hmem⟩
  · obtain ⟨ms, ran, hran, hmem⟩ := hprobed
    exact ⟨ms, ran, hran, List.mem_append_right _ hmem⟩

/-- Where there was no app there is nothing to put aside. -/
lemma ends_setAside {previous : Option Container} {deadlineAt : ℤ} :
    Ends (namesOf r i) (setAside r i previous deadlineAt) s fun y t =>
      (∃ new, t.trace = s.trace ++ new) ∧ (previous = none → y = .ok () ∧ t = s) := by
  cases previous with
  | none => exact ⟨⟨[], (List.append_nil _).symm⟩, fun _ => ⟨rfl, rfl⟩⟩
  | some state =>
      refine Safe.bind (R := fun _ t => ∃ new, t.trace = s.trace ++ new)
        (ends_command (fun _ _ h => h.trace) fun _ _ h _ => h.changes.trace) ?_ ?_
      · rintro _ t ⟨new, ht⟩
        split_ifs
        · refine Safe.bind (R := fun _ u => ∃ new, u.trace = t.trace ++ new)
            (ends_command (fun _ _ h => h.trace) fun _ _ h _ => h.changes.trace) ?_ ?_
          · rintro _ u ⟨more, hu⟩
            exact ⟨⟨new ++ more, by rw [hu, ht, List.append_assoc]⟩, nofun⟩
          · rintro _ u ⟨more, hu⟩
            exact ⟨⟨new ++ more, by rw [hu, ht, List.append_assoc]⟩, nofun⟩
        · exact ⟨⟨new, ht⟩, nofun⟩
      · rintro _ t ht
        exact ⟨ht, nofun⟩

/-- The exchange of the app is published or undone. -/
lemma ends_exchange {ready : Prepared} (h : Ready p r i s ready) :
    Ends (namesOf r i) (exchange r i ready) s fun x t =>
      (x = .ok () → Published p r i s t) ∧ ∀ m, x = .error (.error m) → Restored r i s t := by
  obtain ⟨expected, deadlineAt, hreceipt, hscan⟩ := h.scan
  have hundo {t : State} {replacementAttempted : Bool} {e : Text}
      (hrep : ready.previous = none → replacementAttempted = true)
      (ht : ready.previous = none →
        t.containers (backupName r i.runId) = s.containers (backupName r i.runId)) :
      Ends (namesOf r i) (rollback r i ready.previous replacementAttempted e) t fun x t =>
        (x = .ok () → Published p r i s t) ∧ ∀ m, x = .error (.error m) → Restored r i s t := by
    refine (ends_rollback hrep).mono fun x u hu => ⟨fun hx => (hu.1 () hx).elim, fun m hx => ?_⟩
    obtain ⟨happ, hback⟩ := hu.2 m hx
    refine ⟨happ.trans h.previous.symm, fun y hy => ?_⟩
    obtain ⟨hnone, hy⟩ := hback y hy
    rw [← ht hnone, hy]
  unfold exchange
  refine Safe.bind (R := fun x t => x.isOk = true ∧ (∃ new, t.trace = s.trace ++ new) ∧
    (ready.previous = none → x = .ok (.ok ()) ∧ t = s)) ?_ ?_ ?_
  · rw [safe_attempt]
    refine ends_setAside.mono fun y t h => ⟨rfl, h.1, fun hnone => ?_⟩
    obtain ⟨rfl, rfl⟩ := h.2 hnone
    exact ⟨rfl, rfl⟩
  · rintro aside t ⟨-, ⟨new, ht⟩, hnone⟩
    cases aside with
    | error e =>
        refine hundo (fun h => ?_) fun h => ?_
        · cases (hnone h).1
        · cases (hnone h).1
    | ok _ =>
        refine Safe.bind (R := fun x u => x.isOk = true ∧
          u.containers (backupName r i.runId) = t.containers (backupName r i.runId) ∧
            (x = .ok (.ok ()) → Published p r i t u)) ?_ ?_ ?_
        · rw [safe_attempt, hscan]
          refine (ends_replace hreceipt).mono fun y u hu => ⟨rfl, hu.1, fun hy => ?_⟩
          exact hu.2 (Except.ok.inj hy)
        · rintro replaced u ⟨-, hback, hpub⟩
          cases replaced with
          | error e =>
              refine hundo (fun _ => rfl) fun h => ?_
              rw [hback, (hnone h).2]
          | ok _ => exact ⟨fun _ => (hpub rfl).since ht, nofun⟩
        · rintro e u ⟨hu, -⟩
          cases hu
  · rintro e t ⟨ht, -⟩
    cases ht

/-- **A publication that fails puts back what it found.** Whatever fails, is cancelled or takes too
long, and whether or not a failing command took effect: where a publication succeeds, the app is
the container it made, which passed the probe before the artifact was read once more and found to
be the one verified; and where it is rejected with anything but an aggregate, the app is the
container it was before, running as it was, and there is no backup that was not there before. -/
theorem publish_restores (p : Platform) (r : Runtime) (i : Input) (s t : State) :
    (∀ url, Exec (machine (namesOf r i)) (publish p r i) s (.ret url) t → Published p r i s t) ∧
      ∀ m, Exec (machine (namesOf r i)) (publish p r i) s (.fail (.error m)) t →
        Restored r i s t := by
  have hsafe : Ends (namesOf r i) (publish p r i) s fun x t =>
      (∀ url, x = .ok url → Published p r i s t) ∧
        ∀ m, x = .error (.error m) → Restored r i s t := by
    have happ : appName r ∈ namesOf r i := List.mem_cons_self
    have hback : backupName r i.runId ∈ namesOf r i := List.mem_cons_of_mem _ List.mem_cons_self
    refine Safe.bind (R := fun x t => (∃ new, Later (namesOf r i) s t new) ∧
      ∀ ready, x = .ok ready → Ready p r i s ready) ?_ ?_ ?_
    · rw [safe_mapErr]
      refine ends_prepare.mono fun x t h => ⟨h.1, fun ready hready => ?_⟩
      cases x with
      | ok a =>
          obtain rfl := Except.ok.inj hready
          exact h.2 a rfl
      | error e => cases hready
    · rintro ready t ⟨⟨new, hl⟩, hready⟩
      have hready := hready ready rfl
      have hready' : Ready p r i t ready := ⟨(hl.agree _ happ).trans hready.previous, hready.scan⟩
      refine Safe.bind (ends_exchange hready') ?_ ?_
      · rintro _ u ⟨hpub, -⟩
        exact ⟨fun _ _ => (hpub rfl).since hl.trace, nofun⟩
      · rintro e u ⟨-, hrest⟩
        refine ⟨nofun, fun m hm => ?_⟩
        obtain ⟨hsame, hbackup⟩ := hrest m (congrArg _ (Except.error.inj hm))
        refine ⟨hsame.trans (hl.agree _ happ), fun y hy => ?_⟩
        rw [← hl.agree _ hback, hbackup y hy]
    · rintro e t ⟨⟨new, hl⟩, -⟩
      refine ⟨nofun, fun m _ => ⟨hl.agree _ happ, fun y hy => ?_⟩⟩
      rw [← hl.agree _ hback, hy]
  refine ⟨fun url hx => ?_, fun m hx => ?_⟩
  · exact (hsafe.exec hx).1 url rfl
  · exact (hsafe.exec hx).2 m rfl

end Publication

/-! ### A machine that always knows its answer -/

section Sample

def sampleContainer (u : UInt16) (running : Bool) (h : isHexUnit u = true) : Container where
  id := List.replicate 64 u
  running := running
  id_valid := ⟨List.length_replicate, by simp [h]⟩

/-- What a command does here, where it does anything; the probe of `sick` fails. -/
def sampleEffect (sick : String) (w : Containers) :
    Command → Option (Containers × Option Text)
  | .create name _ =>
    match w name with
    | some _ => none
    | none =>
      let x := sampleContainer 98 false (by decide)
      some (Function.update w name (some x), some x.id)
  | .start name => (w name).map fun x =>
      (Function.update w name (some { x with running := true }), some x.id)
  | .stop name => (w name).map fun x =>
      (Function.update w name (some { x with running := false }), some x.id)
  | .exec name _ => if name = sick then none else (w name).map fun x => (w, some x.id)
  | .rename name newName =>
    match w name, w newName with
    | some x, none =>
      some (Function.update (Function.update w name none) newName (some x), some x.id)
    | _, _ => none
  | .rm name => some (Function.update w name none, (w name).map (·.id))
  | .inspect _ name => (w name).map fun x => (w, some x.id)

lemma takes_sampleEffect {sick : String} {w w' : Containers} {c : Command}
    {subject : Option Text} (h : sampleEffect sick w c = some (w', subject)) :
    Takes c w w' subject := by
  cases c with
  | create name args =>
      simp only [sampleEffect] at h
      split at h
      · cases h
      · rename_i hname
        obtain ⟨rfl, rfl⟩ := Prod.mk.inj (Option.some.inj h)
        exact ⟨hname, _, rfl, rfl, rfl⟩
  | start name | stop name =>
      obtain ⟨x, hx, h⟩ := Option.map_eq_some_iff.mp h
      obtain ⟨rfl, rfl⟩ := Prod.mk.inj h
      exact ⟨x, hx, rfl, rfl⟩
  | exec name args =>
      simp only [sampleEffect] at h
      split_ifs at h
      obtain ⟨x, hx, h⟩ := Option.map_eq_some_iff.mp h
      obtain ⟨rfl, rfl⟩ := Prod.mk.inj h
      exact ⟨x, hx, rfl, rfl⟩
  | rename name newName =>
      simp only [sampleEffect] at h
      split at h
      · rename_i x hname hnew
        obtain ⟨rfl, rfl⟩ := Prod.mk.inj (Option.some.inj h)
        exact ⟨x, hname, hnew, rfl, rfl⟩
      · cases h
  | rm name =>
      obtain ⟨rfl, rfl⟩ := Prod.mk.inj (Option.some.inj h)
      exact ⟨rfl, rfl⟩
  | inspect format name =>
      obtain ⟨x, hx, h⟩ := Option.map_eq_some_iff.mp h
      obtain ⟨rfl, rfl⟩ := Prod.mk.inj h
      exact ⟨rfl, by rw [hx]; rfl⟩

def sampleOutput (w : Containers) : Command → Text
  | .inspect format name => ((w name).map format.render).getD []
  | _ => []

def sampleEnding (sick : String) (w : Containers) (c : Command) : Ending :=
  if (sampleEffect sick w c).isSome then .closed (some 0) (sampleOutput w c) [] false false false
  else .closed (some 1) [] (lit "Error: No such container") false false false

def sampleStat (kind : Kind) (size : ℕ) : Stat where
  kind := kind
  mode := 0o444
  uid := 0
  gid := 0
  size := size
  ino := 0
  mtimeMs := 0

def sampleAnswer (sick : String) (s : State) : (o : Call) → o.Ret
  | .now => (0 : ℤ)
  | .cancelled => false
  | .docker c _ => ⟨sampleEnding sick s.containers c, false⟩
  | .wait _ => some (.ok ())
  | .lstatOrNull _ => some (sampleStat .directory 0)
  | .lstat target =>
    some (.ok (if target.getLast? = some "index.html" then sampleStat .file 2
      else sampleStat .directory 0))
  | .readdir _ => some (.ok ["index.html"])
  | .open _ => some (.ok (0 : ℕ))
  | .stat _ => some (.ok (sampleStat .file 2))
  | .readFile _ => some (.ok [104, 105])
  | .close _ => some (.ok ())

def sampleNext (sick : String) (s : State) (o : Call) (x : o.Ret) : State :=
  match o, x with
  | .docker c timeoutMs, ran =>
    match sampleEffect sick s.containers c with
    | some (w, subject) => ⟨w, s.trace ++ [⟨⟨.docker c timeoutMs, ran⟩, subject⟩]⟩
    | none => ⟨s.containers, s.trace ++ [⟨⟨.docker c timeoutMs, ran⟩, none⟩]⟩
  | o, x => ⟨s.containers, s.trace ++ [⟨⟨o, x⟩, none⟩]⟩

lemma machine_sample (names : List String) (sick : String) (s : State) (o : Call) :
    (machine names).step s o (sampleAnswer sick s o)
      (sampleNext sick s o (sampleAnswer sick s o)) := by
  cases o with
  | docker c timeoutMs =>
      cases h : sampleEffect sick s.containers c with
      | some e =>
          obtain ⟨w, subject⟩ := e
          have hend : sampleEnding sick s.containers c =
              .closed (some 0) (sampleOutput s.containers c) [] false false false := by
            simp [sampleEnding, h]
          refine ⟨s.containers, w, subject, .refl _ _, ?_, ?_, ?_⟩
          · dsimp only [sampleAnswer]
            rw [hend]
            cases c with
            | inspect format name =>
                refine ⟨fun _ => ?_, fun hne => (hne rfl).elim⟩
                obtain ⟨x, hx, -⟩ := Option.map_eq_some_iff.mp h
                exact ⟨x, hx, by simp [sampleOutput, hx]⟩
            | create _ _ | start _ | stop _ | exec _ _ | rename _ _ | rm _ => exact trivial
          · rw [if_pos (by simp [sampleAnswer, hend, Ending.succeeded, Ending.code])]
            exact takes_sampleEffect h
          · simp [sampleNext, h]
      | none =>
          have hend : sampleEnding sick s.containers c =
              .closed (some 1) [] (lit "Error: No such container") false false false := by
            simp [sampleEnding, h]
          refine ⟨s.containers, s.containers, none, .refl _ _, ?_, ?_, ?_⟩
          · dsimp only [sampleAnswer]
            rw [hend]
            cases c with
            | inspect format name =>
                exact ⟨nofun, fun _ _ => Option.map_eq_none_iff.mp h⟩
            | create _ _ | start _ | stop _ | exec _ _ | rename _ _ | rm _ => exact trivial
          · rw [if_neg (by simp [sampleAnswer, hend, Ending.succeeded, Ending.code])]
            exact .inl ⟨rfl, rfl⟩
          · simp [sampleNext, h]
  | now | cancelled | wait _ | lstatOrNull _ | lstat _ | readdir _ | «open» _ | stat _
  | readFile _ | close _ => exact ⟨s.containers, .refl _ _, rfl⟩

def samplePlatform : Platform where
  localeLe _ _ := true
  sha256 _ := lit "digest"

def sampleRuntime : Runtime where
  docker := "docker"
  image := "bimo"
  deployment := "demo"
  hostRoot := ["srv", "demo"]
  port := some 8080
  publicUrl := some (lit "http://demo")
  snapshotOwner := ⟨0, 0⟩
  healthAttempts := 1
  cleanupTimeoutMs := 15000
  cleanupCommandTimeoutMs := 5000
  deploymentDeadlineAt := none

def sampleInput : Input where
  smoke := ⟨"/", 200, "hi"⟩
  runDir := ["state", "runs", "r1"]
  timeoutSeconds := 30
  receipt := some ⟨1, 2, lit "digest"⟩

/-- An app is running. -/
def sampleState : State where
  containers := Function.update (fun _ => none) (appName sampleRuntime)
    (some (sampleContainer 97 true (by decide)))
  trace := []

def sampleRun (sick : String) : Except Failure Text × State :=
  (publish samplePlatform sampleRuntime sampleInput).run (sampleAnswer sick) (sampleNext sick)
    sampleState

lemma exec_sampleRun {sick : String} {x : Except Failure Text} {t : State}
    (h : sampleRun sick = (x, t)) :
    (∀ url, x = .ok url → Exec (machine (namesOf sampleRuntime sampleInput))
      (publish samplePlatform sampleRuntime sampleInput) sampleState (.ret url) t) ∧
    ∀ e, x = .error e → Exec (machine (namesOf sampleRuntime sampleInput))
      (publish samplePlatform sampleRuntime sampleInput) sampleState (.fail e) t := by
  unfold sampleRun at h
  refine ⟨?_, ?_⟩
  · rintro url rfl
    exact exec_of_run (machine_sample _ sick) h
  · rintro e rfl
    exact exec_of_run_error (machine_sample _ sick) h

def isPlain : Except Failure Text → Bool
  | .error (.error _) => true
  | _ => false

/-- Where the new app is healthy it is published, and where it is not the old one is back. -/
theorem publish_restores_sample :
    (∃ t, Published samplePlatform sampleRuntime sampleInput sampleState t) ∧
      ∃ t, Restored sampleRuntime sampleInput sampleState t := by
  have hgood : (sampleRun "").1.isOk = true := by decide +kernel
  have hbad : isPlain (sampleRun (appName sampleRuntime)).1 = true := by decide +kernel
  refine ⟨?_, ?_⟩
  · rcases hrun : sampleRun "" with ⟨x, t⟩
    rw [hrun] at hgood
    cases x with
    | error e => cases hgood
    | ok url => exact ⟨t, (publish_restores _ _ _ _ _).1 url ((exec_sampleRun hrun).1 url rfl)⟩
  · rcases hrun : sampleRun (appName sampleRuntime) with ⟨x, t⟩
    rw [hrun] at hbad
    rcases x with (m | _) | url
    · exact ⟨t, (publish_restores _ _ _ _ _).2 m ((exec_sampleRun hrun).2 _ rfl)⟩
    · cases hbad
    · cases hbad

end Sample

end Bimo.Docker
