import Bimo.PodRuns

/-!
What the commands of a factory do, whatever the others do. Most of an apply is not about the
state file at all: such parts leave the note as it is, and what counts is the value they return.
With the pod process, every program of the system keeps to `Allowed`.
-/

namespace Bimo.Runs

open Factory (FactoryState PodState PodManifest Manifest)
open Store (MessageEnvelope)

variable {digest : String → String} {α β : Type} {g : Doing}

/-- A program of the factory's, from a note on. -/
abbrev SafeFactory (p : Factory.Act α) (g : Doing) (Q : Except String α → Doing → Prop) : Prop :=
  Safe (.of (fun _ _ _ => True) noteFactory) AllowedFactory p g Q

/-- The calls that are not about the state file. -/
def Quiet : Factory.Call → Prop
  | .lock | .readState | .writeState _ => False
  | .readJournal | .append _ | .identityAlive _ | .preflight _ _ | .session _
  | .writeConfig _ _ _ _ | .spawn _ _ _ | .handshake _ _ | .startTime _ | .stopGroup _ => True

lemma safe_quiet {p : Factory.Act α} {R : α → Prop} (hp : p.Does Quiet R)
    {Q : Except String α → Doing → Prop} (hQ : ∀ r, (∀ a, r = .ok a → R a) → Q r g) :
    SafeFactory p g Q := by
  refine safe_of_does ?_ ?_ hp hQ
  · intro o ho
    cases o <;> first | exact trivial | exact ho.elim
  · rintro o r t ho ⟨-, rfl⟩
    cases o <;> first | rfl | exact ho.elim

section

open Prog

lemma does_append (e : Factory.Entry) : (Factory.append e).Does Quiet fun _ => True :=
  (does_ask trivial).bind fun _ _ => does_ofExcept _

lemma does_stopGroup (i : ProcessIdentity) : (Factory.stopGroup i).Does Quiet fun _ => True :=
  (does_ask trivial).bind fun _ _ => trivial

lemma does_stopStaged (l : List ProcessIdentity) :
    (Factory.stopStaged l).Does Quiet fun _ => True := does_each does_stopGroup l

lemma does_recoverIncompleteApply :
    Factory.recoverIncompleteApply.Does Quiet fun _ => True := by
  have hread : Factory.readJournal.Does Quiet fun _ => True :=
    (does_ask trivial).bind fun _ _ => does_ofExcept _
  refine hread.bind fun j _ => ?_
  dsimp only
  split
  · exact trivial
  · split_ifs
    · exact (does_each does_stopGroup _).bind fun _ _ => does_append _
    · exact trivial
    · exact (does_each does_stopGroup _).bind fun _ _ => does_append _

lemma does_startTime (pid : ℕ) : (Factory.startTime pid).Does Quiet fun _ => True := by
  refine (does_ask trivial).bind fun (x : Option ℕ) _ => ?_
  cases x <;> exact trivial

lemma does_undo (l : List ProcessIdentity) (e : String) {R : α → Prop} :
    (Factory.undo l e : Factory.Act α).Does Quiet R :=
  (does_stopStaged l).bind fun _ _ => trivial

lemma does_rollback (l : List ProcessIdentity) (n : ℕ) (e : String) {R : α → Prop} :
    (Factory.rollback l n e : Factory.Act α).Does Quiet R :=
  (does_stopStaged l).bind fun _ _ => (does_append _).attempt.bind fun _ _ => trivial

lemma does_spawnSupervisor (m : Manifest) (p : PodManifest) (n : ℕ) (fp : String) :
    (Factory.spawnSupervisor m p n fp).Does Quiet fun _ => True := by
  refine (does_ask trivial).bind fun _ _ => (does_ofExcept _).bind fun _ _ => ?_
  refine (does_ask trivial).bind fun _ _ => (does_ask trivial).bind fun _ _ => ?_
  refine (does_ofExcept _).bind fun _ _ => (does_ask trivial).bind fun _ _ => ?_
  refine (does_ofExcept _).bind fun pid _ => ?_
  refine (does_ask trivial).bind fun (h : Factory.Handshake) _ => ?_
  cases h with
  | ready => exact trivial
  | exited => exact trivial
  | timedOut =>
      exact (does_startTime _).bind fun _ _ => (does_stopGroup _).bind fun _ _ => trivial

variable {fingerprint : PodManifest → Except String String}

lemma does_stagePod (m : Manifest) (n : ℕ) (p : PodManifest) (staged : List ProcessIdentity)
    (next : FactoryState) :
    (Factory.stagePod fingerprint m n p staged next).Does Quiet
      fun x => x.2.generation = next.generation := by
  refine (does_ofExcept _).bind fun fp _ => (does_spawnSupervisor m p n fp).attempt.bind ?_
  intro x _
  cases x with
  | error e => exact does_rollback _ _ _
  | ok y =>
      obtain ⟨pid, session⟩ := y
      refine (does_startTime pid).attempt.bind fun t _ => ?_
      cases t with
      | error e => exact does_undo _ _
      | ok t =>
          refine (does_append _).attempt.bind fun z _ => ?_
          cases z with
          | error e => exact does_undo _ _
          | ok _ => exact rfl

lemma does_stage (m : Manifest) (n : ℕ) (l : List PodManifest) (staged : List ProcessIdentity)
    (next : FactoryState) :
    (Factory.stage fingerprint m n l staged next).Does Quiet
      fun x => x.2.generation = next.generation := by
  induction l generalizing staged next with
  | nil => exact rfl
  | cons p l ih =>
      refine (does_stagePod m n p staged next).bind fun x hx => ?_
      exact (ih x.1 x.2).mono fun y hy => hy.trans hx

lemma does_podUnchanged (old : FactoryState) (p : PodManifest) :
    (Factory.podUnchanged fingerprint old p).Does Quiet fun _ => True := by
  unfold Factory.podUnchanged
  split
  · split_ifs
    · split
      · exact does_ask trivial
      · exact trivial
    · exact trivial
  · exact trivial

lemma does_podsUnchanged (old : FactoryState) (l : List PodManifest) :
    (Factory.podsUnchanged fingerprint old l).Does Quiet fun _ => True := by
  induction l with
  | nil => exact trivial
  | cons p l ih =>
      refine (does_podUnchanged old p).bind fun b _ => ?_
      cases b
      · exact trivial
      · exact ih

lemma does_unchanged (previous : Option FactoryState) (m : Manifest) :
    (Factory.unchanged fingerprint previous m).Does Quiet fun _ => True := by
  unfold Factory.unchanged
  split
  · split_ifs
    · exact (does_podsUnchanged _ _).bind fun _ _ => trivial
    · exact trivial
  · exact trivial

lemma does_refreshPod (p : PodState) : (Factory.refreshPod p).Does Quiet fun _ => True := by
  unfold Factory.refreshPod
  split
  · exact trivial
  · split
    · exact trivial
    · refine (does_ask trivial).bind fun (alive : Bool) _ => ?_
      cases alive
      · exact (does_stopGroup _).bind fun _ _ => trivial
      · exact trivial

lemma does_refreshPods (l : List (String × PodState)) (s : FactoryState) (changed : Bool) :
    (Factory.refreshPods l s changed).Does Quiet fun x => x.1.generation = s.generation := by
  induction l generalizing s changed with
  | nil => exact rfl
  | cons x l ih =>
      exact (does_refreshPod x.2).bind fun y _ => ih { s with pods := s.pods.insert x.1 y.1 } _

lemma does_stopPods (l : List (String × PodState)) (s : FactoryState) :
    (Factory.stopPods l s).Does Quiet fun x => x.generation = s.generation := by
  induction l generalizing s with
  | nil => exact rfl
  | cons x l ih =>
      have hrest := ih { s with pods := s.pods.insert x.1 (Factory.stopped x.2) }
      unfold Factory.stopPods
      dsimp only
      split
      · exact (does_ask trivial).bind fun _ _ => (does_ofExcept _).bind fun _ _ => hrest
      · exact hrest

/-- A quiet part of a command. -/
lemma safe_quiet_then {p : Factory.Act α} {f : α → Factory.Act β} {R : α → Prop}
    (hp : p.Does Quiet R) (hf : ∀ a, R a → SafeFactory (f a) g fun _ _ => True) :
    SafeFactory (p >>= f) g fun _ _ => True := by
  refine (safe_bind _ _ _ _).mpr (safe_quiet hp fun r hr => ?_)
  cases r with
  | ok a => exact hf a (hr a rfl)
  | error e => exact trivial

lemma safe_lock_then {f : Unit → Factory.Act β} (hf : SafeFactory (f ()) g.lock fun _ _ => True) :
    SafeFactory (Factory.lock >>= f) g fun _ _ => True := by
  refine (safe_bind _ _ _ _).mpr ((safe_ask_of _ _ _ _).mpr ⟨trivial, fun x _ => ?_⟩)
  match x with
  | .error e => exact trivial
  | .ok _ => exact hf

lemma safe_readState_then {f : Option FactoryState → Factory.Act β}
    (hf : ∀ s, SafeFactory (f s) (g.read s) fun _ _ => True) :
    SafeFactory (Factory.readState >>= f) g fun _ _ => True := by
  refine (safe_bind _ _ _ _).mpr ((safe_ask_of _ _ _ _).mpr ⟨trivial, fun x _ => ?_⟩)
  match x with
  | .error e => exact trivial
  | .ok s => exact hf s

lemma safe_writeState {s : FactoryState} {Q : Except String Unit → Doing → Prop}
    (h : Follows g s) (hQ : ∀ r, Q r g.wrote) : SafeFactory (Factory.writeState s) g Q := by
  refine (safe_ask_of _ _ _ _).mpr ⟨h, fun x _ => ?_⟩
  exact (safe_ofExcept _ _ _).mpr (hQ _)

lemma generationOf_le_nextGeneration (previous : Option FactoryState) :
    Factory.generationOf previous ≤ Factory.nextGeneration previous := by
  cases previous with
  | none => exact Nat.zero_le _
  | some s => exact Nat.le_succ _

lemma safe_apply (m : Manifest) :
    SafeFactory (do let _ ← Factory.apply fingerprint m) { role := .apply } fun _ _ => True := by
  refine (safe_bind _ _ _ _).mpr (Safe.mono (Q := fun _ _ => True) ?_ fun r t _ => ?_)
  · unfold Factory.apply
    refine safe_lock_then (safe_quiet_then does_recoverIncompleteApply fun _ _ => ?_)
    refine safe_readState_then fun previous => safe_quiet_then (does_unchanged _ _) fun x _ => ?_
    cases x with
    | some old => exact trivial
    | none =>
        refine safe_quiet_then (does_append _) fun _ _ => safe_quiet_then (does_stage _ _ _ _ _) ?_
        intro y hy
        unfold Factory.record
        refine safe_quiet_then (does_each (fun i => does_append _) _) fun _ _ => ?_
        refine (safe_bind _ _ _ _).mpr ((safe_attempt _ _ _).mpr (safe_writeState ?_ fun r => ?_))
        · refine ⟨previous, rfl, ?_, .inl rfl, fun i hi => nomatch hi⟩
          rw [hy]
          exact generationOf_le_nextGeneration previous
        · cases r with
          | error e => exact safe_quiet (R := fun _ => True) (does_rollback _ _ _) fun _ _ => trivial
          | ok _ =>
              refine safe_quiet_then (does_append _) fun _ _ => ?_
              refine safe_quiet_then (does_each does_stopGroup _) fun _ _ => ?_
              exact safe_quiet_then (does_append _) fun _ _ => trivial
  · cases r <;> exact trivial

lemma safe_commandStatus :
    SafeFactory Factory.commandStatus { role := .status } fun _ _ => True := by
  unfold Factory.commandStatus
  refine safe_readState_then fun s => ?_
  cases s with
  | none => exact trivial
  | some s =>
      refine safe_quiet_then (does_refreshPods s.pods.toList s false) fun x hx => ?_
      dsimp only
      split_ifs
      · refine safe_writeState ⟨some s, rfl, hx.ge, .inr rfl, fun i hi => nomatch hi⟩ fun _ => trivial
      · exact trivial

lemma safe_commandDestroy :
    SafeFactory Factory.commandDestroy { role := .destroy } fun _ _ => True := by
  unfold Factory.commandDestroy
  refine safe_readState_then fun s => ?_
  cases s with
  | none => exact trivial
  | some s =>
      refine safe_lock_then (safe_quiet_then (does_stopPods s.pods.toList s) fun x hx => ?_)
      exact safe_writeState ⟨some s, rfl, hx.ge, .inl rfl, fun i hi => nomatch hi⟩ fun _ => trivial

end

lemma safe_commandSend (m : MessageEnvelope) :
    SafePod digest (Pod.store (Store.commandSend m)) { role := .send } fun _ _ => True := by
  have hg : ({ role := .send } : Doing).Idle := ⟨rfl, rfl, rfl, rfl, rfl⟩
  refine Safe.mono (safe_store (R := fun _ _ => True) ?_) fun r t ht a ha => trivial
  unfold Store.commandSend
  refine Safe.bind (safe_readState_idle hg) ?_ fun e t ht => ⟨ht, nofun⟩
  intro s t ht
  cases s with
  | none => exact ⟨ht, nofun⟩
  | some s =>
      dsimp only
      split_ifs
      · refine Safe.bind (safe_enqueueMessage (ht.idle hg) (.inl rfl)) ?_ ?_
        · intro _ u hu
          exact ⟨ht.trans hu.1, fun _ _ => trivial⟩
        · intro e u hu
          exact ⟨ht.trans hu.1, nofun⟩
      · exact ⟨ht, nofun⟩
      · exact ⟨ht, nofun⟩

/-- **Every process keeps to the rules**: what it writes, it has read the ground for. -/
theorem safe_begins {fingerprint : PodManifest → Except String String} {runs : Command → Prop}
    (g : Doing) (p : Io Unit) (h : (factory fingerprint digest runs).begins g p) :
    Safe (.of (fun _ _ _ => True) note) (Allowed digest) p g fun _ _ => True := by
  obtain ⟨c, -, rfl, rfl⟩ := h
  cases c with
  | apply m => exact (safe_inl_of _ _ _).mpr (safe_apply m)
  | status => exact (safe_inl_of _ _ _).mpr safe_commandStatus
  | destroy => exact (safe_inl_of _ _ _).mpr safe_commandDestroy
  | send m => exact (safe_inr_of _ _ _).mpr (Safe.mono (safe_commandSend m) fun _ _ _ => trivial)
  | pod cfg fuel =>
      exact (safe_inr_of _ _ _).mpr (Safe.mono (safe_commandPodProcess cfg fuel) fun _ _ _ => trivial)

end Bimo.Runs
