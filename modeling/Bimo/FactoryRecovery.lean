import Bimo.Factory
import Mathlib.Data.List.Induction

/-!
What recovery finds after any sequence of factory applies, each stopped anywhere.

The world is the state file, the apply journal and the process groups that run. A process may
die at any time; `stopGroup` stops the group it is given. `Inv` says for each phase of an apply
which processes may run beside those the state names: what recovery would stop (`owed`) at
every point but two, the stretch between the state file and the commit line, and an apply whose
generation number an earlier rollback has already closed.
-/

namespace Bimo.Factory

/-- How far an apply has come. -/
inductive Phase
  | recovering
  | clean
  | staging (generation : ℕ)
  /-- The state file names the generation, the journal has no commit for it yet. -/
  | recorded
  | committed
  deriving DecidableEq, Repr

structure World where
  state : Option FactoryState := none
  journal : List Entry := []
  /-- The process groups that run. -/
  procs : List ProcessIdentity := []
  /-- Every process group ever spawned. -/
  born : List ProcessIdentity := []
  /-- The last one spawned by this apply. -/
  last : Option ProcessIdentity := none
  /-- What recovery has stopped. -/
  stopped : List ProcessIdentity := []
  phase : Phase := .recovering

namespace World

/-- Some processes die. -/
def bury (w : World) (dead : List ProcessIdentity) : World :=
  { w with procs := w.procs.filter (· ∉ dead) }

def append (w : World) (e : Entry) : World :=
  { w with
    journal := w.journal ++ [e]
    last := match e with
      | .intent _ => none
      | _ => w.last
    phase := match e with
      | .intent g => .staging g
      | .commit _ => .committed
      | _ => w.phase }

def bear (w : World) (i : ProcessIdentity) : World :=
  { w with procs := i :: w.procs, born := i :: w.born, last := some i }

def stop (w : World) (i : ProcessIdentity) : World :=
  { w with
    procs := w.procs.filter (· ≠ i)
    stopped := if w.phase = .recovering then i :: w.stopped else w.stopped }

/-- The read of the state file ends recovery. -/
def recovered (w : World) : World :=
  { w with phase := if w.phase = .recovering then .clean else w.phase }

/-- One call, its answer, and the world after it. A new process group is none that was seen
before; the start time of the one just spawned is its own. -/
def step (w : World) : (c : Call) → c.Ret → World → Prop
  | .readJournal, x, t => (∀ j, x = .ok j → w.journal = j) ∧ t = w
  | .append e, .ok _, t => t = w.append e
  | .readState, x, t => (∀ s, x = .ok s → w.state = s) ∧ t = w.recovered
  | .writeState s, .ok _, t => t = { w with state := some s, phase := .recorded }
  | .spawn _ session fp, .ok pid, t => ∃ start, ∃ i : ProcessIdentity,
      i = ⟨pid, pid, session, fp, start⟩ ∧ i ∉ w.born ∧ t = w.bear i
  | .startTime pid, some n, t => (∃ i, w.last = some i ∧ i.pid = pid ∧ i.startTime = n) ∧ t = w
  | .stopGroup i, _, t => t = w.stop i
  | _, _, t => t = w

end World

def env : Env Call Call.Ret World where
  step w c x t := ∃ dead, (w.bury dead).step c x t

/-! ### What recovery would stop -/

/-- The processes recovery stops. -/
def owed (f : Seen) : List ProcessIdentity :=
  match f.intent with
  | none => []
  | some g =>
    if g ∉ f.closed then f.spawned
    else if g ∈ f.committed ∧ g ∉ f.cleaned then f.retiring
    else []

lemma seen_append (j : List Entry) (e : Entry) : seen (j ++ [e]) = (seen j).step e := by
  simp [seen, List.foldl_append]

/-- A `spawned` line names the process. -/
def Named (j : List Entry) (i : ProcessIdentity) : Prop := ∃ g, Entry.spawned g i ∈ j

lemma named_append {j : List Entry} {e : Entry} {i : ProcessIdentity} :
    Named (j ++ [e]) i ↔ Named j i ∨ ∃ g, e = .spawned g i := by
  simp only [Named, List.mem_append, List.mem_singleton, exists_or]
  simp only [eq_comm]

/-- What runs and is named is of the recorded generation or in the list, and the list is apart
from the recorded generation. -/
structure Held (w : World) (l : List ProcessIdentity) : Prop where
  all : ∀ i ∈ w.procs, Named w.journal i → i ∈ identitiesOf w.state ∨ i ∈ l
  apart : ∀ i ∈ l, i ∉ identitiesOf w.state

structure Base (w : World) : Prop where
  committed : ∀ g ∈ (seen w.journal).committed, g ≤ generationOf w.state
  cleaned : ∀ g ∈ (seen w.journal).cleaned, g ∈ (seen w.journal).committed
  recorded : ∀ i ∈ identitiesOf w.state, i ∈ w.born
  stopped : ∀ i ∈ w.stopped, i ∈ w.born ∧ i ∉ identitiesOf w.state
  spawned : ∀ i ∈ (seen w.journal).spawned, i ∈ w.born
  retiring : ∀ i ∈ (seen w.journal).retiring, i ∈ w.born
  last : ∀ i, w.last = some i → i ∈ w.born
  named : ∀ i, Named w.journal i → i ∈ w.born

/-- What holds in each phase. -/
def InPhase (w : World) : Prop :=
  match w.phase with
  | .recovering | .committed => Held w (owed (seen w.journal))
  | .clean => Held w [] ∧ owed (seen w.journal) = []
  | .staging g => (seen w.journal).intent = some g ∧ g = generationOf w.state + 1 ∧
      Held w (seen w.journal).spawned ∧
      (∀ i ∈ w.stopped, i ∉ (seen w.journal).spawned) ∧
      (∀ i, w.last = some i → i ∉ identitiesOf w.state ∧ i ∉ w.stopped) ∧
      ∀ i ∈ (seen w.journal).retiring, i ∈ identitiesOf w.state
  | .recorded => (∃ g, (seen w.journal).intent = some g ∧ g = generationOf w.state ∧
      g ∉ (seen w.journal).committed) ∧ Held w (seen w.journal).retiring

structure Inv (w : World) : Prop extends Base w where
  phase : InPhase w

/-! ### When each call may be made -/

def AllowedEntry (w : World) : Entry → Prop
  | .intent g => w.phase = .clean ∧ g = generationOf w.state + 1
  | .spawned g i => w.phase = .staging g ∧ w.last = some i
  | .retiring g i => w.phase = .staging g ∧ i ∈ identitiesOf w.state
  | .commit g => w.phase = .recorded ∧ (seen w.journal).intent = some g
  | .rollback g _ => (w.phase = .staging g ∨
      w.phase = .recovering ∧ (seen w.journal).intent = some g ∧ g ∉ (seen w.journal).closed) ∧
      ∀ i ∈ (seen w.journal).spawned, i ∉ w.procs
  | .cleanup g _ => (w.phase = .recovering ∨ w.phase = .committed) ∧
      (seen w.journal).intent = some g ∧ g ∈ (seen w.journal).committed ∧
      ∀ i ∈ (seen w.journal).retiring, i ∉ w.procs

def Allowed (w : World) : Call → Prop
  | .append e => AllowedEntry w e
  | .readState => w.phase = .recovering ∧ owed (seen w.journal) = []
  | .writeState s => ∃ g, w.phase = .staging g ∧ s.generation = g ∧
      (∀ i, i ∈ s.identities ↔ i ∈ (seen w.journal).spawned) ∧
      ∀ i ∈ identitiesOf w.state, i ∈ (seen w.journal).retiring
  | .spawn _ _ _ => ∃ g, w.phase = .staging g
  | .stopGroup i => w.phase = .recovering → i ∈ owed (seen w.journal)
  | _ => True

/-! ### Every call keeps the invariant -/

lemma mem_bury {w : World} {dead : List ProcessIdentity} {i : ProcessIdentity}
    (h : i ∈ (w.bury dead).procs) : i ∈ w.procs := List.mem_of_mem_filter h

lemma mem_stop {w : World} {i k : ProcessIdentity} (h : k ∈ (w.stop i).procs) : k ∈ w.procs :=
  List.mem_of_mem_filter h

lemma Held.mono {w t : World} {l l' : List ProcessIdentity} (h : Held w l)
    (hprocs : ∀ i ∈ t.procs, i ∈ w.procs) (hj : t.journal = w.journal)
    (hs : t.state = w.state) (hl : ∀ i ∈ t.procs, i ∈ l → i ∈ l') (hl' : ∀ i ∈ l', i ∈ l) :
    Held t l' where
  all i hi hn := by
    rw [hs]
    rcases h.all i (hprocs i hi) (hj ▸ hn) with h | h
    · exact Or.inl h
    · exact Or.inr (hl i hi h)
  apart i hi := by
    rw [hs]
    exact h.apart i (hl' i hi)

/-- Fewer processes, and nothing else changed. -/
lemma Inv.shrink {w t : World} (h : Inv w) (hprocs : ∀ i ∈ t.procs, i ∈ w.procs)
    (hrest : t = { w with procs := t.procs }) : Inv t := by
  have hj : t.journal = w.journal := by rw [hrest]
  have hs : t.state = w.state := by rw [hrest]
  have held : ∀ {l}, Held w l → Held t l := fun h' =>
    h'.mono hprocs hj hs (fun _ _ h => h) fun _ h => h
  have hbase : Base t := by
    rw [hrest]
    exact ⟨h.committed, h.cleaned, h.recorded, h.stopped, h.spawned, h.retiring, h.last, h.named⟩
  refine ⟨hbase, ?_⟩
  have hp := h.phase
  have hph : t.phase = w.phase := by rw [hrest]
  have hst : t.stopped = w.stopped := by rw [hrest]
  have hl : t.last = w.last := by rw [hrest]
  unfold InPhase at hp ⊢
  rw [hph, hj, hs, hst, hl]
  split at hp
  · exact held hp
  · exact held hp
  · exact ⟨held hp.1, hp.2⟩
  · obtain ⟨h1, h2, h3, h4⟩ := hp
    exact ⟨h1, h2, held h3, h4⟩
  · exact ⟨hp.1, held hp.2⟩

lemma Inv.bury {w : World} (h : Inv w) (dead : List ProcessIdentity) : Inv (w.bury dead) :=
  h.shrink (fun _ => mem_bury) rfl

lemma Allowed.bury {w : World} {c : Call} (h : Allowed w c) (dead : List ProcessIdentity) :
    Allowed (w.bury dead) c := by
  match c with
  | .append (.rollback _ _) => exact ⟨h.1, fun i hi hp => h.2 i hi (mem_bury hp)⟩
  | .append (.cleanup _ _) => exact ⟨h.1, h.2.1, h.2.2.1, fun i hi hp => h.2.2.2 i hi (mem_bury hp)⟩
  | .append (.intent _) | .append (.spawned _ _) | .append (.retiring _ _) | .append (.commit _)
  | .readState | .writeState _ | .spawn _ _ _ | .stopGroup _ | .lock | .readJournal
  | .identityAlive _ | .preflight _ _ | .session _ | .writeConfig _ _ _ _ | .handshake _ _
  | .startTime _ => exact h

section Steps

variable {w : World}

lemma mem_owed {f : Seen} {i : ProcessIdentity} (h : i ∈ owed f) :
    i ∈ f.spawned ∨ i ∈ f.retiring := by
  unfold owed at h
  split at h
  · cases h
  · split_ifs at h
    · exact Or.inr h
    · cases h
    · exact Or.inl h

/-- What is committed is closed. -/
lemma closed_of_committed {j : List Entry} {g : ℕ} (h : g ∈ (seen j).committed) :
    g ∈ (seen j).closed := by
  induction j using List.reverseRecOn with
  | nil => simp [seen] at h
  | append_singleton j e ih =>
      rw [seen_append] at h ⊢
      cases e with
      | commit k =>
          rcases List.mem_cons.mp h with rfl | h
          · exact List.mem_cons_self
          · exact List.mem_cons_of_mem _ (ih h)
      | rollback k x => exact List.mem_cons_of_mem _ (ih h)
      | intent k => exact ih h
      | cleanup k b => exact ih h
      | spawned k i | retiring k i =>
          simp only [Seen.step] at h ⊢
          split_ifs at h ⊢ <;> exact ih h

lemma Inv.stop (h : Inv w) {i : ProcessIdentity} (hal : Allowed w (.stopGroup i)) :
    Inv (w.stop i) := by
  by_cases hph : w.phase = .recovering
  · -- recovery stops nothing the state names
    have hheld : Held w (owed (seen w.journal)) := by simpa [InPhase, hph] using h.phase
    have hi := hal hph
    have hborn : i ∈ w.born := (mem_owed hi).elim (h.spawned i) (h.retiring i)
    refine ⟨⟨h.committed, h.cleaned, h.recorded, fun k hk => ?_, h.spawned, h.retiring, h.last,
      h.named⟩, ?_⟩
    · simp only [World.stop, hph, if_true, List.mem_cons] at hk
      rcases hk with rfl | hk
      · exact ⟨hborn, hheld.apart k hi⟩
      · exact h.stopped k hk
    · have : Held (w.stop i) (owed (seen w.journal)) :=
        hheld.mono (fun _ => mem_stop) rfl rfl (fun _ _ h => h) fun _ h => h
      simpa [InPhase, World.stop, hph] using this
  · refine h.shrink (fun _ => mem_stop) ?_
    simp [World.stop, hph]

lemma Inv.bear (h : Inv w) {i : ProcessIdentity} {g : ℕ} (hph : w.phase = .staging g)
    (hi : i ∉ w.born) : Inv (w.bear i) := by
  have hphase := h.phase
  simp only [InPhase, hph] at hphase
  obtain ⟨h1, h2, h3, h4, -, h6⟩ := hphase
  have up : ∀ {k}, k ∈ w.born → k ∈ (w.bear i).born := fun h => List.mem_cons_of_mem _ h
  refine ⟨⟨h.committed, h.cleaned, fun k hk => up (h.recorded k hk),
    fun k hk => ⟨up (h.stopped k hk).1, (h.stopped k hk).2⟩, fun k hk => up (h.spawned k hk),
    fun k hk => up (h.retiring k hk), fun k hk => ?_, fun k hk => up (h.named k hk)⟩, ?_⟩
  · obtain rfl : i = k := by simpa [World.bear] using hk
    exact List.mem_cons_self
  · simp only [InPhase, World.bear, hph]
    refine ⟨h1, h2, ⟨fun k hk hn => ?_, h3.apart⟩, h4, fun k hk => ?_, h6⟩
    · rcases List.mem_cons.mp hk with rfl | hk
      · exact absurd (h.named k hn) hi
      · exact h3.all k hk hn
    · obtain rfl : i = k := by simpa using hk
      exact ⟨fun hk => hi (h.recorded i hk), fun hk => hi (h.stopped i hk).1⟩

lemma Inv.recovered (h : Inv w) (hal : Allowed w .readState) : Inv w.recovered := by
  obtain ⟨hph, howed⟩ := hal
  have hheld : Held w [] := by
    have := h.phase
    simpa [InPhase, hph, howed] using this
  refine ⟨⟨h.committed, h.cleaned, h.recorded, h.stopped, h.spawned, h.retiring, h.last, h.named⟩,
    ?_⟩
  simp only [InPhase, World.recovered, hph, if_true]
  exact ⟨⟨hheld.all, hheld.apart⟩, howed⟩

lemma Inv.write (h : Inv w) {s : FactoryState} (hal : Allowed w (.writeState s)) :
    Inv { w with state := some s, phase := .recorded } := by
  obtain ⟨g, hph, rfl, hids, hold⟩ := hal
  have hphase := h.phase
  simp only [InPhase, hph] at hphase
  obtain ⟨h1, h2, h3, h4, h5, h6⟩ := hphase
  refine ⟨⟨fun k hk => ?_, h.cleaned, fun k hk => h.spawned k ((hids k).mp hk),
    fun k hk => ⟨(h.stopped k hk).1, fun hk' => h4 k hk ((hids k).mp hk')⟩, h.spawned, h.retiring,
    h.last, h.named⟩, ?_⟩
  · have := h.committed k hk
    simp only [generationOf, Option.map_some, Option.getD_some]
    simp only [generationOf] at this h2
    omega
  · refine ⟨⟨s.generation, h1, rfl, fun hc => ?_⟩, fun k hk hn => ?_, fun k hk hk' => ?_⟩
    · have := h.committed _ hc
      omega
    · rcases h3.all k hk hn with hk' | hk'
      · exact Or.inr (hold k hk')
      · exact Or.inl ((hids k).mpr hk')
    · -- what is retiring is of the old generation, what is recorded was spawned by this one
      exact h3.apart k ((hids k).mp hk') (h6 k hk)

lemma Inv.append_intent (h : Inv w) {g : ℕ} (hal : AllowedEntry w (.intent g)) :
    Inv (w.append (.intent g)) := by
  obtain ⟨hph, hg⟩ := hal
  have hphase := h.phase
  simp only [InPhase, hph] at hphase
  have hn : ∀ {k}, Named (w.journal ++ [Entry.intent g]) k → Named w.journal k := fun hk => by
    simpa [named_append] using hk
  have hseen : seen (w.append (.intent g)).journal =
      { seen w.journal with intent := some g, spawned := [], retiring := [] } := by
    simp [World.append, seen_append, Seen.step]
  refine ⟨⟨?_, ?_, h.recorded, h.stopped, ?_, ?_, by simp [World.append],
    fun k hk => h.named k (hn hk)⟩, ?_⟩
  · rw [hseen]; exact h.committed
  · rw [hseen]; exact h.cleaned
  · simp [hseen]
  · simp [hseen]
  · simp only [InPhase, World.append] at hseen ⊢
    simp only [hseen, List.not_mem_nil, not_false_eq_true, implies_true, reduceCtorEq,
      false_implies, and_true, true_and]
    exact ⟨hg, fun k hk hk' => hphase.1.all k hk (hn hk'), by simp⟩

lemma Inv.append_spawned (h : Inv w) {g : ℕ} {i : ProcessIdentity}
    (hal : AllowedEntry w (.spawned g i)) : Inv (w.append (.spawned g i)) := by
  obtain ⟨hph, hlast⟩ := hal
  have hphase := h.phase
  simp only [InPhase, hph] at hphase
  obtain ⟨h1, h2, h3, h4, h5, h6⟩ := hphase
  have hborn := h.last i hlast
  have hn : ∀ {k}, Named (w.journal ++ [Entry.spawned g i]) k →
      Named w.journal k ∨ k = i := fun hk => by
    rcases named_append.mp hk with hk | ⟨g', hk⟩
    · exact Or.inl hk
    · exact Or.inr (by injection hk with _ hk; exact hk.symm)
  have hseen : seen (w.append (.spawned g i)).journal =
      { seen w.journal with spawned := (seen w.journal).spawned ++ [i] } := by
    simp [World.append, seen_append, Seen.step, h1]
  have hcase : ∀ {k}, k ∈ (seen w.journal).spawned ++ [i] →
      k ∈ (seen w.journal).spawned ∨ k = i := fun hk => by simpa using hk
  refine ⟨⟨?_, ?_, h.recorded, h.stopped, fun k hk => ?_, ?_, h.last, fun k hk => ?_⟩, ?_⟩
  · rw [hseen]; exact h.committed
  · rw [hseen]; exact h.cleaned
  · rw [hseen] at hk
    rcases hcase hk with hk | rfl
    · exact h.spawned k hk
    · exact hborn
  · rw [hseen]; exact h.retiring
  · rcases hn hk with hk | rfl
    · exact h.named k hk
    · exact hborn
  · simp only [InPhase, World.append, hph] at hseen ⊢
    rw [hseen]
    refine ⟨h1, h2, ⟨fun k hk hk' => ?_, fun k hk => ?_⟩, fun k hk hk' => ?_, h5, h6⟩
    · rcases hn hk' with hk' | rfl
      · rcases h3.all k hk hk' with hk' | hk'
        · exact Or.inl hk'
        · exact Or.inr (List.mem_append_left _ hk')
      · exact Or.inr (by simp)
    · rcases hcase hk with hk | rfl
      · exact h3.apart k hk
      · exact (h5 k hlast).1
    · rcases hcase hk' with hk' | rfl
      · exact h4 k hk hk'
      · exact (h5 k hlast).2 hk

lemma Inv.append_retiring (h : Inv w) {g : ℕ} {i : ProcessIdentity}
    (hal : AllowedEntry w (.retiring g i)) : Inv (w.append (.retiring g i)) := by
  obtain ⟨hph, hi⟩ := hal
  have hphase := h.phase
  simp only [InPhase, hph] at hphase
  obtain ⟨h1, h2, h3, h4, h5, h6⟩ := hphase
  have hn : ∀ {k}, Named (w.journal ++ [Entry.retiring g i]) k → Named w.journal k := fun hk => by
    simpa [named_append] using hk
  have hseen : seen (w.append (.retiring g i)).journal =
      { seen w.journal with retiring := (seen w.journal).retiring ++ [i] } := by
    simp [World.append, seen_append, Seen.step, h1]
  have hcase : ∀ {k}, k ∈ (seen w.journal).retiring ++ [i] →
      k ∈ (seen w.journal).retiring ∨ k = i :=
    fun hk => by simpa using hk
  refine ⟨⟨?_, ?_, h.recorded, h.stopped, ?_, fun k hk => ?_, h.last,
    fun k hk => h.named k (hn hk)⟩, ?_⟩
  · rw [hseen]; exact h.committed
  · rw [hseen]; exact h.cleaned
  · rw [hseen]; exact h.spawned
  · rw [hseen] at hk
    rcases hcase hk with hk | rfl
    · exact h.retiring k hk
    · exact h.recorded k hi
  · simp only [InPhase, World.append, hph] at hseen ⊢
    rw [hseen]
    refine ⟨h1, h2, ⟨fun k hk hk' => h3.all k hk (hn hk'), h3.apart⟩, h4, h5, fun k hk => ?_⟩
    rcases hcase hk with hk | rfl
    · exact h6 k hk
    · exact hi

lemma Inv.append_commit (h : Inv w) {g : ℕ} (hal : AllowedEntry w (.commit g)) :
    Inv (w.append (.commit g)) := by
  obtain ⟨hph, hint⟩ := hal
  have hphase := h.phase
  simp only [InPhase, hph] at hphase
  obtain ⟨⟨g', h1, h2, h3⟩, h4⟩ := hphase
  obtain rfl : g = g' := by simpa [hint] using h1
  have hn : ∀ {k}, Named (w.journal ++ [Entry.commit g]) k → Named w.journal k := fun hk => by
    simpa [named_append] using hk
  have hseen : seen (w.append (.commit g)).journal = { seen w.journal with
      closed := g :: (seen w.journal).closed, committed := g :: (seen w.journal).committed } := by
    simp [World.append, seen_append, Seen.step]
  refine ⟨⟨fun k hk => ?_, fun k hk => ?_, h.recorded, h.stopped, ?_, ?_, h.last,
    fun k hk => h.named k (hn hk)⟩, ?_⟩
  · rw [hseen] at hk
    rcases List.mem_cons.mp hk with rfl | hk
    · exact Nat.le_of_eq h2
    · exact h.committed k hk
  · rw [hseen] at hk ⊢
    exact List.mem_cons_of_mem _ (h.cleaned k hk)
  · rw [hseen]; exact h.spawned
  · rw [hseen]; exact h.retiring
  · simp only [InPhase, World.append] at hseen ⊢
    have howed : owed (seen (w.journal ++ [Entry.commit g])) = (seen w.journal).retiring := by
      have hc : g ∉ (seen w.journal).cleaned := fun hc => h3 (h.cleaned g hc)
      simp [hseen, owed, hint, hc]
    rw [howed]
    exact ⟨fun k hk hk' => h4.all k hk (hn hk'), h4.apart⟩

/-- A line that closes the last apply once what it owed does not run any more. -/
lemma Inv.append_close (h : Inv w) {e : Entry} {f : Seen} (hph : w.phase = .recovering ∨
      w.phase = .committed) (hphase : (w.append e).phase = w.phase)
    (hlast : (w.append e).last = w.last) (hn : ∀ {k}, Named (w.journal ++ [e]) k → Named w.journal k)
    (hseen : seen (w.journal ++ [e]) = f) (hcom : f.committed = (seen w.journal).committed)
    (hclean : ∀ g ∈ f.cleaned, g ∈ f.committed) (hsp : f.spawned = (seen w.journal).spawned)
    (hre : f.retiring = (seen w.journal).retiring) (howed : owed f = [])
    (hdead : ∀ i ∈ owed (seen w.journal), i ∉ w.procs) : Inv (w.append e) := by
  have hheld : Held w (owed (seen w.journal)) := by
    have := h.phase
    rcases hph with hph | hph <;> simpa [InPhase, hph] using this
  have hj : (w.append e).journal = w.journal ++ [e] := rfl
  refine ⟨⟨?_, ?_, h.recorded, h.stopped, ?_, ?_, ?_, fun k hk => h.named k (hn hk)⟩, ?_⟩
  · rw [hj, hseen, hcom]; exact h.committed
  · rw [hj, hseen]; exact hclean
  · rw [hj, hseen, hsp]; exact h.spawned
  · rw [hj, hseen, hre]; exact h.retiring
  · rw [hlast]; exact h.last
  · have held : Held (w.append e) (owed (seen (w.append e).journal)) := by
      rw [hj, hseen, howed]
      refine ⟨fun k hk hk' => ?_, by simp⟩
      rcases hheld.all k hk (hn hk') with hk' | hk'
      · exact Or.inl hk'
      · exact absurd hk (hdead k hk')
    unfold InPhase
    rw [hphase]
    rcases hph with hph | hph <;> rw [hph] <;> exact held

lemma Inv.append_rollback (h : Inv w) {g : ℕ} {error : Option String}
    (hal : AllowedEntry w (.rollback g error)) : Inv (w.append (.rollback g error)) := by
  obtain ⟨hph, hdead⟩ := hal
  have hn : ∀ {k}, Named (w.journal ++ [Entry.rollback g error]) k →
      Named w.journal k := fun hk => by
    simpa [named_append] using hk
  have hseen : seen (w.journal ++ [Entry.rollback g error]) =
      { seen w.journal with closed := g :: (seen w.journal).closed } := by
    simp [seen_append, Seen.step]
  rcases hph with hph | ⟨hph, hint, hopen⟩
  · have hphase := h.phase
    simp only [InPhase, hph] at hphase
    obtain ⟨h1, h2, h3, h4⟩ := hphase
    have hj : (w.append (.rollback g error)).journal = w.journal ++ [Entry.rollback g error] := rfl
    refine ⟨⟨?_, ?_, h.recorded, h.stopped, ?_, ?_, h.last, fun k hk => h.named k (hn hk)⟩, ?_⟩
    · rw [hj, hseen]; exact h.committed
    · rw [hj, hseen]; exact h.cleaned
    · rw [hj, hseen]; exact h.spawned
    · rw [hj, hseen]; exact h.retiring
    · simp only [InPhase, World.append, hph, hseen]
      exact ⟨h1, h2, ⟨fun k hk hk' => h3.all k hk (hn hk'), h3.apart⟩, h4⟩
  · -- recovery: the generation is open, so what it owes is what it spawned
    by_cases hc : g ∈ (seen w.journal).committed ∧ g ∉ (seen w.journal).cleaned
    · exact absurd (closed_of_committed hc.1) hopen
    · refine h.append_close (Or.inl hph) (by simp [World.append]) rfl hn hseen rfl h.cleaned rfl rfl
        ?_ ?_
      · simp [owed, hint, hc]
      · simpa [owed, hint, hopen] using hdead

lemma Inv.append_cleanup (h : Inv w) {g : ℕ} {b : Bool} (hal : AllowedEntry w (.cleanup g b)) :
    Inv (w.append (.cleanup g b)) := by
  obtain ⟨hph, hint, hcom, hdead⟩ := hal
  refine h.append_close (f := { seen w.journal with cleaned := g :: (seen w.journal).cleaned }) hph
    (by simp [World.append]) rfl (fun hk => by simpa [named_append] using hk)
    (by simp [seen_append, Seen.step]) rfl (fun k hk => ?_) rfl rfl ?_ fun i hi => ?_
  · rcases List.mem_cons.mp hk with rfl | hk
    · exact hcom
    · exact h.cleaned k hk
  · simp [owed, hint, closed_of_committed hcom]
  · rcases mem_owed hi with hi' | hi'
    · simp only [owed, hint, closed_of_committed hcom, not_true_eq_false, if_false] at hi
      split_ifs at hi
      · exact hdead i hi
      · cases hi
    · exact hdead i hi'

/-- **Each call an apply may make keeps the invariant.** -/
lemma Inv.step (h : Inv w) {c : Call} {x : c.Ret} {t : World} (hal : Allowed w c)
    (hs : env.step w c x t) : Inv t := by
  obtain ⟨dead, hs⟩ := hs
  replace h := h.bury dead
  replace hal := hal.bury dead
  generalize w.bury dead = v at h hal hs
  match c, x with
  | .append e, .ok _ =>
      obtain rfl : t = v.append e := hs
      cases e with
      | intent g => exact h.append_intent hal
      | spawned g i => exact h.append_spawned hal
      | retiring g i => exact h.append_retiring hal
      | commit g => exact h.append_commit hal
      | rollback g error => exact h.append_rollback hal
      | cleanup g b => exact h.append_cleanup hal
  | .readState, x =>
      obtain rfl : t = v.recovered := hs.2
      exact h.recovered hal
  | .writeState s, .ok _ =>
      obtain rfl : t = { v with state := some s, phase := .recorded } := hs
      exact h.write hal
  | .spawn _ session fp, .ok pid =>
      obtain ⟨start, i, -, hi, rfl⟩ := hs
      obtain ⟨g, hph⟩ := hal
      exact h.bear hph hi
  | .stopGroup i, _ =>
      obtain rfl : t = v.stop i := hs
      exact h.stop hal
  | .readJournal, _ | .startTime _, some _ =>
      obtain rfl : t = v := hs.2
      exact h
  | .append _, .error _ | .writeState _, .error _ | .spawn _ _ _, .error _ | .startTime _, none
  | .lock, _ | .identityAlive _, _ | .preflight _ _, _ | .session _, _ | .writeConfig _ _ _ _, _
  | .handshake _ _, _ =>
      obtain rfl : t = v := hs
      exact h

end Steps

/-! ### The programs keep to what is allowed -/

abbrev Keeps {α : Type} (p : Act α) (w : World) (Q : Except String α → World → Prop) : Prop :=
  Safe env Allowed p w Q

/-- The same but for processes that died. -/
structure Same (w t : World) : Prop where
  procs : ∀ i ∈ t.procs, i ∈ w.procs
  rest : t = { w with procs := t.procs }

namespace Same

variable {w t u : World}

lemma refl (w : World) : Same w w := ⟨fun _ h => h, rfl⟩

lemma bury (w : World) (dead : List ProcessIdentity) : Same w (w.bury dead) :=
  ⟨fun _ => mem_bury, rfl⟩

lemma trans (h : Same w t) (h' : Same t u) : Same w u :=
  ⟨fun i hi => h.procs i (h'.procs i hi), by rw [h'.rest, h.rest]⟩

lemma journal (h : Same w t) : t.journal = w.journal := by rw [h.rest]

lemma state (h : Same w t) : t.state = w.state := by rw [h.rest]

lemma phase (h : Same w t) : t.phase = w.phase := by rw [h.rest]

lemma last (h : Same w t) : t.last = w.last := by rw [h.rest]

end Same

section Calls

variable {w : World}

/-- The calls that only ask. -/
lemma keeps_ask {c : Call} {Q : Except String c.Ret → World → Prop} (hal : Allowed w c)
    (hstep : ∀ v x t, World.step v c x t → t = v)
    (hQ : ∀ x t, Same w t → Q (.ok x) t) : Keeps (ask c) w Q := by
  refine ⟨hal, fun x t ht => ?_⟩
  obtain ⟨dead, ht⟩ := ht
  obtain rfl := hstep _ _ _ ht
  exact hQ x _ (.bury w dead)

lemma keeps_append {e : Entry} {Q : Except String Unit → World → Prop}
    (hal : AllowedEntry w e) (hok : ∀ t, Same w t → Q (.ok ()) (t.append e))
    (herr : ∀ x t, Same w t → Q (.error x) t) : Keeps (append e) w Q := by
  refine ⟨hal, fun x t ht => ?_⟩
  obtain ⟨dead, ht⟩ := ht
  match x with
  | .ok () =>
      obtain rfl : t = (w.bury dead).append e := ht
      exact hok _ (.bury w dead)
  | .error x =>
      obtain rfl : t = w.bury dead := ht
      exact herr x _ (.bury w dead)

lemma keeps_readJournal {Q : Except String (List Entry) → World → Prop}
    (hok : ∀ t, Same w t → Q (.ok w.journal) t) (herr : ∀ x t, Same w t → Q (.error x) t) :
    Keeps readJournal w Q := by
  refine ⟨trivial, fun x t ht => ?_⟩
  obtain ⟨dead, hj, rfl⟩ := ht
  match x with
  | .ok j => exact hj j rfl ▸ hok _ (.bury w dead)
  | .error x => exact herr x _ (.bury w dead)

lemma keeps_stopGroup {i : ProcessIdentity} {Q : Except String Unit → World → Prop}
    (hal : w.phase = .recovering → i ∈ owed (seen w.journal))
    (hQ : ∀ t, Same w t → Q (.ok ()) (t.stop i)) : Keeps (stopGroup i) w Q := by
  refine ⟨hal, fun x t ht => ?_⟩
  obtain ⟨dead, ht⟩ := ht
  obtain rfl : t = (w.bury dead).stop i := ht
  exact hQ _ (.bury w dead)

/-- A loop of stops: the processes of the list do not run any more, and nothing else has
changed but what recovery counts. -/
lemma keeps_stopAll {l : List ProcessIdentity} {Q : Except String Unit → World → Prop}
    (hal : w.phase = .recovering → ∀ i ∈ l, i ∈ owed (seen w.journal))
    (hQ : ∀ t, (∀ i ∈ t.procs, i ∈ w.procs) → t.journal = w.journal → t.state = w.state →
      t.phase = w.phase → t.last = w.last → (∀ i ∈ l, i ∉ t.procs) → Q (.ok ()) t) :
    Keeps (Prog.each stopGroup l) w Q := by
  refine safe_each (I := fun rest t => (∀ i ∈ t.procs, i ∈ w.procs) ∧ t.journal = w.journal ∧
    t.state = w.state ∧ t.phase = w.phase ∧ t.last = w.last ∧ (∀ i ∈ rest, i ∈ l) ∧
    ∀ i ∈ l, i ∈ rest ∨ i ∉ t.procs) ?_ ?_ l w
    ⟨fun _ h => h, rfl, rfl, rfl, rfl, fun _ h => h, fun _ h => Or.inl h⟩
  · rintro i rest t ⟨h1, h2, h3, h4, h5, h6, h7⟩
    refine keeps_stopGroup (fun hph => ?_) fun u hu => ?_
    · rw [h2]
      exact hal (h4 ▸ hph) i (h6 i (by simp))
    · refine ⟨fun k hk => h1 k (hu.procs k (mem_stop hk)), hu.journal.trans h2, hu.state.trans h3,
        hu.phase.trans h4, hu.last.trans h5, fun k hk => h6 k (by simp [hk]), fun k hk => ?_⟩
      rcases h7 k hk with hk' | hk'
      · rcases List.mem_cons.mp hk' with rfl | hk'
        · exact Or.inr (by simp [World.stop])
        · exact Or.inl hk'
      · exact Or.inr fun hk'' => hk' (hu.procs k (mem_stop hk''))
  · rintro t ⟨h1, h2, h3, h4, h5, -, h7⟩
    exact hQ t h1 h2 h3 h4 h5 fun i hi => by simpa using h7 i hi

lemma keeps_readState {Q : Except String (Option FactoryState) → World → Prop}
    (hal : Allowed w .readState) (hok : ∀ t, Same w t → Q (.ok w.state) t.recovered)
    (herr : ∀ x t, Q (.error x) t) : Keeps readState w Q := by
  refine ⟨hal, fun x t ht => ?_⟩
  obtain ⟨dead, hs, rfl⟩ := ht
  match x with
  | .ok s => exact hs s rfl ▸ hok _ (.bury w dead)
  | .error x => exact herr x _

end Calls

/-- **Recovery**: when it comes back, it owes nothing any more. -/
lemma keeps_recover {w : World} (hp : w.phase = .recovering)
    {Q : Except String Unit → World → Prop} (hok : ∀ t, t.phase = .recovering →
      t.state = w.state → owed (seen t.journal) = [] → Q (.ok ()) t)
    (herr : ∀ x t, Q (.error x) t) : Keeps recoverIncompleteApply w Q := by
  refine Safe.bind (R := fun y t => ∀ j, y = .ok j → Same w t ∧ j = w.journal)
    (keeps_readJournal (by rintro t ht j ⟨⟩; exact ⟨ht, rfl⟩) (by simp)) ?_ fun x t _ => herr x t
  rintro j t h
  obtain ⟨ht, rfl⟩ := h j rfl
  simp only
  cases hint : (seen w.journal).intent with
  | none => exact hok t (ht.phase.trans hp) ht.state (by simp [ht.journal, owed, hint])
  | some g =>
      simp only
      -- both ways to finish: stop what is owed, then close the generation
      have finish : ∀ (l : List ProcessIdentity) (e : Entry), owed (seen w.journal) = l →
          (∀ u : World, u.phase = .recovering → u.journal = w.journal → (∀ i ∈ l, i ∉ u.procs) →
            AllowedEntry u e) → owed (seen (w.journal ++ [e])) = [] →
          (∀ u : World, u.phase = .recovering → (u.append e).phase = .recovering) →
          Keeps (do Prog.each stopGroup l; append e) t Q := by
        intro l e hl hal howed hph
        refine Safe.bind (R := fun _ u => u.phase = .recovering ∧ u.journal = w.journal ∧
          u.state = w.state ∧ ∀ i ∈ l, i ∉ u.procs) (keeps_stopAll (fun _ i hi => ?_)
            fun u _ h2 h3 h4 _ h6 => ?_) ?_ fun x t _ => herr x t
        · rw [ht.journal, hl]
          exact hi
        · exact ⟨h4.trans (ht.phase.trans hp), h2.trans ht.journal, h3.trans ht.state, h6⟩
        · rintro _ u ⟨h1, h2, h3, h4⟩
          refine keeps_append (hal u h1 h2 h4) (fun v hv => ?_) fun x v _ => herr x v
          refine hok _ (hph v (hv.phase.trans h1)) (hv.state.trans h3) ?_
          simpa [World.append, hv.journal, h2] using howed
      by_cases hcl : g ∈ (seen w.journal).closed
      · by_cases hcc : g ∈ (seen w.journal).committed ∧ g ∉ (seen w.journal).cleaned
        · simp only [hcl, hcc, not_true_eq_false, if_false, not_false_eq_true, and_self, if_true]
          refine finish _ _ (by simp [owed, hint, hcl, hcc]) (fun u h1 h2 h3 => ?_) ?_ ?_
          · exact ⟨Or.inl h1, by rw [h2]; exact hint, by rw [h2]; exact hcc.1, by rw [h2]; exact h3⟩
          · simp [seen_append, Seen.step, owed, hint, hcl]
          · exact fun u hu => hu
        · simp only [hcl, not_true_eq_false, if_false, if_neg hcc]
          exact hok t (ht.phase.trans hp) ht.state
            (by simp only [ht.journal, owed, hint, hcl, not_true_eq_false, if_false, if_neg hcc])
      · simp only [hcl, not_false_eq_true, if_true]
        refine finish _ _ (by simp [owed, hint, hcl]) (fun u h1 h2 h3 => ?_) ?_ ?_
        · exact ⟨Or.inr ⟨h1, by rw [h2]; exact hint, by rw [h2]; exact hcl⟩, by rw [h2]; exact h3⟩
        · have hc : g ∉ (seen w.journal).committed := fun h => hcl (closed_of_committed h)
          simp [seen_append, Seen.step, owed, hint, hc]
        · exact fun u hu => hu

/-! ### Staging -/

/-- The disk and the phase are as they were. -/
structure View (w t : World) : Prop where
  journal : t.journal = w.journal
  state : t.state = w.state
  phase : t.phase = w.phase

namespace View

variable {w t u : World}

lemma trans (h : View w t) (h' : View t u) : View w u :=
  ⟨h'.journal.trans h.journal, h'.state.trans h.state, h'.phase.trans h.phase⟩

end View

lemma Same.view {w t : World} (h : Same w t) : View w t := ⟨h.journal, h.state, h.phase⟩

section Staging

variable {w : World} {g : ℕ} {α : Type}

lemma keeps_undo {staged : List ProcessIdentity} {e : String} {Q : Except String α → World → Prop}
    (hp : w.phase = .staging g) (herr : ∀ x t, Q (.error x) t) : Keeps (undo staged e) w Q := by
  refine Safe.bind (R := fun _ _ => True) (keeps_stopAll (by simp [hp])
    fun _ _ _ _ _ _ _ => trivial) (fun _ t _ => herr _ t) fun x t _ => herr x t

lemma keeps_rollback {staged : List ProcessIdentity} {e : String}
    {Q : Except String α → World → Prop} (hp : w.phase = .staging g)
    (hsp : ∀ i ∈ (seen w.journal).spawned, i ∈ staged) (herr : ∀ x t, Q (.error x) t) :
    Keeps (rollback staged g e) w Q := by
  refine Safe.bind (R := fun _ t => t.phase = .staging g ∧
      ∀ i ∈ (seen t.journal).spawned, i ∉ t.procs) (keeps_stopAll (by simp [hp]) ?_) ?_
    fun x t _ => herr x t
  · intro t _ h2 _ h4 _ h6
    exact ⟨h4.trans hp, fun i hi => h6 i (hsp i (h2 ▸ hi))⟩
  · rintro _ t ⟨h1, h2⟩
    refine Safe.bind (R := fun _ _ => True) ?_ (fun _ u _ => herr _ u) fun x u _ => herr x u
    rw [safe_attempt]
    exact keeps_append ⟨Or.inl h1, h2⟩ (fun _ _ => trivial) fun _ _ _ => trivial

lemma keeps_startTime {pid : ℕ} {Q : Except String ℕ → World → Prop}
    (hok : ∀ n t i, Same w t → w.last = some i → i.pid = pid → i.startTime = n → Q (.ok n) t)
    (herr : ∀ x t, Same w t → Q (.error x) t) : Keeps (startTime pid) w Q := by
  refine ⟨trivial, fun x t ht => ?_⟩
  obtain ⟨dead, ht⟩ := ht
  match x with
  | some n =>
      obtain ⟨⟨i, h1, h2, h3⟩, rfl⟩ := ht
      exact hok n _ i (.bury w dead) h1 h2 h3
  | none =>
      obtain rfl : t = w.bury dead := ht
      exact herr _ _ (.bury w dead)

/-- What a supervisor's spawn leaves: the disk as it was, and when it comes back the process it
names is the last one spawned. -/
lemma keeps_spawnSupervisor {m : Manifest} {p : PodManifest} {fp : String}
    (hp : w.phase = .staging g) :
    Keeps (spawnSupervisor m p g fp) w fun y t => View w t ∧ ∀ pid session, y = .ok (pid, session) →
      ∃ start, t.last = some ⟨pid, pid, session, fp, start⟩ := by
  have fails : ∀ {t : World} {x : String}, View w t → View w t ∧ ∀ pid session,
      (Except.error x : Except String (ℕ × String)) = .ok (pid, session) →
        ∃ start, t.last = some ⟨pid, pid, session, fp, start⟩ := fun h => ⟨h, by simp⟩
  have asks : ∀ {c : Call} {t : World} (f : c.Ret → Act (ℕ × String)), View w t → Allowed t c →
      (∀ v x u, World.step v c x u → u = v) →
      (∀ x u, View w u → Keeps (f x) u fun y t => View w t ∧ ∀ pid session,
        y = .ok (pid, session) → ∃ start, t.last = some ⟨pid, pid, session, fp, start⟩) →
      Keeps (ask c >>= f) t fun y t => View w t ∧ ∀ pid session, y = .ok (pid, session) →
        ∃ start, t.last = some ⟨pid, pid, session, fp, start⟩ := by
    intro c t f ht hal hstep hf
    refine Safe.bind (R := fun y u => (∃ x, y = .ok x) ∧ View w u)
      (keeps_ask hal hstep fun x u hu => ⟨⟨x, rfl⟩, ht.trans hu.view⟩) (fun x u h => hf x u h.2) ?_
    rintro _ _ ⟨⟨_, h⟩, -⟩
    cases h
  refine asks _ ⟨rfl, rfl, rfl⟩ trivial (fun _ _ _ h => h) fun x t ht => ?_
  cases x with
  | error x => exact fails ht
  | ok _ =>
  refine asks _ ht trivial (fun _ _ _ h => h) fun session t ht => ?_
  refine asks _ ht trivial (fun _ _ _ h => h) fun x t ht => ?_
  cases x with
  | error x => exact fails ht
  | ok _ =>
  refine ⟨⟨g, ht.phase.trans hp⟩, fun x u hu => ?_⟩
  obtain ⟨dead, hu⟩ := hu
  match x with
  | .error x =>
      obtain rfl : u = t.bury dead := hu
      exact fails (ht.trans (Same.bury t dead).view)
  | .ok pid =>
  obtain ⟨start, i, rfl, -, rfl⟩ := hu
  have hv : View w ((t.bury dead).bear ⟨pid, pid, session, fp, start⟩) :=
    ⟨ht.journal, ht.state, ht.phase⟩
  refine ⟨trivial, fun h u hu => ?_⟩
  obtain ⟨dead', hu⟩ := hu
  obtain rfl : u = ((t.bury dead).bear _).bury dead' := hu
  replace hv := hv.trans (Same.bury _ dead').view
  cases h with
  | ready => exact ⟨hv, by
      rintro pid' session' ⟨⟩
      exact ⟨start, rfl⟩⟩
  | exited => exact fails hv
  | timedOut =>
      change Keeps (startTime pid >>= fun n => stopGroup ⟨pid, pid, session, fp, n⟩ >>= fun _ =>
        .fail ("worker " ++ p.name ++ " handshake timed out")) _ _
      refine Safe.bind (R := fun _ t => View w t) (keeps_startTime (fun n u i hu _ _ _ => ?_)
        fun x u hu => ?_) (fun n u hu => ?_) fun x u hu => fails hu
      · exact hv.trans hu.view
      · exact hv.trans hu.view
      · refine Safe.bind (R := fun _ t => View w t) (keeps_stopGroup (fun h => ?_) fun v hv => ?_)
          (fun _ v hv => fails hv) fun _ v hv => fails hv
        · rw [hu.phase, hp] at h
          cases h
        · exact View.trans hu ⟨hv.journal, hv.state, hv.phase⟩

/-- A generation is staged: what the journal has spawned for it is what the program holds. -/
structure Staged (g : ℕ) (previous : Option FactoryState) (staged : List ProcessIdentity)
    (w : World) : Prop where
  phase : w.phase = .staging g
  state : w.state = previous
  intent : (seen w.journal).intent = some g
  spawned : (seen w.journal).spawned = staged
  retiring : (seen w.journal).retiring = []

lemma Staged.view {previous : Option FactoryState} {staged : List ProcessIdentity} {t : World}
    (h : Staged g previous staged w) (hv : View w t) : Staged g previous staged t :=
  ⟨hv.phase.trans h.phase, hv.state.trans h.state, hv.journal ▸ h.intent, hv.journal ▸ h.spawned,
    hv.journal ▸ h.retiring⟩

variable {fingerprint : PodManifest → Except String String}

lemma keeps_stagePod {m : Manifest} {p : PodManifest} {previous : Option FactoryState}
    {staged : List ProcessIdentity} {next : FactoryState}
    {Q : Except String (List ProcessIdentity × FactoryState) → World → Prop}
    (hw : Staged g previous staged w)
    (hok : ∀ i t, Staged g previous (staged ++ [i]) t →
      Q (.ok (staged ++ [i], next.place p.name i)) t)
    (herr : ∀ x t, Q (.error x) t) : Keeps (stagePod fingerprint m g p staged next) w Q := by
  unfold stagePod
  cases fingerprint p with
  | error e => exact herr e w
  | ok fp =>
  change Keeps ((spawnSupervisor m p g fp).attempt >>= _) w Q
  refine Safe.bind (R := fun y t => ∃ z, y = .ok z ∧ View w t ∧ ∀ pid session,
    z = .ok (pid, session) → ∃ start, t.last = some ⟨pid, pid, session, fp, start⟩) ?_ ?_
    fun x t _ => herr x t
  · rw [safe_attempt]
    exact (keeps_spawnSupervisor hw.phase).mono fun y t h => ⟨y, rfl, h⟩
  rintro z t ⟨_, h, hv, hlast⟩
  obtain rfl := Except.ok.inj h
  have ht := hw.view hv
  rcases z with e | ⟨pid, session⟩
  · exact keeps_rollback ht.phase (fun i hi => ht.spawned ▸ hi) herr
  obtain ⟨start, hlast⟩ := hlast pid session rfl
  refine Safe.bind (R := fun y u => ∃ z, y = .ok z ∧ Same t u ∧
    ∀ n, z = .ok n → n = start) ?_ ?_ fun x t _ => herr x t
  · rw [safe_attempt]
    refine keeps_startTime (fun n u i hu hi _ hn => ⟨_, rfl, hu, ?_⟩) fun x u hu =>
      ⟨_, rfl, hu, by simp⟩
    rintro _ ⟨⟩
    rw [hlast] at hi
    obtain rfl := Option.some.inj hi
    exact hn.symm
  rintro z u ⟨_, h, hu, hn⟩
  obtain rfl := Except.ok.inj h
  have hu' := ht.view hu.view
  cases z with
  | error e => exact keeps_undo hu'.phase herr
  | ok n =>
  obtain rfl := hn n rfl
  refine Safe.bind (R := fun y v => ∃ z, y = .ok z ∧ v.phase = .staging g ∧ ∀ a, z = .ok a →
    Staged g previous (staged ++ [⟨pid, pid, session, fp, n⟩]) v) ?_ ?_ fun x t _ => herr x t
  · rw [safe_attempt]
    refine keeps_append ⟨hu'.phase, hu.last.trans hlast⟩ (fun v hv => ?_) fun x v hv =>
      ⟨_, rfl, hv.phase.trans hu'.phase, by simp⟩
    have hv' := hu'.view hv.view
    refine ⟨_, rfl, hv'.phase, fun _ _ => ⟨hv'.phase, hv'.state, ?_, ?_, ?_⟩⟩
    · simp [World.append, seen_append, Seen.step, hv'.intent]
    · simp [World.append, seen_append, Seen.step, hv'.intent, hv'.spawned]
    · simp [World.append, seen_append, Seen.step, hv'.intent, hv'.retiring]
  rintro z v ⟨_, h, hv, hst⟩
  obtain rfl := Except.ok.inj h
  cases z with
  | error e => exact keeps_undo hv herr
  | ok a => exact hok _ _ (hst a rfl)

/-! ### The staged state names what was staged -/

lemma mem_identities {s : FactoryState} {i : ProcessIdentity} :
    i ∈ s.identities ↔
      ∃ (name : String) (p : PodState), s.pods[name]? = some p ∧ processIdentity p = some i := by
  simp only [FactoryState.identities, List.mem_filterMap, List.mem_map, Prod.exists]
  constructor
  · rintro ⟨p, ⟨name, p', hmem, rfl⟩, hp⟩
    exact ⟨name, p', Std.TreeMap.mem_toList_iff_getElem?_eq_some.mp hmem, hp⟩
  · rintro ⟨name, p, hp, hi⟩
    exact ⟨p, ⟨name, p, Std.TreeMap.mem_toList_iff_getElem?_eq_some.mpr hp, rfl⟩, hi⟩

/-- The pod has no process yet. -/
def Vacant (s : FactoryState) (pod : String) : Prop :=
  ∀ p, s.pods[pod]? = some p → processIdentity p = none

lemma mem_identities_place {s : FactoryState} {pod : String} {i k : ProcessIdentity}
    (h : Vacant s pod) : k ∈ (s.place pod i).identities ↔ k ∈ s.identities ∨ k = i := by
  have hstart : ∀ p, processIdentity (started p i) = some i := fun _ => rfl
  simp only [mem_identities, FactoryState.place, Std.TreeMap.getElem?_insert]
  constructor
  · rintro ⟨name, p, hp, hk⟩
    split_ifs at hp with hname
    · obtain rfl := Option.some.inj hp
      rw [hstart] at hk
      exact Or.inr (Option.some.inj hk).symm
    · exact Or.inl ⟨name, p, hp, hk⟩
  · rintro (⟨name, p, hp, hk⟩ | rfl)
    · refine ⟨name, p, ?_, hk⟩
      rw [if_neg]
      · exact hp
      · intro hname
        obtain rfl : pod = name := by simpa using hname
        rw [h p hp] at hk
        cases hk
    · exact ⟨pod, _, if_pos (by simp), hstart _⟩

lemma Vacant.place {s : FactoryState} {pod other : String} {i : ProcessIdentity}
    (h : Vacant s other) (hne : pod ≠ other) : Vacant (s.place pod i) other := by
  intro p hp
  simp only [FactoryState.place, Std.TreeMap.getElem?_insert] at hp
  rw [if_neg (by simpa using hne)] at hp
  exact h p hp

lemma vacant_fromManifest (m : Manifest) (generation : ℕ) (pod : String) :
    Vacant (.fromManifest m generation) pod := by
  have key : ∀ (l : List PodManifest) (pods : Std.TreeMap String PodState),
      (∀ (name : String) p, pods[name]? = some p → processIdentity p = none) → ∀ (name : String) p,
      (l.foldl (fun pods p => pods.insert p.name p.initial) pods)[name]? = some p →
        processIdentity p = none := by
    intro l
    induction l with
    | nil => exact fun _ h => h
    | cons q l ih =>
        intro pods h
        refine ih _ fun name p hp => ?_
        rw [Std.TreeMap.getElem?_insert] at hp
        split_ifs at hp
        · obtain rfl := Option.some.inj hp
          rfl
        · exact h name p hp
  exact fun p hp => key m.pods ∅ (by simp) pod p hp

lemma identities_fromManifest (m : Manifest) (generation : ℕ) (i : ProcessIdentity) :
    i ∉ (FactoryState.fromManifest m generation).identities := by
  intro hi
  obtain ⟨name, p, hp, hk⟩ := mem_identities.mp hi
  rw [vacant_fromManifest m generation name p hp] at hk
  cases hk

lemma place_generation (s : FactoryState) (pod : String) (i : ProcessIdentity) :
    (s.place pod i).generation = s.generation := rfl

lemma keeps_stage {m : Manifest} {previous : Option FactoryState}
    {Q : Except String (List ProcessIdentity × FactoryState) → World → Prop}
    (hok : ∀ staged next t, Staged g previous staged t → next.generation = g →
      (∀ i, i ∈ next.identities ↔ i ∈ staged) → Q (.ok (staged, next)) t)
    (herr : ∀ x t, Q (.error x) t) :
    ∀ (l : List PodManifest) (staged : List ProcessIdentity) (next : FactoryState) (w : World),
      (l.map (·.name)).Nodup → (∀ p ∈ l, Vacant next p.name) → Staged g previous staged w →
      next.generation = g → (∀ i, i ∈ next.identities ↔ i ∈ staged) →
      Keeps (stage fingerprint m g l staged next) w Q
  | [], staged, next, w, _, _, hw, hgen, hids => hok staged next w hw hgen hids
  | p :: l, staged, next, w, hnd, hvac, hw, hgen, hids => by
      rw [List.map_cons, List.nodup_cons] at hnd
      refine Safe.bind (R := fun y t => ∀ st nx, y = .ok (st, nx) → Staged g previous st t ∧
        nx.generation = g ∧ (∀ i, i ∈ nx.identities ↔ i ∈ st) ∧ ∀ q ∈ l, Vacant nx q.name)
        (keeps_stagePod hw (fun i t ht => ?_) (by simp)) (fun y t h => ?_) fun x t _ => herr x t
      · rintro st nx ⟨⟩
        refine ⟨ht, hgen, fun k => ?_, fun q hq => ?_⟩
        · rw [mem_identities_place (hvac p (by simp)), hids]
          simp
        · refine (hvac q (by simp [hq])).place fun heq => hnd.1 ?_
          rw [heq]
          exact List.mem_map_of_mem hq
      · obtain ⟨st, nx⟩ := y
        obtain ⟨h1, h2, h3, h4⟩ := h st nx rfl
        exact keeps_stage hok herr l st nx t hnd.2 h4 h1 h2 h3

end Staging

/-! ### Apply -/

section Apply

variable {w : World} {g : ℕ} {fingerprint : PodManifest → Except String String}

/-- The old processes are journaled as retiring, and only they. -/
structure Retiring (g : ℕ) (previous : Option FactoryState) (staged : List ProcessIdentity)
    (w : World) : Prop where
  phase : w.phase = .staging g
  state : w.state = previous
  intent : (seen w.journal).intent = some g
  spawned : (seen w.journal).spawned = staged
  retiring : ∀ i, i ∈ (seen w.journal).retiring ↔ i ∈ identitiesOf previous

lemma keeps_retiring {previous : Option FactoryState} {staged : List ProcessIdentity}
    {Q : Except String Unit → World → Prop} (hw : Staged g previous staged w)
    (hok : ∀ t, Retiring g previous staged t → Q (.ok ()) t) (herr : ∀ x t, Q (.error x) t) :
    Keeps (Prog.each (fun i => append (.retiring g i)) (identitiesOf previous)) w Q := by
  refine safe_each (I := fun l t => t.phase = .staging g ∧ t.state = previous ∧
    (seen t.journal).intent = some g ∧ (seen t.journal).spawned = staged ∧
    ∀ i, i ∈ l ∨ i ∈ (seen t.journal).retiring ↔ i ∈ identitiesOf previous) ?_ ?_ _ _
    ⟨hw.phase, hw.state, hw.intent, hw.spawned, by simp [hw.retiring]⟩
  · rintro i l t ⟨h1, h2, h3, h4, h5⟩
    refine keeps_append ⟨h1, h2 ▸ (h5 i).mp (by simp)⟩ (fun u hu => ?_) fun x u _ => herr x u
    have hseen : seen (u.append (.retiring g i)).journal =
        { seen t.journal with retiring := (seen t.journal).retiring ++ [i] } := by
      simp [World.append, seen_append, Seen.step, hu.journal, h3]
    refine ⟨hu.phase.trans h1, hu.state.trans h2, ?_, ?_, fun k => ?_⟩
    · rw [hseen]; exact h3
    · rw [hseen]; exact h4
    · rw [hseen, ← h5 k]
      simp only [List.mem_append, List.mem_cons]
      tauto
  · rintro t ⟨h1, h2, h3, h4, h5⟩
    exact hok t ⟨h1, h2, h3, h4, fun i => by simpa using h5 i⟩

/-- After the commit: stop the old processes and close the generation. -/
lemma keeps_cleanup {old : List ProcessIdentity} {α : Type} {a : α} (hp : w.phase = .committed)
    (hint : (seen w.journal).intent = some g) (hcom : g ∈ (seen w.journal).committed)
    (hold : ∀ i ∈ (seen w.journal).retiring, i ∈ old) :
    Keeps (do
      Prog.each stopGroup old
      append (.cleanup g false)
      return a) w fun _ _ => True := by
  refine Safe.bind (R := fun _ t => t.phase = .committed ∧ t.journal = w.journal ∧
    ∀ i ∈ old, i ∉ t.procs) (keeps_stopAll (by simp [hp]) fun t _ h2 _ h4 _ h6 =>
      ⟨h4.trans hp, h2, h6⟩) ?_ fun _ _ _ => trivial
  rintro _ t ⟨h1, h2, h3⟩
  refine Safe.bind (R := fun _ _ => True) (keeps_append ⟨Or.inr h1, ?_⟩ (fun _ _ => trivial)
    fun _ _ _ => trivial) (fun _ _ _ => trivial) fun _ _ _ => trivial
  rw [h2]
  exact ⟨hint, hcom, fun i hi => h3 i (hold i hi)⟩

lemma keeps_record {previous : Option FactoryState} {staged : List ProcessIdentity}
    {next : FactoryState} (hw : Staged g previous staged w) (hgen : next.generation = g)
    (hids : ∀ i, i ∈ next.identities ↔ i ∈ staged) :
    Keeps (record previous g staged next) w fun _ _ => True := by
  refine Safe.bind (R := fun y t => ∀ u, y = .ok u → Retiring g previous staged t)
    (keeps_retiring hw (fun t h _ _ => h) (by simp)) ?_ fun _ _ _ => trivial
  rintro u t h
  replace h := h u rfl
  have hstage : Allowed t (.writeState next) :=
    ⟨g, h.phase, hgen, fun i => by rw [hids, h.spawned], fun i hi => (h.retiring i).mpr (h.state ▸ hi)⟩
  refine Safe.bind (R := fun y v => ∃ z, y = .ok z ∧ v.journal = t.journal ∧
    (∀ e, z = .error e → v.phase = .staging g) ∧ ∀ a, z = .ok a → v.phase = .recorded) ?_ ?_
    fun _ _ _ => trivial
  · rw [safe_attempt]
    refine ⟨hstage, fun x v hv => ?_⟩
    obtain ⟨dead, hv⟩ := hv
    match x with
    | .ok _ =>
        obtain rfl : v = { t.bury dead with state := some next, phase := .recorded } := hv
        exact ⟨_, rfl, rfl, by rintro _ ⟨⟩, fun _ _ => rfl⟩
    | .error x =>
        obtain rfl : v = t.bury dead := hv
        exact ⟨_, rfl, rfl, fun _ _ => h.phase, by rintro _ ⟨⟩⟩
  rintro z v ⟨_, hz, hj, herr, hok⟩
  obtain rfl := Except.ok.inj hz
  cases z with
  | error e =>
      refine keeps_rollback (herr e rfl) (fun i hi => ?_) fun _ _ => trivial
      rw [hj, h.spawned] at hi
      exact hi
  | ok a =>
      have hrec := hok a rfl
      refine Safe.bind (R := fun y s => ∀ u, y = .ok u → s.phase = .committed ∧
        seen s.journal = { seen t.journal with
          closed := g :: (seen t.journal).closed, committed := g :: (seen t.journal).committed })
        ?_ ?_ fun _ _ _ => trivial
      · refine keeps_append ⟨hrec, by rw [hj]; exact h.intent⟩ (fun s hs _ _ => ⟨rfl, ?_⟩) (by simp)
        simp [World.append, seen_append, Seen.step, hs.journal, hj]
      rintro u s hs
      obtain ⟨c1, c2⟩ := hs u rfl
      refine keeps_cleanup c1 ?_ ?_ fun i hi => ?_
      · rw [c2]; exact h.intent
      · rw [c2]; exact List.mem_cons_self
      · rw [c2] at hi
        exact (h.retiring i).mp hi

lemma keeps_podsUnchanged {old : FactoryState} (l : List PodManifest) :
    Keeps (podsUnchanged fingerprint old l) w fun _ t => View w t := by
  induction l generalizing w with
  | nil => exact ⟨rfl, rfl, rfl⟩
  | cons p l ih =>
      refine Safe.bind (R := fun _ t => View w t) ?_ (fun b t ht => ?_) fun _ _ h => h
      · unfold podUnchanged
        split
        · split
          · split
            · exact keeps_ask trivial (fun _ _ _ h => h) fun _ _ h => h.view
            · exact ⟨rfl, rfl, rfl⟩
          · exact ⟨rfl, rfl, rfl⟩
        · exact ⟨rfl, rfl, rfl⟩
      · split
        · exact ih.mono fun _ _ h => ht.trans h
        · exact ht

lemma keeps_unchanged {previous : Option FactoryState} {m : Manifest} :
    Keeps (unchanged fingerprint previous m) w fun _ t => View w t := by
  unfold unchanged
  split
  · split
    · exact Safe.bind (keeps_podsUnchanged _) (fun _ _ h => h) fun _ _ h => h
    · exact ⟨rfl, rfl, rfl⟩
  · exact ⟨rfl, rfl, rfl⟩

/-- **An apply keeps to what is allowed**, whatever fails. -/
theorem keeps_apply (m : Manifest) (hp : w.phase = .recovering) :
    Keeps (apply fingerprint m) w fun _ _ => True := by
  refine Safe.bind (R := fun _ t => t.phase = .recovering) ?_ ?_ fun _ _ _ => trivial
  · refine Safe.bind (R := fun _ t => t.phase = .recovering) (keeps_ask trivial (fun _ _ _ h => h)
      fun _ t ht => ht.phase.trans hp) (fun x t ht => ?_) fun _ _ h => h
    cases x <;> exact ht
  rintro _ t ht
  refine Safe.bind (R := fun y t => ∀ u, y = .ok u → t.phase = .recovering ∧
    owed (seen t.journal) = []) (keeps_recover ht (fun t h1 _ h3 _ _ => ⟨h1, h3⟩) (by simp)) ?_
    fun _ _ _ => trivial
  rintro u t h
  obtain ⟨h1, h2⟩ := h u rfl
  refine Safe.bind (R := fun y t => ∀ s, y = .ok s → t.phase = .clean ∧ t.state = s)
    (keeps_readState ⟨h1, h2⟩ (fun v hv s hs => ?_) (by simp)) ?_ fun _ _ _ => trivial
  · obtain rfl := Except.ok.inj hs
    exact ⟨by simp [World.recovered, hv.phase, h1], hv.state⟩
  rintro previous t h
  obtain ⟨h1, rfl⟩ := h previous rfl
  refine Safe.bind (keeps_unchanged (w := t)) ?_ fun _ _ _ => trivial
  rintro same v hv
  cases same with
  | some old => trivial
  | none =>
  have hgen : nextGeneration t.state = generationOf v.state + 1 := by
    rw [hv.state]
    cases t.state <;> rfl
  refine Safe.bind (R := fun y s => ∀ u, y = .ok u → Staged (nextGeneration t.state) t.state [] s)
    (keeps_append ⟨hv.phase.trans h1, hgen⟩ (fun s hs _ _ => ?_) (by simp)) ?_ fun _ _ _ => trivial
  · refine ⟨rfl, hs.state.trans hv.state, ?_, ?_, ?_⟩ <;>
      simp [World.append, seen_append, Seen.step]
  rintro u s hs
  replace hs := hs u rfl
  refine Safe.bind (R := fun y r => ∀ st nx, y = .ok (st, nx) →
    Staged (nextGeneration t.state) t.state st r ∧ nx.generation = nextGeneration t.state ∧
    ∀ i, i ∈ nx.identities ↔ i ∈ st) (keeps_stage ?_ (by simp) _ _ _ _ m.distinct
      (fun p _ => vacant_fromManifest m _ p.name) hs rfl ?_) ?_ fun _ _ _ => trivial
  · rintro st nx r h1 h2 h3 _ _ ⟨⟩
    exact ⟨h1, h2, h3⟩
  · exact fun i => ⟨fun h => absurd h (identities_fromManifest m _ i), by simp⟩
  · rintro ⟨st, nx⟩ r h
    obtain ⟨h1, h2, h3⟩ := h st nx rfl
    exact keeps_record h1 h2 h3

end Apply

/-! ### Recovery after any sequence of applies -/

section Recovery

variable (fingerprint : PodManifest → Except String String)

/-- An apply of some manifest begins. -/
def Begins (w : World) (p : Act FactoryState) (w' : World) : Prop :=
  ∃ m, p = apply fingerprint m ∧ w' = { w with phase := .recovering }

/-- Where an apply may stop: not between the state file and the commit line, and, when its
generation number is already closed in the journal, not while a process it spawned runs. -/
def Settled (w : World) : Prop :=
  w.phase ≠ .recorded ∧ ∀ g, w.phase = .staging g → g ∈ (seen w.journal).closed →
    ∀ i ∈ (seen w.journal).spawned, i ∉ w.procs

/-- The invariant between applies, from which recovery can start. -/
structure Recoverable (w : World) : Prop extends Base w where
  held : Held w (owed (seen w.journal))

lemma Recoverable.start {w : World} (h : Recoverable w) : Inv { w with phase := .recovering } where
  toBase := ⟨h.committed, h.cleaned, h.recorded, h.stopped, h.spawned, h.retiring, h.last, h.named⟩
  phase := ⟨h.held.all, h.held.apart⟩

lemma Inv.recoverable {w : World} (h : Inv w) (hs : Settled w) : Recoverable w := by
  refine ⟨h.toBase, ?_⟩
  have hp := h.phase
  unfold InPhase at hp
  split at hp
  · exact hp
  · exact hp
  · rw [hp.2]
    exact hp.1
  · rename_i g hg
    obtain ⟨h1, h2, h3, -⟩ := hp
    have hcom : g ∉ (seen w.journal).committed := fun hc => by
      have := h.committed g hc
      omega
    by_cases hcl : g ∈ (seen w.journal).closed
    · -- a number closed before: recovery does nothing, so nothing may run
      have howed : owed (seen w.journal) = [] := by simp [owed, h1, hcl, hcom]
      rw [howed]
      refine ⟨fun i hi hn => ?_, by simp⟩
      rcases h3.all i hi hn with hi' | hi'
      · exact Or.inl hi'
      · exact absurd hi (hs.2 g hg hcl i hi')
    · have howed : owed (seen w.journal) = (seen w.journal).spawned := by simp [owed, h1, hcl]
      rw [howed]
      exact h3
  · rename_i hrec
    exact absurd hrec hs.1

/-- **Recovery after any sequence of applies.** Each apply is stopped anywhere `Settled` allows.
When recovery comes back, every process that runs and that a `spawned` line names is of the
recorded generation, and recovery has never stopped a process of it. -/
theorem recovered_processes {w t : World} (h : Leaves env (Begins fingerprint) (fun _ w => Settled w) {} w)
    (hx : Exec env recoverIncompleteApply { w with phase := .recovering } (.ret ()) t) :
    (∀ i ∈ t.procs, Named t.journal i → i ∈ identitiesOf t.state) ∧
      ∀ i ∈ t.stopped, i ∉ identitiesOf t.state := by
  have hrec : Recoverable w := by
    refine Leaves.inv (P := Allowed) (J := Inv) (I := Recoverable) ?_ ?_ ?_ ?_ h
    · refine ⟨⟨?_, ?_, ?_, ?_, ?_, ?_, ?_, ?_⟩, ⟨?_, ?_⟩⟩ <;>
        simp [seen, identitiesOf, Named, owed]
    · exact fun s c x t hal hs hi => hi.step hal hs
    · rintro s p s' ⟨m, rfl, rfl⟩ hs
      exact ⟨keeps_apply m rfl, hs.start⟩
    · exact fun _ t ht hst => ht.recoverable hst
  have hsafe := keeps_recover (w := { w with phase := .recovering }) rfl
    (Q := fun y t => ∀ u, y = .ok u → t.phase = .recovering ∧ owed (seen t.journal) = [])
    (fun t h1 _ h3 _ _ => ⟨h1, h3⟩) (by simp)
  obtain ⟨hph, howed⟩ := hsafe.exec hx () rfl
  have hinv := hsafe.inv (fun s c x t hal hs hi => Inv.step hi hal hs) hrec.start hx
  have hheld : Held t [] := by simpa [InPhase, hph, howed] using hinv.phase
  exact ⟨fun i hi hn => by simpa using hheld.all i hi hn, fun i hi => (hinv.stopped i hi).2⟩

end Recovery

/-! ### A run with one pod -/

section OnePod

/-- Every call answered well. -/
def well (w : World) : (c : Call) → c.Ret
  | .readJournal => Except.ok w.journal
  | .readState => Except.ok w.state
  | .lock | .append _ | .writeState _ | .preflight _ _ | .writeConfig _ _ _ _ | .stopGroup _ =>
    Except.ok ()
  | .identityAlive i => decide (i ∈ w.procs)
  | .session p => p.name
  | .spawn _ _ _ => Except.ok (w.born.length + 1)
  | .handshake _ _ => Handshake.ready
  | .startTime _ => w.last.map (·.startTime)

def spawnedBy (w : World) (session fp : String) : ProcessIdentity :=
  ⟨w.born.length + 1, (w.born.length + 1 : ℕ), session, fp, 7⟩

/-- The world after a call answered well. -/
def wellNext (w : World) : (c : Call) → c.Ret → World
  | .append e, _ => w.append e
  | .readState, _ => w.recovered
  | .writeState s, _ => { w with state := some s, phase := .recorded }
  | .spawn _ session fp, _ => w.bear (spawnedBy w session fp)
  | .stopGroup i, _ => w.stop i
  | _, _ => w

/-- A spawn gives a process that is new, and its start time is asked for. -/
def wellCan (w : World) : (c : Call) → c.Ret → Prop
  | .spawn _ session fp, _ => spawnedBy w session fp ∉ w.born
  | .startTime pid, _ => ∃ i ∈ w.last, i.pid = pid
  | _, _ => True

instance (w : World) (c : Call) (x : c.Ret) : Decidable (wellCan w c x) :=
  match c with
  | .spawn _ session fp => inferInstanceAs (Decidable (spawnedBy w session fp ∉ w.born))
  | .startTime pid => inferInstanceAs (Decidable (∃ i ∈ w.last, i.pid = pid))
  | .readJournal | .readState | .lock | .append _ | .writeState _ | .preflight _ _
  | .writeConfig _ _ _ _ | .stopGroup _ | .identityAlive _ | .session _ | .handshake _ _ =>
    inferInstanceAs (Decidable True)

lemma worldStep_well (w : World) (c : Call) (h : wellCan w c (well w c)) :
    w.step c (well w c) (wellNext w c (well w c)) := by
  match c with
  | .readJournal => exact ⟨fun j hj => by injection hj, rfl⟩
  | .readState => exact ⟨fun s hs => by injection hs, rfl⟩
  | .spawn _ session fp => exact ⟨7, _, rfl, h, rfl⟩
  | .startTime pid =>
      obtain ⟨i, hi, hpid⟩ := h
      have hl : w.last = some i := hi
      have hx : well w (.startTime pid) = some i.startTime :=
        congrArg (Option.map ProcessIdentity.startTime) hl
      rw [hx]
      exact ⟨⟨i, hl, hpid, rfl⟩, rfl⟩
  | .append _ | .writeState _ | .stopGroup _ | .lock | .preflight _ _ | .writeConfig _ _ _ _
  | .identityAlive _ | .session _ | .handshake _ _ => rfl

lemma step_well (w : World) (c : Call) (h : wellCan w c (well w c)) :
    env.step w c (well w c) (wellNext w c (well w c)) := by
  have hnone : w.bury [] = w := by simp [World.bury]
  refine ⟨[], ?_⟩
  rw [hnone]
  exact worldStep_well w c h

def demoManifest : Manifest where
  name := "factory"
  pods := [{ name := "worker", engine := "e", command := ["/bin/worker"], heartbeatTimeoutMs := 1000 }]
  distinct := by decide

def demoApply : Act FactoryState := apply (fun p => .ok p.engine) demoManifest

end OnePod

/-- An apply is stopped after its `spawned` line; recovery stops the process it left. -/
theorem recovered_processes_one_pod :
    ∃ t : World, t.stopped ≠ [] ∧ (∀ i ∈ t.procs, Named t.journal i → i ∈ identitiesOf t.state) ∧
      ∀ i ∈ t.stopped, i ∉ identitiesOf t.state := by
  obtain ⟨q, hx⟩ := exec_reach step_well (n := 11) (p := demoApply) (s := {}) (by decide +kernel)
  have hs : Settled (reach wellCan wellNext well 11 demoApply {}) := by
    have h1 : (reach wellCan wellNext well 11 demoApply {}).phase = .staging 1 := by decide +kernel
    have h2 : (seen (reach wellCan wellNext well 11 demoApply {}).journal).closed = [] := by
      decide +kernel
    exact ⟨by simp [h1], by simp [h2]⟩
  obtain ⟨_, hr⟩ := exec_reach_ret step_well (n := 9) (p := recoverIncompleteApply)
    (s := { reach wellCan wellNext well 11 demoApply {} with phase := .recovering })
    (by decide +kernel)
  exact ⟨_, by decide +kernel, recovered_processes _ (.run .init ⟨demoManifest, rfl, rfl⟩ hx hs) hr⟩

/-- The first apply is stopped after its 12th call, the write of the state file. Recovery then
stops the process of the generation the state file records. -/
theorem recovery_stops_recorded :
    ¬ ∀ w t, Leaves env (Begins fun p => .ok p.engine) (fun _ _ => True) {} w →
      Exec env recoverIncompleteApply { w with phase := .recovering } (.ret ()) t →
      (∀ i ∈ t.procs, Named t.journal i → i ∈ identitiesOf t.state) ∧
        ∀ i ∈ t.stopped, i ∉ identitiesOf t.state := by
  intro h
  obtain ⟨q, hx⟩ := exec_reach step_well (n := 12) (p := demoApply) (s := {}) (by decide +kernel)
  obtain ⟨_, hr⟩ := exec_reach_ret step_well (n := 9) (p := recoverIncompleteApply)
    (s := { reach wellCan wellNext well 12 demoApply {} with phase := .recovering })
    (by decide +kernel)
  obtain ⟨-, hstop⟩ := h _ _ (.run .init ⟨demoManifest, rfl, rfl⟩ hx trivial) hr
  exact absurd hstop (by decide +kernel)

end Bimo.Factory
