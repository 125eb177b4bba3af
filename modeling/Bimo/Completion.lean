import Bimo.StateFile
import Bimo.WorkRequest

/-!
A delivery is completed once, and by the process the state file names.

The marker of a processed message is written last, by a process that has seen the terminal on
disk, and a terminal is linked into place only where there is none. Both the marker and the
pod's entry in the state file are written in a section that has found the process's generation
and session in the state file. Applies, destroys, sends and pod processes come and go in any
order. A `status` among them writes the state file without the lock, so what is said of the
state file is said of the runs without one.
-/

namespace Bimo.Runs

open Factory (FactoryState PodManifest)
open Store (SessionIdentity)
open Wire (Frame)

variable {digest : String → String} {s t : Site} {g g' : Doing} {o : Call} {r : o.Ret}
  {fingerprint : PodManifest → Except String String}

/-- Every message marked as processed has a terminal. -/
def Backed (s : Site) : Prop :=
  ∀ pod id, s.disk.processed pod id = true → s.disk.terminals id ≠ none

/-- A process of a run, which is a run without `status` where `steady` says so. -/
structure Steady (steady : Prop) (s : Site) (g : Doing) : Prop where
  knows : Knows s g
  sees : steady → Sees False s g
  role : steady → g.role ≠ .status

abbrev Completing (steady : Prop) :=
  Threads.Each (fun s => Keyed s ∧ Backed s) (Steady steady) Apart

/-- A terminal that is there stays. -/
lemma terminals_step (h : env.step s o r t) {id : String} {f : Frame}
    (hf : s.disk.terminals id = some f) : t.disk.terminals id = some f := by
  cases step_effect h with
  | terminal id' f' hnone =>
      have hne : id ≠ id' := by
        rintro rfl
        exact absurd (hf.symm.trans hnone) (by simp)
      change Function.update s.disk.terminals id' (some f') id = some f
      rw [Function.update_of_ne hne]
      exact hf
  | none | state | message | inbox | processed | result | received => exact hf

lemma backed_step (hs : Backed s) (hpre : Allowed digest g o) (hg : Knows s g)
    (h : env.step s o r t) : Backed t := by
  have hkept : ∀ id, s.disk.terminals id ≠ none → t.disk.terminals id ≠ none :=
    fun id => holds_step (x := .terminal id) hpre hg h
  intro pod id hp
  cases step_effect h with
  | processed pod' id' =>
      change Store.write s.disk.processed pod' id' true pod id = true at hp
      unfold Store.write at hp
      by_cases hid : pod = pod' ∧ id = id'
      · obtain ⟨rfl, rfl⟩ := hid
        exact hg.known _ hpre.2.1
      · refine hs pod id ?_
        by_cases hpod : pod = pod'
        · subst hpod
          rw [Function.update_self, Function.update_of_ne fun he => hid ⟨rfl, he⟩] at hp
          exact hp
        · rwa [Function.update_of_ne hpod] at hp
  | none | state | message | inbox | terminal | result | received => exact hkept id (hs pod id hp)

/-- Who writes the state file holds the lock. -/
lemma locked_of_writes (hpre : Allowed digest g o) (hrole : g.role ≠ .status) {x : FactoryState}
    (hx : writes o = some x) : g.locked = true := by
  obtain ⟨-, -, -, hlock, -⟩ := follows_of_writes hpre hx
  exact hlock.resolve_right hrole

lemma sees_other_locked (hpre : Allowed digest g o) (hrole : g.role ≠ .status)
    (h : env.step s o r t) (hg' : Sees False s g') (hapart : Apart g g') : Sees False t g' := by
  rcases state_step h with he | ⟨x, hx, -⟩
  · exact hg'.congr rfl rfl id he
  · refine ⟨fun y hy hb => ?_, hg'.guarded⟩
    have hlock := hg'.guarded (hb.resolve_left id) (by rw [hy]; exact nofun)
    exact absurd ⟨locked_of_writes hpre hrole hx, hlock⟩ hapart

/-- A process that has just begun knows nothing yet. -/
lemma knows_begin (role : Role) : Knows s { role := role } where
  known _ hx := absurd hx List.not_mem_nil
  inbox _ _ hp := absurd hp (by simp)
  absent _ hid := absurd hid (by simp)
  guarded hne := absurd hne (by simp)

lemma role_ne_status {c : Command} (h : c ≠ .status) : c.role ≠ .status := by
  cases c with
  | status => exact absurd rfl h
  | apply | destroy | send | pod => exact nofun

variable {runs : Command → Prop}

lemma completing_keeps :
    Threads.Keeps (factory fingerprint digest runs) Exclusive (Allowed digest) (fun _ => True)
      (Completing (∀ c, runs c → c ≠ .status)) where
  start s ns i g p hi hb h := by
    obtain ⟨c, hc, rfl, -⟩ := hb
    refine h.set h.all (fun j x _ hj hx => ⟨hx, (apart_begin c.role).symm⟩) ?_
    exact ⟨knows_begin c.role, fun _ => sees_of_none rfl, fun hs => role_ne_status (hs c hc)⟩
  call s ns i g o r t hi hpre ht hM h := by
    have hg := h.one i g hi
    refine h.set ⟨keyed_step h.all.1 ht, backed_step h.all.2 hpre hg.knows ht⟩ ?_ ?_
    · intro j x hji hj hx
      have hapart := h.two i j g x hji.symm hi hj
      have hnote := apart_note hM hji hj hapart
      refine ⟨⟨knows_other hpre hg.knows ht hx.knows hapart, fun hs => ?_, hx.role⟩,
        hnote.symm, hnote⟩
      exact sees_other_locked hpre (hg.role hs) ht (hx.sees hs) hapart
    · exact ⟨knows_note h.all.1 hpre hg.knows ht, fun hs => sees_note (hg.sees hs) ht,
        fun hs hrole => hg.role hs (role_note.symm.trans hrole)⟩
  leave s ns i g hi _ h := h.drop i
  idle s ns t ht := ht.elim

/-- The calls that write a marker or the state file, made by a pod process. -/
lemma current_of_changes {i : SessionIdentity} (hrole : g.role = .pod i)
    (hpre : Allowed digest g o) (hg : Sees False s g) (h : env.step s o r t)
    (hne : t.disk.processed ≠ s.disk.processed ∨ t.disk.state ≠ s.disk.state) :
    ∃ x, s.disk.state = some x ∧ Store.current x i = true := by
  have hplain : g.role.bare = false := by rw [hrole]; rfl
  cases step_effect h with
  | processed pod id =>
      obtain ⟨-, -, j, x, hj, -, hseen, hcur⟩ := hpre
      obtain rfl : i = j := Role.pod.inj (hrole.symm.trans hj)
      exact ⟨x, (hg.fresh _ hseen (.inr hplain)).symm, hcur⟩
  | @state _ x hx =>
      obtain ⟨y, hy, -, -, hpod⟩ := follows_of_writes hpre hx
      obtain ⟨z, rfl, hcur⟩ := hpod i hrole
      exact ⟨z, (hg.fresh _ hy (.inr hplain)).symm, hcur⟩
  | none | message | inbox | terminal | result | received =>
      exact absurd hne (not_or.mpr ⟨not_not.mpr rfl, not_not.mpr rfl⟩)

/-- **Completion is durable and single-valued.** In every run of the commands and pod processes,
each stopped anywhere, a processed message has a terminal, and a terminal stays as it is from
then on. Where no `status` is among them, what a pod process writes to the markers or to the
state file it writes while the state file has its generation and session. -/
theorem completion_durable {s : Site} (hkeyed : Keyed s) (hbacked : Backed s)
    {c : Threads.Config Call Call.Ret String Unit Site Doing}
    (h : Threads.Run (factory fingerprint digest runs) Exclusive (.empty s) c) :
    (∀ pod id, c.shared.disk.processed pod id = true → c.shared.disk.terminals id ≠ none) ∧
    (∀ c' id f, Threads.Run (factory fingerprint digest runs) Exclusive c c' →
      c.shared.disk.terminals id = some f → c'.shared.disk.terminals id = some f) ∧
    ((∀ c, runs c → c ≠ .status) →
      ∀ i g o k r t x, c.threads i = some (g, .call o k) → g.role = .pod x →
        env.step c.shared o r t →
        t.disk.processed ≠ c.shared.disk.processed ∨ t.disk.state ≠ c.shared.disk.state →
        ∃ y, c.shared.disk.state = some y ∧ Store.current y x = true) := by
  have hgood : Threads.Good (factory fingerprint digest runs) (fun _ _ _ => True)
      (Allowed digest) (fun _ _ => True) (Completing (∀ c, runs c → c ≠ .status)) c := by
    refine Threads.good _ ?_ safe_begins (fun _ _ _ _ => trivial) completing_keeps ?_ h
    · intro s ns i g o r t _ _ _ _
      trivial
    · exact .empty ⟨hkeyed, hbacked⟩
  refine ⟨hgood.1.all.2, fun c' id f hrun hf => ?_, fun hs i g o k r t x hi hrole hstep hne => ?_⟩
  · induction hrun with
    | refl => exact hf
    | tail _ hstep ih =>
        cases hstep with
        | start | leave => exact ih
        | call hi hr hM => exact terminals_step hr ih
        | idle ht => exact ht.elim
  · have hpre := (safe_call_of o k g _).mp (hgood.2 i g _ hi)
    have hg := hgood.1.one i g (by simp [Threads.Config.notes, hi])
    exact current_of_changes hrole hpre.1 (hg.sees hs) hstep hne

/-! ### A delivery completed -/

/-- One message in the inbox of a pod whose process is up. -/
def waiting : Site where
  disk := {
    state := some Store.onePod
    messages := fun id => if id = "m" then some (Store.letter "m") else none
    inbox := fun pod => if pod = "p" then some "m\n" else none }

def workerFrame (kind : Wire.FrameType) (seq : ℕ) (payload : Wire.Json) (request : Option String)
    (tool : Option String := none) : Frame where
  direction := .workerToControl
  kind := kind
  factoryGen := 1
  pod := "p"
  session := "s"
  seq := seq
  requestId := request
  toolCallId := tool
  payload := payload

def hello : Frame :=
  workerFrame .hello 1 (.obj [("engine", .str "e"), ("launch_fingerprint", .str "l")]) none

def answered (seq : ℕ) : Frame :=
  workerFrame .terminal seq (.obj [("status", .str "success"), ("output", .str "x")]) (some "m")

/-- A worker that answers its message. -/
def answers : ℕ → Option Pod.Line
  | 0 => some (.frame hello 100)
  | 1 => some (.frame (answered 2) 100)
  | _ => none

lemma waiting_keyed : Keyed waiting := by
  intro id m hm
  change (if id = "m" then some (Store.letter "m") else none) = some m at hm
  split_ifs at hm with hid
  rw [← Option.some.inj hm, hid]
  rfl

/-- A pod process takes its message to the end. -/
theorem completion_durable_answered :
    ∃ c, Threads.Run (factory (fun _ => .ok "l") id (· ≠ .status)) Exclusive (.empty waiting) c ∧
      c.shared.disk.processed "p" "m" = true ∧ c.shared.disk.terminals "m" ≠ none ∧
      ∀ c' f, Threads.Run (factory (fun _ => .ok "l") id (· ≠ .status)) Exclusive c c' →
        c.shared.disk.terminals "m" = some f → c'.shared.disk.terminals "m" = some f := by
  have hrun : (demo (fun _ => .ok "l") id answers (exclusive 1) waiting
      [.pod Pod.plainConfig 5] (turns 40 0)).any (fun c => c.shared.disk.processed "p" "m") =
        true := by decide +kernel
  obtain ⟨c, hc, hx⟩ := (Option.any_eq_true _ _).mp hrun
  have hreach : Threads.Run (factory (fun _ => .ok "l") id (· ≠ .status)) Exclusive
      (.empty waiting) c := by
    refine run_demo (fun y hy => ?_) ?_ hc
    · rw [List.mem_singleton.mp hy]
      exact nofun
    · exact fun _ _ _ hn hok => exclusive_of hn hok
  obtain ⟨hmarked, hkept, -⟩ := completion_durable waiting_keyed nofun hreach
  exact ⟨c, hreach, hx, hmarked "p" "m" hx, fun c' f hrun hf => hkept c' "m" f hrun hf⟩

end Bimo.Runs
