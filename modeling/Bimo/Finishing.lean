import Bimo.Reopening

/-!
Finishing a pod run, and what is left where that fails.

A finish appends its event and then replaces the record. As long as nothing comes between the
two, the run opens again wherever the store was stopped, and a finish that was rejected can be
made again. Where the record is not replaced once the event is in the log, neither holds: the
reader refuses a run that has a last event and goes on, and a second finish adds a second one.
-/

namespace Bimo.PodStore

open Wire (Json)

variable {m : Memory} {d d' : Disk} {evs : List Fields} {op : Op}

/-- The record of a run that is over is not refused once its event is in the log. -/
def spared (_ : Disk) : (c : Call) → c.Ret → Prop
  | .write w, r => Call.ends (.write w) = true → r = .ok ()
  | _, _ => True

/-- The program has appended its last event and has yet to replace the record. -/
def cut {α : Type} : Io α → Bool
  | .call c _ => c.ends
  | _ => false

/-- What a store and its files are while only finishes say that the run is over. -/
structure Sound (runId : String) (d : Disk) (m : Memory) (evs : List Fields) : Prop where
  recorded : Recorded d m evs
  runId_eq : m.runId = runId
  named : isRunId runId = true
  private' : d.private = true
  last : evs.dropLast.any isFinish = false
  going : m.finished = false → evs.any isFinish = false

section Sound

variable {runId : String}

lemma Sound.same (h : Sound runId d m evs) (hd : Same d d') : Sound runId d' m evs :=
  { h with recorded := h.recorded.same hd
           private' := by rw [Disk.private, hd.root]; exact h.private' }

/-- The run opens, and gives back what the store has. -/
lemma Sound.opened (h : Sound runId d m evs) (now : ℤ) :
    d.opened now runId = .ok ⟨evs, m.reopened⟩ := by
  have hiff := opened_eq_ok_iff h.recorded (h.runId_eq ▸ h.named) now ⟨evs, m.reopened⟩
  rw [h.runId_eq] at hiff
  refine hiff.mpr ⟨⟨h.private', ?_⟩, rfl⟩
  cases hf : m.finished with
  | true => exact .inl rfl
  | false => exact .inr (h.going hf)

lemma Sound.reopened (h : Sound runId d m evs) : Sound runId d m.reopened evs :=
  { h with recorded := recorded_kept h.recorded (.refl d) ⟨rfl, rfl, rfl, rfl⟩ }

/-- What an operation leaves, where the record of a finish is not refused. -/
lemma sound_result {o : Outcome} (h : Sound runId d m evs) (hop : op.saysFinished = false)
    (hr : Result False m d op o d') : ∃ evs', Sound runId d' o.2 evs' := by
  cases hr with
  | rejected hd => exact ⟨evs, h.same hd⟩
  | kept hd _ _ hm =>
      have hs := h.same hd
      exact ⟨evs, recorded_kept h.recorded hd hm, hm.1.trans h.runId_eq, h.named, hs.private',
        h.last, fun hf => h.going (hm.2.2.2 ▸ hf)⟩
  | @appended type l t ha hroom =>
      have hany := h.going ha.active
      have htype : decide (type = "run.finished") = false := hop
      refine ⟨_, recorded_append h.recorded ha, h.runId_eq, h.named, h.private', ?_, fun _ => ?_⟩
      · rw [List.dropLast_concat]
        exact hany
      · rw [List.any_append, hany, List.any_cons, List.any_nil, isFinish_eventOf, htype]
        rfl
  | planned hactive ha hfits hd =>
      refine ⟨evs, recorded_plan h.recorded hactive ha hfits hd, h.runId_eq, h.named, ?_, h.last,
        h.going⟩
      rw [Disk.private, hd.root]
      exact h.private'
  | half hr _ => exact hr.elim
  | @finished status l t hf =>
      refine ⟨_, recorded_finish h.recorded hf, h.runId_eq, h.named, h.private', ?_, fun h => by cases h⟩
      rw [List.dropLast_concat]
      exact h.going hf.event.active

lemma spared_meets (m : Memory) (d : Disk) (op : Op) : Meets (env.given spared) False m d op := by
  refine meets (E := env.given spared) (fun _ _ _ _ h => h.1) (fun s w e t h hends => ?_) op
  cases h.2 hends

/-- Wherever an operation is stopped, but for the one place, the files are sound. -/
lemma sound_stopped {q : Io Outcome} (h : Sound runId d m evs) (hop : op.saysFinished = false)
    (hx : Exec (env.given spared) (op.run m) d q d') (hcut : cut q = false) :
    ∃ m' evs', Sound runId d' m' evs' ∧ ∀ o, q = .ret o → o.2 = m' ∧ Result False m d op o d' := by
  have hmeets := (spared_meets m d op).exec hx
  cases q with
  | ret o =>
      obtain ⟨o', ho, hr⟩ := hmeets
      obtain rfl := Except.ok.inj ho
      obtain ⟨evs', hs⟩ := sound_result h hop hr
      refine ⟨o.2, evs', hs, fun o' ho' => ?_⟩
      cases ho'
      exact ⟨rfl, hr⟩
  | fail e =>
      obtain ⟨o', ho, -⟩ := hmeets
      cases ho
  | call c k => exact ⟨m, evs, h.same (hmeets.1 hcut), nofun⟩

end Sound

/-- The stores that a run can have and the disks they work on: it is made, its store works and
is stopped, and the run is opened again. No event is appended that says that the run is over,
and nothing comes between the two parts of a finish. An opened store only has the operations
that the two kinds share. -/
inductive Reached (runId : String) : Bool → Memory → Disk → Prop
  | created {assignment : Json} {d₀ d : Disk} {m : Memory}
      (hroot : d₀.root = none ∨ ∃ s, d₀.root = some s ∧ s.mode = 0o700)
      (hx : Exec env (createPodRunStore runId assignment) d₀ (.ret m) d) : Reached runId true m d
  | op {made : Bool} {m : Memory} {d d' : Disk} {op : Op} {o : Outcome}
      (h : Reached runId made m d) (hmade : made = true ∨ op.shared = true)
      (hop : op.saysFinished = false)
      (hx : Exec (env.given spared) (op.run m) d (.ret o) d') : Reached runId made o.2 d'
  | reopened {made : Bool} {m : Memory} {d d' : Disk} {op : Op} {q : Io Outcome} {now : ℤ}
      {o : Opened} (h : Reached runId made m d) (hmade : made = true ∨ op.shared = true)
      (hop : op.saysFinished = false) (hx : Exec (env.given spared) (op.run m) d q d')
      (hcut : cut q = false) (ho : d'.opened now runId = .ok o) :
      Reached runId false o.memory d'

lemma Reached.sound {runId : String} {made : Bool} (h : Reached runId made m d) :
    ∃ evs, Sound runId d m evs := by
  induction h with
  | created hroot hx =>
      have hc := created_of_exec hx
      exact ⟨[], hc.recorded, hc.runId_eq, hc.named, (private_created hc).mpr hroot, rfl,
        fun _ => rfl⟩
  | op _ _ hop hx ih =>
      obtain ⟨evs, hs⟩ := ih
      obtain ⟨m', evs', hs', hret⟩ := sound_stopped hs hop hx rfl
      exact ⟨evs', (hret _ rfl).1 ▸ hs'⟩
  | reopened _ _ hop hx hcut ho ih =>
      obtain ⟨evs, hs⟩ := ih
      obtain ⟨m', evs', hs', -⟩ := sound_stopped hs hop hx hcut
      obtain rfl := Except.ok.inj ((hs'.opened _).symm.trans ho)
      exact ⟨evs', hs'.reopened⟩

/-- Some call of `finish` passes every check. One that failed at its file operations did. -/
def Room (m : Memory) : Prop :=
  ∃ status l now t, timestamp (some now) = .ok t ∧
    validateJson (.obj l) "finish details" = .ok () ∧ Finishes m status l t

/-- A finish that passes its checks goes through where nothing fails. -/
lemma run_finish {status : String} {l : Fields} {now : ℤ} {t : String}
    (ht : timestamp (some now) = .ok t)
    (hl : validateJson (.obj l) "finish details" = .ok ()) (hf : Finishes m status l t) :
    (finish m status (.obj l)).run (Disk.answer now) Disk.next d =
      (.ok (.ok (.obj (terminalRun m.run l m.runId status t)),
        { m.counted with run := terminalRun m.run l m.runId status t, finished := true }),
        (d.apply (.appendEvent
          (.obj (finishEvent l status (m.eventSequence + 1) t m.runId)))).apply
            (.writeRun (.obj (terminalRun m.run l m.runId status t)))) := by
  have hcheck : checkFinish m status (.obj l) = .ok l := by
    refine bind_eq_ok.mpr ⟨(), require_eq.mpr hf.event.active, ?_⟩
    refine bind_eq_ok.mpr ⟨(), require_eq.mpr hf.ended, ?_⟩
    refine bind_eq_ok.mpr ⟨(), require_eq.mpr hf.event.room, bind_eq_ok.mpr ⟨l, rfl, ?_⟩⟩
    exact bind_eq_ok.mpr ⟨(), hl, rfl⟩
  have hevent : serializeRecord lineSize
      (.obj (finishEvent l status (m.eventSequence + 1) t m.runId)) "event" =
        .ok (.obj (finishEvent l status (m.eventSequence + 1) t m.runId)) := hf.event.fits
  simp only [finish, hcheck, check]
  change ((check m (timestamp (some now)) fun t => _).run _ _ d) = _
  simp only [ht, check, hf.fits, hevent]
  rfl

/-- **Finishing is safe where nothing comes between its two parts.** In every state of a new or
a reopened store, wherever `finish` is stopped or fails, the run opens again, and no event of
its log but the last says that the run is over. After a finish that was rejected a second one
completes the run, as long as there is a finish that passes the checks. -/
theorem finish_crash_safe {runId : String} {made : Bool} (h : Reached runId made m d)
    {status : String} {details : Json} {q : Io Outcome}
    (hx : Exec (env.given spared) (finish m status details) d q d') (hcut : cut q = false)
    (now : ℤ) :
    (∃ o, d'.opened now runId = .ok o ∧ o.events.dropLast.any isFinish = false) ∧
      ∀ e m', q = .ret (.error e, m') → Room m →
        ∃ status' details' v m'' d'' o,
          Exec env (finish m' status' details') d' (.ret (.ok v, m'')) d'' ∧
            d''.opened now runId = .ok o ∧ o.memory.finished = true := by
  obtain ⟨evs, hs⟩ := h.sound
  have hop : (Op.finish status details).saysFinished = false := rfl
  obtain ⟨m₁, evs₁, hs₁, hret⟩ := sound_stopped hs hop hx hcut
  refine ⟨⟨_, hs₁.opened now, hs₁.last⟩, ?_⟩
  rintro e m' hq ⟨status', l, time, t, ht, hl, hf⟩
  obtain ⟨rfl, hr⟩ := hret _ hq
  -- a finish that was rejected left the store as it was
  have hm : m' = m := by
    cases hr with
    | rejected => rfl
    | half hr _ => exact hr.elim
  subst hm
  have hexec := exec_of_run (step_answer time) (run_finish (d := d') ht hl hf)
  obtain ⟨evs₂, hs₂⟩ := sound_result hs₁ (rfl : (Op.finish status' (.obj l)).saysFinished = false)
    (.finished hf)
  exact ⟨status', .obj l, _, _, _, _, hexec, hs₂.opened now, rfl⟩

/-! ### Failing disks -/

/-- The answers of a disk that has no room for another event. -/
def fullLog (d : Disk) : (c : Call) → c.Ret
  | .write (.appendEvent _) => .error { message := "ENOSPC" }
  | c => Disk.answer 0 d c

/-- The answers of a disk where the record of a finished run cannot be put in its place. -/
def fullRecord (d : Disk) : (c : Call) → c.Ret
  | .write w => if Call.ends (.write w) then .error { message := "ENOSPC" }
      else Disk.answer 0 d (.write w)
  | c => Disk.answer 0 d c

lemma step_fullLog (d : Disk) (c : Call) :
    (env.given spared).step d c (fullLog d c) (Disk.next d c (fullLog d c)) := by
  cases c with
  | write w =>
      cases w with
      | appendEvent v => exact ⟨⟨nofun, rfl⟩, nofun⟩
      | writeRun v => exact ⟨step_answer 0 d _, fun _ => rfl⟩
      | _ => exact ⟨step_answer 0 d _, nofun⟩
  | _ => exact ⟨step_answer 0 d _, trivial⟩

lemma step_fullRecord (d : Disk) (c : Call) :
    env.step d c (fullRecord d c) (Disk.next d c (fullRecord d c)) := by
  cases c with
  | write w =>
      cases hends : Call.ends (.write w) with
      | true =>
          have hr : fullRecord d (.write w) = .error { message := "ENOSPC" } := if_pos hends
          rw [hr]
          exact ⟨nofun, rfl⟩
      | false =>
          have hr : fullRecord d (.write w) = Disk.answer 0 d (.write w) :=
            if_neg (Bool.eq_false_iff.mp hends)
          rw [hr]
          exact step_answer 0 d _
  | _ => exact step_answer 0 d _

/-- There is room for a finish without details at the time zero. -/
def roomy (m : Memory) : Bool :=
  let run := Json.obj (terminalRun m.run [] m.runId "completed" (Timestamp.toISOString 0))
  let event := Json.obj
    (finishEvent [] "completed" (m.eventSequence + 1) (Timestamp.toISOString 0) m.runId)
  !m.finished && decide (m.eventSequence < maxEvents) && shallow 0 run &&
    decide (prettySize run ≤ maxRecordBytes) && shallow 0 event &&
    decide (lineSize event ≤ maxRecordBytes)

lemma room_of_roomy (h : roomy m = true) : Room m := by
  simp only [roomy, Bool.and_eq_true, Bool.not_eq_true', decide_eq_true_eq] at h
  obtain ⟨⟨⟨⟨⟨hf, hroom⟩, hrun⟩, hrun'⟩, hevent⟩, hevent'⟩ := h
  refine ⟨"completed", [], 0, Timestamp.toISOString 0, rfl, rfl, by decide +kernel, ?_, ?_⟩
  · exact ⟨hf, hroom, by decide +kernel,
      Timestamp.validStoredTimestamp_toISOString (by decide), fits_iff.mpr ⟨hevent, hevent'⟩⟩
  · exact fits_iff.mpr ⟨hrun, hrun'⟩

def isRejected : Except String Outcome → Bool
  | .ok (.error _, _) => true
  | _ => false

lemma of_isRejected {x : Except String Outcome × Disk} (h : isRejected x.1 = true) :
    ∃ e m', x = (.ok (.error e, m'), x.2) := by
  obtain ⟨_ | ⟨_ | v, m'⟩, d⟩ := x
  · cases h
  · exact ⟨_, m', rfl⟩
  · cases h

lemma exists_newRun (P : Memory → Disk → Bool)
    (h : (match newRun (.obj []) with
      | (.ok m, d) => P m d
      | _ => false) = true) :
    ∃ m d, Exec env (createPodRunStore "run-1" (.obj [])) {} (.ret m) d ∧ P m d = true := by
  split at h
  · rename_i m d heq
    exact ⟨m, d, exec_of_run (step_answer 0) heq, h⟩
  · cases h

/-- The log is full when the run is to be finished, and the run is finished later. -/
theorem finish_crash_safe_full_log :
    ∃ m d e m' d', Reached "run-1" true m d ∧
      Exec (env.given spared) (finish m "completed" (.obj [])) d (.ret (.error e, m')) d' ∧
      (∃ o, d'.opened 0 "run-1" = .ok o ∧ o.events.dropLast.any isFinish = false) ∧
      ∃ status details v m'' d'' o,
        Exec env (finish m' status details) d' (.ret (.ok v, m'')) d'' ∧
          d''.opened 0 "run-1" = .ok o ∧ o.memory.finished = true := by
  obtain ⟨m, d, hnew, hP⟩ := exists_newRun (fun m d => roomy m && isRejected
    ((finish m "completed" (.obj [])).run fullLog Disk.next d).1) (by decide +kernel)
  obtain ⟨hroomy, hrej⟩ := Bool.and_eq_true_iff.mp hP
  obtain ⟨e, m', hrun⟩ := of_isRejected hrej
  have hreach : Reached "run-1" true m d := .created (.inl rfl) hnew
  have hx := exec_of_run step_fullLog hrun
  obtain ⟨hopen, hagain⟩ := finish_crash_safe hreach hx rfl 0
  exact ⟨m, d, e, m', _, hreach, hx, hopen, hagain e m' rfl (room_of_roomy hroomy)⟩

/-- The record of a finished run cannot be put in its place, and the run does not open any
more. -/
theorem finish_leaves_run_unreadable :
    ¬ ∀ (runId : String) (assignment : Json) (m : Memory) (d : Disk) (status : String)
      (details : Json) (q : Io Outcome) (d' : Disk) (now : ℤ),
      Exec env (createPodRunStore runId assignment) {} (.ret m) d →
        Exec env (finish m status details) d q d' → ∃ o, d'.opened now runId = .ok o := by
  intro hall
  obtain ⟨m, d, hnew, hP⟩ := exists_newRun (fun m d =>
    isRejected ((finish m "completed" (.obj [])).run fullRecord Disk.next d).1 &&
      !(((finish m "completed" (.obj [])).run fullRecord Disk.next d).2.opened 0 "run-1").toBool)
    (by decide +kernel)
  obtain ⟨hrej, hclosed⟩ := Bool.and_eq_true_iff.mp hP
  obtain ⟨e, m', hrun⟩ := of_isRejected hrej
  obtain ⟨o, ho⟩ := hall _ _ m d _ _ _ _ 0 hnew (exec_of_run step_fullRecord hrun)
  rw [ho] at hclosed
  cases hclosed

end Bimo.PodStore
