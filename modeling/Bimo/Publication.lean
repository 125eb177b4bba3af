import Bimo.ControllerRuns

/-!
The gate of publication.

A candidate is made public only after three commits were checked, integrated and judged, all in
the same attempt and all about the very same commits. The proof follows the attempt: what a call
has answered stays on record until the next attempt begins, and each step of the controller adds
the fact that its answer was the one asked for.
-/

namespace Bimo.Controller

open Wire (Json)
open PodStore (Fields field put spread plainObject require require_eq isStr)
open Contract

/-! ### Receipts -/

/-- The field is there, with this text. -/
def Has (l : Fields) (key s : String) : Prop := l.lookup key = some (.str s)

lemma has_of_field {l : Fields} {key s : String} (h : field l key = .str s) : Has l key s := by
  rw [field] at h
  rw [Has]
  cases hl : l.lookup key with
  | none => simp [hl] at h
  | some v => simpa [hl] using h

lemma has_of_isStr {l : Fields} {key s : String} (h : isStr (l.lookup key) s = true) :
    Has l key s := by
  rw [Has]
  revert h
  cases hl : l.lookup key with
  | none => exact nofun
  | some v =>
      cases v with
      | str t =>
          intro h
          have ht : t = s := of_decide_eq_true h
          rw [ht]
      | _ => exact nofun

lemma has_put {l : Fields} {key key' s : String} {v : Json} (hne : key ≠ key')
    (h : Has (put key' v l) key s) : Has l key s := by
  rw [Has, PodStore.lookup_put, if_neg hne] at h
  exact h

lemma obj_of_exactObject {v : Json} {allowed : List String} {label : String} {l : Fields}
    (h : exactObject v allowed label = .ok l) : v = .obj l := by
  obtain ⟨l', hobj, h⟩ := bind_eq_ok.mp h
  obtain ⟨_, -, h⟩ := bind_eq_ok.mp h
  obtain rfl := Except.ok.inj h
  exact PodStore.plainObject_eq hobj

lemma passed_of_passedOrFailed {v : Json} {message : String}
    (h : passedOrFailed v message = .ok true) : v = .str "passed" := by
  unfold passedOrFailed at h
  split at h
  · rfl
  · cases h
  · cases h

lemma passed_of_outcome {gate : Gate} {v : Json} (h : gate.outcome v = .ok true) :
    v = .str "passed" := by
  cases gate with
  | qa =>
      unfold Gate.outcome at h
      split at h <;> first | rfl | cases h | contradiction
  | testing => exact passed_of_passedOrFailed h

/-- A checker's answer that passes this commit. -/
def CheckerPassed (w : Work) (raw : Json) : Prop :=
  ∃ label l, receiptOf raw label = .ok l ∧ Has l "outcome" "passed" ∧ Has l "baseSha" w.baseSha ∧
    Has l "resultSha" w.resultSha ∧ Has l "diffSha256" w.diffSha256

lemma checkerPassed {lib : Lib} {plan : Plan} {slot : Slot} {w : Work} {inbox : List Json}
    {cursor : ℕ} {raw : Json} {label : String} {l : Fields} {receipt : CheckerReceipt}
    (hraw : receiptOf raw label = .ok l)
    (h : validateCheckerReceipt lib plan slot w.baseSha w.resultSha w.diffSha256 inbox cursor
      (.obj (put "files" (.arr []) l)) = .ok receipt)
    (hpassed : receipt.passed = true) : CheckerPassed w raw := by
  obtain ⟨base, hbase, h⟩ := bind_eq_ok.mp h
  obtain ⟨result, hresult, h⟩ := bind_eq_ok.mp h
  obtain ⟨_, -, h⟩ := bind_eq_ok.mp h
  obtain ⟨_, -, h⟩ := bind_eq_ok.mp h
  obtain ⟨_, -, h⟩ := bind_eq_ok.mp h
  obtain ⟨l', hl', h⟩ := bind_eq_ok.mp h
  obtain ⟨passed, hout, h⟩ := bind_eq_ok.mp h
  obtain ⟨receiptBase, hrbase, h⟩ := bind_eq_ok.mp h
  obtain ⟨_, hbeq, h⟩ := bind_eq_ok.mp h
  obtain ⟨receiptResult, hrresult, h⟩ := bind_eq_ok.mp h
  obtain ⟨_, hreq, h⟩ := bind_eq_ok.mp h
  obtain ⟨diff, hdiff, h⟩ := bind_eq_ok.mp h
  obtain ⟨_, -, h⟩ := bind_eq_ok.mp h
  obtain ⟨_, -, h⟩ := bind_eq_ok.mp h
  obtain ⟨_, -, h⟩ := bind_eq_ok.mp h
  obtain ⟨_, -, h⟩ := bind_eq_ok.mp h
  obtain ⟨_, -, h⟩ := bind_eq_ok.mp h
  obtain ⟨_, -, h⟩ := bind_eq_ok.mp h
  obtain ⟨_, -, h⟩ := bind_eq_ok.mp h
  obtain ⟨_, -, h⟩ := bind_eq_ok.mp h
  obtain rfl := Except.ok.inj h
  obtain rfl : put "files" (.arr []) l = l' := Json.obj.inj (obj_of_exactObject hl')
  obtain rfl := require_eq.mp hbeq
  obtain rfl := require_eq.mp hreq
  have hbase' := Json.str.inj (str_of_assertForm hbase).1
  have hresult' := Json.str.inj (str_of_assertForm hresult).1
  have hdiff' := str_of_assertForm hdiff
  refine ⟨label, l, hraw, ?_, ?_, ?_, ?_⟩
  · have hpass := passed_of_passedOrFailed (hout.trans (congrArg Except.ok hpassed))
    exact has_put (by decide) (has_of_field hpass)
  · rw [hbase']
    exact has_put (by decide) (has_of_field (str_of_assertForm hrbase).1)
  · rw [hresult']
    exact has_put (by decide) (has_of_field (str_of_assertForm hrresult).1)
  · rw [← beq_iff_eq.mp hdiff'.2]
    exact has_put (by decide) (has_of_field hdiff'.1)

/-- A judge's answer that passes this candidate. -/
def GatePassed (gate : Gate) (candidateSha : String) (raw : Json) : Prop :=
  ∃ label l, receiptOf raw label = .ok l ∧ Has l "gate" gate.name ∧ Has l "outcome" "passed" ∧
    Has l "candidateSha" candidateSha

lemma gatePassed {plan : Plan} {gate : Gate} {candidateSha : String} {raw : Json}
    {label : String} {l : Fields} {receipt : ConformanceReceipt}
    (hraw : receiptOf raw label = .ok l)
    (h : validateConformanceReceipt plan gate candidateSha (.obj (put "files" (.arr []) l)) =
      .ok receipt)
    (hpassed : receipt.passed = true) : GatePassed gate candidateSha raw := by
  obtain ⟨candidate, hcandidate, h⟩ := bind_eq_ok.mp h
  obtain ⟨l', hl', h⟩ := bind_eq_ok.mp h
  obtain ⟨_, hgate, h⟩ := bind_eq_ok.mp h
  obtain ⟨passed, hout, h⟩ := bind_eq_ok.mp h
  obtain ⟨sha, hsha, h⟩ := bind_eq_ok.mp h
  obtain ⟨_, heq, h⟩ := bind_eq_ok.mp h
  obtain ⟨_, -, h⟩ := bind_eq_ok.mp h
  obtain ⟨_, -, h⟩ := bind_eq_ok.mp h
  obtain ⟨_, -, h⟩ := bind_eq_ok.mp h
  obtain ⟨_, -, h⟩ := bind_eq_ok.mp h
  obtain ⟨_, -, h⟩ := bind_eq_ok.mp h
  obtain ⟨_, -, h⟩ := bind_eq_ok.mp h
  obtain ⟨_, -, h⟩ := bind_eq_ok.mp h
  obtain rfl := Except.ok.inj h
  obtain rfl : put "files" (.arr []) l = l' := Json.obj.inj (obj_of_exactObject hl')
  obtain rfl := require_eq.mp heq
  have hcandidate' := Json.str.inj (str_of_assertForm hcandidate).1
  refine ⟨label, l, hraw, ?_, ?_, ?_⟩
  · exact has_put (by decide) (has_of_isStr (require_eq.mp hgate))
  · have hpass := passed_of_outcome (hout.trans (congrArg Except.ok hpassed))
    exact has_put (by decide) (has_of_field hpass)
  · rw [hcandidate']
    exact has_put (by decide) (has_of_field (str_of_assertForm hsha).1)

/-! ### What is on record -/

/-- The commit of a slot, as the source has made it. -/
def Committed (record : List Answered) (slot : Slot) (w : Work) : Prop :=
  w.slot = slot ∧ ∃ workspace l, ⟨.validateAndCommit slot workspace, .ok (.obj l)⟩ ∈ record ∧
    Has l "baseSha" w.baseSha ∧ Has l "resultSha" w.resultSha ∧ Has l "diffSha256" w.diffSha256

/-- A checker was asked about this slot in this attempt and has passed this very commit. -/
def Checked (record : List Answered) (n : ℕ) (slot : Slot) (w : Work) : Prop :=
  ∃ input raw, ⟨.execute input, .ok raw⟩ ∈ record ∧ input.role = .checker ∧ input.attempt = n ∧
    input.executionId = "attempt-" ++ toString n ++ "-" ++ ("checker-" ++ slot.name) ∧
    CheckerPassed w raw

def Accepted (record : List Answered) (n : ℕ) (slot : Slot) (w : Work) : Prop :=
  Committed record slot w ∧ Checked record n slot w

/-- A judge was asked in this attempt and has passed this very candidate. -/
def Judged (record : List Answered) (n : ℕ) (gate : Gate) (candidateSha : String) : Prop :=
  ∃ input raw, ⟨.execute input, .ok raw⟩ ∈ record ∧ input.role = .conformance gate ∧
    input.attempt = n ∧ GatePassed gate candidateSha raw

def Verified (record : List Answered) (candidateSha : String) : Prop :=
  ∃ seconds l, ⟨.verifyCandidate candidateSha seconds, .ok (.obj l)⟩ ∈ record ∧
    Has l "status" "passed" ∧ Has l "candidateSha" candidateSha

def Scanned (record : List Answered) (baseSha candidateSha : String) : Prop :=
  ∃ l, ⟨.scan baseSha candidateSha, .ok (.obj l)⟩ ∈ record ∧
    Has l "status" "passed" ∧ Has l "candidateSha" candidateSha

/-- These commits, and no others, were integrated into this candidate. -/
def Integrated (record : List Answered) (n : ℕ) (baseSha candidateSha : String)
    (commits : List Work) : Prop :=
  ∃ branch l, ⟨.integrate n baseSha commits branch, .ok (.obj l)⟩ ∈ record ∧
    Has l "candidateSha" candidateSha

/-- Everything that is asked of a candidate before it is made public. -/
def Gated (record : List Answered) (n : ℕ) (baseSha candidateSha : String) : Prop :=
  (∃ a b q, Accepted record n .engineeringA a ∧ Accepted record n .engineeringB b ∧
    Accepted record n .qaTests q ∧ Integrated record n baseSha candidateSha [a, b, q]) ∧
  Judged record n .qa candidateSha ∧ Judged record n .testing candidateSha ∧
  Verified record candidateSha ∧ Scanned record baseSha candidateSha

section Mono

variable {record record' : List Answered} (h : record ⊆ record')

include h

lemma Committed.mono {slot : Slot} {w : Work} (hw : Committed record slot w) :
    Committed record' slot w := by
  obtain ⟨hslot, workspace, l, hmem, hl⟩ := hw
  exact ⟨hslot, workspace, l, h hmem, hl⟩

lemma Checked.mono {n : ℕ} {slot : Slot} {w : Work} (hw : Checked record n slot w) :
    Checked record' n slot w := by
  obtain ⟨input, raw, hmem, hraw⟩ := hw
  exact ⟨input, raw, h hmem, hraw⟩

lemma Accepted.mono {n : ℕ} {slot : Slot} {w : Work} (hw : Accepted record n slot w) :
    Accepted record' n slot w :=
  ⟨hw.1.mono h, hw.2.mono h⟩

lemma Judged.mono {n : ℕ} {gate : Gate} {c : String} (hw : Judged record n gate c) :
    Judged record' n gate c := by
  obtain ⟨input, raw, hmem, hraw⟩ := hw
  exact ⟨input, raw, h hmem, hraw⟩

lemma Verified.mono {c : String} (hw : Verified record c) : Verified record' c := by
  obtain ⟨seconds, l, hmem, hl⟩ := hw
  exact ⟨seconds, l, h hmem, hl⟩

lemma Integrated.mono {n : ℕ} {b c : String} {commits : List Work}
    (hw : Integrated record n b c commits) : Integrated record' n b c commits := by
  obtain ⟨branch, l, hmem, hl⟩ := hw
  exact ⟨branch, l, h hmem, hl⟩

end Mono

/-! ### Calls that only add to the record -/

/-- A call that is neither the start nor the end of an attempt or a run. -/
def plain : Call → Bool
  | .begin _ => false
  | .appendEvent (.publicationReady _ _ _ _) => false
  | .appendEvent (.attemptFailed _ _) => false
  | .finish _ => false
  | _ => true

/-- What a run may do: a candidate is made public once, with all that is asked of it, and a run
is recorded as failed only where there is none. -/
def permitted (s : World) : Call → Prop
  | .appendEvent (.publicationReady n baseSha candidateSha _) =>
    s.ready = [] ∧ s.failed = false ∧ Gated s.record n baseSha candidateSha
  | .finish _ => s.ready = []
  | _ => True

/-- Nothing was lost from the record and nothing was made public. -/
def Later (s t : World) : Prop :=
  s.record ⊆ t.record ∧ t.ready = s.ready ∧ t.failed = s.failed

lemma Later.refl (s : World) : Later s s := ⟨fun _ h => h, rfl, rfl⟩

lemma Later.trans {s t u : World} (h : Later s t) (h' : Later t u) : Later s u :=
  ⟨fun _ hx => h'.1 (h.1 hx), h'.2.1.trans h.2.1, h'.2.2.trans h.2.2⟩

lemma Settles.keeps {s t : World} {l : List (Option Slot × Except String Json)}
    (h : Settles s l t) : t.record = s.record ∧ t.ready = s.ready ∧ t.failed = s.failed := by
  induction h with
  | nil s => exact ⟨rfl, rfl, rfl⟩
  | @cons s t slot out l hrunning hrest ih =>
      cases slot <;> exact ih

lemma permitted_of_plain {s : World} {o : Call} (h : plain o = true) : permitted s o := by
  unfold permitted
  split
  · cases h
  · cases h
  · trivial

/-- The call leaves the run as it is, whatever comes of it. -/
def keeps : Call → Bool
  | .begin _ => false
  | .appendEvent (.publicationReady _ _ _ _) => false
  | .finish _ => false
  | _ => true

lemma keeps_of_plain {o : Call} (h : plain o = true) : keeps o = true := by
  unfold keeps
  split
  all_goals first | rfl | cases h

lemma effect_keeps {s : World} {o : Call} (h : keeps o = true) (r : o.Ret) :
    (effect s o r).ready = s.ready ∧ (effect s o r).failed = s.failed := by
  unfold effect
  split
  all_goals first | exact ⟨rfl, rfl⟩ | cases h

lemma step_keeps {s t : World} {o : Call} {r : o.Ret} (h : keeps o = true)
    (hstep : env.step s o r t) : Later s t ∧ ⟨o, r⟩ ∈ t.record := by
  obtain ⟨l, s', hsettles, -, -, rfl⟩ := hstep
  obtain ⟨hrecord, hready, hfailed⟩ := hsettles.keeps
  obtain ⟨hready', hfailed'⟩ := effect_keeps (s := s') h r
  have hbegin : isBegin o = false := by
    cases o <;> first | rfl | cases h
  have hnext : (s'.next o r).record = ⟨o, r⟩ :: s.record := by
    rw [World.next, hbegin, hrecord]
    rfl
  refine ⟨⟨?_, hready'.trans hready, hfailed'.trans hfailed⟩, ?_⟩
  · rw [hnext]
    exact List.subset_cons_self _ _
  · rw [hnext]
    exact List.mem_cons_self

/-- The program only adds to the record, and what it returns is as described. -/
structure Gains {α : Type} (p : Io α) (s : World) (R : α → World → Prop) : Prop where
  safe : Safe env (fun _ o => plain o = true) p s fun r t => Later s t ∧ ∀ a, r = .ok a → R a t

section Gains

variable {α β : Type} {s : World} {R : α → World → Prop}

lemma Gains.bind {p : Io α} {f : α → Io β} {S : β → World → Prop} (hp : Gains p s R)
    (hf : ∀ a t, Later s t → R a t → Gains (f a) t S) : Gains (p >>= f) s S := by
  refine ⟨Safe.bind hp.safe ?_ ?_⟩
  · rintro a t ⟨hlater, hR⟩
    refine (hf a t hlater (hR a rfl)).safe.mono ?_
    rintro r u ⟨hlater', hS⟩
    exact ⟨hlater.trans hlater', hS⟩
  · rintro e t ⟨hlater, -⟩
    exact ⟨hlater, nofun⟩

lemma Gains.mono {p : Io α} {S : α → World → Prop} (hp : Gains p s R)
    (h : ∀ a t, Later s t → R a t → S a t) : Gains p s S := by
  refine ⟨hp.safe.mono ?_⟩
  rintro r t ⟨hlater, hR⟩
  exact ⟨hlater, fun a ha => h a t hlater (hR a ha)⟩

lemma gains_ask {o : Call} (h : plain o = true) :
    Gains (ask o) s fun r t => ⟨o, r⟩ ∈ t.record := by
  refine ⟨h, fun r t hstep => ?_⟩
  obtain ⟨hlater, hmem⟩ := step_keeps (keeps_of_plain h) hstep
  refine ⟨hlater, fun a ha => ?_⟩
  obtain rfl := Except.ok.inj ha
  exact hmem

lemma gains_pure {a : α} (h : R a s) : Gains (pure a) s R := by
  refine ⟨Later.refl s, fun b hb => ?_⟩
  obtain rfl := Except.ok.inj hb
  exact h

lemma gains_fail (e : Err) : Gains (Prog.fail e : Io α) s R := ⟨Later.refl s, nofun⟩

lemma gains_ofExcept {x : Except String α} {f : String → Err} :
    Gains (Prog.ofExcept (x.mapError f)) s fun a _ => x = .ok a := by
  cases x with
  | ok a => exact gains_pure rfl
  | error e => exact gains_fail _

lemma gains_valid {x : Except String α} : Gains (valid x) s fun a _ => x = .ok a := gains_ofExcept

lemma gains_port {x : Except String α} : Gains (port x) s fun a _ => x = .ok a := gains_ofExcept

lemma Gains.attempt {p : Io α} (hp : Gains p s R) :
    Gains (p.attempt : Io (Except Err α)) s fun x t => ∀ a, x = .ok a → R a t := by
  constructor
  rw [safe_attempt]
  refine hp.safe.mono ?_
  rintro r t ⟨hlater, hR⟩
  refine ⟨hlater, fun x hx => ?_⟩
  obtain rfl := Except.ok.inj hx
  exact hR

/-- A call whose answer does not matter but for its failing. -/
lemma Gains.ask {o : Call} {f : o.Ret → Io β} {S : β → World → Prop} (h : plain o = true)
    (hf : ∀ r t, Later s t → ⟨o, r⟩ ∈ t.record → Gains (f r) t S) :
    Gains (Controller.ask o >>= f) s S :=
  (gains_ask h).bind hf

lemma Gains.valid {x : Except String α} {f : α → Io β} {S : β → World → Prop}
    (hf : ∀ a t, Later s t → x = .ok a → Gains (f a) t S) :
    Gains (Controller.valid x >>= f) s S :=
  gains_valid.bind hf

lemma Gains.port {x : Except String α} {f : α → Io β} {S : β → World → Prop}
    (hf : ∀ a t, Later s t → x = .ok a → Gains (f a) t S) :
    Gains (Controller.port x >>= f) s S :=
  gains_port.bind hf

end Gains

/-! ### The parts of an attempt -/

section Parts

variable {cfg : Config} {at' : Attempt} {prior : List Evidence} {s : World}

lemma gains_now : Gains now s fun _ _ => True := by
  refine Gains.ask rfl fun r t _ _ => ?_
  cases r with
  | none => exact gains_fail _
  | some n => exact gains_pure trivial

lemma gains_remainingMs (deadlineAt : ℕ) :
    Gains (remainingMs cfg deadlineAt) s fun _ _ => True := by
  refine gains_now.bind fun n t _ _ => ?_
  split_ifs
  · exact gains_fail _
  · exact gains_pure trivial

lemma gains_executionSeconds (deadlineAt : ℕ) :
    Gains (executionSeconds cfg deadlineAt) s fun _ _ => True := by
  refine (gains_remainingMs deadlineAt).bind fun ms t _ _ => ?_
  split_ifs
  · exact gains_fail _
  · exact gains_pure trivial

/-- What an agent answered is on record, with what it was asked but for the time it had. -/
lemma gains_runAgent (deadlineAt : ℕ) (input : AgentInput) :
    Gains (runAgent cfg deadlineAt input) s fun raw t =>
      ∃ seconds, ⟨.execute { input with timeoutSeconds := seconds }, .ok raw⟩ ∈ t.record := by
  refine (gains_remainingMs deadlineAt).bind fun _ t _ _ => ?_
  refine (gains_executionSeconds deadlineAt).bind fun seconds t _ _ => ?_
  refine Gains.ask rfl fun r t _ hmem => ?_
  refine gains_ofExcept.mono fun raw u hlater hraw => ⟨seconds, ?_⟩
  rw [hraw] at hmem
  exact hlater.1 hmem

lemma gains_recordWorkResult (w : Work) :
    Gains (recordWorkResult at' w) s fun _ _ => True := by
  refine Gains.ask rfl fun _ t _ _ => ?_
  refine Gains.ask rfl fun r t _ _ => ?_
  exact gains_port.mono fun _ _ _ _ => trivial

lemma gains_recordGate (receipt : Fields) :
    Gains (recordGate at' receipt) s fun _ _ => True := by
  refine Gains.ask rfl fun _ t _ _ => ?_
  refine Gains.ask rfl fun r t _ _ => ?_
  exact gains_port.mono fun _ _ _ _ => trivial

lemma has_of_checkCommit {lib : Lib} {template : Template} {plan : Plan} {slot : Slot}
    {base : String} {v : Json} {c : Commit} {receipt : WriterReceipt}
    (h : checkCommit lib template plan slot base v = .ok c) :
    ∃ l, v = .obj l ∧ Has l "baseSha" (workOf slot receipt c).baseSha ∧
      Has l "resultSha" (workOf slot receipt c).resultSha ∧
      Has l "diffSha256" (workOf slot receipt c).diffSha256 := by
  obtain ⟨l, hobj, h⟩ := bind_eq_ok.mp h
  obtain ⟨base, hbase, h⟩ := bind_eq_ok.mp h
  obtain ⟨_, -, h⟩ := bind_eq_ok.mp h
  obtain ⟨_, -, h⟩ := bind_eq_ok.mp h
  obtain ⟨_, -, h⟩ := bind_eq_ok.mp h
  obtain ⟨_, -, h⟩ := bind_eq_ok.mp h
  obtain ⟨_, -, h⟩ := bind_eq_ok.mp h
  obtain ⟨diff, hdiff, h⟩ := bind_eq_ok.mp h
  obtain ⟨result, hresult, h⟩ := bind_eq_ok.mp h
  obtain rfl := Except.ok.inj h
  exact ⟨l, PodStore.plainObject_eq hobj, has_of_field (str_of_assertForm hbase).1,
    has_of_field (str_of_assertForm hresult).1, has_of_field (str_of_assertForm hdiff).1⟩

lemma gains_commitWriterResult (slot : Slot) (workspace : Json) (receipt : WriterReceipt) :
    Gains (commitWriterResult cfg at' slot workspace receipt) s fun w t =>
      Committed t.record slot w := by
  refine (gains_remainingMs _).bind fun _ t _ _ => ?_
  refine Gains.ask rfl fun r t _ hmem => ?_
  refine Gains.port fun v t hlater hv => ?_
  refine Gains.valid fun c u hlater' hc => ?_
  refine (gains_recordWorkResult _).bind fun _ u' hlater'' _ => gains_pure ?_
  obtain ⟨l, rfl, hl⟩ := @has_of_checkCommit _ _ _ _ _ _ _ receipt hc
  rw [hv] at hmem
  exact ⟨rfl, workspace, l, hlater''.1 (hlater'.1 (hlater.1 hmem)), hl⟩

lemma gains_checkWriterResult (slot : Slot) (w : Work) (inbox : List Json) (cursor : ℕ) :
    Gains (checkWriterResult cfg at' slot w inbox cursor) s fun _ t =>
      Checked t.record at'.n slot w := by
  refine Gains.ask rfl fun _ t _ _ => ?_
  refine Gains.port fun _ t _ _ => ?_
  refine Gains.valid fun _ t _ _ => ?_
  refine Gains.valid fun _ t _ _ => ?_
  refine Gains.valid fun _ t _ _ => ?_
  refine (gains_runAgent _ _).bind fun raw t _ hraw => ?_
  refine Gains.valid fun l t hlater hl => ?_
  refine Gains.valid fun receipt t hlater' hreceipt => ?_
  refine (gains_recordGate _).bind fun _ t hlater'' _ => ?_
  split_ifs with hpassed
  · obtain ⟨seconds, hmem⟩ := hraw
    exact gains_pure ⟨_, raw, hlater''.1 (hlater'.1 (hlater.1 hmem)), rfl, rfl, rfl,
      checkerPassed hl hreceipt hpassed⟩
  · exact gains_fail _

lemma gains_executeWriter (slot : Slot) (workspace : Json) (inbox : List Json)
    (executionId base : String) :
    Gains (executeWriter cfg at' prior slot workspace inbox executionId base) s fun _ _ => True := by
  refine Gains.valid fun input t _ _ => ?_
  exact (gains_runAgent _ _).mono fun _ _ _ _ => trivial

lemma gains_each {α : Type} {f : α → Io Unit} (hf : ∀ a s, Gains (f a) s fun _ _ => True)
    (l : List α) : Gains (Prog.each f l) s fun _ _ => True := by
  induction l generalizing s with
  | nil => exact gains_pure trivial
  | cons a l ih => exact (hf a s).bind fun _ t _ _ => ih

lemma gains_launch (slot : Slot) (input : AgentInput) :
    Gains (launch cfg at' slot input) s fun _ _ => True := by
  refine (gains_executionSeconds _).attempt.bind fun r t _ _ => ?_
  cases r with
  | ok seconds => exact (gains_ask rfl).mono fun _ _ _ _ => trivial
  | error e => exact (gains_ask rfl).mono fun _ _ _ _ => trivial

lemma gains_launchAll (l : List (Slot × AgentInput)) :
    Gains (launchAll cfg at' l) s fun _ _ => True :=
  gains_each (fun p _ => gains_launch p.1 p.2) l

lemma gains_startWriters (workspace : Slot → Json) (slots : List Slot)
    (ready : List (Slot × AgentInput)) :
    Gains (startWriters cfg at' prior workspace slots ready) s fun _ _ => True := by
  induction slots generalizing s ready with
  | nil => exact gains_launchAll ready
  | cons slot slots ih =>
      have hinput : Gains (do
          let input ← valid (writerInput cfg at' prior slot (workspace slot) []
            (attemptId at' slot.name) at'.baseSha)
          let _ ← remainingMs cfg at'.deadlineAt
          pure input : Io AgentInput) s fun _ _ => True := by
        refine Gains.valid fun input t _ _ => ?_
        exact (gains_remainingMs _).bind fun _ _ _ _ => gains_pure trivial
      refine hinput.attempt.bind fun r t _ _ => ?_
      cases r with
      | ok input => exact ih _
      | error e => exact (gains_launchAll ready).bind fun _ _ _ _ => gains_fail e

lemma gains_createWorktrees (slots : List Slot) (workspace : Slot → Json) :
    Gains (createWorktrees at' slots workspace) s fun _ _ => True := by
  induction slots generalizing s workspace with
  | nil => exact gains_pure trivial
  | cons slot slots ih =>
      refine Gains.ask rfl fun _ t _ _ => ?_
      refine Gains.port fun _ t _ _ => ?_
      refine Gains.valid fun _ t _ _ => ?_
      refine Gains.valid fun _ t _ _ => ?_
      refine Gains.valid fun _ t _ _ => ?_
      refine Gains.valid fun _ t _ _ => ?_
      exact ih _

/-! #### The writers -/

lemma gains_noteFirst (p : Progress) (e : Err) : Gains (noteFirst p e) s fun _ _ => True :=
  Gains.ask rfl fun _ _ _ _ => gains_pure trivial

lemma gains_takeRequest (workspace : Slot → Json) (p : Progress) (slot : Slot)
    (receipt : WriterReceipt) (request : Request) :
    Gains (takeRequest cfg at' workspace p slot receipt request) s fun _ _ => True := by
  refine Gains.ask rfl fun active t _ _ => ?_
  split
  · exact gains_noteFirst _ _
  · refine (gains_commitWriterResult _ _ _).bind fun checkpoint t _ _ => ?_
    refine (gains_checkWriterResult _ _ _ _).bind fun _ t _ _ => ?_
    refine Gains.ask rfl fun still t _ _ => ?_
    split_ifs
    · exact gains_noteFirst _ _
    · refine Gains.ask rfl fun _ t _ _ => ?_
      refine Gains.port fun _ t _ _ => ?_
      refine Gains.valid fun _ t _ _ => ?_
      refine Gains.ask rfl fun _ t _ _ => ?_
      refine Gains.port fun _ t _ _ => ?_
      exact gains_pure trivial

lemma gains_takeReceipt (workspace : Slot → Json) (p : Progress) (slot : Slot) (raw : Json) :
    Gains (takeReceipt cfg at' workspace p slot raw) s fun _ _ => True := by
  refine Gains.valid fun receipt t _ _ => ?_
  dsimp only
  split
  · exact gains_noteFirst _ _
  · exact gains_takeRequest _ _ _ _ _
  · exact gains_noteFirst _ _
  · exact gains_pure trivial

lemma gains_noteError (p : Progress) (e : Err) :
    Gains (noteError p e) s fun _ _ => True := by
  refine (gains_noteFirst p e).bind fun p t _ _ => ?_
  split_ifs
  · exact Gains.ask rfl fun _ t _ _ => gains_pure trivial
  · exact gains_pure trivial

lemma gains_settleWriters (workspace : Slot → Json) (k : ℕ) (pending : List Slot) (p : Progress) :
    Gains (settleWriters cfg at' workspace k pending p) s fun _ _ => True := by
  induction k generalizing s pending p with
  | zero => exact gains_pure trivial
  | succ k ih =>
      unfold settleWriters
      refine Gains.ask rfl ?_
      rintro ⟨slot, e | raw⟩ t _ _ <;> dsimp only
      · exact (gains_noteError p e).bind fun p t _ _ => ih _ p
      · split_ifs
        · exact ih _ p
        · refine (gains_takeReceipt workspace p slot raw).attempt.bind ?_
          rintro (e | p') t _ _ <;> dsimp only
          · exact (gains_noteError p e).bind fun p t _ _ => ih _ p
          · exact ih _ p'

/-! #### The commits -/

lemma gains_commitAll (workspace : Slot → Json) (initial : Slot → Option WriterReceipt)
    (slots : List Slot) (done : Slot → Option Work)
    (hdone : ∀ slot w, done slot = some w → Committed s.record slot w) :
    Gains (commitAll cfg at' workspace initial slots done) s fun done t =>
      ∀ slot w, done slot = some w → Committed t.record slot w := by
  induction slots generalizing s done with
  | nil => exact gains_pure hdone
  | cons slot slots ih =>
      unfold commitAll
      split
      · exact ih done hdone
      · rename_i receipt _
        split_ifs
        · exact ih done hdone
        · refine (gains_commitWriterResult slot _ receipt).bind fun w t hlater hw => ih _ ?_
          intro slot' w' h
          rw [set] at h
          split_ifs at h with heq
          · obtain rfl := Option.some.inj h
            rw [heq]
            exact hw
          · exact (hdone slot' w' h).mono hlater.1

lemma gains_checkAll (completed : Slot → Option Work) (slots : List Slot)
    (accepted : Slot → Option Work) (failure : Option Err)
    (hcompleted : ∀ slot w, completed slot = some w → Committed s.record slot w)
    (haccepted : ∀ slot w, accepted slot = some w → Accepted s.record at'.n slot w) :
    Gains (checkAll cfg at' completed slots accepted failure) s fun accepted t =>
      ∀ slot w, accepted slot = some w → Accepted t.record at'.n slot w := by
  induction slots generalizing s accepted failure with
  | nil =>
      cases failure with
      | none => exact gains_pure haccepted
      | some e => exact gains_fail e
  | cons slot slots ih =>
      unfold checkAll
      split
      · exact ih accepted failure hcompleted haccepted
      · rename_i w hw
        refine (gains_checkWriterResult slot w [] 0).attempt.bind ?_
        rintro (e | ⟨⟩) t hlater hchecked <;> dsimp only
        · refine Gains.ask rfl fun _ u hlater' _ => ?_
          have hboth := hlater.trans hlater'
          exact ih _ _ (fun slot' w' h => (hcompleted slot' w' h).mono hboth.1)
            fun slot' w' h => (haccepted slot' w' h).mono hboth.1
        · refine ih _ _ (fun slot' w' h => (hcompleted slot' w' h).mono hlater.1) ?_
          intro slot' w' h
          rw [set] at h
          split_ifs at h with heq
          · obtain rfl := Option.some.inj h
            rw [heq]
            exact ⟨(hcompleted slot w hw).mono hlater.1, hchecked () rfl⟩
          · exact (haccepted slot' w' h).mono hlater.1

/-- The two engineers replace their commits, and both are checked again. -/
lemma gains_resume (workspace : Slot → Json) (initial : Slot → Option WriterReceipt)
    (request : InboxRequest) (accepted : Slot → Option Work)
    (haccepted : ∀ slot w, accepted slot = some w → Accepted s.record at'.n slot w) :
    Gains (resume cfg at' prior workspace initial request accepted) s fun accepted t =>
      ∀ slot w, accepted slot = some w → Accepted t.record at'.n slot w := by
  refine Gains.ask rfl fun _ t h₁ _ => ?_
  refine Gains.port fun _ t h₂ _ => ?_
  refine Gains.valid fun _ t h₃ _ => ?_
  refine Gains.valid fun _ t h₄ _ => ?_
  refine (gains_executeWriter _ _ _ _ _).bind fun _ t h₅ _ => ?_
  refine Gains.valid fun _ t h₆ _ => ?_
  refine Gains.valid fun _ t h₇ _ => ?_
  refine (gains_commitWriterResult _ _ _).bind fun owner t h₈ howner => ?_
  refine (gains_checkWriterResult _ _ _ _).bind fun _ t h₉ hchecked => ?_
  refine Gains.valid fun _ t h₁₀ _ => ?_
  refine Gains.ask rfl fun _ t h₁₁ _ => ?_
  refine Gains.port fun _ t h₁₂ _ => ?_
  refine Gains.valid fun _ t h₁₃ _ => ?_
  refine (gains_executeWriter _ _ _ _ _).bind fun _ t h₁₄ _ => ?_
  refine Gains.valid fun _ t h₁₅ _ => ?_
  refine Gains.valid fun _ t h₁₆ _ => ?_
  refine (gains_commitWriterResult _ _ _).bind fun requester t h₁₇ hrequester => ?_
  refine (gains_checkWriterResult _ _ _ _).bind fun _ t h₁₈ hchecked' => gains_pure ?_
  have hsecond := h₁₀.trans <| h₁₁.trans <| h₁₂.trans <| h₁₃.trans <| h₁₄.trans <|
    h₁₅.trans <| h₁₆.trans <| h₁₇.trans h₁₈
  have hfirst := h₁.trans <| h₂.trans <| h₃.trans <| h₄.trans <| h₅.trans <| h₆.trans <|
    h₇.trans <| h₈.trans h₉
  intro slot w h
  simp only [set] at h
  split_ifs at h with hA hB
  · obtain rfl := Option.some.inj h
    rw [hA]
    exact ⟨hrequester.mono h₁₈.1, hchecked'⟩
  · obtain rfl := Option.some.inj h
    rw [hB]
    exact ⟨howner.mono (h₉.trans hsecond).1, hchecked.mono hsecond.1⟩
  · exact (haccepted slot w h).mono (hfirst.trans hsecond).1

/-! #### The candidate -/

lemma gains_conformance (gate : Gate) (candidateSha viewId : String) :
    Gains (conformance cfg at' gate candidateSha viewId) s fun _ t =>
      Judged t.record at'.n gate candidateSha := by
  refine Gains.valid fun _ t _ _ => ?_
  refine (gains_runAgent _ _).bind fun raw t _ hraw => ?_
  refine Gains.valid fun l t hlater hl => ?_
  refine Gains.valid fun receipt t hlater' hreceipt => ?_
  refine (gains_recordGate _).bind fun _ t hlater'' _ => ?_
  split_ifs with hpassed
  · obtain ⟨seconds, hmem⟩ := hraw
    exact gains_pure ⟨_, raw, hlater''.1 (hlater'.1 (hlater.1 hmem)), rfl, rfl,
      gatePassed hl hreceipt hpassed⟩
  · exact gains_fail _

lemma has_of_passedExactly {v : Json} {candidateSha label message : String} {l : Fields}
    (h : passedExactly v candidateSha label message = .ok l) :
    v = .obj l ∧ Has l "status" "passed" ∧ Has l "candidateSha" candidateSha := by
  obtain ⟨l', hobj, h⟩ := bind_eq_ok.mp h
  obtain ⟨_, hpassed, h⟩ := bind_eq_ok.mp h
  obtain rfl := Except.ok.inj h
  obtain ⟨hstatus, hcandidate⟩ := require_eq.mp hpassed
  exact ⟨PodStore.plainObject_eq hobj, has_of_isStr hstatus, has_of_isStr hcandidate⟩

lemma gains_candidateView (integrated : Fields) (candidateSha : String) :
    Gains (candidateView at' integrated candidateSha) s fun _ _ => True := by
  unfold candidateView
  split_ifs
  · refine Gains.valid fun _ t _ _ => ?_
    refine Gains.valid fun _ t _ _ => ?_
    exact Gains.valid fun _ t _ _ => gains_pure trivial
  · refine Gains.ask rfl fun _ t _ _ => ?_
    refine Gains.port fun _ t _ _ => ?_
    refine Gains.valid fun _ t _ _ => ?_
    refine Gains.valid fun _ t _ _ => ?_
    exact Gains.valid fun _ t _ _ => gains_pure trivial

lemma gains_gates (commits : List Work) :
    Gains (gates cfg at' commits) s fun c t =>
      Integrated t.record at'.n at'.baseSha c commits ∧ Judged t.record at'.n .qa c ∧
      Judged t.record at'.n .testing c ∧ Verified t.record c ∧ Scanned t.record at'.baseSha c := by
  refine (gains_remainingMs _).bind fun _ t _ _ => ?_
  refine Gains.ask rfl fun r t _ hint => ?_
  refine Gains.port fun v t h₁ hv => ?_
  refine Gains.valid fun integrated t h₂ hobj => ?_
  refine Gains.valid fun c t h₃ hc => ?_
  refine (gains_candidateView _ _).bind fun _ t h₄ _ => ?_
  refine Gains.ask rfl fun _ t h₅ _ => ?_
  refine Gains.port fun _ t h₆ _ => ?_
  refine Gains.valid fun _ t h₇ _ => ?_
  refine (gains_conformance .qa c _).bind fun _ t h₈ hqa => ?_
  refine (gains_conformance .testing c _).bind fun _ t h₉ htesting => ?_
  refine (gains_remainingMs _).bind fun _ t h₁₀ _ => ?_
  refine Gains.ask rfl fun r t h₁₁ hver => ?_
  refine Gains.port fun v' t h₁₂ hv' => ?_
  refine Gains.valid fun l' t h₁₃ hl' => ?_
  refine (gains_recordGate _).bind fun _ t h₁₄ _ => ?_
  refine Gains.ask rfl fun r t h₁₅ hscan => ?_
  refine Gains.port fun v'' t h₁₆ hv'' => ?_
  refine Gains.valid fun l'' t h₁₇ hl'' => ?_
  refine (gains_recordGate _).bind fun _ t h₁₈ _ => ?_
  refine (gains_recordGate _).bind fun _ t h₁₉ _ => gains_pure ?_
  have hscanned := h₁₆.trans <| h₁₇.trans <| h₁₈.trans h₁₉
  have hverified := h₁₂.trans <| h₁₃.trans <| h₁₄.trans <| h₁₅.trans hscanned
  have htested := h₁₀.trans <| h₁₁.trans hverified
  have hqaed := h₉.trans htested
  have hints := h₁.trans <| h₂.trans <| h₃.trans <| h₄.trans <| h₅.trans <| h₆.trans <|
    h₇.trans <| h₈.trans hqaed
  obtain ⟨rfl, hverify⟩ := has_of_passedExactly hl'
  obtain ⟨rfl, hscan'⟩ := has_of_passedExactly hl''
  obtain rfl := PodStore.plainObject_eq hobj
  rw [hv] at hint
  rw [hv'] at hver
  rw [hv''] at hscan
  exact ⟨⟨cfg.branch, integrated, hints.1 hint, has_of_field (str_of_assertForm hc).1⟩,
    hqa.mono hqaed.1, htesting.mono htested.1, ⟨_, l', hverified.1 hver, hverify⟩,
    ⟨l'', hscanned.1 hscan, hscan'⟩⟩

lemma commitsOf_eq {accepted : Slot → Option Work} {commits : List Work}
    (h : commitsOf accepted = some commits) : ∃ a b q, accepted .engineeringA = some a ∧
      accepted .engineeringB = some b ∧ accepted .qaTests = some q ∧ commits = [a, b, q] := by
  unfold commitsOf at h
  split at h
  · rename_i a b q ha hb hq
    exact ⟨a, b, q, ha, hb, hq, (Option.some.inj h).symm⟩
  · cases h

lemma gains_commitsOf {accepted : Slot → Option Work}
    (haccepted : ∀ slot w, accepted slot = some w → Accepted s.record at'.n slot w) :
    Gains (match commitsOf accepted with
      | none => Prog.fail (.invalid "attempt did not produce three accepted writer results")
      | some commits => gates cfg at' commits) s fun c t => Gated t.record at'.n at'.baseSha c := by
  split
  · exact gains_fail _
  · rename_i commits hcommits
    obtain ⟨a, b, q, ha, hb, hq, rfl⟩ := commitsOf_eq hcommits
    refine (gains_gates [a, b, q]).mono ?_
    rintro c t hlater ⟨hintegrated, hrest⟩
    exact ⟨⟨a, b, q, (haccepted _ a ha).mono hlater.1, (haccepted _ b hb).mono hlater.1,
      (haccepted _ q hq).mono hlater.1, hintegrated⟩, hrest⟩

/-- What an attempt returns has come through every gate. -/
lemma gains_runAttempt :
    Gains (runAttempt cfg at' prior) s fun c t => Gated t.record at'.n at'.baseSha c := by
  refine (gains_createWorktrees _ _).bind fun workspace t _ _ => ?_
  refine Gains.ask rfl fun _ t _ _ => ?_
  refine Gains.port fun _ t _ _ => ?_
  refine (gains_startWriters _ _ _).bind fun _ t _ _ => ?_
  refine (gains_settleWriters _ _ _ _).bind fun p t _ _ => ?_
  split
  · exact gains_fail _
  · split
    · exact gains_fail _
    · refine (gains_commitAll _ _ _ (fun _ => none) nofun).bind fun completed t _ hcompleted => ?_
      refine (gains_checkAll completed _ (fun _ => none) _ hcompleted nofun).bind
        fun accepted t _ haccepted => ?_
      dsimp only
      split
      · refine (gains_resume workspace p.initial _ accepted haccepted).bind
          fun accepted t _ haccepted => ?_
        exact gains_commitsOf haccepted
      · exact gains_commitsOf haccepted

end Parts

/-! ### Attempts -/

section Attempts

variable {cfg : Config} {baseSha : String} {existingDirectories : Json} {s : World}

lemma gains_makePlan (n deadlineAt : ℕ) (prior : List Evidence) :
    Gains (makePlan cfg baseSha existingDirectories n deadlineAt prior) s fun _ _ => True := by
  refine (gains_remainingMs _).bind fun _ t _ _ => ?_
  refine Gains.ask rfl fun _ t _ _ => ?_
  refine Gains.port fun _ t _ _ => ?_
  refine Gains.ask rfl fun _ t _ _ => ?_
  refine Gains.port fun _ t _ _ => ?_
  refine Gains.valid fun _ t _ _ => ?_
  refine (gains_runAgent _ _).bind fun raw t _ _ => ?_
  refine Gains.valid fun _ t _ _ => ?_
  refine Gains.valid fun plan t _ _ => ?_
  refine Gains.ask rfl fun _ t _ _ => ?_
  refine Gains.valid fun _ t _ _ => ?_
  refine Gains.ask rfl fun _ t _ _ => ?_
  refine Gains.port fun _ t _ _ => ?_
  refine Gains.ask rfl fun _ t _ _ => ?_
  exact Gains.port fun _ t _ _ => gains_pure trivial

/-- No candidate yet, and the run is not recorded as failed. -/
def Open (s : World) : Prop := s.ready = [] ∧ s.failed = false

lemma Open.later {s t : World} (h : Open s) (hlater : Later s t) : Open t :=
  ⟨hlater.2.1.trans h.1, hlater.2.2.trans h.2⟩

lemma Gains.safe_open {α : Type} {p : Io α} {R : α → World → Prop} (h : Gains p s R)
    (hopen : Open s) : Safe env permitted p s fun r t => Open t ∧ ∀ a, r = .ok a → R a t := by
  refine (h.safe.weaken fun _ _ => permitted_of_plain).mono ?_
  rintro r t ⟨hlater, hR⟩
  exact ⟨hopen.later hlater, hR⟩

/-- The run is open for as long as it has no result. -/
structure Tries {α : Type} (p : Io α) (s : World) : Prop where
  safe : Safe env permitted p s fun r t => ∀ e, r = .error e → Open t

lemma Tries.bind {α β : Type} {p : Io α} {f : α → Io β} {R : α → World → Prop} (hopen : Open s)
    (hp : Gains p s R) (hf : ∀ a t, Open t → R a t → Tries (f a) t) : Tries (p >>= f) s := by
  refine ⟨Safe.bind (hp.safe_open hopen) ?_ ?_⟩
  · rintro a t ⟨hopen', hR⟩
    exact (hf a t hopen' (hR a rfl)).safe
  · rintro e t ⟨hopen', -⟩ _ _
    exact hopen'

/-- What is tried and has failed leaves the run open. -/
lemma Tries.attempt_bind {α β : Type} {p : Io α} {f : Except Err α → Io β} (hp : Tries p s)
    (hok : ∀ a t, Tries (f (.ok a)) t) (herr : ∀ e t, Open t → Tries (f (.error e)) t) :
    Tries (p.attempt >>= f) s := by
  constructor
  rw [safe_bind, safe_attempt]
  refine hp.safe.mono ?_
  rintro (e | a) t ht
  · exact (herr e t (ht e rfl)).safe
  · exact (hok a t).safe

lemma tries_fail {α : Type} (e : Err) (hopen : Open s) : Tries (Prog.fail e : Io α) s :=
  ⟨fun _ _ => hopen⟩

lemma tries_pure {α : Type} (a : α) : Tries (pure a : Io α) s := ⟨nofun⟩

lemma step_publish {t : World} {n : ℕ} {candidateSha branch : String} {r : Except String Unit}
    (hstep : env.step s (.appendEvent (.publicationReady n baseSha candidateSha branch)) r t)
    (hopen : Open s) : ∀ e, r = .error e → Open t := by
  rintro e rfl
  obtain ⟨l, s', hsettles, -, -, rfl⟩ := hstep
  obtain ⟨-, hready, hfailed⟩ := hsettles.keeps
  exact ⟨hready.trans hopen.1, hfailed.trans hopen.2⟩

lemma step_begin {t : World} {n : ℕ} {r : Unit} (hstep : env.step s (.begin n) r t)
    (hopen : Open s) : Open t := by
  obtain ⟨l, s', hsettles, -, -, rfl⟩ := hstep
  obtain ⟨-, hready, hfailed⟩ := hsettles.keeps
  exact ⟨hready.trans hopen.1, hfailed.trans hopen.2⟩

lemma tries_attemptOnce (n deadlineAt : ℕ) (prior : List Evidence) (hopen : Open s) :
    Tries (attemptOnce cfg baseSha existingDirectories n deadlineAt prior) s := by
  refine Tries.bind hopen (gains_makePlan _ _ _) fun plan t hopen _ => ?_
  refine Tries.bind hopen gains_runAttempt fun c t hopen hgated => ?_
  refine ⟨⟨⟨hopen.1, hopen.2, hgated⟩, fun r u hstep => ?_⟩⟩
  cases r with
  | ok _ => exact nofun
  | error e => exact fun _ _ => step_publish hstep hopen e rfl

lemma tries_attemptsFrom (k n : ℕ) (prior : List Evidence) (hopen : Open s) :
    Tries (attemptsFrom cfg baseSha existingDirectories k n prior) s := by
  induction k generalizing s n prior with
  | zero => exact tries_fail _ hopen
  | succ k ih =>
      unfold attemptsFrom
      refine Tries.bind hopen gains_now fun t' t hopen _ => ?_
      refine ⟨⟨trivial, fun r t hstep => ?_⟩⟩
      have hopen := step_begin hstep hopen
      refine ((tries_attemptOnce n _ prior hopen).attempt_bind (fun c t => tries_pure c) ?_).safe
      intro e t hopen
      refine Tries.bind hopen (gains_ask rfl) fun kept t hopen _ => ?_
      refine ⟨⟨trivial, fun r t hstep => ?_⟩⟩
      have hopen := hopen.later (step_keeps rfl hstep).1
      refine (Tries.bind hopen gains_port fun _ t hopen _ => ?_).safe
      split_ifs
      · exact tries_fail e hopen
      · exact ih _ _ hopen

lemma gains_prepare : Gains (prepare cfg) s fun _ _ => True := by
  refine Gains.ask rfl fun _ t _ _ => ?_
  refine Gains.port fun _ t _ _ => ?_
  refine Gains.ask rfl fun _ t _ _ => ?_
  refine Gains.port fun _ t _ _ => ?_
  refine Gains.valid fun _ t _ _ => ?_
  refine Gains.valid fun base t _ _ => ?_
  refine Gains.valid fun _ t _ _ => ?_
  refine Gains.ask rfl fun _ t _ _ => ?_
  refine Gains.port fun _ t _ _ => ?_
  refine Gains.valid fun _ t _ _ => ?_
  split_ifs
  · refine Gains.ask rfl fun _ t _ _ => ?_
    refine Gains.port fun _ t _ _ => ?_
    refine (gains_remainingMs _).bind fun _ t _ _ => ?_
    refine Gains.ask rfl fun _ t _ _ => ?_
    refine Gains.port fun _ t _ _ => ?_
    refine Gains.valid fun _ t _ _ => ?_
    refine Gains.ask rfl fun _ t _ _ => ?_
    exact Gains.port fun _ t _ _ => gains_pure trivial
  · exact gains_pure trivial

lemma tries_workflow (hopen : Open s) : Tries (workflow cfg) s :=
  Tries.bind hopen gains_prepare fun _ _ hopen _ => tries_attemptsFrom _ _ _ hopen

/-! ### The end of a run -/

lemma safe_giveUp (e : Err) (hopen : Open s) :
    Safe env permitted (giveUp e) s fun _ _ => True := by
  refine ⟨trivial, fun _ t hstep => ?_⟩
  have hopen := hopen.later (step_keeps rfl hstep).1
  refine ⟨trivial, fun _ t hstep => ?_⟩
  have hopen := hopen.later (step_keeps rfl hstep).1
  refine ⟨hopen.1, fun r t hstep => ?_⟩
  cases r <;> refine ⟨trivial, fun r t hstep => ?_⟩ <;> cases r <;> trivial

lemma safe_runPod (hopen : Open s) : Safe env permitted (runPod cfg) s fun _ _ => True := by
  unfold runPod
  rw [safe_bind, safe_attempt]
  refine (tries_workflow hopen).safe.mono ?_
  rintro (e | c) t ht
  · exact safe_giveUp e (ht e rfl)
  · exact ⟨trivial, fun _ _ _ => trivial⟩

lemma gains_configure (input : PodInput) : Gains (configure input) s fun cfg _ =>
    validatePodTemplate input.lib input.template = .ok cfg.template := by
  refine Gains.valid fun checked t _ hchecked => ?_
  refine gains_now.bind fun _ t _ _ => ?_
  exact Gains.valid fun _ t _ _ => gains_pure (template_of_checkInput hchecked)

lemma safe_runEngineeringPod (input : PodInput) (hopen : Open s) :
    Safe env permitted (runEngineeringPod input) s fun _ _ => True := by
  refine Safe.bind ((gains_configure input).safe_open hopen) ?_ fun _ _ _ => trivial
  rintro cfg t ⟨hopen, -⟩
  exact safe_runPod hopen

/-- What is made public was gated, there is one candidate at most, and not in a run that was
recorded as failed. -/
structure Sound (s : World) : Prop where
  gated : ∀ r ∈ s.ready, Gated r.record r.attempt r.baseSha r.candidateSha
  once : s.ready.length ≤ 1
  apart : s.failed = true → s.ready = []

lemma Sound.of_eq {s t : World} (hready : t.ready = s.ready) (hfailed : t.failed = s.failed)
    (h : Sound s) : Sound t := by
  refine ⟨?_, ?_, ?_⟩
  · rw [hready]
    exact h.gated
  · rw [hready]
    exact h.once
  · rw [hready, hfailed]
    exact h.apart

lemma Sound.step {s t : World} {o : Call} {r : o.Ret} (hpre : permitted s o)
    (hstep : env.step s o r t) (h : Sound s) : Sound t := by
  obtain ⟨l, s', hsettles, -, -, rfl⟩ := hstep
  obtain ⟨hrecord, hready, hfailed⟩ := hsettles.keeps
  have h' := h.of_eq hready hfailed
  cases hkeeps : keeps o with
  | true =>
      obtain ⟨hready', hfailed'⟩ := effect_keeps (s := s') hkeeps r
      exact h'.of_eq hready' hfailed'
  | false =>
      revert r
      unfold keeps at hkeeps
      split at hkeeps
      · intro r
        exact Sound.of_eq (s := s') rfl rfl h'
      · rintro (e | ⟨⟩)
        · exact Sound.of_eq (s := s') rfl rfl h'
        · obtain ⟨hempty, hopen, hgated⟩ := hpre
          refine ⟨?_, ?_, ?_⟩
          · intro x hx
            rcases List.mem_cons.mp hx with rfl | hx
            · rw [← hrecord] at hgated
              exact hgated
            · exact h'.gated x hx
          · show (_ :: s'.ready).length ≤ 1
            rw [hready, hempty]
            rfl
          · intro hf
            have hf' : s'.failed = true := hf
            rw [hfailed, hopen] at hf'
            cases hf'
      · rintro (e | ⟨⟩)
        · exact Sound.of_eq (s := s') rfl rfl h'
        · exact ⟨h'.gated, h'.once, fun _ => hready.trans hpre⟩
      · cases hkeeps

/-- **The gate of publication.** In every run of the controller, whatever its agents, its source,
its verifier and its store answer and in whatever order its writers settle, a candidate is made
public only after, in that same attempt, each of the three slots had a commit that a checker has
passed with that base, result and digest, exactly these three were integrated into the candidate,
and both judges, the trusted verification and the scan have passed that very candidate. One
candidate at most is made public, and none in a run that is recorded as failed. -/
theorem publication_gate {input : PodInput} {p : Io String} {s : World}
    (h : Exec env (runEngineeringPod input) {} p s) :
    (∀ r ∈ s.ready, Gated r.record r.attempt r.baseSha r.candidateSha) ∧ s.ready.length ≤ 1 ∧
      ¬(s.ready ≠ [] ∧ s.failed = true) := by
  have hsafe := safe_runEngineeringPod (s := {}) input ⟨rfl, rfl⟩
  have hsound : Sound s :=
    Safe.inv (fun _ _ _ _ hpre hstep hJ => hJ.step hpre hstep) hsafe ⟨nofun, by simp, by simp⟩ h
  refine ⟨hsound.gated, hsound.once, ?_⟩
  rintro ⟨hready, hfailed⟩
  exact hready (hsound.apart hfailed)

lemma goodPorts_publish : ∃ p s, Exec env (runEngineeringPod podInput) {} p s ∧
    s.ready.length = 1 := by
  have hrun : (follow (fun s o _ => goodPorts.may s o = true) goodPorts.after goodPorts.reply 100
      (runEngineeringPod podInput) {}).any (·.2.ready.length == 1) = true := by
    delta runEngineeringPod runPod workflow attemptsFrom
    delta attemptsFrom._f attemptOnce makePlan runAttempt startWriters settleWriters checkAll gates
    delta startWriters._f writerInput settleWriters._f takeReceipt checkAll._f checkWriterResult
    delta conformance validateWriter validateWriterReceipt validateCheckerReceipt
      validateConformanceReceipt
    rw [buildPrompt_eq_quickPrompt, receiptFits_eq_quickFits]
    decide +kernel
  obtain ⟨⟨p, s⟩, hfollow, hready⟩ := (Option.any_eq_true _ _).mp hrun
  refine ⟨p, s, exec_of_follow (fun s o h => ?_) hfollow, by simpa using hready⟩
  exact Ports.step_reply h trivial

/-- A run whose candidate is made public. -/
theorem publication_gate_sample : ∃ p s, Exec env (runEngineeringPod podInput) {} p s ∧
    s.ready.length = 1 ∧ ∀ r ∈ s.ready, Gated r.record r.attempt r.baseSha r.candidateSha := by
  obtain ⟨p, s, hexec, hready⟩ := goodPorts_publish
  exact ⟨p, s, hexec, hready, (publication_gate hexec).1⟩

end Attempts

end Bimo.Controller
