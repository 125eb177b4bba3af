import Bimo.Contract
import Bimo.Finishing
import Bimo.JsonParse
import Bimo.Serial
import Mathlib.Data.List.DropRight

/-!
The inbox of a pod run as its callers see it.

The entries of an inbox are lines of a file, their numbers are counted in memory, and reading goes
through the file. Callers do not wait for each other: what they ask for is put on one promise, the
reader's requests too.
-/

namespace Bimo.PodStore

open Wire (Json text ofNat parseJson)
open Contract (natOf isBlank maxSafeInteger)
open Serial (Chain Reach Sequence)

/-! ### Reading -/

/-- `readFile(inboxPath)` -/
inductive Look
  | inbox (attempt : ℕ) (owner : String)

/-- The text of the file, nothing where there is none, or the error of the system. -/
abbrev Look.Ret (_ : Look) : Type := Except String (Option (List Char))

abbrev StoreRet : Call ⊕ Look → Type := Sum.elim Call.Ret Look.Ret

abbrev StoreIo (α : Type) := Prog (Call ⊕ Look) StoreRet String α

def lstat (p : Place) : StoreIo (Except Fault Stat) := Prog.ask (Sum.inl (Call.lstat p))

def readFile (attempt : ℕ) (owner : String) : StoreIo (Except String (Option (List Char))) :=
  Prog.ask (Sum.inr (Look.inbox attempt owner))

def cursor (after : ℤ) : Except String Unit :=
  require (0 ≤ after ∧ after ≤ maxSafeInteger) "afterSequence must be a non-negative safe integer"

def trimEnd (cs : List Char) : List Char := cs.rdropWhile isBlank

/-- `entry.sequence > afterSequence`, for the numbers that are written as naturals. -/
def isAfter (after : ℤ) (entry : Json) : Bool :=
  ((entry.get "sequence").bind natOf).any fun n => after < n

/-- The entries in the text of a file. -/
def entriesAfter (after : ℤ) (content : List Char) : Except String Json :=
  if content = [] then .ok (.arr [])
  else do
    let entries ← ((trimEnd content).splitOn '\n').mapM fun line =>
      (parseJson line).elim (.error "invalid JSON") Except.ok
    require (entries.all fun v => !isNull (some v)) "Cannot read properties of null"
    pure (.arr (entries.filter (isAfter after)))

def checkRead (attempt : ℕ) (owner : String) (after : ℤ) : Except String Unit := do
  attemptNumber attempt
  inboxOwner owner
  cursor after

def readInbox (m : Memory) (attempt : ℕ) (owner : String) (after : ℤ) : StoreIo Outcome :=
  match checkRead attempt owner after with
  | .error e => pure (.error e, m)
  | .ok () => do
    let r ← lstat (.plan attempt)
    match require (r.toOption.any (·.file)) s!"attempt {attempt} plan does not exist" with
    | .error e => pure (.error e, m)
    | .ok () =>
      match ← readFile attempt owner with
      | .error e => pure (.error e, m)
      | .ok content => pure (entriesAfter after (content.getD []), m)

/-- What a store is asked for. -/
inductive Request
  | change (op : Op)
  | readInbox (attempt : ℕ) (owner : String) (after : ℤ)

def Request.run (m : Memory) : Request → StoreIo Outcome
  | .change op => (op.run m).inl
  | .readInbox attempt owner after => PodStore.readInbox m attempt owner after

/-- An entry is a value as JavaScript holds it. -/
def Request.WellFormed : Request → Prop
  | .change (.enqueueInbox _ _ entry) => entry.WellFormed
  | _ => True

namespace Disk

/-- The file of an inbox. It is there once something is appended. -/
def inboxText (d : Disk) (attempt : ℕ) (owner : String) : Option (List Char) :=
  if (d.inbox attempt owner).isEmpty then none
  else some ((d.inbox attempt owner).flatMap fun v => text v ++ ['\n'])

/-- The answers where no file operation fails. The clock may show anything. -/
def smooth (d : Disk) : (c : Call) → c.Ret → Prop
  | .now, _ => True
  | .lstat p, r => r = d.answer 0 (.lstat p)
  | .readRun, r => r = d.answer 0 .readRun
  | .readEvents, r => r = d.answer 0 .readEvents
  | .write w, r => r = d.answer 0 (.write w)
  | .removeRun, r => r = d.answer 0 .removeRun

def smoothStore (d : Disk) : (c : Call ⊕ Look) → StoreRet c → Prop
  | .inl c, r => d.smooth c r
  | .inr (.inbox a o), r => r = .ok (d.inboxText a o)

def nextStore (d : Disk) : (c : Call ⊕ Look) → StoreRet c → Disk
  | .inl c, r => d.next c r
  | .inr _, _ => d

end Disk

def smoothEnv : Env (Call ⊕ Look) StoreRet Disk := .of Disk.smoothStore Disk.nextStore

abbrev StoreChain := Chain (Call ⊕ Look) StoreRet Request String Json Disk Memory

abbrev StoreDone := Serial.Done Request String Json Disk Memory

/-! ### What callers are told -/

/-- The entries of an inbox that were accepted. -/
def accepted (attempt : ℕ) (owner : String) (l : List StoreDone) : List Json :=
  l.filterMap fun x =>
    match x.request, x.result with
    | .change (.enqueueInbox a o _), .ok v => if a = attempt ∧ o = owner then some v else none
    | _, _ => none

/-- A plan of the attempt was accepted. -/
def planned (attempt : ℕ) (l : List StoreDone) : Bool :=
  l.any fun x =>
    match x.request, x.result with
    | .change (.writeAttemptPlan a _), .ok _ => a = attempt
    | _, _ => false

def reserved : List String :=
  ["version", "sequence", "timestamp", "runId", "attempt", "ownerSlot"]

/-- What is stored of an entry: its number, and its details as they were given. -/
structure Stored (runId : String) (attempt : ℕ) (owner : String) (entry v : Json) (n : ℕ) :
    Prop where
  object : entry.isObject = true ∧ v.isObject = true
  sequence : v.get "sequence" = some (ofNat n)
  runId_eq : v.get "runId" = some (.str runId)
  attempt_eq : v.get "attempt" = some (ofNat attempt)
  owner_eq : v.get "ownerSlot" = some (.str owner)
  details : ∀ key ∉ reserved, v.get key = entry.get key

/-- What an operation comes to behind others. -/
structure Exact (runId : String) (before : List StoreDone) (x : StoreDone) : Prop where
  /-- A rejected call changes neither files nor numbers. -/
  rejected : ∀ e, x.result = .error e → x.after = x.before
  stored : ∀ a o entry v, x.request = .change (.enqueueInbox a o entry) → x.result = .ok v →
    Stored runId a o entry v ((accepted a o before).length + 1)
  read : ∀ a o after v, x.request = .readInbox a o after → x.result = .ok v →
    v = .arr ((accepted a o before).drop after.toNat)
  readable : ∀ a o after, x.request = .readInbox a o after → checkRead a o after = .ok () →
    planned a before = true → x.result = .ok (.arr ((accepted a o before).drop after.toNat))

/-! ### What an operation leaves where no file operation fails -/

variable {m : Memory} {d : Disk}

def smoothCalls : Env Call Call.Ret Disk := .of Disk.smooth Disk.next

lemma can_of_smooth {c : Call} {r : c.Ret} (h : d.smooth c r) : d.can c r := by
  cases c with
  | now => trivial
  | lstat p =>
      obtain rfl : r = (d.stat p).elim (.error { message := "ENOENT" }) .ok := h
      intro s hs
      cases hstat : d.stat p with
      | none => rw [hstat] at hs; cases hs
      | some s' => rw [hstat] at hs; rw [Except.ok.inj hs]
  | readRun =>
      obtain rfl : r = (d.run.map (·.content)).elim (.error { message := "ENOENT" }) .ok := h
      intro v hv
      cases hrun : d.run.map (·.content) with
      | none => rw [hrun] at hv; cases hv
      | some v' => rw [hrun] at hv; rw [Except.ok.inj hv]
  | readEvents =>
      obtain rfl : r = (d.events.map (·.content)).elim (.error { message := "ENOENT" }) .ok := h
      intro v hv
      cases hevents : d.events.map (·.content) with
      | none => rw [hevents] at hv; cases hv
      | some v' => rw [hevents] at hv; rw [Except.ok.inj hv]
  | write w =>
      obtain rfl : r = if d.there w then .error { eexist := true, message := "EEXIST" }
        else .ok () := h
      intro hw
      have hw : (if d.there w then (.error { eexist := true, message := "EEXIST" } :
        Except Fault Unit) else .ok ()) = .ok () := hw
      refine Bool.eq_false_iff.mpr fun hthere => ?_
      rw [if_pos hthere] at hw
      cases hw
  | removeRun => trivial

lemma env_of_smooth : ∀ s o r t, smoothCalls.step s o r t → env.step s o r t :=
  fun _ _ _ _ h => ⟨can_of_smooth h.1, h.2⟩

section Rules

variable {α : Type} {Q : Except String Outcome → Disk → Prop}

lemma Safe.performed {w : Write} {k : Io Outcome} (hnew : d.there w = false)
    (hok : Safe smoothCalls (fun _ _ => True) k (d.apply w) Q) :
    Safe smoothCalls (fun _ _ => True) (PodStore.perform m w k) d Q := by
  refine Safe.perform env_of_smooth trivial (fun e he => ?_) hok
  obtain ⟨he, -⟩ := he
  have he : Except.error e = if d.there w then .error { eexist := true, message := "EEXIST" }
    else Except.ok () := he
  rw [hnew] at he
  cases he

lemma Safe.planFound {a : ℕ} {k : Io Outcome} (herr : ∀ e, Q (.ok (.error e, m)) d)
    (hok : (d.plans a).isSome = true → Safe smoothCalls (fun _ _ => True) k d Q) :
    Safe smoothCalls (fun _ _ => True) (PodStore.planThere m a k) d Q := by
  refine ⟨trivial, fun r t hr => ?_⟩
  rw [show t = d from hr.2]
  obtain rfl : r = (d.stat (.plan a)).elim (.error { message := "ENOENT" }) .ok := hr.1
  refine Safe.check (fun e _ => herr e) fun _ hfound => hok ?_
  have hfound := require_eq.mp hfound
  cases hplan : d.plans a with
  | none =>
      rw [show d.stat (.plan a) = none by simp [Disk.stat, hplan]] at hfound
      cases hfound
  | some v => rfl

end Rules

def Op.queues : Op → Bool
  | .enqueueInbox _ _ _ => true
  | _ => false

def Op.plans : Op → Bool
  | .writeAttemptPlan _ _ => true
  | _ => false

/-- What an operation changes of inboxes, their numbers and the plans. -/
inductive Effect (m : Memory) (d : Disk) : Op → Outcome → Disk → Prop
  | rejected {op : Op} (e : String) : Effect m d op (.error e, m) d
  | queued {a : ℕ} {o : String} {l : Fields} {t : String} {v : Json} {m' : Memory}
      (hv : v = .obj (inboxEntry l (m.inboxSequences a o + 1) t m.runId a o))
      (hid : m'.runId = m.runId)
      (hcount : ∀ b p, m'.inboxSequences b p =
        if b = a ∧ p = o then m.inboxSequences a o + 1 else m.inboxSequences b p) :
      Effect m d (.enqueueInbox a o (.obj l)) (.ok v, m') (d.apply (.appendInbox a o v))
  | planned {a : ℕ} {plan v : Json} {m' : Memory} {d' : Disk} (hid : m'.runId = m.runId)
      (hcount : m'.inboxSequences = m.inboxSequences) (hinbox : d'.inbox = d.inbox)
      (hplans : ∀ b, (d'.plans b).isSome = (decide (b = a) || (d.plans b).isSome)) :
      Effect m d (.writeAttemptPlan a plan) (.ok v, m') d'
  | other {op : Op} {v : Json} {m' : Memory} {d' : Disk}
      (hop : op.queues = false ∧ op.plans = false) (hid : m'.runId = m.runId)
      (hcount : m'.inboxSequences = m.inboxSequences)
      (hinbox : d'.inbox = d.inbox) (hplans : d'.plans = d.plans) : Effect m d op (.ok v, m') d'

/-- `Safe` for what an operation leaves. -/
def Leaves (m : Memory) (d : Disk) (op : Op) (p : Io Outcome) (d' : Disk) : Prop :=
  Safe smoothCalls (fun _ _ => True) p d' fun r d'' => ∃ o, r = .ok o ∧ Effect m d op o d''

lemma leaves_rejected {op : Op} (e : String) : ∃ o : Outcome,
    Except.ok (.error e, m) = (.ok o : Except String Outcome) ∧ Effect m d op o d :=
  ⟨_, rfl, .rejected e⟩

lemma leaves_appendEvent (type : String) (details : Json) :
    Leaves m d (.appendEvent type details) (appendEvent m type details) d := by
  refine Safe.check (fun e _ => leaves_rejected e) fun l _ => ?_
  refine Safe.clock env_of_smooth trivial fun now => ?_
  refine Safe.check (fun e _ => leaves_rejected e) fun t _ => ?_
  refine Safe.check (fun e _ => leaves_rejected e) fun record _ => ?_
  exact Safe.performed rfl ⟨_, rfl, .other ⟨rfl, rfl⟩ rfl rfl rfl rfl⟩

lemma leaves_writeAttemptPlan (a : ℕ) (plan : Json) :
    Leaves m d (.writeAttemptPlan a plan) (writeAttemptPlan m a plan) d := by
  refine Safe.check (fun e _ => leaves_rejected e) fun _ _ => ?_
  refine Safe.check (fun e _ => leaves_rejected e) fun record _ => ?_
  refine Safe.check (fun e _ => leaves_rejected e) fun next _ => ?_
  refine Safe.performed rfl ⟨trivial, fun r t hr => ?_⟩
  obtain ⟨-, rfl⟩ := hr
  cases r with
  | error e => exact leaves_rejected _
  | ok u =>
      refine Safe.performed rfl ⟨_, rfl, .planned rfl rfl rfl fun b => ?_⟩
      by_cases hb : b = a <;> simp [Disk.apply, Disk.next, hb]

lemma leaves_writeWorkResult (a : ℕ) (result : Json) :
    Leaves m d (.writeWorkResult a result) (writeWorkResult m a result) d := by
  refine Safe.check (fun e _ => leaves_rejected e) fun _ _ => ?_
  refine Safe.planFound (fun e => leaves_rejected e) fun _ => ?_
  refine Safe.check (fun e _ => leaves_rejected e) fun _ _ => ?_
  refine Safe.check (fun e _ => leaves_rejected e) fun record _ => ?_
  exact Safe.performed rfl ⟨_, rfl, .other ⟨rfl, rfl⟩ rfl rfl rfl rfl⟩

lemma leaves_writeGateReceipt (a : ℕ) (receipt : Json) :
    Leaves m d (.writeGateReceipt a receipt) (writeGateReceipt m a receipt) d := by
  refine Safe.check (fun e _ => leaves_rejected e) fun _ _ => ?_
  refine Safe.planFound (fun e => leaves_rejected e) fun _ => ?_
  refine Safe.check (fun e _ => leaves_rejected e) fun _ _ => ?_
  refine Safe.check (fun e _ => leaves_rejected e) fun record _ => ?_
  exact Safe.performed rfl ⟨_, rfl, .other ⟨rfl, rfl⟩ rfl rfl rfl rfl⟩

lemma leaves_enqueueInbox (a : ℕ) (owner : String) (entry : Json) :
    Leaves m d (.enqueueInbox a owner entry) (enqueueInbox m a owner entry) d := by
  refine Safe.check (fun e _ => leaves_rejected e) fun l hl => ?_
  obtain ⟨_, -, hl⟩ := bind_eq_ok.mp hl
  obtain ⟨_, -, hl⟩ := bind_eq_ok.mp hl
  obtain ⟨_, -, hl⟩ := bind_eq_ok.mp hl
  obtain rfl := plainObject_eq hl
  refine Safe.planFound (fun e => leaves_rejected e) fun _ => ?_
  refine Safe.check (fun e _ => leaves_rejected e) fun _ _ => ?_
  refine Safe.clock env_of_smooth trivial fun now => ?_
  refine Safe.check (fun e _ => leaves_rejected e) fun t _ => ?_
  refine Safe.check (fun e _ => leaves_rejected e) fun record hrec => ?_
  obtain rfl := serializeRecord_eq hrec
  refine Safe.performed rfl ?_
  exact Safe.performed rfl ⟨_, rfl, .queued rfl rfl fun _ _ => rfl⟩

lemma leaves_finish (status : String) (details : Json) :
    Leaves m d (.finish status details) (finish m status details) d := by
  refine Safe.check (fun e _ => leaves_rejected e) fun l _ => ?_
  refine Safe.clock env_of_smooth trivial fun now => ?_
  refine Safe.check (fun e _ => leaves_rejected e) fun t _ => ?_
  refine Safe.check (fun e _ => leaves_rejected e) fun record _ => ?_
  refine Safe.check (fun e _ => leaves_rejected e) fun event _ => ?_
  refine Safe.performed rfl ?_
  exact Safe.performed rfl ⟨_, rfl, .other ⟨rfl, rfl⟩ rfl rfl rfl rfl⟩

lemma leaves (op : Op) : Leaves m d op (op.run m) d := by
  cases op with
  | appendEvent type details => exact leaves_appendEvent type details
  | writeAttemptPlan a plan => exact leaves_writeAttemptPlan a plan
  | writeWorkResult a result => exact leaves_writeWorkResult a result
  | writeGateReceipt a receipt => exact leaves_writeGateReceipt a receipt
  | enqueueInbox a owner entry => exact leaves_enqueueInbox a owner entry
  | finish status details => exact leaves_finish status details

/-! ### What is read back -/

/-- The entries are numbered from the one behind `k` on. -/
def Numbered (k : ℕ) : List Json → Prop
  | [] => True
  | v :: l => v.get "sequence" = some (ofNat (k + 1)) ∧ Numbered (k + 1) l

lemma numbered_snoc {k : ℕ} {l : List Json} {v : Json} (h : Numbered k l)
    (hv : v.get "sequence" = some (ofNat (k + l.length + 1))) : Numbered k (l ++ [v]) := by
  induction l generalizing k with
  | nil => exact ⟨hv, trivial⟩
  | cons w l ih =>
      refine ⟨h.1, ih h.2 ?_⟩
      rw [hv, List.length_cons, show k + (l.length + 1) + 1 = k + 1 + l.length + 1 by omega]

/-- The entries behind a number are those that are left when as many are dropped. -/
lemma filter_isAfter {k : ℕ} {l : List Json} {after : ℤ} (hafter : 0 ≤ after)
    (h : Numbered k l) : l.filter (isAfter after) = l.drop (after.toNat - k) := by
  induction l generalizing k with
  | nil => simp
  | cons v l ih =>
      have hv : isAfter after v = decide (after.toNat < k + 1) := by
        simp only [isAfter, h.1, Option.bind_some, Contract.natOf_ofNat]
        exact decide_eq_decide.mpr (by omega)
      by_cases hk : after.toNat < k + 1
      · have hrest := ih h.2
        rw [Nat.sub_eq_zero_of_le (by omega), List.drop_zero] at hrest
        rw [List.filter_cons_of_pos (by simpa [hv] using hk), hrest,
          Nat.sub_eq_zero_of_le (by omega), List.drop_zero]
      · rw [List.filter_cons_of_neg (by simpa [hv] using hk), ih h.2,
          show after.toNat - k = (after.toNat - (k + 1)) + 1 by omega, List.drop_succ_cons]

/-- The text of a file without the newline of its last line. -/
lemma lines_eq {l : List Json} (h : l ≠ []) :
    (l.flatMap fun v => text v ++ ['\n']) = ['\n'].intercalate (l.map text) ++ ['\n'] := by
  induction l with
  | nil => exact absurd rfl h
  | cons v l ih =>
      cases l with
      | nil => simp
      | cons w l => simp [ih (List.cons_ne_nil w l), List.intercalate_cons_cons]

/-- The last line ends with the brace of an object. -/
lemma lines_end {l : List Json} (h : l ≠ []) (hobj : ∀ v ∈ l, v.isObject = true) :
    ∃ cs, ['\n'].intercalate (l.map text) = cs ++ ['}'] := by
  induction l with
  | nil => exact absurd rfl h
  | cons v l ih =>
      obtain ⟨hv, hl⟩ := List.forall_mem_cons.mp hobj
      cases l with
      | nil =>
          cases v with
          | obj f => exact ⟨'{' :: Wire.textFields f, by simp [text]⟩
          | _ => cases hv
      | cons w l =>
          obtain ⟨cs, hcs⟩ := ih (List.cons_ne_nil w l) hl
          refine ⟨text v ++ '\n' :: cs, ?_⟩
          simp only [List.map_cons, List.intercalate_cons_cons] at hcs ⊢
          simp [hcs]

lemma mapM_parseJson {l : List Json} (h : ∀ v ∈ l, v.WellFormed) :
    ((l.map text).mapM fun line => (parseJson line).elim (.error "invalid JSON") Except.ok) =
      .ok l := by
  induction l with
  | nil => rfl
  | cons v l ih =>
      obtain ⟨hv, hl⟩ := List.forall_mem_cons.mp h
      rw [List.map_cons, List.mapM_cons, Wire.parseJson_text hv, ih hl]
      rfl

/-- **What is appended is read.** The entries of a file behind a number. -/
lemma entriesAfter_lines {l : List Json} {after : ℤ} (hafter : 0 ≤ after) (hl : l ≠ [])
    (hwf : ∀ v ∈ l, v.WellFormed ∧ v.isObject = true) (hnum : Numbered 0 l) :
    entriesAfter after (l.flatMap fun v => text v ++ ['\n']) =
      .ok (.arr (l.drop after.toNat)) := by
  have hne : ['\n'].intercalate (l.map text) ++ ['\n'] ≠ [] := by simp
  have htrim : trimEnd (['\n'].intercalate (l.map text) ++ ['\n']) =
      ['\n'].intercalate (l.map text) := by
    obtain ⟨cs, hcs⟩ := lines_end hl fun v hv => (hwf v hv).2
    rw [trimEnd, List.rdropWhile_concat_pos _ _ _ (by decide), hcs,
      List.rdropWhile_concat_neg _ _ _ (by decide)]
  have hsplit : (['\n'].intercalate (l.map text)).splitOn '\n' = l.map text := by
    refine List.splitOn_intercalate '\n' ?_ (by simpa using hl)
    intro line hline
    obtain ⟨v, hv, rfl⟩ := List.mem_map.mp hline
    exact Wire.newline_not_mem_text (hwf v hv).1
  have hnull : (l.all fun v => !isNull (some v)) = true := by
    refine List.all_eq_true.mpr fun v hv => ?_
    have hobj := (hwf v hv).2
    cases v with
    | obj f => rfl
    | _ => cases hobj
  rw [lines_eq hl, entriesAfter, if_neg hne, htrim, hsplit,
    mapM_parseJson fun v hv => (hwf v hv).1]
  have hfilter := filter_isAfter hafter hnum
  rw [Nat.sub_zero] at hfilter
  simp only [bind, Except.bind, require_eq.mpr hnull, hfilter]
  rfl

/-! ### What is stored -/

lemma nodup_put {key : String} {v : Json} {l : Fields} (h : (l.map (·.1)).Nodup) :
    ((put key v l).map (·.1)).Nodup ∧ ∀ k ∈ (put key v l).map (·.1), k = key ∨ k ∈ l.map (·.1) := by
  induction l with
  | nil => simp [put]
  | cons p l ih =>
      obtain ⟨k, x⟩ := p
      obtain ⟨hk, hl⟩ := List.nodup_cons.mp h
      obtain ⟨hnodup, hmem⟩ := ih hl
      unfold put
      split_ifs with heq
      · exact ⟨h, fun k' hk' => .inr hk'⟩
      · refine ⟨List.nodup_cons.mpr ⟨fun hput => ?_, hnodup⟩, fun k' hk' => ?_⟩
        · exact (hmem k hput).elim heq hk
        · rcases List.mem_cons.mp hk' with rfl | hk'
          · exact .inr List.mem_cons_self
          · exact (hmem k' hk').imp_right (List.mem_cons_of_mem _)

lemma wellFormed_put {key : String} {v : Json} {l : Fields} (hv : v.WellFormed)
    (h : (Json.obj l).WellFormed) : (Json.obj (put key v l)).WellFormed := by
  refine ⟨(nodup_put h.1).1, ?_⟩
  have hl : Wire.wellFormedFields l := h.2
  clear h
  induction l with
  | nil => exact ⟨hv, trivial⟩
  | cons p l ih =>
      obtain ⟨k, x⟩ := p
      unfold put
      split_ifs
      · exact ⟨hv, hl.2⟩
      · exact ⟨hl.1, ih hl.2⟩

lemma wellFormed_spread {l l' : Fields} (h : (Json.obj l).WellFormed)
    (h' : ∀ p ∈ l', p.2.WellFormed) : (Json.obj (spread l l')).WellFormed := by
  induction l' generalizing l with
  | nil => exact h
  | cons p l' ih =>
      obtain ⟨hp, hl'⟩ := List.forall_mem_cons.mp h'
      exact ih (wellFormed_put hp h) hl'

section Entries

variable {l : Fields} {n a : ℕ} {t runId o : String}

lemma wellFormed_inboxEntry (h : (Json.obj l).WellFormed) :
    (Json.obj (inboxEntry l n t runId a o)).WellFormed := by
  refine wellFormed_spread h ?_
  simp only [List.mem_cons, List.not_mem_nil, or_false, forall_eq_or_imp, forall_eq]
  exact ⟨Wire.wellFormed_ofNat 1, Wire.wellFormed_ofNat n, trivial, trivial,
    Wire.wellFormed_ofNat a, trivial⟩

lemma stored_inboxEntry :
    Stored runId a o (.obj l) (.obj (inboxEntry l n t runId a o)) n where
  object := ⟨rfl, rfl⟩
  sequence := by simp [Json.get, inboxEntry]
  runId_eq := by simp [Json.get, inboxEntry]
  attempt_eq := by simp [Json.get, inboxEntry]
  owner_eq := by simp [Json.get, inboxEntry]
  details key hkey := by
    simp only [reserved, List.mem_cons, List.not_mem_nil, or_false, not_or] at hkey
    simp [Json.get, inboxEntry, hkey]

end Entries

/-! ### What is kept -/

section Snoc

variable {l : List StoreDone} {x : StoreDone} {a : ℕ} {o : String}

@[simp] lemma accepted_nil : accepted a o [] = [] := rfl

lemma accepted_append (l l' : List StoreDone) :
    accepted a o (l ++ l') = accepted a o l ++ accepted a o l' := List.filterMap_append

lemma accepted_error {e : String} (h : x.result = .error e) : accepted a o [x] = [] := by
  obtain ⟨r, result, s, s'⟩ := x
  obtain rfl : result = .error e := h
  rcases r with (_ | _ | _ | _ | _ | _) | _ <;> rfl

lemma accepted_aside {op : Op} (hx : x.request = .change op)
    (hop : op.queues = false) : accepted a o [x] = [] := by
  obtain ⟨r, result, s, s'⟩ := x
  obtain rfl : r = .change op := hx
  cases op with
  | enqueueInbox b p v => cases hop
  | _ => rfl

lemma planned_append (l l' : List StoreDone) :
    planned a (l ++ l') = (planned a l || planned a l') := List.any_append

lemma planned_error {e : String} (h : x.result = .error e) : planned a [x] = false := by
  obtain ⟨r, result, s, s'⟩ := x
  obtain rfl : result = .error e := h
  rcases r with (_ | _ | _ | _ | _ | _) | _ <;> rfl

lemma planned_aside {op : Op} (hx : x.request = .change op)
    (hop : op.plans = false) : planned a [x] = false := by
  obtain ⟨r, result, s, s'⟩ := x
  obtain rfl : r = .change op := hx
  cases op with
  | writeAttemptPlan b v => cases hop
  | _ => rfl

end Snoc

/-- The disk and the memory show what was accepted. -/
structure Kept (runId : String) (l : List StoreDone) (s : Disk × Memory) : Prop where
  runId_eq : s.2.runId = runId
  entries : ∀ a o, s.1.inbox a o = accepted a o l
  count : ∀ a o, s.2.inboxSequences a o = (accepted a o l).length
  plans : ∀ a, (s.1.plans a).isSome = planned a l
  objects : ∀ a o, ∀ v ∈ accepted a o l, v.WellFormed ∧ v.isObject = true
  numbered : ∀ a o, Numbered 0 (accepted a o l)
  exact' : ∀ before x behind, l = before ++ x :: behind → Exact runId before x

section Kept

variable {runId : String} {l : List StoreDone} {s : Disk × Memory}

lemma forall_split_snoc {P : List StoreDone → StoreDone → Prop} {y : StoreDone}
    (h : ∀ before x behind, l = before ++ x :: behind → P before x) (hy : P l y) :
    ∀ before x behind, l ++ [y] = before ++ x :: behind → P before x := by
  intro before x behind heq
  rcases List.eq_nil_or_concat behind with rfl | ⟨rest, z, rfl⟩
  · obtain ⟨rfl, hxy⟩ := List.append_inj' heq rfl
    rw [← (List.cons.inj hxy).1]
    exact hy
  · rw [List.concat_eq_append, ← List.cons_append, ← List.append_assoc] at heq
    exact h before x rest (List.append_inj' heq rfl).1

/-- An operation that adds no entry and no plan. -/
lemma kept_aside {y : StoreDone} (h : Kept runId l s) (hid : y.after.2.runId = s.2.runId)
    (hcount : y.after.2.inboxSequences = s.2.inboxSequences)
    (hinbox : y.after.1.inbox = s.1.inbox) (hplans : y.after.1.plans = s.1.plans)
    (hnone : ∀ a o, accepted a o [y] = []) (hplanned : ∀ a, planned a [y] = false)
    (hexact : Exact runId l y) : Kept runId (l ++ [y]) y.after where
  runId_eq := hid.trans h.runId_eq
  entries a o := by rw [hinbox, h.entries, accepted_append, hnone, List.append_nil]
  count a o := by rw [hcount, h.count, accepted_append, hnone, List.append_nil]
  plans a := by rw [hplans, h.plans, planned_append, hplanned, Bool.or_false]
  objects a o := by rw [accepted_append, hnone, List.append_nil]; exact h.objects a o
  numbered a o := by rw [accepted_append, hnone, List.append_nil]; exact h.numbered a o
  exact' := forall_split_snoc h.exact' hexact

/-- What is said of an operation that is no request to read. -/
lemma exact_change {op : Op} {result : Except String Json} {s' : Disk × Memory}
    (hrejected : ∀ e, result = .error e → s' = s)
    (hstored : ∀ a o entry v, op = .enqueueInbox a o entry → result = .ok v →
      Stored runId a o entry v ((accepted a o l).length + 1)) :
    Exact runId l ⟨.change op, result, s, s'⟩ where
  rejected := hrejected
  stored a o entry v hr hv := hstored a o entry v (Request.change.inj hr) hv
  read _ _ _ _ hr := nomatch hr
  readable _ _ _ hr := nomatch hr

lemma kept_rejected {op : Op} {e : String} (h : Kept runId l s) :
    Kept runId (l ++ [⟨.change op, .error e, s, s⟩]) s :=
  kept_aside (y := ⟨.change op, .error e, s, s⟩) h rfl rfl rfl rfl (fun _ _ => accepted_error rfl)
    (fun _ => planned_error rfl) (exact_change (fun _ _ => rfl) fun _ _ _ _ _ hv => nomatch hv)

/-- An entry goes behind those that are there, with the next number. -/
lemma kept_queued {a : ℕ} {o t : String} {f : Fields} {m' : Memory} (h : Kept runId l s)
    (hf : (Json.obj f).WellFormed) (hid : m'.runId = s.2.runId)
    (hcount : ∀ b p, m'.inboxSequences b p =
      if b = a ∧ p = o then s.2.inboxSequences a o + 1 else s.2.inboxSequences b p) :
    let v := Json.obj (inboxEntry f (s.2.inboxSequences a o + 1) t s.2.runId a o)
    let s' := (s.1.apply (.appendInbox a o v), m')
    Kept runId (l ++ [⟨.change (.enqueueInbox a o (.obj f)), .ok v, s, s'⟩]) s' := by
  intro v s'
  have hstored : Stored runId a o (.obj f) v ((accepted a o l).length + 1) := by
    rw [← h.runId_eq, ← h.count a o]
    exact stored_inboxEntry
  have hnew : ∀ b p, accepted b p [(⟨.change (.enqueueInbox a o (.obj f)), .ok v, s, s'⟩ :
      StoreDone)] = if b = a ∧ p = o then [v] else [] := by
    intro b p
    by_cases hb : a = b ∧ o = p
    · rw [if_pos ⟨hb.1.symm, hb.2.symm⟩]
      simp [accepted, hb]
    · rw [if_neg fun h => hb ⟨h.1.symm, h.2.symm⟩]
      simp [accepted, hb]
  refine ⟨hid.trans h.runId_eq, fun b p => ?_, fun b p => ?_, fun b => ?_, fun b p => ?_,
    fun b p => ?_, forall_split_snoc h.exact' (exact_change nofun ?_)⟩
  · rw [accepted_append, hnew]
    show (if b = a ∧ p = o then s.1.inbox a o ++ [v] else s.1.inbox b p) = _
    split_ifs with hb
    · rw [hb.1, hb.2, h.entries]
    · rw [h.entries, List.append_nil]
  · rw [accepted_append, hnew, hcount]
    split_ifs with hb
    · rw [hb.1, hb.2, h.count, List.length_append, List.length_singleton]
    · rw [h.count, List.append_nil]
  · rw [planned_append, planned_aside rfl rfl, Bool.or_false, ← h.plans b]
    rfl
  · rw [accepted_append, hnew]
    split_ifs
    · exact List.forall_mem_append.mpr ⟨h.objects b p,
        List.forall_mem_singleton.mpr ⟨wellFormed_inboxEntry hf, rfl⟩⟩
    · rw [List.append_nil]
      exact h.objects b p
  · rw [accepted_append, hnew]
    split_ifs with hb
    · rw [hb.1, hb.2]
      refine numbered_snoc (h.numbered a o) ?_
      rw [Nat.zero_add]
      exact hstored.sequence
    · rw [List.append_nil]
      exact h.numbered b p
  · intro b p entry w hr hw
    obtain ⟨rfl, rfl, rfl⟩ := Op.enqueueInbox.inj hr
    obtain rfl := Except.ok.inj hw
    exact hstored

lemma kept_planned {a : ℕ} {plan v : Json} {m' : Memory} {d' : Disk} (h : Kept runId l s)
    (hid : m'.runId = s.2.runId) (hcount : m'.inboxSequences = s.2.inboxSequences)
    (hinbox : d'.inbox = s.1.inbox)
    (hplans : ∀ b, (d'.plans b).isSome = (decide (b = a) || (s.1.plans b).isSome)) :
    Kept runId (l ++ [⟨.change (.writeAttemptPlan a plan), .ok v, s, (d', m')⟩]) (d', m') where
  runId_eq := hid.trans h.runId_eq
  entries b p := by
    rw [accepted_append, accepted_aside rfl rfl, List.append_nil, ← h.entries]
    exact congrFun (congrFun hinbox b) p
  count b p := by
    rw [accepted_append, accepted_aside rfl rfl, List.append_nil, ← h.count]
    exact congrFun (congrFun hcount b) p
  plans b := by
    rw [planned_append, hplans, h.plans, Bool.or_comm]
    simp [planned, eq_comm]
  objects b p := by
    rw [accepted_append, accepted_aside rfl rfl, List.append_nil]
    exact h.objects b p
  numbered b p := by
    rw [accepted_append, accepted_aside rfl rfl, List.append_nil]
    exact h.numbered b p
  exact' := forall_split_snoc h.exact' (exact_change nofun fun _ _ _ _ hr => Op.noConfusion hr)

/-- What an operation keeps. -/
lemma kept_change {op : Op} {out : Outcome} {d' : Disk} (h : Kept runId l s)
    (hop : (Request.change op).WellFormed) (he : Effect s.2 s.1 op out d') :
    Kept runId (l ++ [⟨.change op, out.1, s, (d', out.2)⟩]) (d', out.2) := by
  cases he with
  | rejected e => exact kept_rejected h
  | queued hv hid hcount =>
      subst hv
      exact kept_queued h hop hid hcount
  | planned hid hcount hinbox hplans => exact kept_planned h hid hcount hinbox hplans
  | other hop hid hcount hinbox hplans =>
      refine kept_aside (y := ⟨.change op, .ok _, s, (d', _)⟩) h hid hcount hinbox hplans
        (fun _ _ => accepted_aside rfl hop.1) (fun _ => planned_aside rfl hop.2)
        (exact_change nofun ?_)
      rintro a o entry v rfl
      cases hop.1

/-! ### What a request to read comes to -/

lemma checkRead_eq {a : ℕ} {o : String} {after : ℤ} (h : checkRead a o after = .ok ()) :
    0 ≤ after := by
  obtain ⟨_, -, h⟩ := bind_eq_ok.mp h
  obtain ⟨_, -, h⟩ := bind_eq_ok.mp h
  exact (require_eq.mp h).1

/-- What is in the file is what was accepted. -/
lemma entriesAfter_kept (h : Kept runId l s) {a : ℕ} {o : String} {after : ℤ} (hafter : 0 ≤ after) :
    entriesAfter after ((s.1.inboxText a o).getD []) =
      .ok (.arr ((accepted a o l).drop after.toNat)) := by
  unfold Disk.inboxText
  rw [h.entries]
  cases hl : accepted a o l with
  | nil => simp [entriesAfter]
  | cons v rest =>
      have hlines := entriesAfter_lines (l := v :: rest) hafter (List.cons_ne_nil _ _)
        (hl ▸ h.objects a o) (hl ▸ h.numbered a o)
      simpa using hlines

lemma kept_read {a : ℕ} {o : String} {after : ℤ} {result : Except String Json}
    (h : Kept runId l s)
    (hread : ∀ v, result = .ok v → v = .arr ((accepted a o l).drop after.toNat))
    (hreadable : checkRead a o after = .ok () → (s.1.plans a).isSome = true →
      result = .ok (.arr ((accepted a o l).drop after.toNat))) :
    Kept runId (l ++ [⟨.readInbox a o after, result, s, s⟩]) s := by
  refine kept_aside (y := ⟨.readInbox a o after, result, s, s⟩) h rfl rfl rfl rfl
    (fun _ _ => by cases result <;> rfl) (fun _ => by cases result <;> rfl)
    ⟨fun _ _ => rfl, fun _ _ _ _ hr => Request.noConfusion hr, ?_, ?_⟩
  · intro b p c v hr hv
    obtain ⟨rfl, rfl, rfl⟩ := Request.readInbox.inj hr
    exact hread v hv
  · intro b p c hr hcheck hplan
    obtain ⟨rfl, rfl, rfl⟩ := Request.readInbox.inj hr
    exact hreadable hcheck ((h.plans a).trans hplan)

lemma kept_readInbox (h : Kept runId l s) (a : ℕ) (o : String) (after : ℤ) :
    Safe smoothEnv (fun _ _ => True) (readInbox s.2 a o after) s.1 fun y w =>
      Kept runId
        (l ++ [⟨.readInbox a o after, (Serial.outcome s.2 y).1, s, (w, (Serial.outcome s.2 y).2)⟩])
        (w, (Serial.outcome s.2 y).2) := by
  unfold readInbox
  cases hcheck : checkRead a o after with
  | error e => exact kept_read h (by rintro _ ⟨⟩) fun hok => by cases hcheck.symm.trans hok
  | ok u =>
      refine ⟨trivial, fun r t hr => ?_⟩
      rw [show t = s.1 from hr.2]
      obtain rfl : r = (s.1.stat (.plan a)).elim (.error { message := "ENOENT" }) .ok := hr.1
      cases hplan : s.1.plans a with
      | none =>
          rw [show s.1.stat (.plan a) = none by simp [Disk.stat, hplan]]
          exact kept_read h (by rintro _ ⟨⟩) fun _ hsome => by rw [hplan] at hsome; cases hsome
      | some v =>
          rw [show s.1.stat (.plan a) = some ⟨false, true, 0o600, prettySize v⟩ by
            simp [Disk.stat, hplan]]
          refine ⟨trivial, fun content t hcontent => ?_⟩
          rw [show t = s.1 from hcontent.2]
          obtain rfl : content = .ok (s.1.inboxText a o) := hcontent.1
          have hentries := entriesAfter_kept (a := a) (o := o) h (checkRead_eq hcheck)
          refine kept_read h (fun v hv => ?_) fun _ _ => hentries
          exact Except.ok.inj (hv.symm.trans hentries)

/-- What any request keeps. -/
lemma kept_step {r : Request} (hr : r.WellFormed) (h : Kept runId l s) :
    Safe smoothEnv (fun _ _ => True) (r.run s.2) s.1 fun y w =>
      Kept runId (l ++ [⟨r, (Serial.outcome s.2 y).1, s, (w, (Serial.outcome s.2 y).2)⟩])
        (w, (Serial.outcome s.2 y).2) := by
  cases r with
  | change op =>
      refine (safe_inl_of _ _ _).mpr ((leaves op).mono fun y w hy => ?_)
      obtain ⟨out, rfl, he⟩ := hy
      exact kept_change h hr he
  | readInbox a o after => exact kept_readInbox h a o after

end Kept

/-! ### A run from its making on -/

/-- Nothing is in a directory that is not there. -/
def Disk.Nested (d : Disk) : Prop :=
  d.runDir = none → (∀ a, d.plans a = none) ∧ ∀ a o, d.inbox a o = []

lemma kept_new {runId : String} {assignment : Json} {d₀ : Disk} (hd : d₀.Nested)
    (hx : Exec env (createPodRunStore runId assignment) d₀ (.ret m) d) : Kept runId [] (d, m) := by
  have hsafe : Safe env (fun _ _ => True) (createPodRunStore runId assignment) d₀
      fun r d => ∀ m, r = .ok m → d₀.runDir = none ∧ d.plans = d₀.plans ∧ d.inbox = d₀.inbox ∧
        m.runId = runId ∧ m.inboxSequences = fun _ _ => 0 := by
    refine Safe.raise (fun e => nofun) fun _ _ => ?_
    refine Safe.raise (fun e => nofun) fun l _ => ?_
    refine ⟨trivial, fun now d' hnow => ?_⟩
    rw [show d' = d₀ from hnow.2]
    refine Safe.raise (fun e => nofun) fun t _ => ?_
    refine Safe.raise (fun e => nofun) fun _ _ => ?_
    refine Safe.raise (fun e => nofun) fun record _ => ?_
    refine Safe.making (fun e => nofun) fun _ => ?_
    refine ⟨trivial, fun r _ hr => ?_⟩
    obtain ⟨-, rfl⟩ := hr
    refine Safe.raise (fun e => nofun) fun s _ => ?_
    refine Safe.raise (fun e => nofun) fun _ _ => ?_
    refine ⟨trivial, fun r' _ hr' => ?_⟩
    obtain ⟨hr', rfl⟩ := hr'
    refine Safe.raise (fun e => nofun) fun _ hmk => ?_
    cases r' with
    | error e => cases hmk
    | ok u =>
        have hthere : d₀.runDir.isSome = false := hr' rfl
        refine Safe.makingIn (fun e d => nofun) ?_
        refine Safe.makingIn (fun e d => nofun) ?_
        intro m hm
        obtain rfl := Except.ok.inj hm
        exact ⟨Option.isNone_iff_eq_none.mp (by simpa using hthere), rfl, rfl, rfl, rfl⟩
  obtain ⟨hnone, hplans, hinbox, hid, hcount⟩ := hsafe.exec hx m rfl
  obtain ⟨hnoplans, hnoinbox⟩ := hd hnone
  refine ⟨hid, fun a o => ?_, fun a o => ?_, fun a => ?_, nofun, fun _ _ => trivial, ?_⟩
  · rw [hinbox, hnoinbox, accepted_nil]
  · rw [hcount, accepted_nil, List.length_nil]
  · rw [hplans, hnoplans]
    rfl
  · intro before x behind heq
    cases before <;> cases heq

/-- **The inbox is an exact queue.** Whatever the order in which callers ask and operations go on,
the operations of a new store are carried out one after the other, as they were asked for, and of
each one settled it is so: rejected, it has changed neither a file nor a number; an entry accepted
has the number behind those accepted before, and its details; and a request to read comes to the
accepted entries behind the number it names, in their order. -/
theorem inbox_exact {runId : String} {assignment : Json} {d₀ : Disk} (hd : d₀.Nested)
    (hmade : Exec env (createPodRunStore runId assignment) d₀ (.ret m) d) {c : StoreChain}
    (h : Reach smoothEnv (fun m r => r.run m) (d, m) c) (hcalls : ∀ r ∈ c.calls, r.WellFormed) :
    Serial.Sequential smoothEnv (fun m r => r.run m) (d, m) c ∧
      ∀ before x behind, c.settled = before ++ x :: behind → Exact runId before x := by
  obtain ⟨s, hseq⟩ := h.sequence
  have hkept : Kept runId c.settled s := by
    refine hseq.rule (P := Request.WellFormed) (I := Kept runId) (kept_new hd hmade)
      (fun l s r hr hl => kept_step hr hl) fun x hx => ?_
    exact hcalls _ (h.settled_prefix.subset (List.mem_map_of_mem hx))
  exact ⟨Serial.reach_sequential h, hkept.exact'⟩

/-- The answers at the time zero. -/
def Disk.answerStore (d : Disk) : (c : Call ⊕ Look) → StoreRet c
  | .inl c => d.answer 0 c
  | .inr (.inbox a o) => .ok (d.inboxText a o)

lemma step_smooth (d : Disk) (c : Call ⊕ Look) :
    smoothEnv.step d c (d.answerStore c) (d.nextStore c (d.answerStore c)) := by
  rcases c with c | ⟨a, o⟩
  · exact ⟨by cases c <;> trivial, rfl⟩
  · exact ⟨rfl, rfl⟩

/-- A plan, two entries of one owner and one of the other, and what the first then reads. -/
def sampleRequests : List Request :=
  [.change (.writeAttemptPlan 1 (.obj [])),
    .change (.enqueueInbox 1 "engineering-a" (.obj [("file", .str "a\nb")])),
    .change (.enqueueInbox 1 "engineering-b" (.obj [])),
    .change (.enqueueInbox 1 "engineering-a" (.obj [("sequence", .null)])),
    .readInbox 1 "engineering-a" 1]

def sampleCarried (m : Memory) (d : Disk) : List StoreDone × (Disk × Memory) :=
  Serial.carry (fun m r => Request.run m r) Disk.answerStore Disk.nextStore sampleRequests [] (d, m)

/-- The numbers of the entries of an inbox. -/
def numbers (owner : String) (l : List StoreDone) : List (Option ℕ) :=
  (accepted 1 owner l).map fun v => (v.get "sequence").bind natOf

/-- All is asked for at the start. The entries are accepted, each owner's with numbers of its own,
and one request is still waiting. -/
theorem inbox_exact_ahead :
    ∃ c : StoreChain, c.calls = sampleRequests ++ [Request.readInbox 1 "engineering-b" 0] ∧
      c.waiting = [.readInbox 1 "engineering-b" 0] ∧
      numbers "engineering-a" c.settled = [some 1, some 2] ∧
      numbers "engineering-b" c.settled = [some 1] ∧
      ∀ before x behind, c.settled = before ++ x :: behind → Exact "run-1" before x := by
  obtain ⟨m, d, hnew, hP⟩ := exists_newRun (fun m d =>
    decide (numbers "engineering-a" (sampleCarried m d).1 = [some 1, some 2] ∧
      numbers "engineering-b" (sampleCarried m d).1 = [some 1])) (by decide +kernel)
  have hcarried : Serial.Sequence smoothEnv (fun m r => Request.run m r) (d, m)
      (sampleCarried m d).1 (sampleCarried m d).2 ∧
      (sampleCarried m d).1.map (·.request) = sampleRequests :=
    Serial.sequence_carry step_smooth sampleRequests .nil
  generalize sampleCarried m d = carried at hP hcarried
  obtain ⟨ha, hb⟩ := of_decide_eq_true hP
  have hreach := Serial.reach_of_sequence hcarried.1 [.readInbox 1 "engineering-b" 0]
  rw [hcarried.2] at hreach
  refine ⟨_, rfl, rfl, ha, hb, (inbox_exact (fun _ => ⟨fun _ => rfl, fun _ _ => rfl⟩) hnew
    hreach ?_).2⟩
  simp [sampleRequests, Request.WellFormed, Json.WellFormed, Wire.wellFormedFields]

end Bimo.PodStore
