import Bimo.Factory
import Bimo.Journal
import Bimo.JsonScan
import Bimo.Utf8
import Mathlib.Data.List.TakeDrop

/-!
The bytes of the two journals, and what is read back after a torn write.

`append` writes the compact text of a record and then a newline to whatever the file ends with,
and a crash may leave any first part of these bytes there. Both readers first want the whole
file to be UTF-8. Then `readJournal` skips a line that does not parse, and the recovery of the
factory fails on it. An entry that is appended behind a torn line shares the line with it, so
it is lost to the one reader, and the other reader fails.

The parsers are not part of the source: they are parameters, and what is relied on is that they
read a text they have written, and that they accept no text that goes on behind its last brace
or ends before it.
-/

namespace Bimo.Torn

open Wire Utf8

/-! ### Records -/

def ofOptionStr (key : String) : Option String → List (String × Json)
  | some s => [(key, .str s)]
  | none => []

def identityJson (p : ProcessIdentity) : Json :=
  .obj [("pid", ofNat p.pid), ("process_group", .num (toString p.processGroup)),
    ("session", .str p.session), ("launch_fingerprint", .str p.launchFingerprint),
    ("start_time", ofNat p.startTime)]

def guestJson (g : GuestRef) : Json :=
  .obj [("node", .str g.node), ("vmid", ofNat g.vmid), ("guest_type", .str g.guestType),
    ("address", ofOption g.address), ("template_version", ofOption g.templateVersion)]

def kindName : ResourceKind → String
  | .agentProcess => "agent_process"
  | .proxyProcess => "proxy_process"
  | .guest => "guest"
  | .relayProcess => "relay_process"
  | .proxyRoute => "proxy_route"

def resourceJson (r : Resource) : Json :=
  .obj ([("kind", Json.str (kindName r.kind)), ("id", Json.str r.id)] ++
    (r.process.map fun p => ("process", identityJson p)).toList ++
    (r.guest.map fun g => ("guest", guestJson g)).toList)

def eventName : Event → String
  | .intent => "intent"
  | .touching => "touching"
  | .created => "created"
  | .ready => "ready"
  | .commit => "commit"
  | .rollback => "rollback"
  | .retiring => "retiring"
  | .destroying => "destroying"
  | .cleared => "cleared"
  | .destroyed => "destroyed"
  | .secretsRotated => "secrets_rotated"

/-- An entry of the agent journal with the time it was made. -/
structure Stamped where
  entry : JournalEntry
  timestampMs : ℕ
  deriving DecidableEq, Repr

/-- A stamped entry as it is written: fields that are absent or empty are left out. -/
def Stamped.json (s : Stamped) : Json :=
  let e := s.entry
  .obj ([("schema_version", ofNat 1), ("event", Json.str (eventName e.event))] ++
    (e.generation.map fun g => ("generation", ofNat g)).toList ++
    ofOptionStr "target" e.target ++
    (e.resource.map fun r => ("resource", resourceJson r)).toList ++
    ofOptionStr "fingerprint" e.fingerprint ++
    ofOptionStr "idempotency_key" e.idempotencyKey ++
    ofOptionStr "detail" e.detail ++
    (if e.retire = [] then [] else [("retire", Json.arr (e.retire.map resourceJson))]) ++
    [("timestamp_ms", ofNat s.timestampMs)])

/-- The factory writes its identities through a value whose fields are sorted. -/
def sortedIdentity (p : ProcessIdentity) : Json :=
  .obj [("launch_fingerprint", .str p.launchFingerprint), ("pid", ofNat p.pid),
    ("process_group", .num (toString p.processGroup)), ("session", .str p.session),
    ("start_time", ofNat p.startTime)]

/-- A line of the apply journal; its fields are sorted as well. -/
def applyJson : Factory.Entry → Json
  | .intent g =>
    .obj [("event", .str "intent"), ("generation", ofNat g), ("schema_version", ofNat 2)]
  | .spawned g p =>
    .obj [("event", .str "spawned"), ("generation", ofNat g), ("identity", sortedIdentity p),
      ("schema_version", ofNat 2)]
  | .retiring g p =>
    .obj [("event", .str "retiring"), ("generation", ofNat g), ("identity", sortedIdentity p),
      ("schema_version", ofNat 2)]
  | .commit g =>
    .obj [("event", .str "commit"), ("generation", ofNat g), ("schema_version", ofNat 2)]
  | .rollback g (some error) =>
    .obj [("error", .str error), ("event", .str "rollback"), ("generation", ofNat g),
      ("schema_version", ofNat 2)]
  | .rollback g none =>
    .obj [("event", .str "rollback"), ("generation", ofNat g), ("recovered", .bool true),
      ("schema_version", ofNat 2)]
  | .cleanup g true =>
    .obj [("event", .str "cleanup"), ("generation", ofNat g), ("recovered", .bool true),
      ("schema_version", ofNat 2)]
  | .cleanup g false =>
    .obj [("event", .str "cleanup"), ("generation", ofNat g), ("schema_version", ofNat 2)]

/-! ### Appends -/

/-- The bytes one append writes. -/
def line (v : Json) : List UInt8 := encode (text v ++ ['\n'])

/-- An append of a value: it returns, or the process is gone when `some k` of its bytes are in
the file. -/
structure Append (α : Type) where
  value : α
  wrote : Option ℕ := none
  deriving DecidableEq, Repr

variable {α β : Type} (json : α → Json)

/-- What an append leaves in the file. -/
def Append.bytes (a : Append α) : List UInt8 :=
  match a.wrote with
  | none => line (json a.value)
  | some k => (line (json a.value)).take k

/-- The file after a sequence of appends. -/
def file (ops : List (Append α)) : List UInt8 := ops.flatMap (·.bytes json)

/-- The values whose append returned. -/
def returned (ops : List (Append α)) : List α := (ops.filter (·.wrote.isNone)).map (·.value)

/-! ### Readers -/

/-- The white space that `trim` takes away. -/
def isWhite (c : Char) : Bool :=
  let n := c.toNat
  (9 ≤ n && n ≤ 13) || n = 32 || n = 0x85 || n = 0xA0 || n = 0x1680 || (0x2000 ≤ n && n ≤ 0x200A) ||
    n = 0x2028 || n = 0x2029 || n = 0x202F || n = 0x205F || n = 0x3000

def stripCr (l : List Char) : List Char := if l.getLast? = some '\r' then l.dropLast else l

/-- The lines of a text, each up to its newline; a last one may lack it. -/
def splitLines : List Char → List (List Char)
  | [] => []
  | c :: cs =>
    if c = '\n' then [] :: splitLines cs
    else match splitLines cs with
      | [] => [[c]]
      | l :: ls => (c :: l) :: ls

def lines (cs : List Char) : List (List Char) := (splitLines cs).map stripCr

/-- The agent journal as it is read: a line that does not parse is left out. -/
def readJournal (parse : List Char → Option β) (file : Option (List UInt8)) :
    Except FabricError (List β) :=
  match file with
  | none => .ok []
  | some bytes =>
    match decode bytes with
    | none => .error (.io .stateFailed "could not read the journal"
        "stream did not contain valid UTF-8")
    | some text => .ok (((lines text).filter fun l => !l.all isWhite).filterMap parse)

def digits (cs : List Char) : Option ℕ :=
  if cs ≠ [] ∧ cs.all Char.isDigit then some (Nat.ofDigitChars 10 cs 0) else none

def asNat : Json → Option ℕ
  | .num t => digits t.toList
  | _ => none

def asInt : Json → Option ℤ
  | .num t =>
    match t.toList with
    | '-' :: cs => (digits cs).map fun n => -(n : ℤ)
    | cs => (digits cs).map (↑)
  | _ => none

def identityOf (v : Json) : Option ProcessIdentity := do
  return {
    pid := ← (v.get "pid").bind asNat
    processGroup := ← (v.get "process_group").bind asInt
    session := ← (v.get "session").bind Json.asStr
    launchFingerprint := ← (v.get "launch_fingerprint").bind Json.asStr
    startTime := ← (v.get "start_time").bind asNat }

/-- What one line of the apply journal adds to what recovery has seen. -/
def see (f : Factory.Seen) (v : Json) : Factory.Seen :=
  let event := (v.get "event").bind Json.asStr
  let generation := (v.get "generation").bind asNat
  let f := if event = some "intent" then
      { f with intent := generation, spawned := [], retiring := [] } else f
  let f := if event = some "spawned" ∧ generation = f.intent then
      { f with spawned := f.spawned ++ ((v.get "identity").bind identityOf).toList } else f
  let f := if event = some "retiring" ∧ generation = f.intent then
      { f with retiring := f.retiring ++ ((v.get "identity").bind identityOf).toList } else f
  match generation with
  | none => f
  | some g =>
    if event = some "commit" then { f with closed := g :: f.closed, committed := g :: f.committed }
    else if event = some "rollback" then { f with closed := g :: f.closed }
    else if event = some "cleanup" then { f with cleaned := g :: f.cleaned }
    else f

/-- The apply journal as recovery reads it: it fails on the first line that does not parse. -/
def readApply (parse : List Char → Except String Json) (file : Option (List UInt8)) :
    Except String Factory.Seen :=
  match file with
  | none => .ok {}
  | some bytes =>
    match decode bytes with
    | none => .error "stream did not contain valid UTF-8"
    | some text => (lines text).foldlM (fun f l => (parse l).map (see f)) {}

/-! ### What is asked of the cuts -/

/-- Whether the next append begins a line: nothing is there yet, or the last append that wrote
anything wrote its newline. `b` is the answer before the first one. -/
def beginsLine (b : Bool) (ops : List (Append α)) : Bool :=
  ops.foldl (fun b a => if a.bytes json = [] then b
    else decide (a.bytes json = line (json a.value))) b

/-- `Q` holds of every append and whether it begins a line. -/
def Along (b : Bool) (Q : Bool → Append α → Prop) (ops : List (Append α)) : Prop :=
  ∀ pre a post, ops = pre ++ a :: post → Q (beginsLine json b pre) a

/-- No character is cut in two. -/
def Append.CutBetween (a : Append α) : Prop := ∃ p, a.bytes json = encode p

/-- No character is cut in two, and what returned has begun a line. -/
structure Survivable (ops : List (Append α)) : Prop where
  between : ∀ a ∈ ops, a.CutBetween json
  starts : Along json true (fun b (a : Append α) => a.wrote = none → b = true) ops

/-- Every append wrote nothing, or began a line and wrote its whole text. -/
def WholeLines (ops : List (Append α)) : Prop :=
  Along json true (fun b (a : Append α) => a.bytes json = [] ∨
    b = true ∧ encode (text (json a.value)) <+: a.bytes json) ops

/-- Every value whose append returned is read back, in order. -/
def Survives (parse : List Char → Option α) (ops : List (Append α)) : Prop :=
  ∃ read, readJournal parse (some (file json ops)) = .ok read ∧ (returned ops).Sublist read

/-- A text that is accepted and begins with a brace ends with the brace that closes it. -/
def Closed (accepts : List Char → Prop) : Prop :=
  ∀ cs, accepts ('{' :: cs) → Scan.run (.out 0) cs = .done

/-! ### The records are written as records -/

lemma plain_identityJson (p : ProcessIdentity) : (identityJson p).Plain := by
  simpa [identityJson, Json.Plain, plainFields] using fun _ => isToken_of_mem_repr

lemma plain_sortedIdentity (p : ProcessIdentity) : (sortedIdentity p).Plain := by
  simpa [sortedIdentity, Json.Plain, plainFields] using fun _ => isToken_of_mem_repr

lemma plain_guestJson (g : GuestRef) : (guestJson g).Plain := by
  simp [guestJson, Json.Plain, plainFields]

lemma plain_resourceJson (r : Resource) : (resourceJson r).Plain := by
  obtain ⟨kind, id, - | p, - | g⟩ := r
  all_goals simp [resourceJson, Json.Plain, plainFields, plain_identityJson, plain_guestJson]

lemma plainFields_ofOptionStr (key : String) (o : Option String) :
    plainFields (ofOptionStr key o) := by
  cases o <;> simp [ofOptionStr, plainFields, Json.Plain]

lemma record_stamped (s : Stamped) : Scan.Record s.json := by
  obtain ⟨⟨event, generation, target, resource, fingerprint, key, detail, retire⟩, time⟩ := s
  refine ⟨?_, "schema_version", _, _, rfl, ['s'], 'c', "hema_version".toList,
    by decide, List.all_eq_true.mp (by decide), fun d => rfl⟩
  have hretire : plainFields (if retire = [] then []
      else [("retire", Json.arr (retire.map resourceJson))]) := by
    split_ifs
    · trivial
    · simp [plainFields, Json.Plain, plainList_iff, plain_resourceJson]
  have hresource : plainFields (resource.map fun r => ("resource", resourceJson r)).toList := by
    cases resource <;> simp [plainFields, plain_resourceJson]
  have hgeneration : plainFields (generation.map fun g => ("generation", ofNat g)).toList := by
    cases generation <;> simp [plainFields]
  simp only [Stamped.json, Json.Plain, plainFields_append, plainFields_ofOptionStr, hretire,
    hresource, hgeneration, plainFields, plain_ofNat, and_self]

lemma record_apply (e : Factory.Entry) : Scan.Record (applyJson e) := by
  have hevent : Scan.Foreign "event" :=
    ⟨['e'], 'v', "ent".toList, by decide, List.all_eq_true.mp (by decide), fun _ => rfl⟩
  have herror : Scan.Foreign "error" :=
    ⟨"err".toList, 'o', ['r'], by decide, List.all_eq_true.mp (by decide), fun _ => rfl⟩
  refine ⟨?_, ?_⟩
  · rcases e with g | ⟨g, p⟩ | ⟨g, p⟩ | g | ⟨g, - | error⟩ | ⟨g, - | -⟩
    all_goals simp [applyJson, Json.Plain, plainFields, plain_sortedIdentity]
  · rcases e with g | ⟨g, p⟩ | ⟨g, p⟩ | g | ⟨g, - | error⟩ | ⟨g, - | -⟩
    case rollback.some => exact ⟨"error", _, _, rfl, herror⟩
    all_goals exact ⟨"event", _, _, rfl, hevent⟩

/-! ### What recovery sees of the lines it has written -/

lemma digits_toString (n : ℕ) : digits (toString n).toList = some n := by
  have hall : (toString n).toList.all Char.isDigit = true :=
    List.all_eq_true.mpr fun _ hc => isDigit_of_mem_toString hc
  have hne : (toString n).toList ≠ [] := by
    rw [Nat.toString_eq_repr, Nat.toList_repr]
    exact Nat.toDigits_ne_nil
  rw [digits, if_pos ⟨hne, hall⟩, Nat.toString_eq_repr, Nat.toList_repr,
    Nat.ofDigitChars_ten_toDigits]

@[simp] lemma asNat_ofNat (n : ℕ) : asNat (ofNat n) = some n := digits_toString n

@[simp] lemma asInt_repr (z : ℤ) : asInt (.num z.repr) = some z := by
  obtain n | n := z
  · have hn := digits_toString n
    have hs : (Int.ofNat n).repr = toString n := rfl
    rw [asInt, hs]
    split
    · rename_i cs hcs
      rw [hcs] at hn
      simp [digits] at hn
    · rw [hn]
      rfl
  · have hn := digits_toString (n + 1)
    have hs : (Int.negSucc n).repr.toList = '-' :: (toString (n + 1)).toList := by
      simp [toString, Int.repr]
    rw [asInt, hs]
    simp only [hn]
    rfl

@[simp] lemma identityOf_sortedIdentity (p : ProcessIdentity) :
    identityOf (sortedIdentity p) = some p := by
  simp [identityOf, sortedIdentity, Json.get, List.lookup, Json.asStr]

/-- A line that was written is seen as the entry it was written for. -/
lemma see_applyJson (f : Factory.Seen) (e : Factory.Entry) : see f (applyJson e) = f.step e := by
  rcases e with g | ⟨g, p⟩ | ⟨g, p⟩ | g | ⟨g, - | error⟩ | ⟨g, - | -⟩
  all_goals simp [see, applyJson, Json.get, List.lookup, Json.asStr, Factory.Seen.step]

/-! ### Lines -/

/-- No line ends in here, and no carriage return stands here either. -/
def Unbroken (l : List Char) : Prop := ∀ c ∈ l, 32 ≤ c.toNat

lemma Unbroken.append {a b : List Char} (ha : Unbroken a) (hb : Unbroken b) :
    Unbroken (a ++ b) := by
  intro c hc
  rcases List.mem_append.mp hc with h | h
  · exact ha c h
  · exact hb c h

lemma Unbroken.of_prefix {a b : List Char} (hb : Unbroken b) (h : a <+: b) : Unbroken a :=
  fun c hc => hb c (h.subset hc)

lemma unbroken_nil : Unbroken [] := fun _ hc => absurd hc List.not_mem_nil

lemma unbroken_text {v : Json} (h : Scan.Record v) : Unbroken (text v) :=
  fun _ hc => le_toNat_of_mem_text v h.1 hc

lemma splitLines_append {l rest : List Char} (h : Unbroken l) :
    splitLines (l ++ '\n' :: rest) = l :: splitLines rest := by
  induction l with
  | nil => rfl
  | cons c l ih =>
    have hc : c ≠ '\n' := by
      rintro rfl
      exact absurd (h '\n' (by simp)) (by decide)
    rw [List.cons_append, splitLines, if_neg hc, ih fun c hc => h c (by simp [hc])]

lemma splitLines_last {l : List Char} (h : Unbroken l) (hne : l ≠ []) : splitLines l = [l] := by
  induction l with
  | nil => exact absurd rfl hne
  | cons c l ih =>
    have hc : c ≠ '\n' := by
      rintro rfl
      exact absurd (h '\n' (by simp)) (by decide)
    rw [splitLines, if_neg hc]
    cases l with
    | nil => rfl
    | cons d l => rw [ih (fun c hc => h c (by simp [hc])) (by simp)]

lemma stripCr_eq {l : List Char} (h : Unbroken l) : stripCr l = l := by
  rw [stripCr, if_neg]
  intro hlast
  exact absurd (h '\r' (List.mem_of_getLast? hlast)) (by decide)

lemma lines_append {l rest : List Char} (h : Unbroken l) :
    lines (l ++ '\n' :: rest) = l :: lines rest := by
  rw [lines, splitLines_append h, List.map_cons, stripCr_eq h]
  rfl

lemma lines_last {l : List Char} (h : Unbroken l) (hne : l ≠ []) : lines l = [l] := by
  rw [lines, splitLines_last h hne, List.map_singleton, stripCr_eq h]

/-! ### What is in the file -/

section Files

variable {json : α → Json}

lemma Append.bytes_none {a : Append α} (h : a.wrote = none) :
    a.bytes json = line (json a.value) := by
  simp [Append.bytes, h]

/-- The characters an append leaves in the file whole. -/
def Append.shown (json : α → Json) (a : Append α) : List Char :=
  match a.wrote with
  | none => text (json a.value) ++ ['\n']
  | some k => within k (text (json a.value) ++ ['\n'])

lemma Append.bytes_cases (a : Append α) :
    a.bytes json = encode (a.shown json) ∨
      ∃ torn, Torn torn ∧ a.bytes json = encode (a.shown json) ++ torn := by
  unfold Append.bytes Append.shown
  cases a.wrote with
  | none => exact .inl rfl
  | some k => exact take_encode k _

lemma Append.bytes_eq {a : Append α} (h : a.CutBetween json) :
    a.bytes json = encode (a.shown json) := by
  obtain ⟨p, hp⟩ := h
  obtain h | ⟨torn, ht, h⟩ : a.bytes json = encode (a.shown json) ∨
      ∃ torn, Torn torn ∧ a.bytes json = encode (a.shown json) ++ torn := a.bytes_cases
  · exact h
  · obtain ⟨c, -, hc⟩ := encode_of_append (h.symm.trans hp)
    exact absurd ((List.append_nil _).trans hc) (not_encode_of_torn ht begins_nil)

/-- An append shows nothing, its line, or a first part of its text. -/
lemma Append.shown_cases (json : α → Json) (a : Append α) :
    a.shown json = [] ∨ a.shown json = text (json a.value) ++ ['\n'] ∨
      a.shown json ≠ [] ∧ a.shown json <+: text (json a.value) := by
  have hpre : a.shown json <+: text (json a.value) ++ ['\n'] := by
    unfold Append.shown
    cases a.wrote with
    | none => exact List.prefix_rfl
    | some k => exact within_prefix k _
  by_cases hne : a.shown json = []
  · exact .inl hne
  · rcases List.prefix_concat_iff.mp hpre with h | h
    · exact .inr (.inl h)
    · exact .inr (.inr ⟨hne, h⟩)

lemma begins_bytes (a : Append α) : Begins (a.bytes json) := by
  have hline := begins_encode (text (json a.value) ++ ['\n'])
  unfold Append.bytes
  cases a.wrote with
  | none => exact hline
  | some k =>
    intro b hb
    rw [List.head?_take] at hb
    split_ifs at hb
    · simp at hb
    · exact hline b hb

lemma begins_file (ops : List (Append α)) : Begins (file json ops) := by
  induction ops with
  | nil => exact begins_nil
  | cons a ops ih =>
    rw [file, List.flatMap_cons]
    by_cases h : a.bytes json = []
    · rw [h]
      exact ih
    · intro b hb
      rw [List.head?_append_of_ne_nil _ h] at hb
      exact begins_bytes a b hb

/-- **The file is a text when no character was cut**, and then it is what the appends show. -/
theorem decode_file {ops : List (Append α)} {cs : List Char} :
    decode (file json ops) = some cs ↔
      (∀ a ∈ ops, a.CutBetween json) ∧ cs = ops.flatMap (·.shown json) := by
  rw [decode_eq_some]
  induction ops generalizing cs with
  | nil =>
    have hfile : file json ([] : List (Append α)) = [] := rfl
    rw [hfile, List.flatMap_nil, eq_comm, encode_eq_nil]
    simp
  | cons a ops ih =>
    rw [file, List.flatMap_cons, List.flatMap_cons, List.forall_mem_cons]
    constructor
    · intro h
      obtain hb | ⟨torn, ht, hb⟩ : a.bytes json = encode (a.shown json) ∨
          ∃ torn, Torn torn ∧ a.bytes json = encode (a.shown json) ++ torn := a.bytes_cases
      · rw [hb] at h
        obtain ⟨c, rfl, hc⟩ := encode_of_append h
        obtain ⟨hall, rfl⟩ := ih.mp hc
        exact ⟨⟨⟨_, hb⟩, hall⟩, rfl⟩
      · rw [hb, List.append_assoc] at h
        obtain ⟨c, -, hc⟩ := encode_of_append h
        exact absurd hc (not_encode_of_torn ht (begins_file ops))
    · rintro ⟨⟨ha, hall⟩, rfl⟩
      rw [Append.bytes_eq ha, encode_append]
      exact congrArg _ (ih.mpr ⟨hall, rfl⟩)

lemma along_nil (b : Bool) (Q : Bool → Append α → Prop) : Along json b Q [] := by
  intro pre a post h
  simp at h

lemma along_cons {b : Bool} {Q : Bool → Append α → Prop} {a : Append α} {ops : List (Append α)} :
    Along json b Q (a :: ops) ↔ Q b a ∧ Along json (beginsLine json b [a]) Q ops := by
  constructor
  · exact fun h => ⟨h [] a ops rfl, fun pre x post hx => h (a :: pre) x post (by rw [hx]; rfl)⟩
  · rintro ⟨ha, h⟩ pre x post hx
    cases pre with
    | nil =>
      obtain ⟨rfl, rfl⟩ : a = x ∧ ops = post := by simpa using hx
      exact ha
    | cons y pre =>
      obtain ⟨rfl, rfl⟩ : a = y ∧ ops = pre ++ x :: post := by simpa using hx
      exact h pre x post rfl

variable {a : Append α} {b : Bool}

lemma beginsLine_cons (ops : List (Append α)) :
    beginsLine json b (a :: ops) = beginsLine json (beginsLine json b [a]) ops := rfl

lemma beginsLine_silent (h : a.bytes json = []) : beginsLine json b [a] = b := by
  simp [beginsLine, h]

lemma line_ne_nil (v : Json) : line v ≠ [] := by simp [line]

lemma beginsLine_ended (h : a.bytes json = line (json a.value)) : beginsLine json b [a] = true := by
  simp [beginsLine, h, line_ne_nil]

lemma bytes_eq_nil (h : a.CutBetween json) : a.bytes json = [] ↔ a.shown json = [] := by
  rw [Append.bytes_eq h, encode_eq_nil]

lemma bytes_eq_line (h : a.CutBetween json) :
    a.bytes json = line (json a.value) ↔ a.shown json = text (json a.value) ++ ['\n'] := by
  rw [Append.bytes_eq h]
  exact ⟨encode_injective, congrArg encode⟩

lemma beginsLine_cut (hc : a.CutBetween json) (hrec : Scan.Record (json a.value))
    (hne : a.shown json ≠ []) (hp : a.shown json <+: text (json a.value)) :
    beginsLine json b [a] = false := by
  have hline : a.shown json ≠ text (json a.value) ++ ['\n'] := by
    intro h
    have hmem : '\n' ∈ text (json a.value) := hp.subset (by simp [h])
    exact absurd (unbroken_text hrec _ hmem) (by decide)
  simp only [beginsLine, List.foldl_cons, List.foldl_nil, bytes_eq_nil hc, hne, if_false,
    bytes_eq_line hc, hline, decide_false]

end Files

/-! ### What the readers make of a line -/

section Readers

variable {json : α → Json} {accepts : List Char → Prop}

/-- The line at the end of the file is begun with a brace, if it is begun. -/
def Begun (p : List Char) : Prop := p = [] ∨ ∃ q, p = '{' :: q

lemma Begun.append {p q : List Char} (hp : Begun p) (hq : Begun q) : Begun (p ++ q) := by
  rcases hp with rfl | ⟨r, rfl⟩
  · exact hq
  · exact .inr ⟨r ++ q, rfl⟩

lemma begun_of_isPrefix {v : Json} {p : List Char} (h : Scan.Record v) (hp : p <+: text v) :
    Begun p := by
  rw [Scan.text_of_record h] at hp
  rcases List.prefix_cons_iff.mp hp with rfl | ⟨q, rfl, -⟩
  · exact .inl rfl
  · exact .inr ⟨q, rfl⟩

/-- Nothing that is begun with the line and goes on with a record is accepted. -/
lemma not_accepts_joined {v : Json} {p q : List Char} (hacc : Closed accepts) (hp : Begun p)
    (hne : p ≠ []) (hv : Scan.Record v) (hq : q <+: text v) (hq0 : q ≠ []) :
    ¬ accepts (p ++ q) := by
  obtain rfl | ⟨r, rfl⟩ := hp
  · exact absurd rfl hne
  · intro h
    have hdone := hacc (r ++ q) h
    rw [Scan.run_append] at hdone
    exact Scan.run_ne_done hv _ hq0 hq hdone

/-- A record that is cut short is not accepted. -/
lemma not_accepts_part {v : Json} {p : List Char} (hacc : Closed accepts) (hv : Scan.Record v)
    (hp : p <+: text v) (hne : p ≠ []) (hpart : p ≠ text v) : ¬ accepts p := by
  rw [Scan.text_of_record hv] at hp hpart
  rcases List.prefix_cons_iff.mp hp with rfl | ⟨q, rfl, hq⟩
  · exact absurd rfl hne
  · intro h
    refine (Scan.open_of_prefix hv hq ?_).ne_done (hacc q h)
    rintro rfl
    exact hpart rfl

end Readers

/-! ### The agent journal -/

section Agent

variable {json : α → Json} {parse : List Char → Option α}

def readLines (parse : List Char → Option β) (cs : List Char) : List β :=
  ((lines cs).filter fun l => !l.all isWhite).filterMap parse

lemma readJournal_eq (parse : List Char → Option β) {bytes : List UInt8} {cs : List Char}
    (h : decode bytes = some cs) : readJournal parse (some bytes) = .ok (readLines parse cs) := by
  simp only [readJournal, h, readLines]

/-- What one line is read as. -/
def readLine (parse : List Char → Option β) (l : List Char) : List β :=
  if l.all isWhite then [] else (parse l).toList

lemma readLines_append (parse : List Char → Option β) {l : List Char} (rest : List Char)
    (h : Unbroken l) :
    readLines parse (l ++ '\n' :: rest) = readLine parse l ++ readLines parse rest := by
  rw [readLines, lines_append h, readLine]
  cases hw : l.all isWhite
  · cases hl : parse l <;> simp [hw, hl, readLines]
  · simp [hw, readLines]

lemma readLines_last (parse : List Char → Option β) {l : List Char} (h : Unbroken l)
    (hne : l ≠ []) : readLines parse l = readLine parse l := by
  rw [readLines, lines_last h hne, readLine]
  cases hw : l.all isWhite
  · cases hl : parse l <;> simp [hw, hl]
  · simp [hw]

lemma mem_readLine {parse : List Char → Option β} {l : List Char} {e : β}
    (h : e ∈ readLine parse l) : parse l = some e := by
  unfold readLine at h
  split_ifs at h
  · simp at h
  · simpa using h

lemma readLine_text {v : Json} {e : β} {parse : List Char → Option β} (hv : Scan.Record v)
    (h : parse (text v) = some e) : readLine parse (text v) = [e] := by
  have hblank : (text v).all isWhite = false := by
    rw [Scan.text_of_record hv]
    rfl
  simp [readLine, hblank, h]

lemma returned_of_none {a : Append α} {ops : List (Append α)} (h : a.wrote = none) :
    returned (a :: ops) = a.value :: returned ops := by
  simp [returned, h]

lemma returned_of_ne {a : Append α} {ops : List (Append α)} (h : a.wrote ≠ none) :
    returned (a :: ops) = returned ops := by
  simp [returned, Option.isNone_iff_eq_none, h]

/-- Behind a line `p` that is still open, what returned is read back if it begins a line. -/
lemma returned_sublist (hrec : ∀ v, Scan.Record (json v)) {ops : List (Append α)} {b : Bool}
    {p : List Char} (hread : ∀ a ∈ ops, parse (text (json a.value)) = some a.value)
    (hcut : ∀ a ∈ ops, a.CutBetween json)
    (hstart : Along json b (fun b a => a.wrote = none → b = true) ops) (hp : Unbroken p)
    (hb : b = true → p = []) :
    (returned ops).Sublist (readLines parse (p ++ ops.flatMap (·.shown json))) := by
  induction ops generalizing b p with
  | nil => simp [returned]
  | cons a ops ih =>
    rw [List.forall_mem_cons] at hread hcut
    obtain ⟨ha, hrest⟩ := along_cons.mp hstart
    have htext := unbroken_text (hrec a.value)
    rw [List.flatMap_cons]
    rcases a.shown_cases json with h | h | ⟨hne, hpre⟩
    · -- nothing was written
      have hbytes := (bytes_eq_nil hcut.1).mpr h
      have hwrote : a.wrote ≠ none := fun hw =>
        line_ne_nil _ ((Append.bytes_none hw).symm.trans hbytes)
      rw [beginsLine_silent hbytes] at hrest
      rw [returned_of_ne hwrote, h, List.nil_append]
      exact ih hread.2 hcut.2 hrest hp hb
    · -- the line is whole, and it is the append's own if the append began it
      rw [beginsLine_ended ((bytes_eq_line hcut.1).mpr h)] at hrest
      have hsub := ih hread.2 hcut.2 hrest unbroken_nil fun _ => rfl
      have hsplit : p ++ (a.shown json ++ ops.flatMap (·.shown json)) =
          (p ++ text (json a.value)) ++ '\n' :: ops.flatMap (·.shown json) := by
        simp [h]
      rw [hsplit, readLines_append parse _ (hp.append htext)]
      by_cases hwrote : a.wrote = none
      · rw [hb (ha hwrote), List.nil_append, readLine_text (hrec _) hread.1,
          returned_of_none hwrote]
        exact hsub.cons_cons _
      · rw [returned_of_ne hwrote]
        exact hsub.trans (List.sublist_append_right _ _)
    · -- the line stays open
      have hbegin := beginsLine_cut (b := b) hcut.1 (hrec _) hne hpre
      have hwrote : a.wrote ≠ none := by
        intro hw
        rw [beginsLine_ended (Append.bytes_none hw)] at hbegin
        exact Bool.noConfusion hbegin
      rw [hbegin] at hrest
      rw [returned_of_ne hwrote, ← List.append_assoc]
      exact ih hread.2 hcut.2 hrest (hp.append (htext.of_prefix hpre)) nofun

/-- What is read back was appended where a line begins, or stands in the line that was open. -/
lemma mem_readLines (hrec : ∀ v, Scan.Record (json v))
    (hclosed : Closed fun l => (parse l).isSome) {ops : List (Append α)} {p : List Char} {e : α}
    (hread : ∀ a ∈ ops, parse (text (json a.value)) = some a.value)
    (hcut : ∀ a ∈ ops, a.CutBetween json) (hp : Unbroken p) (hbegun : Begun p)
    (he : e ∈ readLines parse (p ++ ops.flatMap (·.shown json))) :
    p ≠ [] ∧ parse p = some e ∨ ∃ pre a post, ops = pre ++ a :: post ∧
      beginsLine json (decide (p = [])) pre = true ∧ a.value = e := by
  induction ops generalizing p with
  | nil =>
    by_cases hne : p = []
    · rw [hne] at he
      simp [readLines, lines, splitLines] at he
    · rw [List.flatMap_nil, List.append_nil, readLines_last parse hp hne] at he
      exact .inl ⟨hne, mem_readLine he⟩
  | cons a ops ih =>
    rw [List.forall_mem_cons] at hread hcut
    have htext := unbroken_text (hrec a.value)
    rw [List.flatMap_cons] at he
    rcases a.shown_cases json with h | h | ⟨hne, hpre⟩
    · rw [h, List.nil_append] at he
      rcases ih hread.2 hcut.2 hp hbegun he with hl | ⟨pre, x, post, rfl, hx, rfl⟩
      · exact .inl hl
      · refine .inr ⟨a :: pre, x, post, rfl, ?_, rfl⟩
        rw [beginsLine_cons, beginsLine_silent ((bytes_eq_nil hcut.1).mpr h)]
        exact hx
    · have hsplit : p ++ (a.shown json ++ ops.flatMap (·.shown json)) =
          (p ++ text (json a.value)) ++ '\n' :: ops.flatMap (·.shown json) := by
        simp [h]
      rw [hsplit, readLines_append parse _ (hp.append htext), List.mem_append] at he
      rcases he with he | he
      · have hparse := mem_readLine he
        by_cases hp0 : p = []
        · subst hp0
          rw [List.nil_append, hread.1] at hparse
          exact .inr ⟨[], a, ops, rfl, rfl, Option.some.inj hparse⟩
        · refine absurd ?_ (not_accepts_joined hclosed hbegun hp0 (hrec a.value) List.prefix_rfl
            (by simp [Scan.text_of_record (hrec a.value)]))
          simp [hparse]
      · rcases ih hread.2 hcut.2 unbroken_nil (.inl rfl) he with hl | ⟨pre, x, post, rfl, hx, rfl⟩
        · exact absurd rfl hl.1
        · refine .inr ⟨a :: pre, x, post, rfl, ?_, rfl⟩
          rw [beginsLine_cons, beginsLine_ended ((bytes_eq_line hcut.1).mpr h)]
          exact hx
    · rw [← List.append_assoc] at he
      have hbegin := begun_of_isPrefix (hrec a.value) hpre
      rcases ih hread.2 hcut.2 (hp.append (htext.of_prefix hpre)) (hbegun.append hbegin) he with
        ⟨-, hparse⟩ | ⟨pre, x, post, rfl, hx, rfl⟩
      · by_cases hp0 : p = []
        · subst hp0
          rw [List.nil_append] at hparse
          by_cases hwhole : a.shown json = text (json a.value)
          · rw [hwhole, hread.1] at hparse
            exact .inr ⟨[], a, ops, rfl, rfl, Option.some.inj hparse⟩
          · exact absurd (by simp [hparse])
              (not_accepts_part hclosed (hrec a.value) hpre hne hwhole)
        · exact absurd (by simp [hparse])
            (not_accepts_joined hclosed hbegun hp0 (hrec a.value) hpre hne)
      · refine .inr ⟨a :: pre, x, post, rfl, ?_, rfl⟩
        have hfalse : decide (p ++ a.shown json = []) = false := by simp [hne]
        rw [beginsLine_cons, beginsLine_cut hcut.1 (hrec _) hne hpre, ← hfalse]
        exact hx

lemma survives_of_survivable (hrec : ∀ v, Scan.Record (json v)) {ops : List (Append α)}
    (hread : ∀ a ∈ ops, parse (text (json a.value)) = some a.value)
    (h : Survivable json ops) : Survives json parse ops := by
  refine ⟨_, readJournal_eq parse (decode_file.mpr ⟨h.between, rfl⟩), ?_⟩
  exact returned_sublist (p := []) hrec hread h.between h.starts unbroken_nil fun _ => rfl

lemma survivable_of_survives (hrec : ∀ v, Scan.Record (json v))
    (hclosed : Closed fun l => (parse l).isSome) {ops : List (Append α)}
    (hread : ∀ a ∈ ops, parse (text (json a.value)) = some a.value)
    (hnodup : (ops.map (·.value)).Nodup) (h : Survives json parse ops) : Survivable json ops := by
  obtain ⟨read, hok, hsub⟩ := h
  cases hd : decode (file json ops) with
  | none => simp [readJournal, hd] at hok
  | some cs =>
    obtain ⟨hcut, rfl⟩ := decode_file.mp hd
    rw [readJournal_eq parse hd] at hok
    obtain rfl := Except.ok.inj hok
    refine ⟨hcut, fun pre a post hops hwrote => ?_⟩
    have hmem : a.value ∈ returned ops :=
      List.mem_map.mpr ⟨a, List.mem_filter.mpr ⟨by simp [hops], by simp [hwrote]⟩, rfl⟩
    rcases mem_readLines (p := []) hrec hclosed hread hcut unbroken_nil (.inl rfl)
      (hsub.subset hmem) with ⟨hne, -⟩ | ⟨pre', a', post', hops', hbegin, hvalue⟩
    · exact absurd rfl hne
    · -- a value that was appended once was appended at one place
      have hlen : pre'.length = pre.length := by
        have hget' : (ops.map (·.value))[pre'.length]? = some a.value := by
          simp [hops', hvalue]
        have hget : (ops.map (·.value))[pre.length]? = some a.value := by simp [hops]
        have hlt : pre'.length < (ops.map (·.value)).length := by
          rw [hops']
          simp
        exact (List.getElem?_inj hlt hnodup).mp (hget'.trans hget.symm)
      obtain ⟨rfl, -⟩ := List.append_inj (hops'.symm.trans hops) hlen
      exact hbegin

end Agent

/-! ### The apply journal -/

section Apply

variable {json : α → Json} {accepts : List Char → Prop}

lemma bytes_prefix (a : Append α) : a.bytes json <+: line (json a.value) := by
  unfold Append.bytes
  cases a.wrote with
  | none => exact List.prefix_rfl
  | some k => exact List.take_prefix k _

/-- An append that wrote its whole text wrote its newline behind it or nothing. -/
lemma whole_cases {a : Append α} (h : encode (text (json a.value)) <+: a.bytes json) :
    a.bytes json = encode (text (json a.value)) ∨ a.bytes json = line (json a.value) := by
  obtain ⟨rest, hrest⟩ := h
  have hnl : encode ['\n'] = [10] := by decide
  have hpre : a.bytes json <+: line (json a.value) := bytes_prefix a
  rw [← hrest, line, encode_append, hnl, List.prefix_append_right_inj] at hpre
  rcases List.prefix_cons_iff.mp hpre with rfl | ⟨r, rfl, hr⟩
  · exact .inl (by rw [← hrest, List.append_nil])
  · rw [List.prefix_nil.mp hr] at hrest
    exact .inr (by rw [← hrest, line, encode_append, hnl])

lemma silent_of_along {ops : List (Append α)}
    (h : Along json false (fun b a => a.bytes json = [] ∨
      b = true ∧ encode (text (json a.value)) <+: a.bytes json) ops) :
    ∀ a ∈ ops, a.bytes json = [] := by
  induction ops with
  | nil => exact fun a ha => absurd ha List.not_mem_nil
  | cons a ops ih =>
    obtain ⟨ha, hrest⟩ := along_cons.mp h
    have hsilent : a.bytes json = [] := by
      rcases ha with ha | ⟨hb, -⟩
      · exact ha
      · exact Bool.noConfusion hb
    rw [beginsLine_silent hsilent] at hrest
    exact List.forall_mem_cons.mpr ⟨hsilent, ih hrest⟩

/-- The values of the appends that wrote anything. -/
def written (json : α → Json) (ops : List (Append α)) : List α :=
  (ops.filter fun a => a.bytes json ≠ []).map (·.value)

lemma file_of_silent {ops : List (Append α)} (h : ∀ a ∈ ops, a.bytes json = []) :
    file json ops = [] ∧ written json ops = [] := by
  refine ⟨List.flatMap_eq_nil_iff.mpr h, ?_⟩
  rw [written, List.map_eq_nil_iff, List.filter_eq_nil_iff]
  intro a ha
  simp [h a ha]

/-- Whole lines are the texts of what was written, in order. -/
lemma decode_whole (hrec : ∀ v, Scan.Record (json v)) {ops : List (Append α)}
    (h : WholeLines json ops) :
    ∃ cs, decode (file json ops) = some cs ∧
      lines cs = (written json ops).map fun v => text (json v) := by
  unfold WholeLines at h
  induction ops with
  | nil => exact ⟨[], rfl, rfl⟩
  | cons a ops ih =>
    obtain ⟨ha, hrest⟩ := along_cons.mp h
    have hfile : file json (a :: ops) = a.bytes json ++ file json ops := rfl
    have htext := unbroken_text (hrec a.value)
    rw [hfile]
    by_cases hsilent : a.bytes json = []
    · rw [beginsLine_silent hsilent] at hrest
      obtain ⟨cs, hcs, hlines⟩ := ih hrest
      refine ⟨cs, by rw [hsilent]; exact hcs, ?_⟩
      rw [hlines]
      simp [written, hsilent]
    · have hwritten : written json (a :: ops) = a.value :: written json ops := by
        simp [written, hsilent]
      obtain ⟨-, hwhole⟩ := ha.resolve_left hsilent
      rw [hwritten, List.map_cons]
      rcases whole_cases hwhole with hb | hb
      · -- the text is there without its newline, so nothing follows it
        have hne : a.bytes json ≠ line (json a.value) := by
          rw [hb]
          intro heq
          have hlen := congrArg List.length (encode_injective heq)
          simp at hlen
        have hbegin : beginsLine json true [a] = false := by
          simp [beginsLine, hsilent, hne]
        rw [hbegin] at hrest
        obtain ⟨hnil, hnone⟩ := file_of_silent (silent_of_along hrest)
        refine ⟨text (json a.value), by rw [hnil, List.append_nil, hb, decode_encode], ?_⟩
        rw [hnone, lines_last htext (by simp [Scan.text_of_record (hrec a.value)])]
        rfl
      · rw [beginsLine_ended hb] at hrest
        obtain ⟨cs, hcs, hlines⟩ := ih hrest
        refine ⟨text (json a.value) ++ '\n' :: cs, ?_, ?_⟩
        · rw [hb, decode_eq_some.mp hcs, line, ← encode_append, List.append_assoc]
          exact decode_encode _
        · rw [lines_append htext, hlines]

/-- A line that is open and cannot end as a record does not become one by what follows. -/
lemma exists_not_accepts (hrec : ∀ v, Scan.Record (json v)) (hclosed : Closed accepts)
    {ops : List (Append α)} (hcut : ∀ a ∈ ops, a.CutBetween json) {p : List Char}
    (hp : Unbroken p) (hbegun : Begun p) (hne : p ≠ [])
    (hstale : ¬ accepts p) : ∃ l ∈ lines (p ++ ops.flatMap (·.shown json)), ¬ accepts l := by
  induction ops generalizing p with
  | nil =>
    rw [List.flatMap_nil, List.append_nil, lines_last hp hne]
    exact ⟨p, by simp, hstale⟩
  | cons a ops ih =>
    rw [List.forall_mem_cons] at hcut
    have htext := unbroken_text (hrec a.value)
    rw [List.flatMap_cons]
    rcases a.shown_cases json with h | h | ⟨hne', hpre⟩
    · rw [h, List.nil_append]
      exact ih hcut.2 hp hbegun hne hstale
    · have hsplit : p ++ (a.shown json ++ ops.flatMap (·.shown json)) =
          (p ++ text (json a.value)) ++ '\n' :: ops.flatMap (·.shown json) := by
        simp [h]
      rw [hsplit, lines_append (hp.append htext)]
      exact ⟨_, by simp, not_accepts_joined hclosed hbegun hne (hrec a.value) List.prefix_rfl
        (by simp [Scan.text_of_record (hrec a.value)])⟩
    · rw [← List.append_assoc]
      exact ih hcut.2 (hp.append (htext.of_prefix hpre))
        (hbegun.append (begun_of_isPrefix (hrec a.value) hpre)) (by simp [hne])
        (not_accepts_joined hclosed hbegun hne (hrec a.value) hpre hne')

/-- Once a line is open, nothing more may be written if all lines are to be accepted. -/
lemma silent_of_accepts (hrec : ∀ v, Scan.Record (json v)) (hclosed : Closed accepts)
    {ops : List (Append α)} (hcut : ∀ a ∈ ops, a.CutBetween json) {p : List Char}
    (hp : Unbroken p) (hbegun : Begun p) (hne : p ≠ [])
    (hall : ∀ l ∈ lines (p ++ ops.flatMap (·.shown json)), accepts l) :
    ∀ a ∈ ops, a.bytes json = [] := by
  induction ops with
  | nil => exact fun a ha => absurd ha List.not_mem_nil
  | cons a ops ih =>
    rw [List.forall_mem_cons] at hcut
    have htext := unbroken_text (hrec a.value)
    rw [List.flatMap_cons] at hall
    rcases a.shown_cases json with h | h | ⟨hne', hpre⟩
    · rw [h, List.nil_append] at hall
      exact List.forall_mem_cons.mpr ⟨(bytes_eq_nil hcut.1).mpr h, ih hcut.2 hall⟩
    · have hsplit : p ++ (a.shown json ++ ops.flatMap (·.shown json)) =
          (p ++ text (json a.value)) ++ '\n' :: ops.flatMap (·.shown json) := by
        simp [h]
      rw [hsplit, lines_append (hp.append htext)] at hall
      exact absurd (hall _ (by simp)) (not_accepts_joined hclosed hbegun hne (hrec a.value)
        List.prefix_rfl (by simp [Scan.text_of_record (hrec a.value)]))
    · rw [← List.append_assoc] at hall
      obtain ⟨l, hl, hnot⟩ := exists_not_accepts hrec hclosed hcut.2
        (hp.append (htext.of_prefix hpre)) (hbegun.append (begun_of_isPrefix (hrec a.value) hpre))
        (by simp [hne]) (not_accepts_joined hclosed hbegun hne (hrec a.value) hpre hne')
      exact absurd (hall l hl) hnot

lemma along_of_silent {b : Bool} {ops : List (Append α)} (h : ∀ a ∈ ops, a.bytes json = []) :
    Along json b (fun b a => a.bytes json = [] ∨
      b = true ∧ encode (text (json a.value)) <+: a.bytes json) ops := by
  intro pre a post hops
  exact .inl (h a (by simp [hops]))

/-- If every line is accepted, every append wrote a whole line or nothing. -/
lemma whole_of_accepts (hrec : ∀ v, Scan.Record (json v)) (hclosed : Closed accepts)
    {ops : List (Append α)} (hcut : ∀ a ∈ ops, a.CutBetween json)
    (hall : ∀ l ∈ lines (ops.flatMap (·.shown json)), accepts l) : WholeLines json ops := by
  unfold WholeLines
  induction ops with
  | nil => exact along_nil _ _
  | cons a ops ih =>
    rw [List.forall_mem_cons] at hcut
    have htext := unbroken_text (hrec a.value)
    rw [List.flatMap_cons] at hall
    rcases a.shown_cases json with h | h | ⟨hne, hpre⟩
    · have hsilent := (bytes_eq_nil hcut.1).mpr h
      rw [h, List.nil_append] at hall
      refine along_cons.mpr ⟨.inl hsilent, ?_⟩
      rw [beginsLine_silent hsilent]
      exact ih hcut.2 hall
    · have hb := (bytes_eq_line hcut.1).mpr h
      have hsplit : a.shown json ++ ops.flatMap (·.shown json) =
          text (json a.value) ++ '\n' :: ops.flatMap (·.shown json) := by
        simp [h]
      rw [hsplit, lines_append htext] at hall
      refine along_cons.mpr ⟨.inr ⟨rfl, ?_⟩, ?_⟩
      · rw [hb, line, encode_append]
        exact List.prefix_append _ _
      · rw [beginsLine_ended hb]
        exact ih hcut.2 fun l hl => hall l (List.mem_cons_of_mem _ hl)
    · have hbegun := begun_of_isPrefix (hrec a.value) hpre
      by_cases hwhole : a.shown json = text (json a.value)
      · have hsilent := silent_of_accepts hrec hclosed hcut.2 (htext.of_prefix hpre) hbegun hne hall
        refine along_cons.mpr ⟨.inr ⟨rfl, ?_⟩, along_of_silent hsilent⟩
        rw [Append.bytes_eq hcut.1, hwhole]
      · obtain ⟨l, hl, hnot⟩ := exists_not_accepts hrec hclosed hcut.2 (htext.of_prefix hpre) hbegun
          hne (not_accepts_part hclosed (hrec a.value) hpre hne hwhole)
        exact absurd (hall l hl) hnot

end Apply

lemma foldlM_texts {parse : List Char → Except String Json} (es : List Factory.Entry)
    (f : Factory.Seen) (h : ∀ e ∈ es, parse (text (applyJson e)) = .ok (applyJson e)) :
    (es.map fun e => text (applyJson e)).foldlM (fun f l => (parse l).map (see f)) f =
      .ok (es.foldl Factory.Seen.step f) := by
  induction es generalizing f with
  | nil => rfl
  | cons e es ih =>
    rw [List.forall_mem_cons] at h
    rw [List.map_cons, List.foldlM_cons, h.1]
    have hsee : (Except.ok (applyJson e) : Except String Json).map (see f) = .ok (f.step e) := by
      rw [Except.map, see_applyJson]
    rw [hsee]
    exact ih _ h.2

lemma isOk_of_foldlM {parse : List Char → Except String Json} {ls : List (List Char)}
    {f g : Factory.Seen} (h : ls.foldlM (fun f l => (parse l).map (see f)) f = .ok g) :
    ∀ l ∈ ls, (parse l).isOk := by
  induction ls generalizing f with
  | nil => exact fun l hl => absurd hl List.not_mem_nil
  | cons l ls ih =>
    rw [List.foldlM_cons] at h
    cases hl : parse l with
    | error e =>
      rw [hl] at h
      exact absurd h nofun
    | ok v =>
      rw [hl] at h
      exact List.forall_mem_cons.mpr ⟨by rw [hl]; rfl, ih h⟩

/-- Whole lines are read as the entries they were written for. -/
lemma readApply_whole {parse : List Char → Except String Json} {ops : List (Append Factory.Entry)}
    (hread : ∀ a ∈ ops, parse (text (applyJson a.value)) = .ok (applyJson a.value))
    (h : WholeLines applyJson ops) :
    readApply parse (some (file applyJson ops)) = .ok (Factory.seen (written applyJson ops)) := by
  obtain ⟨cs, hcs, hlines⟩ := decode_whole record_apply h
  simp only [readApply, hcs, hlines]
  refine foldlM_texts _ _ fun e he => ?_
  obtain ⟨a, ha, rfl⟩ := List.mem_map.mp he
  exact hread a (List.mem_filter.mp ha).1

lemma whole_of_readApply {parse : List Char → Except String Json}
    (hclosed : Closed fun l => (parse l).isOk) {ops : List (Append Factory.Entry)}
    (h : (readApply parse (some (file applyJson ops))).isOk) : WholeLines applyJson ops := by
  cases hd : decode (file applyJson ops) with
  | none =>
    simp only [readApply, hd] at h
    exact absurd h (by decide)
  | some cs =>
    obtain ⟨hcut, rfl⟩ := decode_file.mp hd
    simp only [readApply, hd] at h
    cases hfold : (lines (ops.flatMap (·.shown applyJson))).foldlM
        (fun f l => (parse l).map (see f)) {} with
    | error e =>
      rw [hfold] at h
      exact absurd h Bool.false_ne_true
    | ok g => exact whole_of_accepts record_apply hclosed hcut (isOk_of_foldlM hfold)

/-- **What survives a torn write.** The agent journal gives back what returned when no character
was cut and everything that returned began a line; where no value was appended twice, only
then. The recovery of the factory reads its journal exactly when every append wrote a whole
line or nothing, and then it sees what was written. -/
theorem journals_survive {parseEntry : List Char → Option Stamped}
    {parseValue : List Char → Except String Json} {agent : List (Append Stamped)}
    {apply : List (Append Factory.Entry)}
    (hentry : ∀ a ∈ agent, parseEntry (text a.value.json) = some a.value)
    (hvalue : ∀ a ∈ apply, parseValue (text (applyJson a.value)) = .ok (applyJson a.value))
    (hclosed : Closed fun l => (parseEntry l).isSome)
    (hclosed' : Closed fun l => (parseValue l).isOk) :
    (Survivable Stamped.json agent → Survives Stamped.json parseEntry agent) ∧
    ((agent.map (·.value)).Nodup → Survives Stamped.json parseEntry agent →
      Survivable Stamped.json agent) ∧
    ((readApply parseValue (some (file applyJson apply))).isOk ↔ WholeLines applyJson apply) ∧
    (WholeLines applyJson apply → readApply parseValue (some (file applyJson apply)) =
      .ok (Factory.seen (written applyJson apply))) := by
  refine ⟨survives_of_survivable record_stamped hentry,
    survivable_of_survives record_stamped hclosed hentry, ⟨whole_of_readApply hclosed', ?_⟩,
    readApply_whole hvalue⟩
  intro h
  rw [readApply_whole hvalue h]
  rfl

/-! ### A run -/

/-- A parser that knows the texts of some values. -/
def knows (json : α → Json) (es : List α) (l : List Char) : Option α :=
  es.find? fun e => text (json e) = l

def knowsValue (es : List Factory.Entry) (l : List Char) : Except String Json :=
  match knows applyJson es l with
  | some e => .ok (applyJson e)
  | none => .error "expected value"

lemma closed_knows {json : α → Json} (hrec : ∀ v, Scan.Record (json v)) (es : List α) :
    Closed fun l => (knows json es l).isSome := by
  intro cs h
  obtain ⟨e, he⟩ := Option.isSome_iff_exists.mp h
  have htext : text (json e) = '{' :: cs := by simpa using List.find?_some he
  rw [Scan.text_of_record (hrec e), List.cons.injEq] at htext
  rw [← htext.2]
  exact Scan.run_body (hrec e)

lemma closed_knowsValue (es : List Factory.Entry) : Closed fun l => (knowsValue es l).isOk := by
  intro cs h
  refine closed_knows record_apply es cs ?_
  change (knowsValue es ('{' :: cs)).isOk = true at h
  unfold knowsValue at h
  cases hk : knows applyJson es ('{' :: cs) with
  | none =>
    rw [hk] at h
    exact absurd h Bool.false_ne_true
  | some e => rfl

lemma knowsValue_eq {es : List Factory.Entry} {e : Factory.Entry}
    (h : knows applyJson es (text (applyJson e)) = some e) :
    knowsValue es (text (applyJson e)) = .ok (applyJson e) := by
  rw [knowsValue, h]

def sampleEntry (event : Event) (time : ℕ) : Stamped :=
  ⟨{ event := event, generation := some 1, target := some "local" }, time⟩

/-- The process dies in its second append; the third one is made by the next process. -/
def sampleAgent (third : List (Append Stamped)) : List (Append Stamped) :=
  [⟨sampleEntry .intent 5, none⟩, ⟨sampleEntry .commit 6, some 20⟩] ++ third

def sampleApply : List (Append Factory.Entry) := [⟨.intent 1, none⟩, ⟨.commit 1, some 52⟩]

theorem journals_survive_sample :
    Survives Stamped.json (knows Stamped.json [sampleEntry .intent 5, sampleEntry .commit 6])
      (sampleAgent []) ∧
    readApply (knowsValue [.intent 1, .commit 1]) (some (file applyJson sampleApply)) =
      .ok (Factory.seen [.intent 1, .commit 1]) := by
  have hvalue : ∀ a ∈ sampleApply,
      knows applyJson [.intent 1, .commit 1] (text (applyJson a.value)) = some a.value := by
    decide +kernel
  have h := @journals_survive _ _ (sampleAgent []) sampleApply
    (by decide +kernel) (fun a ha => knowsValue_eq (hvalue a ha))
    (closed_knows record_stamped [sampleEntry .intent 5, sampleEntry .commit 6])
    (closed_knowsValue [.intent 1, .commit 1])
  have hwritten : written applyJson sampleApply = [.intent 1, .commit 1] := by decide +kernel
  refine ⟨h.1 ⟨?_, ?_⟩, hwritten ▸ h.2.2.2 ?_⟩
  · have hcut : ∀ a ∈ sampleAgent [], a.bytes Stamped.json = encode (a.shown Stamped.json) := by
      decide +kernel
    exact fun a ha => ⟨_, hcut a ha⟩
  · refine along_cons.mpr ⟨fun _ => rfl, along_cons.mpr ⟨fun hw => ?_, along_nil _ _⟩⟩
    exact absurd hw (by decide)
  · refine along_cons.mpr ⟨.inr ⟨rfl, ?_⟩, along_cons.mpr ⟨.inr ⟨?_, ?_⟩, along_nil _ _⟩⟩
    all_goals decide +kernel

/-- The third entry is written behind the torn second one and is gone with it, and recovery
fails on such a line. -/
theorem torn_line_swallows :
    ¬ Survives Stamped.json
      (knows Stamped.json [sampleEntry .intent 5, sampleEntry .commit 6, sampleEntry .intent 7])
      (sampleAgent [⟨sampleEntry .intent 7, none⟩]) ∧
    ¬ (readApply (knowsValue [.intent 1, .commit 1])
      (some (file applyJson [⟨.intent 1, none⟩, ⟨.commit 1, some 20⟩]))).isOk := by
  constructor
  · intro h
    have hs := survivable_of_survives record_stamped (closed_knows record_stamped _)
      (by decide +kernel) (by decide +kernel) h
    exact absurd (hs.starts [⟨sampleEntry .intent 5, none⟩, ⟨sampleEntry .commit 6, some 20⟩] _ []
      rfl rfl) (by decide +kernel)
  · intro h
    rcases whole_of_readApply (closed_knowsValue _) h [⟨.intent 1, none⟩] _ [] rfl with hs | ⟨-, hp⟩
    · exact absurd hs (by decide +kernel)
    · exact absurd hp (by decide +kernel)

end Bimo.Torn
