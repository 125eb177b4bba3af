import Bimo.CanonicalJson
import Bimo.Lossy

/-!
What is said of an agent that failed.

The output of an agent is a stream of events, one a line, and it comes in whatever chunks the pipe
hands over. While it comes, its bytes are decoded, the line that has not ended yet is kept, and a
line that grows too long is dropped up to its end. What is said in the end depends on the bytes
alone: on the lines of the decoded text, the last of which need not have ended.
-/

namespace Bimo.Diagnostics

open Js (Text lit)
open CanonicalJson (Value Fields)

/-- `MAX_DIAGNOSTIC_LINE_BYTES` -/
def maxLineBytes : ℕ := 65536

/-- `DIAGNOSTIC_EVENT_TYPES` -/
def openCodeEventTypes : List String :=
  ["error", "reasoning", "step_finish", "step_start", "text", "tool_use"]

/-- `PI_DIAGNOSTIC_EVENT_TYPES` -/
def piEventTypes : List String :=
  ["agent_end", "agent_settled", "agent_start", "auto_retry_end", "auto_retry_start", "error",
    "message_end", "message_start", "message_update", "session", "tool_execution_end",
    "tool_execution_start", "tool_execution_update", "turn_end", "turn_start"]

/-- What the language brings. -/
structure Engine where
  /-- `JSON.parse`; the fields of an object are in the order that `Object.values` lists them. -/
  parse : List Char → Option Value
  /-- `left.localeCompare(right) <= 0` -/
  localeLe : String → String → Bool

inductive Runtime
  | opencode
  | pi
  deriving DecidableEq, Repr

def Runtime.eventTypes : Runtime → List String
  | .opencode => openCodeEventTypes
  | .pi => piEventTypes

def Runtime.finalized : Runtime → String
  | .opencode => "OpenCode diagnostics already finalized"
  | .pi => "pi diagnostics already finalized"

/-! ### The status of an error -/

def isDigit (u : UInt16) : Bool := 48 ≤ u && u ≤ 57

/-- `\w` -/
def isWord (u : UInt16) : Bool :=
  isDigit u || (65 ≤ u && u ≤ 90) || (97 ≤ u && u ≤ 122) || u == 95

/-- Three digits that a text begins with, and what is behind them. -/
def threeDigits : Text → Option (ℕ × Text)
  | a :: b :: c :: rest =>
    if isDigit a && isDigit b && isDigit c then
      some (100 * (a.toNat - 48) + 10 * (b.toNat - 48) + (c.toNat - 48), rest)
    else none
  | _ => none

def isStatus (n : ℕ) : Bool := 100 ≤ n && n ≤ 599

/-- The status that a field has, as a number or as the digits of one. -/
def statusIn : Option Value → Option ℕ
  | some (.num x) =>
    if x.value.den = 1 ∧ 100 ≤ x.value ∧ x.value ≤ 599 then some x.value.num.toNat else none
  | some (.str s) =>
    match threeDigits s with
    | some (n, []) => if isStatus n then some n else none
    | _ => none
  | _ => none

mutual

/-- `findHttpStatus`, with the number of objects visited. -/
def findHttpStatus : Value → ℕ → ℕ → Option ℕ × ℕ
  | .obj l, depth, visited =>
    if 4 < depth ∨ 32 ≤ visited then (none, visited)
    else match statusIn (l.lookup (lit "status")) <|> statusIn (l.lookup (lit "statusCode")) with
      | some n => (some n, visited + 1)
      | none => findNested l (depth + 1) (visited + 1)
  | _, _, visited => (none, visited)

def findNested : Fields → ℕ → ℕ → Option ℕ × ℕ
  | [], _, visited => (none, visited)
  | (_, v) :: l, depth, visited =>
    match findHttpStatus v depth visited with
    | (some n, visited) => (some n, visited)
    | (none, visited) => findNested l depth visited

end

/-- The status in the error of an event. -/
def errorStatus (event : Fields) : Option ℕ :=
  (event.lookup (lit "error")).bind fun v => (findHttpStatus v 0 0).1

/-- `/^(\d{3})\b/u` -/
def leadingStatus (s : Text) : Option ℕ :=
  match threeDigits s with
  | some (n, rest) => if rest.head?.any isWord then none else some n
  | none => none

/-- The status that the message of an event begins with, when it reports an error. -/
def messageStatus (event : Fields) : Option ℕ :=
  match event.lookup (lit "message") with
  | some (.obj message) =>
    match message.lookup (lit "stopReason"), message.lookup (lit "errorMessage") with
    | some (.str reason), some (.str text) =>
      if reason = lit "error" then leadingStatus text else none
    | _, _ => none
  | _ => none

/-! ### Events -/

structure Event where
  type : String
  fields : Fields

/-- The event that a line is counted as. -/
def eventOf (env : Engine) (rt : Runtime) (line : List Char) : Option Event :=
  if line = [] ∨ maxLineBytes < (Utf8.encode line).length then none
  else match env.parse line with
    | some (.obj l) =>
      match l.lookup (lit "type") with
      | some (.str t) => (rt.eventTypes.find? fun name => lit name = t).map fun name => ⟨name, l⟩
      | _ => none
    | _ => none

/-- One more of a name. -/
def bump : List (String × ℕ) → String → List (String × ℕ)
  | [], name => [(name, 1)]
  | (n, k) :: counts, name =>
    if n = name then (n, k + 1) :: counts else (n, k) :: bump counts name

/-- What the events leave behind. -/
structure Seen where
  eventCounts : List (String × ℕ) := []
  errorStatus : Option ℕ := none
  deriving DecidableEq

/-- What an event makes of the status. -/
def Runtime.status (rt : Runtime) (event : Event) (status : Option ℕ) : Option ℕ :=
  match rt with
  | .opencode => if event.type = "error" then errorStatus event.fields else status
  | .pi => messageStatus event.fields <|> status

def recordEvent (env : Engine) (rt : Runtime) (seen : Seen) (line : List Char) : Seen :=
  match eventOf env rt line with
  | none => seen
  | some event => ⟨bump seen.eventCounts event.type, rt.status event seen.errorStatus⟩

/-! ### The decoder -/

def byteOrderMark : Char := '\uFEFF'

/-- A `TextDecoder`: the bytes that may become a character, and whether one has come out. -/
structure Decoder where
  pending : List UInt8 := []
  bomSeen : Bool := false

/-- The characters that bytes become, and the bytes that are left. -/
def feedAll : List UInt8 → List UInt8 → List Char × List UInt8
  | p, [] => ([], p)
  | p, b :: bs =>
    let (cs, q) := Utf8.feed p b
    let (ds, r) := feedAll q bs
    (cs ++ ds, r)

/-- `decoder.decode(chunk, { stream: true })` -/
def Decoder.decode (d : Decoder) (chunk : List UInt8) : List Char × Decoder :=
  let (cs, pending) := feedAll d.pending chunk
  let text := if !d.bomSeen && cs.head? = some byteOrderMark then cs.tail else cs
  (text, ⟨pending, d.bomSeen || !cs.isEmpty⟩)

/-- `decoder.decode()` -/
def Decoder.flush (d : Decoder) : List Char :=
  if d.pending = [] then [] else [Utf8.replacement]

/-! ### The diagnostics -/

structure State where
  stdoutBytes : ℕ := 0
  stderrBytes : ℕ := 0
  stdoutLine : List Char := []
  discardingLine : Bool := false
  finished : Bool := false
  decoder : Decoder := {}
  seen : Seen := {}

/-- Lines that have ended are events; the last one is kept, unless it is too long already. -/
def takeLines (env : Engine) (rt : Runtime) (s : State) (text : List Char) : State :=
  let lines := (s.stdoutLine ++ text).splitOn '\n'
  let stdoutLine := lines.getLastD []
  let seen := lines.dropLast.foldl (recordEvent env rt) s.seen
  if maxLineBytes < (Utf8.encode stdoutLine).length then
    { s with seen := seen, stdoutLine := [], discardingLine := true }
  else { s with seen := seen, stdoutLine := stdoutLine }

def stdout (env : Engine) (rt : Runtime) (s : State) (chunk : List UInt8) : State :=
  let (text, decoder) := s.decoder.decode chunk
  let s := { s with stdoutBytes := s.stdoutBytes + chunk.length, decoder := decoder }
  if s.discardingLine then
    if '\n' ∈ text then
      takeLines env rt { s with discardingLine := false } (text.dropWhile (· ≠ '\n')).tail
    else s
  else takeLines env rt s text

def stderr (s : State) (chunk : List UInt8) : State :=
  { s with stderrBytes := s.stderrBytes + chunk.length }

/-- What is said: a code that is no integer is `none`. -/
def report (env : Engine) (code : Option ℤ) (seen : Seen) (stdoutBytes stderrBytes : ℕ) : String :=
  let exit := match code with
    | some n => "agent exited " ++ toString n
    | none => "agent exited on signal"
  let events := ",".intercalate
    ((seen.eventCounts.insertionSort fun a b => env.localeLe a.1 b.1 = true).map fun p =>
      p.1 ++ ":" ++ toString p.2)
  let status := match seen.errorStatus with
    | some n => ["errorStatus=" ++ toString n]
    | none => []
  "; ".intercalate ([exit] ++ (if events = "" then [] else ["events=" ++ events]) ++ status ++
    ["stdoutBytes=" ++ toString stdoutBytes, "stderrBytes=" ++ toString stderrBytes])

def failure (env : Engine) (rt : Runtime) (s : State) (code : Option ℤ) :
    Except String (String × State) :=
  if s.finished then .error rt.finalized
  else
    let finalLine := if s.discardingLine then [] else s.stdoutLine ++ s.decoder.flush
    let seen := if finalLine = [] then s.seen else recordEvent env rt s.seen finalLine
    .ok (report env code seen s.stdoutBytes s.stderrBytes,
      { s with seen := seen, finished := true })

/-- A chunk of either stream. -/
inductive Chunk
  | stdout (bytes : List UInt8)
  | stderr (bytes : List UInt8)

def step (env : Engine) (rt : Runtime) (s : State) : Chunk → State
  | .stdout bytes => stdout env rt s bytes
  | .stderr bytes => stderr s bytes

def run (env : Engine) (rt : Runtime) (chunks : List Chunk) : State :=
  chunks.foldl (step env rt) {}

/-- The text for an agent that failed. -/
def failureText (env : Engine) (rt : Runtime) (chunks : List Chunk) (code : Option ℤ) :
    Except String String :=
  (failure env rt (run env rt chunks) code).map Prod.fst

/-! ### What the bytes say -/

/-- A text without the mark it may begin with. -/
def dropMark (cs : List Char) : List Char :=
  if cs.head? = some byteOrderMark then cs.tail else cs

/-- The text of a stream. -/
def decoded (bytes : List UInt8) : List Char := dropMark (Utf8.lossy bytes)

/-- The events that count, in the order of their lines. -/
def events (env : Engine) (rt : Runtime) (bytes : List UInt8) : List Event :=
  ((decoded bytes).splitOn '\n').filterMap (eventOf env rt)

/-- How often names occur, in the order in which they first do. -/
def tally (names : List String) : List (String × ℕ) :=
  names.eraseDups.map fun name => (name, names.count name)

/-- The status that is told: that of the last error event, or of the last message that reports
one. -/
def Runtime.lastStatus (rt : Runtime) (events : List Event) : Option ℕ :=
  match rt with
  | .opencode =>
    (events.filter (·.type = "error")).getLast?.bind fun event =>
      Diagnostics.errorStatus event.fields
  | .pi => (events.filterMap fun event => messageStatus event.fields).getLast?

def summary (rt : Runtime) (events : List Event) : Seen :=
  ⟨tally (events.map Event.type), rt.lastStatus events⟩

def outBytes : List Chunk → List UInt8
  | [] => []
  | .stdout bytes :: chunks => bytes ++ outBytes chunks
  | .stderr _ :: chunks => outBytes chunks

def errBytes : List Chunk → List UInt8
  | [] => []
  | .stdout _ :: chunks => errBytes chunks
  | .stderr bytes :: chunks => bytes ++ errBytes chunks

/-! ### Counting -/

lemma bump_map (names : List String) (f : String → ℕ) (a : String) (hnodup : names.Nodup) :
    bump (names.map fun n => (n, f n)) a =
      if a ∈ names then names.map fun n => (n, if n = a then f n + 1 else f n)
      else names.map (fun n => (n, f n)) ++ [(a, 1)] := by
  induction names with
  | nil => rfl
  | cons n names ih =>
      obtain ⟨hn, hnodup⟩ := List.nodup_cons.mp hnodup
      rw [List.map_cons, bump]
      by_cases h : n = a
      · subst h
        have hrest : ∀ m ∈ names, (m, f m) = (m, if m = n then f m + 1 else f m) := by
          intro m hm
          rw [if_neg (by rintro rfl; exact hn hm)]
        simp only [if_true, List.mem_cons_self, List.map_cons]
        rw [List.map_congr_left hrest]
      · have hmem : a ∈ n :: names ↔ a ∈ names := by
          simp [Ne.symm h]
        simp only [if_neg h, hmem, ih hnodup, List.map_cons]
        split_ifs <;> rfl

lemma nodup_eraseDups (l : List String) : l.eraseDups.Nodup := by
  induction hn : l.length using Nat.strong_induction_on generalizing l with
  | _ n ih =>
  cases l with
  | nil => simp
  | cons a l =>
      rw [List.eraseDups_cons, List.nodup_cons]
      refine ⟨by simp [List.mem_eraseDups], ih _ ?_ _ rfl⟩
      have := List.length_filter_le (fun b => !b == a) l
      rw [← hn, List.length_cons]
      omega

lemma bump_tally (names : List String) (a : String) :
    bump (tally names) a = tally (names ++ [a]) := by
  rw [tally, tally, bump_map _ _ _ (nodup_eraseDups names), List.eraseDups_append]
  simp only [List.mem_eraseDups]
  split_ifs with h
  · have hdups : (List.removeAll [a] names).eraseDups = [] := by
      simp [List.removeAll, h]
    rw [hdups, List.append_nil]
    refine List.map_congr_left fun n _ => ?_
    by_cases hna : n = a
    · simp [hna]
    · rw [if_neg hna, List.count_append, List.count_singleton, if_neg (by simpa using Ne.symm hna),
        Nat.add_zero]
  · have hdups : (List.removeAll [a] names).eraseDups = [a] := by
      simp [List.removeAll, h, List.eraseDups_cons]
    have hkeep : ∀ n ∈ names.eraseDups, (n, names.count n) = (n, (names ++ [a]).count n) := by
      intro n hn
      have hna : a ≠ n := by
        rintro rfl
        exact h (List.mem_eraseDups.mp hn)
      rw [List.count_append, List.count_singleton, if_neg (by simpa using hna), Nat.add_zero]
    rw [hdups, List.map_append, List.map_congr_left hkeep]
    simp [List.count_eq_zero_of_not_mem h]

/-- One more event, for either runtime. -/
lemma status_lastStatus (rt : Runtime) (es : List Event) (e : Event) :
    rt.status e (rt.lastStatus es) = rt.lastStatus (es ++ [e]) := by
  cases rt with
  | opencode =>
      simp only [Runtime.status, Runtime.lastStatus, List.filter_append]
      by_cases h : e.type = "error"
      · simp [h]
      · simp [h]
  | pi =>
      simp only [Runtime.status, Runtime.lastStatus, List.filterMap_append]
      cases h : messageStatus e.fields with
      | none => simp [h]
      | some n => simp [h]

/-- **Lines are recorded as the events they are.** -/
lemma foldl_recordEvent (env : Engine) (rt : Runtime) (lines : List (List Char)) :
    lines.foldl (recordEvent env rt) {} = summary rt (lines.filterMap (eventOf env rt)) := by
  induction lines using List.reverseRecOn with
  | nil => cases rt <;> rfl
  | append_singleton lines line ih =>
      rw [List.foldl_append, ih, List.filterMap_append]
      simp only [List.foldl_cons, List.foldl_nil, recordEvent]
      cases h : eventOf env rt line with
      | none => simp [h]
      | some e =>
          simp only [h, List.filterMap_cons, List.filterMap_nil, summary, List.map_append,
            List.map_cons, List.map_nil]
          rw [bump_tally, status_lastStatus]

lemma eventOf_nil (env : Engine) (rt : Runtime) : eventOf env rt [] = none := if_pos (.inl rfl)

lemma eventOf_long (env : Engine) (rt : Runtime) {line : List Char}
    (h : maxLineBytes < (Utf8.encode line).length) : eventOf env rt line = none := if_pos (.inr h)

/-! ### Decoding -/

lemma feedAll_append (p a b : List UInt8) :
    feedAll p (a ++ b) =
      ((feedAll p a).1 ++ (feedAll (feedAll p a).2 b).1, (feedAll (feedAll p a).2 b).2) := by
  induction a generalizing p with
  | nil => rfl
  | cons x a ih =>
      simp only [List.cons_append, feedAll, ih, List.append_assoc]

lemma lossyFrom_eq (p bs : List UInt8) :
    Utf8.lossyFrom p bs = (feedAll p bs).1 ++ Utf8.lossyFrom (feedAll p bs).2 [] := by
  induction bs generalizing p with
  | nil => rfl
  | cons b bs ih =>
      rw [Utf8.lossyFrom_cons, ih]
      simp only [feedAll, List.append_assoc]

lemma dropMark_append {a : List Char} (h : a ≠ []) (b : List Char) :
    dropMark (a ++ b) = dropMark a ++ b := by
  rw [dropMark, dropMark, List.head?_append_of_ne_nil _ h, List.tail_append_of_ne_nil h]
  split_ifs <;> rfl

/-- Only what comes out first may be the mark. -/
lemma dropMark_next (a b : List Char) :
    dropMark (a ++ b) =
      dropMark a ++ if !(!a.isEmpty) && b.head? = some byteOrderMark then b.tail else b := by
  cases a with
  | nil => simp [dropMark]
  | cons c a =>
      rw [dropMark_append (List.cons_ne_nil _ _)]
      simp

/-- The decoder after bytes. -/
def Decoder.after (bytes : List UInt8) : Decoder :=
  ⟨(feedAll [] bytes).2, !(feedAll [] bytes).1.isEmpty⟩

/-- What a decoder has shown of bytes. -/
def shown (bytes : List UInt8) : List Char := dropMark (feedAll [] bytes).1

lemma decode_after (bytes chunk : List UInt8) :
    ((Decoder.after bytes).decode chunk).2 = Decoder.after (bytes ++ chunk) ∧
      shown (bytes ++ chunk) = shown bytes ++ ((Decoder.after bytes).decode chunk).1 := by
  simp only [Decoder.after, Decoder.decode, shown, feedAll_append]
  refine ⟨?_, dropMark_next _ _⟩
  cases (feedAll [] bytes).1 <;> rfl

lemma decoded_eq (bytes : List UInt8) :
    decoded bytes = shown bytes ++ (Decoder.after bytes).flush := by
  rw [decoded, Utf8.lossy, lossyFrom_eq, Utf8.lossyFrom_nil]
  simp only [shown, Decoder.flush, Decoder.after]
  by_cases h : (feedAll [] bytes).1 = []
  · rw [h, List.nil_append]
    by_cases hp : (feedAll [] bytes).2 = []
    · simp [hp, dropMark]
    · simp [hp, dropMark, Utf8.replacement, byteOrderMark]
  · exact dropMark_append h _

/-! ### Lines -/

/-- Where a text goes on, what is split is the last of its lines. -/
lemma exists_last (cs : List Char) : ∃ init last, '\n' ∉ last ∧
    ∀ text, (cs ++ text).splitOn '\n' = init ++ (last ++ text).splitOn '\n' := by
  induction cs using List.reverseRecOn with
  | nil => exact ⟨[], [], List.not_mem_nil, fun _ => rfl⟩
  | append_singleton cs c ih =>
      obtain ⟨init, last, hlast, hsplit⟩ := ih
      by_cases hc : c = '\n'
      · subst hc
        refine ⟨init ++ [last], [], List.not_mem_nil, fun text => ?_⟩
        rw [List.append_assoc, hsplit, List.singleton_append, List.splitOn_append_cons_self,
          List.splitOn_eq_singleton hlast, List.append_assoc, List.nil_append]
      · refine ⟨init, last ++ [c], ?_, fun text => ?_⟩
        · simpa [hlast] using Ne.symm hc
        · rw [List.append_assoc, hsplit, List.append_assoc]

/-- What has been recorded and what is kept of a text. -/
structure Kept (env : Engine) (rt : Runtime) (s : State) (cs : List Char)
    (init : List (List Char)) (last : List Char) : Prop where
  lines : ∀ text, (cs ++ text).splitOn '\n' = init ++ (last ++ text).splitOn '\n'
  unbroken : '\n' ∉ last
  seen : s.seen = init.foldl (recordEvent env rt) {}
  line : if s.discardingLine then s.stdoutLine = [] ∧ maxLineBytes < (Utf8.encode last).length
    else s.stdoutLine = last

section

variable {env : Engine} {rt : Runtime} {s : State} {cs last text : List Char}
  {init : List (List Char)}

/-- Lines are taken from what is kept and what follows. -/
lemma kept_takeLines (hdiscard : s.discardingLine = false)
    (hlines : ∀ t, (cs ++ t).splitOn '\n' = init ++ (s.stdoutLine ++ text ++ t).splitOn '\n')
    (hseen : s.seen = init.foldl (recordEvent env rt) {}) :
    ∃ init' last', Kept env rt (takeLines env rt s text) cs init' last' := by
  obtain ⟨more, last', hlast, hmore⟩ := exists_last (s.stdoutLine ++ text)
  have hsplit : (s.stdoutLine ++ text).splitOn '\n' = more ++ [last'] := by
    have := hmore []
    rwa [List.append_nil, List.append_nil, List.splitOn_eq_singleton hlast] at this
  refine ⟨init ++ more, last', fun t => by rw [hlines, hmore, List.append_assoc], hlast, ?_, ?_⟩
  · simp only [takeLines, hsplit, List.dropLast_concat, hseen, List.foldl_append]
    split_ifs <;> rfl
  · by_cases hlong : maxLineBytes < (Utf8.encode last').length
    · simp [takeLines, hsplit, hlong]
    · simp [takeLines, hsplit, hlong, hdiscard]

lemma recordEvent_long (seen : Seen) (h : maxLineBytes < (Utf8.encode last).length) :
    recordEvent env rt seen last = seen := by
  rw [recordEvent, eventOf_long env rt h]

lemma kept_stdout (h : Kept env rt s cs init last) (chunk : List UInt8) :
    ∃ init' last', Kept env rt (stdout env rt s chunk) (cs ++ (s.decoder.decode chunk).1)
      init' last' := by
  obtain ⟨hlines, hlast, hseen, hline⟩ := h
  have hnext : ∀ t, (cs ++ (s.decoder.decode chunk).1 ++ t).splitOn '\n' =
      init ++ (last ++ (s.decoder.decode chunk).1 ++ t).splitOn '\n' := by
    intro t
    rw [List.append_assoc, hlines, List.append_assoc]
  rw [stdout]
  generalize hdecode : s.decoder.decode chunk = p at *
  obtain ⟨text, decoder⟩ := p
  dsimp only at hnext ⊢
  cases hd : s.discardingLine with
  | false =>
      rw [hd, if_neg (by simp)] at hline
      rw [if_neg (by simp)]
      refine kept_takeLines rfl (fun t => ?_) hseen
      rw [hnext, hline]
  | true =>
      rw [hd, if_pos rfl] at hline
      obtain ⟨hempty, hlong⟩ := hline
      rw [if_pos rfl]
      by_cases hmem : '\n' ∈ text
      · -- the line that was too long ends in this chunk
        obtain ⟨a, b, rfl, ha⟩ := List.eq_append_cons_of_mem hmem
        have hother : ∀ c ∈ a, c ≠ '\n' := fun c hc h => ha (h ▸ hc)
        have hrest : ((a ++ '\n' :: b).dropWhile (· ≠ '\n')).tail = b := by
          rw [List.dropWhile_append_of_pos fun c hc => by simpa using hother c hc]
          simp
        rw [if_pos hmem, hrest]
        have hover : maxLineBytes < (Utf8.encode (last ++ a)).length := by
          rw [Utf8.encode_append, List.length_append]
          omega
        have hunbroken : '\n' ∉ last ++ a := by simp [hlast, ha]
        have hlines : ∀ t, (cs ++ (a ++ '\n' :: b) ++ t).splitOn '\n' =
            (init ++ [last ++ a]) ++ (s.stdoutLine ++ b ++ t).splitOn '\n' := by
          intro t
          rw [hnext, hempty, ← List.append_assoc last, List.append_assoc (last ++ a),
            List.cons_append, List.splitOn_append_cons_self, List.splitOn_eq_singleton hunbroken,
            List.append_assoc, List.nil_append]
        refine kept_takeLines rfl hlines ?_
        rw [List.foldl_append, ← hseen]
        exact (recordEvent_long _ hover).symm
      · rw [if_neg hmem]
        refine ⟨init, last ++ text, hnext, by simp [hlast, hmem], hseen, ?_⟩
        refine ⟨hempty, ?_⟩
        rw [Utf8.encode_append, List.length_append]
        omega

end

/-! ### Runs -/

/-- Where the diagnostics are after bytes of either stream. -/
structure Reached (env : Engine) (rt : Runtime) (s : State) (out err : List UInt8) : Prop where
  stdoutBytes : s.stdoutBytes = out.length
  stderrBytes : s.stderrBytes = err.length
  finished : s.finished = false
  decoder : s.decoder = Decoder.after out
  kept : ∃ init last, Kept env rt s (shown out) init last

section

variable {env : Engine} {rt : Runtime} {s : State} {out err : List UInt8}

lemma reached_init : Reached env rt {} [] [] where
  stdoutBytes := rfl
  stderrBytes := rfl
  finished := rfl
  decoder := rfl
  kept := ⟨[], [], fun _ => rfl, List.not_mem_nil, rfl, rfl⟩

lemma reached_step (h : Reached env rt s out err) (chunk : Chunk) :
    Reached env rt (step env rt s chunk) (out ++ outBytes [chunk]) (err ++ errBytes [chunk]) := by
  obtain ⟨hout, herr, hfin, hdec, init, last, hkept⟩ := h
  cases chunk with
  | stderr bytes =>
      simp only [outBytes, errBytes, List.append_nil]
      exact ⟨hout, by simp [step, stderr, herr], hfin, hdec, init, last,
        ⟨hkept.lines, hkept.unbroken, hkept.seen, hkept.line⟩⟩
  | stdout bytes =>
      simp only [outBytes, errBytes, List.append_nil]
      obtain ⟨hafter, hshown⟩ := decode_after out bytes
      have hnext := kept_stdout hkept bytes
      rw [hdec, ← hshown] at hnext
      have hframe : (stdout env rt s bytes).stdoutBytes = s.stdoutBytes + bytes.length ∧
          (stdout env rt s bytes).stderrBytes = s.stderrBytes ∧
          (stdout env rt s bytes).finished = s.finished ∧
          (stdout env rt s bytes).decoder = (s.decoder.decode bytes).2 := by
        simp only [stdout, takeLines]
        split_ifs <;> exact ⟨rfl, rfl, rfl, rfl⟩
      obtain ⟨h1, h2, h3, h4⟩ := hframe
      exact ⟨by rw [step, h1, hout, List.length_append], h2.trans herr, h3.trans hfin,
        by rw [step, h4, hdec, hafter], hnext⟩

lemma outBytes_append (a b : List Chunk) : outBytes (a ++ b) = outBytes a ++ outBytes b := by
  induction a with
  | nil => rfl
  | cons c a ih => cases c <;> simp [outBytes, ih]

lemma errBytes_append (a b : List Chunk) : errBytes (a ++ b) = errBytes a ++ errBytes b := by
  induction a with
  | nil => rfl
  | cons c a ih => cases c <;> simp [errBytes, ih]

lemma reached_run (env : Engine) (rt : Runtime) (chunks : List Chunk) :
    Reached env rt (run env rt chunks) (outBytes chunks) (errBytes chunks) := by
  induction chunks using List.reverseRecOn with
  | nil => exact reached_init
  | append_singleton chunks chunk ih =>
      rw [run, List.foldl_append, outBytes_append, errBytes_append]
      exact reached_step ih chunk

/-- What has been seen when the diagnostics are finished. -/
lemma report_of_reached (h : Reached env rt s out err) (code : Option ℤ) :
    (failure env rt s code).map Prod.fst =
      .ok (report env code (summary rt (events env rt out)) out.length err.length) := by
  obtain ⟨hout, herr, hfin, hdec, init, last, hlines, hlast, hseen, hline⟩ := h
  have hflush : '\n' ∉ (Decoder.after out).flush := by
    rw [Decoder.flush]
    split_ifs <;> decide
  have hall : events env rt out =
      (init ++ [last ++ (Decoder.after out).flush]).filterMap (eventOf env rt) := by
    rw [events, decoded_eq, hlines, List.splitOn_eq_singleton (by simp [hlast, hflush])]
  have hfinal : (if (if s.discardingLine then [] else s.stdoutLine ++ s.decoder.flush) = []
      then s.seen else recordEvent env rt s.seen
        (if s.discardingLine then [] else s.stdoutLine ++ s.decoder.flush)) =
      summary rt (events env rt out) := by
    rw [hall, ← foldl_recordEvent, List.foldl_append, ← hseen, List.foldl_cons, List.foldl_nil,
      ← hdec]
    split_ifs at hline with hd
    · rw [if_pos hd, if_pos rfl, recordEvent_long]
      rw [Utf8.encode_append, List.length_append]
      omega
    · rw [if_neg hd, hline]
      split_ifs with hnil
      · rw [hnil, recordEvent, eventOf_nil]
      · rfl
  rw [failure, if_neg (by simp [hfin])]
  simp only [Except.map, hfinal, hout, herr]

end

/-- **What is said of a failed agent is a matter of the bytes alone.** For either runtime, in
whatever chunks both streams come and in whatever order, the text tells the events of the decoded
output: of the lines between newlines, and of what is behind the last one, those of at most 65536
bytes that are objects of a known type, each type with their number; and the status in the last
error event, or the one that the last message with an error begins with. Chunks of the same bytes
make the same text. -/
theorem failureText_eq (env : Engine) (rt : Runtime) (chunks : List Chunk) (code : Option ℤ) :
    failureText env rt chunks code =
        .ok (report env code (summary rt (events env rt (outBytes chunks)))
          (outBytes chunks).length (errBytes chunks).length) ∧
      ∀ chunks', outBytes chunks' = outBytes chunks →
        (errBytes chunks').length = (errBytes chunks).length →
        failureText env rt chunks' code = failureText env rt chunks code := by
  have hrun := fun c => report_of_reached (reached_run env rt c) code
  refine ⟨hrun chunks, fun chunks' hout herr => ?_⟩
  rw [failureText, failureText, hrun, hrun, hout, herr]

/-- An engine for outputs whose lines are all one event. -/
def sampleEngine : Engine where
  parse cs := if cs = "\x7b\"type\":\"text\"\x7d".toList then
      some (.obj [(lit "type", .str (lit "text"))])
    else none
  localeLe _ _ := true

def sampleLine : List UInt8 := Utf8.encode "\x7b\"type\":\"text\"\x7d".toList

/-- An event that is cut within its type, and one that has not ended. -/
theorem failureText_eq_sample :
    failureText sampleEngine .opencode
        [.stdout (sampleLine.take 10), .stdout (sampleLine.drop 10 ++ 10 :: sampleLine)] (some 1) =
      failureText sampleEngine .opencode [.stdout (sampleLine ++ 10 :: sampleLine)] (some 1) ∧
    failureText sampleEngine .opencode [.stdout (sampleLine ++ 10 :: sampleLine)] (some 1) =
      .ok "agent exited 1; events=text:2; stdoutBytes=31; stderrBytes=0" :=
  ⟨(failureText_eq sampleEngine .opencode [.stdout (sampleLine ++ 10 :: sampleLine)] (some 1)).2
    [.stdout (sampleLine.take 10), .stdout (sampleLine.drop 10 ++ 10 :: sampleLine)]
    (by decide +kernel) rfl, by decide +kernel⟩

end Bimo.Diagnostics
