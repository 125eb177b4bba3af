import Mathlib

/-!
The worker protocol's frames and the bytes they take on the pipe.

A frame is written as one line of compact JSON. Both sides escape a string the same way, so
the length of a line is the sum of what its characters take once escaped, and the limit on a
frame is a limit on that sum.
-/

namespace Bimo.Wire

/-- A JSON value; a number is kept as it is written. -/
inductive Json
  | null
  | bool (b : Bool)
  | num (text : String)
  | str (s : String)
  | arr (l : List Json)
  | obj (l : List (String × Json))

def Json.get (key : String) : Json → Option Json
  | .obj l => l.lookup key
  | _ => none

def Json.asStr : Json → Option String
  | .str s => some s
  | _ => none

def Json.isObject : Json → Bool
  | .obj _ => true
  | _ => false

/-! ### Text -/

def hexDigit (n : ℕ) : Char := if n < 10 then Char.ofNat (48 + n) else Char.ofNat (87 + n)

/-- How a character stands inside a JSON string. -/
def escape (c : Char) : List Char :=
  if c = '"' then ['\\', '"']
  else if c = '\\' then ['\\', '\\']
  else if c = '\x08' then ['\\', 'b']
  else if c = '\x0c' then ['\\', 'f']
  else if c = '\n' then ['\\', 'n']
  else if c = '\r' then ['\\', 'r']
  else if c = '\t' then ['\\', 't']
  else if c.toNat < 32 then ['\\', 'u', '0', '0', hexDigit (c.toNat / 16), hexDigit (c.toNat % 16)]
  else [c]

/-- The characters with an escape of two, and the second of these. -/
def shortEscapes : List (Char × Char) :=
  [('"', '"'), ('\\', '\\'), ('\x08', 'b'), ('\x0c', 'f'), ('\n', 'n'), ('\r', 'r'), ('\t', 't')]

/-- The three ways of a character in a string. -/
lemma escape_cases (c : Char) :
    (∃ d, (c, d) ∈ shortEscapes ∧ escape c = ['\\', d]) ∨
    c ∉ shortEscapes.map Prod.fst ∧
      (c.toNat < 32 ∧ escape c =
        ['\\', 'u', '0', '0', hexDigit (c.toNat / 16), hexDigit (c.toNat % 16)] ∨
      32 ≤ c.toNat ∧ escape c = [c]) := by
  by_cases hc : c ∈ shortEscapes.map Prod.fst
  · left
    have hall : ∀ p ∈ shortEscapes, escape p.1 = ['\\', p.2] := by decide
    obtain ⟨⟨c, d⟩, hp, rfl⟩ := List.mem_map.mp hc
    exact ⟨d, hp, hall _ hp⟩
  · refine .inr ⟨hc, ?_⟩
    simp only [shortEscapes, List.map_cons, List.map_nil, List.mem_cons, List.not_mem_nil,
      or_false, not_or] at hc
    obtain ⟨h1, h2, h3, h4, h5, h6, h7⟩ := hc
    rw [escape, if_neg h1, if_neg h2, if_neg h3, if_neg h4, if_neg h5, if_neg h6, if_neg h7]
    split_ifs with h8
    · exact .inl ⟨h8, rfl⟩
    · exact .inr ⟨Nat.le_of_not_lt h8, rfl⟩

def quote (s : String) : List Char := '"' :: (s.toList.flatMap escape ++ ['"'])

mutual

/-- The compact text of a value. -/
def text : Json → List Char
  | .null => "null".toList
  | .bool b => (if b then "true" else "false").toList
  | .num t => t.toList
  | .str s => quote s
  | .arr l => '[' :: (textList l ++ [']'])
  | .obj l => '{' :: (textFields l ++ ['}'])

def textList : List Json → List Char
  | [] => []
  | [v] => text v
  | v :: l => text v ++ ',' :: textList l

def textFields : List (String × Json) → List Char
  | [] => []
  | [(k, v)] => quote k ++ ':' :: text v
  | (k, v) :: l => quote k ++ ':' :: text v ++ ',' :: textFields l

end

/-! ### Bytes -/

/-- The bytes of a text in UTF-8. -/
def bytes (cs : List Char) : ℕ := (cs.map Char.utf8Size).sum

/-- The length of a string as the engine counts it. -/
def len (s : String) : ℕ := bytes s.toList

@[simp] lemma bytes_nil : bytes [] = 0 := rfl

@[simp] lemma bytes_cons (c : Char) (cs : List Char) : bytes (c :: cs) = c.utf8Size + bytes cs := by
  simp [bytes]

@[simp] lemma bytes_append (a b : List Char) : bytes (a ++ b) = bytes a + bytes b := by
  simp [bytes]

/-- What a character takes inside a JSON string. -/
def escapedSize (c : Char) : ℕ :=
  if c = '"' ∨ c = '\\' ∨ c = '\x08' ∨ c = '\x0c' ∨ c = '\n' ∨ c = '\r' ∨ c = '\t' then 2
  else if c.toNat < 32 then 6
  else c.utf8Size

/-- What a string takes inside a JSON string, without the quotes. -/
def escapedLen (s : String) : ℕ := (s.toList.map escapedSize).sum

lemma utf8Size_hexDigit {n : ℕ} (h : n < 16) : (hexDigit n).utf8Size = 1 := by
  have hall : ∀ m < 16, (hexDigit m).utf8Size = 1 := by decide
  exact hall n h

lemma escapedSize_eq (c : Char) : escapedSize c =
    if c ∈ shortEscapes.map Prod.fst then 2 else if c.toNat < 32 then 6 else c.utf8Size := by
  simp only [escapedSize, shortEscapes, List.map_cons, List.map_nil, List.mem_cons,
    List.not_mem_nil, or_false]

lemma bytes_escape (c : Char) : bytes (escape c) = escapedSize c := by
  rw [escapedSize_eq]
  obtain ⟨d, hd, h⟩ | ⟨hc, ⟨hlow, h⟩ | ⟨hhigh, h⟩⟩ := escape_cases c
  · have hall : ∀ p ∈ shortEscapes, bytes ['\\', p.2] = 2 := by decide
    rw [h, hall _ hd, if_pos (List.mem_map_of_mem hd)]
  · have hpre : Char.utf8Size '\\' = 1 ∧ Char.utf8Size 'u' = 1 ∧ Char.utf8Size '0' = 1 := by decide
    have hhex := utf8Size_hexDigit (n := c.toNat % 16) (Nat.mod_lt _ (by decide))
    have hhex' := utf8Size_hexDigit (n := c.toNat / 16) (by omega)
    rw [h, if_neg hc, if_pos hlow]
    simp only [bytes_cons, bytes_nil, hpre, hhex, hhex']
  · rw [h, if_neg hc, if_neg (Nat.not_lt.mpr hhigh), bytes_cons, bytes_nil, Nat.add_zero]

@[simp] lemma bytes_quote (s : String) : bytes (quote s) = escapedLen s + 2 := by
  have hbody : ∀ cs : List Char, bytes (cs.flatMap escape) = (cs.map escapedSize).sum := by
    intro cs
    induction cs with
    | nil => rfl
    | cons c cs ih => simp [bytes_escape, ih]
  have hq : Char.utf8Size '"' = 1 := by decide
  unfold quote escapedLen
  rw [bytes_cons, bytes_append, hbody, bytes_cons, bytes_nil, hq]
  omega

/-! ### Cut texts -/

/-- The length of a text in UTF-16 units. -/
def utf16Length (s : String) : ℕ := (s.toList.map fun c => if c.toNat < 65536 then 1 else 2).sum

/-- `slice(0, n)`, which counts UTF-16 units: the cut can fall between the two units of a character,
and `half` stands for the one that is left of it. -/
def slice (half : Char) : ℕ → List Char → List Char
  | 0, _ => []
  | _, [] => []
  | n + 1, c :: cs =>
    if c.toNat < 65536 then c :: slice half n cs
    else match n with
      | 0 => [half]
      | n + 1 => c :: slice half n cs

lemma slice_short (half : Char) (n : ℕ) {c : Char} (hc : c.toNat < 65536) (cs : List Char) :
    slice half (n + 1) (c :: cs) = c :: slice half n cs := by
  cases n <;> exact if_pos hc

lemma slice_long (half : Char) (n : ℕ) {c : Char} (hc : ¬c.toNat < 65536) (cs : List Char) :
    slice half (n + 2) (c :: cs) = c :: slice half n cs := if_neg hc

lemma length_slice (half : Char) (n : ℕ) (cs : List Char) : (slice half n cs).length ≤ n := by
  fun_induction slice half n cs with
  | case1 => exact le_rfl
  | case2 => exact Nat.zero_le _
  | case3 n c cs hc ih => exact Nat.succ_le_succ ih
  | case4 => exact le_rfl
  | case5 c cs hc n ih =>
      rw [List.length_cons]
      omega

/-- What is kept of a text is its own, but for half of a character. -/
lemma mem_of_mem_slice {half : Char} {n : ℕ} {cs : List Char} {c : Char}
    (h : c ∈ slice half n cs) : c ∈ cs ∨ c = half := by
  fun_induction slice half n cs with
  | case1 => cases h
  | case2 => cases h
  | case3 n d cs hd ih =>
      rcases List.mem_cons.mp h with rfl | h
      · exact .inl List.mem_cons_self
      · exact (ih h).imp_left (List.mem_cons_of_mem _)
  | case4 => exact .inr (List.mem_singleton.mp h)
  | case5 d cs hd n ih =>
      rcases List.mem_cons.mp h with rfl | h
      · exact .inl List.mem_cons_self
      · exact (ih h).imp_left (List.mem_cons_of_mem _)

/-- A front of short characters is kept. -/
lemma slice_append {cs : List Char} (half : Char) (n : ℕ) (l : List Char)
    (hcs : cs.all (fun c => decide (c.toNat < 65536)) = true) :
    slice half (cs.length + n) (cs ++ l) = cs ++ slice half n l := by
  induction cs with
  | nil => simp
  | cons c cs ih =>
      rw [List.all_cons, Bool.and_eq_true, decide_eq_true_eq] at hcs
      have hlen : (c :: cs).length + n = cs.length + n + 1 := by
        simp only [List.length_cons]
        omega
      rw [hlen, List.cons_append, slice_short half _ hcs.1, ih hcs.2, List.cons_append]

/-! ### Frames -/

def version : String := "agent-worker/v1"

inductive Direction
  | workerToControl | controlToWorker
  deriving DecidableEq, Repr

def Direction.name : Direction → String
  | .workerToControl => "worker_to_control"
  | .controlToWorker => "control_to_worker"

inductive FrameType
  | hello | helloAck | workRequest | toolCall | toolResult | cancel | cancelAck | terminal
  | heartbeat | shutdown | shutdownAck | protocolError
  deriving DecidableEq, Repr

def FrameType.name : FrameType → String
  | .hello => "hello"
  | .helloAck => "hello_ack"
  | .workRequest => "work_request"
  | .toolCall => "tool_call"
  | .toolResult => "tool_result"
  | .cancel => "cancel"
  | .cancelAck => "cancel_ack"
  | .terminal => "terminal"
  | .heartbeat => "heartbeat"
  | .shutdown => "shutdown"
  | .shutdownAck => "shutdown_ack"
  | .protocolError => "protocol_error"

structure Frame where
  protocol : String := version
  direction : Direction
  kind : FrameType
  factoryGen : ℕ
  pod : String
  session : String
  seq : ℕ
  requestId : Option String := none
  toolCallId : Option String := none
  payload : Json

def ofOption : Option String → Json
  | some s => .str s
  | none => .null

def ofNat (n : ℕ) : Json := .num (toString n)

/-- A frame as the control side writes it: an absent id is a null. -/
def Frame.toJson (f : Frame) : Json :=
  .obj [("protocol", .str f.protocol), ("direction", .str f.direction.name),
    ("type", .str f.kind.name), ("factory_gen", ofNat f.factoryGen), ("pod", .str f.pod),
    ("session", .str f.session), ("seq", ofNat f.seq), ("request_id", ofOption f.requestId),
    ("tool_call_id", ofOption f.toolCallId), ("payload", f.payload)]

/-- The bytes of a frame's line, without the newline. -/
@[irreducible] def Frame.size (f : Frame) : ℕ := bytes (text f.toJson)

/-! ### What a payload has to be -/

def requireString (payload : Json) (key : String) : Except String String :=
  match (payload.get key).bind Json.asStr with
  | some s =>
    if s = "" then .error ("frame payload field " ++ key ++ " must be a non-empty string") else .ok s
  | none => .error ("frame payload field " ++ key ++ " must be a non-empty string")

def validatePayload (f : Frame) : Except String Unit :=
  if !f.payload.isObject then .error "frame payload must be an object"
  else match f.kind with
  | .hello => do
    let _ ← requireString f.payload "engine"
    let _ ← requireString f.payload "launch_fingerprint"
  | .toolCall => do
    let _ ← requireString f.payload "name"
    if ((f.payload.get "arguments").map Json.isObject).getD false then return ()
    else .error "tool call arguments must be an object"
  | .terminal => do
    let status ← requireString f.payload "status"
    if status = "success" then do
      let _ ← requireString f.payload "output"
    else if status = "failed" then do
      let _ ← requireString f.payload "code"
      let _ ← requireString f.payload "message"
    else if status = "cancelled" then return ()
    else .error "terminal status is not recognized"
  | .cancelAck | .shutdownAck => do
    let _ ← requireString f.payload "status"
  | .protocolError => do
    let _ ← requireString f.payload "status"
    let _ ← requireString f.payload "error"
  | .toolResult | .helloAck | .workRequest | .cancel | .heartbeat | .shutdown => return ()

/-- What is left of parsing a line that holds a frame of `size` bytes. -/
def parse (f : Frame) (size max : ℕ) : Except String Frame :=
  if size > max then .error "protocol frame exceeds limit"
  else if f.protocol ≠ version then .error "unsupported worker protocol"
  else do
    validatePayload f
    return f

/-! ### The control side's machine -/

inductive ControlState
  | awaitHello | ready | working | cancelling | terminalPersisted | exiting | stopped
  deriving DecidableEq, Repr

structure Machine where
  state : ControlState
  workerSeq : ℕ
  session : String
  deriving DecidableEq, Repr

namespace Machine

def transition : ControlState → FrameType → Option ControlState
  | .awaitHello, .hello => some .ready
  | .working, .heartbeat | .working, .toolCall => some .working
  | .working, .terminal => some .terminalPersisted
  | .cancelling, .cancelAck => some .exiting
  | .exiting, .shutdownAck => some .stopped
  | _, _ => none

def accept (m : Machine) (f : Frame) : Except String Machine :=
  if f.session ≠ m.session ∨ f.seq ≠ m.workerSeq + 1 then .error "stale or out-of-order frame"
  else match transition m.state f.kind with
  | some next => .ok { m with workerSeq := f.seq, state := next }
  | none => .error "illegal protocol transition"

def beginWork (m : Machine) : Except String Machine :=
  if m.state ≠ .ready then .error "worker is not ready" else .ok { m with state := .working }

def terminalDurable (m : Machine) : Except String Machine :=
  if m.state ≠ .terminalPersisted then .error "terminal was not received"
  else .ok { m with state := .ready }

def beginCancel (m : Machine) : Except String Machine :=
  if m.state ≠ .working then .error "worker has no active turn"
  else .ok { m with state := .cancelling }

end Machine

end Bimo.Wire
