import Bimo.Closing
import Bimo.Lossy
import Bimo.PodInbox
import Bimo.Sizes
import Bimo.WorkflowLog

/-!
A run as it is followed.

The command line reads the log of a run again and again while it is written, from where the last
read has ended. A read sees at most so many bytes and gives the whole lines among them. What is
shown is the log, line by line, as long as each line fits into what a read sees: behind a line
that does not fit, no read gets any further.
-/

namespace Bimo.Follow

open Wire (Json text ofNat parseJson bytes len)
open PodStore (Fields field require require_eq isRunId trimEnd)
open Contract (natOf isBlank maxSafeInteger)
open Utf8 (encode lossy)

abbrev File := List UInt8

def newline : UInt8 := 10

/-- `TAIL_CHUNK_BYTES` -/
def tailChunkBytes : ℕ := 64 * 1024 + 1

/-- The bytes that the output of a read may have. -/
def maxOutputBytes : ℕ := 256 * 1024

/-! ### A read -/

def lastIndexOf (b : UInt8) (buffer : List UInt8) : Option ℕ :=
  (buffer.reverse.idxOf? b).map fun i => buffer.length - 1 - i

structure Update where
  runId : String
  offset : ℕ
  size : ℕ
  chunk : String
  deriving DecidableEq

/-- The command in the container. An offset has fifteen digits at most. -/
def internalTail (runId : String) (file : File) (after : ℕ) : Except String Update := do
  require (isRunId runId) "invalid run ID"
  require (after < 10 ^ 15) "--after is invalid"
  let offset := if file.length < after then 0 else after
  let buffer := (file.drop offset).take tailChunkBytes
  match lastIndexOf newline buffer with
  | some i =>
    pure ⟨runId, offset + i + 1, file.length, String.ofList (lossy (buffer.take (i + 1)))⟩
  | none => pure ⟨runId, offset, file.length, ""⟩

def Update.json (u : Update) : Json :=
  .obj [("runId", .str u.runId), ("offset", ofNat u.offset), ("size", ofNat u.size),
    ("chunk", .str u.chunk)]

def Update.stdout (u : Update) : List Char := text u.json ++ ['\n']

def trim (cs : List Char) : List Char := trimEnd (cs.dropWhile isBlank)

/-- What is read must be an update in order, with a number that is written as a natural. -/
def parseTailUpdate (stdout : List Char) : Except String Update :=
  let value := ((trim stdout).splitOn '\n').getLast?.bind parseJson
  match value.bind (·.get "runId"), value.bind (·.get "offset"), value.bind (·.get "size"),
    value.bind (·.get "chunk") with
  | some (.str runId), some offset, some size, some (.str chunk) =>
    match natOf offset, natOf size with
    | some offset, some size => do
      require (isRunId runId ∧ offset ≤ maxSafeInteger ∧ size ≤ maxSafeInteger ∧ offset ≤ size ∧
        len chunk ≤ tailChunkBytes) "follow update is invalid"
      pure ⟨runId, offset, size, chunk⟩
    | _, _ => .error "follow update is invalid"
  | _, _, _, _ => .error "follow update is invalid"

/-- One read of the command line; there is nothing where the command or the check fails. -/
def readChunk (runId : String) (file : File) (after : ℕ) : Option Update :=
  match internalTail runId file after with
  | .ok u => if bytes u.stdout ≤ maxOutputBytes then (parseTailUpdate u.stdout).toOption else none
  | .error _ => none

/-! ### Reading again and again -/

structure Reader where
  offset : ℕ := 0
  chunks : List String := []

/-- What is read moves the offset; an empty chunk is not shown. -/
def Reader.take (r : Reader) (u : Update) : Reader :=
  ⟨u.offset, if u.chunk = "" then r.chunks else r.chunks ++ [u.chunk]⟩

/-- One turn of `streamRunProgress`. There may be no file yet, and a read that fails changes
nothing. -/
def poll (runId : String) (r : Reader) (file : Option File) : Reader :=
  match file.bind fun file => readChunk runId file r.offset with
  | some u => r.take u
  | none => r

def streamRunProgress (runId : String) (polls : List (Option File)) : Reader :=
  polls.foldl (poll runId) {}

/-- A read that fails ends it. -/
def followLogs (runId : String) : Reader → List File → Option Reader
  | r, [] => some r
  | r, file :: files =>
    match readChunk runId file r.offset with
    | some u => followLogs runId (r.take u) files
    | none => none

/-- The lines of a chunk as they are shown. -/
def linesOf (chunk : String) : List (List Char) := (trimEnd chunk.toList).splitOn '\n'

def Reader.shown (r : Reader) : List (List Char) := r.chunks.flatMap linesOf

/-! ### A log that grows -/

/-- What is put on record: an object that is written as JSON. -/
structure Event where
  fields : Fields
  wellFormed : (Json.obj fields).WellFormed

def Event.line (e : Event) : List Char := text (.obj e.fields)

def logText (events : List Event) : List Char := events.flatMap fun e => e.line ++ ['\n']

def log (events : List Event) : File := encode (logText events)

/-- Each file that is looked at is a part of the log, and goes on with the one before. -/
def Grows (events : List Event) (polls : List (Option File)) : Prop :=
  (polls.filterMap id).Pairwise (· <+: ·) ∧ ∀ file ∈ polls.filterMap id, file <+: log events

/-- However the log grows, each of its lines is shown once and in order, and a read gets further
where there is a whole line more. -/
structure FollowedOnce (runId : String) (events : List Event) : Prop where
  shown : ∀ polls, Grows events polls → ∃ k,
    (streamRunProgress runId polls).offset = (log (events.take k)).length ∧
      (streamRunProgress runId polls).shown = (events.take k).map Event.line
  advances : ∀ polls (file : File), Grows events (polls ++ [some file]) →
    newline ∈ file.drop (streamRunProgress runId polls).offset →
      (streamRunProgress runId polls).offset <
        (streamRunProgress runId (polls ++ [some file])).offset
  followLogs : ∀ files, Grows events (files.map some) →
    followLogs runId {} files = some (streamRunProgress runId (files.map some))

/-- The line and its end are seen by one read. -/
def Event.Fits (e : Event) : Prop := bytes e.line + 1 ≤ tailChunkBytes

instance (e : Event) : Decidable e.Fits :=
  inferInstanceAs (Decidable (bytes e.line + 1 ≤ tailChunkBytes))

/-! ### The last line of a buffer -/

lemma lastIndexOf_eq_none {b : UInt8} {l : List UInt8} : lastIndexOf b l = none ↔ b ∉ l := by
  rw [lastIndexOf, Option.map_eq_none_iff, List.idxOf?_eq_none_iff, List.mem_reverse]

lemma lastIndexOf_of_last {b : UInt8} (l : List UInt8) {r : List UInt8} (h : b ∉ r) :
    lastIndexOf b (l ++ b :: r) = some l.length := by
  have hidx : (l ++ b :: r).reverse.idxOf? b = some r.length := by
    have hrev : (l ++ b :: r).reverse = r.reverse ++ b :: l.reverse := by simp
    have hmem : b ∉ r.reverse := by simpa using h
    rw [hrev, List.idxOf?_eq_some_iff]
    refine ⟨by simp, by simp, fun j hj => ?_⟩
    rw [List.getElem_append_left (by simpa using hj)]
    exact fun heq => hmem (heq ▸ List.getElem_mem _)
  rw [lastIndexOf, hidx, Option.map_some, Option.some_inj]
  simp only [List.length_append, List.length_cons]
  omega

/-- A byte that is there is the last one somewhere. -/
lemma exists_last {b : UInt8} {l : List UInt8} (h : b ∈ l) : ∃ a r, l = a ++ b :: r ∧ b ∉ r := by
  induction l with
  | nil => cases h
  | cons c l ih =>
      by_cases hl : b ∈ l
      · obtain ⟨a, r, rfl, hr⟩ := ih hl
        exact ⟨c :: a, r, rfl, hr⟩
      · obtain rfl := (List.mem_cons.mp h).resolve_right hl
        exact ⟨[], l, rfl, hl⟩

/-! ### The lines of a log -/

@[simp] lemma log_nil : log [] = [] := rfl

lemma log_cons (e : Event) (events : List Event) :
    log (e :: events) = encode e.line ++ newline :: log events := by
  have hnl : String.utf8EncodeChar '\n' = [newline] := by decide
  simp [log, logText, Utf8.encode_append, hnl]

lemma log_append (a b : List Event) : log (a ++ b) = log a ++ log b := by
  simp [log, logText, Utf8.encode_append]

lemma length_encode (cs : List Char) : (encode cs).length = bytes cs := by
  induction cs with
  | nil => rfl
  | cons c cs ih => simp [ih]

lemma Event.newline_not_mem (e : Event) : newline ∉ encode e.line := by
  intro h
  obtain ⟨c, hc, heq⟩ := Utf8.mem_of_mem_encode (by decide) h
  have hchar : c = '\n' := Char.ext (UInt32.toNat_inj.mp heq)
  exact Wire.newline_not_mem_text e.wellFormed (hchar ▸ hc)

/-- A part of a log that ends with a newline is a log. -/
lemma exists_take_of_prefix {events : List Event} {p : List UInt8}
    (h : p ++ [newline] <+: log events) : ∃ k, p ++ [newline] = log (events.take k) := by
  induction events generalizing p with
  | nil => simp at h
  | cons e events ih =>
      obtain ⟨t, ht⟩ := h
      rw [log_cons, List.append_assoc, List.singleton_append] at ht
      have hone : encode e.line ++ [newline] = log ((e :: events).take 1) := by simp [log_cons]
      obtain ⟨a, hline, hrest⟩ | ⟨c, rfl, hrest⟩ := List.append_eq_append_iff.mp ht
      · cases a with
        | nil =>
            rw [List.append_nil] at hline
            exact ⟨1, hline ▸ hone⟩
        | cons b a =>
            obtain ⟨rfl, -⟩ := List.cons.inj hrest
            exact absurd (by simp [hline]) e.newline_not_mem
      · cases c with
        | nil => exact ⟨1, by simpa using hone⟩
        | cons b c =>
            obtain ⟨rfl, htail⟩ := List.cons.inj hrest
            obtain ⟨k, hk⟩ := ih (p := c) ⟨t, by simp [htail]⟩
            exact ⟨k + 1, by simp [log_cons, ← hk]⟩

lemma Event.bytes_le {e : Event} {events : List Event} (h : e ∈ events) :
    bytes e.line + 1 ≤ (log events).length := by
  obtain ⟨a, b, rfl⟩ := List.append_of_mem h
  rw [log_append, log_cons]
  simp only [List.length_append, List.length_cons, length_encode]
  omega

/-! ### A chunk of whole lines -/

lemma lossy_log (events : List Event) : lossy (log events) = logText events := by
  have h := Utf8.lossy_encode_append (logText events) []
  simp only [List.append_nil] at h
  rw [log, h]
  exact List.append_nil _

lemma logText_eq (events : List Event) :
    logText events = (events.map fun e => Json.obj e.fields).flatMap fun v => text v ++ ['\n'] := by
  rw [List.flatMap_map]
  rfl

/-- What is shown of a chunk are its lines. -/
lemma linesOf_logText {events : List Event} (h : events ≠ []) :
    linesOf (String.ofList (logText events)) = events.map Event.line := by
  have hne : (events.map fun e => Json.obj e.fields) ≠ [] := by simpa using h
  have hobj : ∀ v ∈ events.map fun e => Json.obj e.fields, v.isObject = true := by
    intro v hv
    obtain ⟨e, -, rfl⟩ := List.mem_map.mp hv
    rfl
  obtain ⟨cs, hcs⟩ := PodStore.lines_end hne hobj
  have htrim : trimEnd (logText events) =
      ['\n'].intercalate ((events.map fun e => Json.obj e.fields).map text) := by
    rw [logText_eq, PodStore.lines_eq hne, trimEnd, List.rdropWhile_concat_pos _ _ _ (by decide),
      hcs, List.rdropWhile_concat_neg _ _ _ (by decide)]
  rw [linesOf, String.toList_ofList, htrim, List.splitOn_intercalate]
  · rw [List.map_map]
    rfl
  · intro line hline
    simp only [List.mem_map, exists_exists_and_eq_and] at hline
    obtain ⟨e, -, rfl⟩ := hline
    exact Wire.newline_not_mem_text e.wellFormed
  · simpa using h

lemma le_or_newline_of_mem {events : List Event} {c : Char} (h : c ∈ logText events) :
    32 ≤ c.toNat ∨ c = '\n' := by
  obtain ⟨e, -, hc⟩ := List.mem_flatMap.mp h
  obtain hc | hc := List.mem_append.mp hc
  · exact .inl (Wire.le_toNat_of_mem_text _ e.wellFormed.plain hc)
  · exact .inr (List.mem_singleton.mp hc)

/-- Within a JSON string, such characters take twice as many bytes at most. -/
lemma escapedLen_le_of_lines (cs : List Char) (h : ∀ c ∈ cs, 32 ≤ c.toNat ∨ c = '\n') :
    Wire.escapedLen (String.ofList cs) ≤ 2 * bytes cs := by
  rw [Wire.escapedLen, String.toList_ofList]
  induction cs with
  | nil => simp
  | cons c cs ih =>
      obtain ⟨hc, hcs⟩ := List.forall_mem_cons.mp h
      have hrest := ih hcs
      have hpos := c.utf8Size_pos
      have hone : Wire.escapedSize c ≤ 2 * c.utf8Size := by
        unfold Wire.escapedSize
        split_ifs with hshort hlow
        · omega
        · obtain h | rfl := hc
          · omega
          · simp at hshort
        · omega
      rw [List.map_cons, List.sum_cons, Wire.bytes_cons]
      omega

/-! ### An update, written and read back -/

lemma Update.wellFormed (u : Update) : u.json.WellFormed := by
  refine ⟨by simp, trivial, Wire.isNumber_toString _, Wire.isNumber_toString _, trivial, trivial⟩

lemma trim_stdout (u : Update) : trim u.stdout = text u.json := by
  obtain ⟨cs, hcs⟩ : ∃ cs, text u.json = '{' :: (cs ++ ['}']) :=
    ⟨Wire.textFields _, by rw [Update.json, text]⟩
  have hdrop : u.stdout.dropWhile isBlank = u.stdout := by
    rw [Update.stdout, hcs]
    rfl
  have hend : text u.json = ('{' :: cs) ++ ['}'] := by rw [hcs, List.cons_append]
  rw [trim, hdrop, Update.stdout, trimEnd, List.rdropWhile_concat_pos _ _ _ (by decide), hend,
    List.rdropWhile_concat_neg _ _ _ (by decide)]

/-- **An update comes back.** -/
lemma parseTailUpdate_stdout {u : Update} (hrun : isRunId u.runId = true)
    (hoffset : u.offset ≤ u.size) (hsize : u.size ≤ maxSafeInteger)
    (hchunk : len u.chunk ≤ tailChunkBytes) : parseTailUpdate u.stdout = .ok u := by
  have hnl : '\n' ∉ text u.json := Wire.newline_not_mem_text u.wellFormed
  have hvalue : ((trim u.stdout).splitOn '\n').getLast?.bind parseJson = some u.json := by
    rw [trim_stdout, List.splitOn_eq_singleton hnl, List.getLast?_singleton, Option.bind_some,
      Wire.parseJson_text u.wellFormed]
  have hget : u.json.get "runId" = some (.str u.runId) ∧
      u.json.get "offset" = some (ofNat u.offset) ∧ u.json.get "size" = some (ofNat u.size) ∧
      u.json.get "chunk" = some (.str u.chunk) := ⟨rfl, rfl, rfl, rfl⟩
  obtain ⟨hr, ho, hs, hc⟩ := hget
  have hcheck : require (isRunId u.runId = true ∧ u.offset ≤ maxSafeInteger ∧
      u.size ≤ maxSafeInteger ∧ u.offset ≤ u.size ∧ len u.chunk ≤ tailChunkBytes)
      "follow update is invalid" = .ok () :=
    require_eq.mpr ⟨hrun, hoffset.trans hsize, hsize, hoffset, hchunk⟩
  unfold parseTailUpdate
  simp only [hvalue, Option.bind_some, hr, ho, hs, hc, Contract.natOf_ofNat, hcheck]
  rfl

/-- The output of a read is small enough. -/
lemma bytes_stdout {u : Update} (hrun : isRunId u.runId = true) (hoffset : u.offset ≤ u.size)
    (hsize : u.size < 10 ^ 15) (hchunk : Wire.escapedLen u.chunk ≤ 2 * tailChunkBytes) :
    bytes u.stdout ≤ maxOutputBytes := by
  have hid := PodStore.escapedLen_le u.runId
  have hlen := PodStore.length_of_isRunId hrun
  have hnum : ∀ n < 10 ^ 15, bytes (text (ofNat n)) ≤ 15 := by
    intro n hn
    rw [ofNat, text, Controller.bytes_toString]
    exact Docker.length_digits (by decide) hn
  have hnl : bytes ['\n'] = 1 := by decide
  have hkeys : Wire.escapedLen "runId" = 5 ∧ Wire.escapedLen "offset" = 6 ∧
      Wire.escapedLen "size" = 4 ∧ Wire.escapedLen "chunk" = 5 := by decide
  obtain ⟨hk1, hk2, hk3, hk4⟩ := hkeys
  have ho := hnum u.offset (by omega)
  have hs := hnum u.size hsize
  rw [Update.stdout, Wire.bytes_append, hnl, Update.json, Sizes.bytes_text_obj (by simp)]
  simp only [Sizes.fieldBytes, List.map_cons, List.map_nil, List.sum_cons, List.sum_nil,
    Sizes.bytes_text_str, hk1, hk2, hk3, hk4]
  simp only [tailChunkBytes, maxOutputBytes] at hchunk ⊢
  omega

/-! ### One read -/

variable {runId : String} {events : List Event}

/-- What a read gives behind the first `k` lines: some lines more, or none. -/
lemma internalTail_log {file : File} {k : ℕ} (hrun : isRunId runId = true)
    (hseen : log (events.take k) <+: file) (hlog : file <+: log events)
    (hsize : file.length < 10 ^ 15) :
    ∃ m, internalTail runId file (log (events.take k)).length =
        .ok ⟨runId, (log (events.take (k + m))).length, file.length,
          String.ofList (logText ((events.drop k).take m))⟩ ∧
      log (events.take (k + m)) <+: file ∧
      (log ((events.drop k).take m)).length ≤ tailChunkBytes ∧
      (newline ∈ (file.drop (log (events.take k)).length).take tailChunkBytes →
        (log (events.take k)).length < (log (events.take (k + m))).length) := by
  obtain ⟨rest, rfl⟩ := hseen
  have hrest : rest <+: log (events.drop k) := by
    rw [← List.take_append_drop k events, log_append] at hlog
    simpa using hlog
  have hoffset : ¬ (log (events.take k) ++ rest).length < (log (events.take k)).length := by
    simp
  have hsmall : (log (events.take k)).length < 10 ^ 15 := by
    rw [List.length_append] at hsize
    omega
  have hdrop : (log (events.take k) ++ rest).drop (log (events.take k)).length = rest :=
    List.drop_left
  have hsplit : ∀ m, log (events.take (k + m)) =
      log (events.take k) ++ log ((events.drop k).take m) := by
    intro m
    rw [List.take_add, log_append]
  unfold internalTail
  rw [require_eq.mpr hrun, require_eq.mpr hsmall]
  simp only [bind, Except.bind, if_neg hoffset, hdrop]
  by_cases hmem : newline ∈ rest.take tailChunkBytes
  · obtain ⟨a, r, hbuffer, hr⟩ := exists_last hmem
    have hchunk : (rest.take tailChunkBytes).take (a.length + 1) = a ++ [newline] := by
      rw [hbuffer, List.take_append]
      simp
    have hpre : a ++ [newline] <+: rest := by
      rw [← hchunk]
      exact (List.take_prefix _ _).trans (List.take_prefix _ _)
    obtain ⟨m, hm⟩ := exists_take_of_prefix (hpre.trans hrest)
    have hlen : (log ((events.drop k).take m)).length = a.length + 1 := by
      rw [← hm, List.length_append, List.length_singleton]
    refine ⟨m, ?_, ?_, ?_, ?_⟩
    · rw [hbuffer, lastIndexOf_of_last a hr, ← hbuffer]
      simp only [hchunk, hm, lossy_log, hsplit m, List.length_append, hlen]
      rfl
    · rw [hsplit, ← hm]
      exact (List.prefix_append_right_inj _).mpr hpre
    · have hle := congrArg List.length hbuffer
      simp only [List.length_take, List.length_append, List.length_cons] at hle
      omega
    · intro _
      rw [hsplit, List.length_append, hlen]
      omega
  · refine ⟨0, ?_, ?_, ?_, fun h => absurd h hmem⟩
    · rw [lastIndexOf_eq_none.mpr hmem]
      rfl
    · simp
    · simp

/-- Where a reader is: behind the first `k` lines of the log, which it has shown. -/
structure At (events : List Event) (seen : File) (r : Reader) (k : ℕ) : Prop where
  offset : r.offset = (log (events.take k)).length
  shown : r.shown = (events.take k).map Event.line
  fits : ∀ e ∈ events.take k, e.Fits
  seen : log (events.take k) <+: seen

lemma at_start (events : List Event) (seen : File) : At events seen {} 0 where
  offset := rfl
  shown := rfl
  fits _ h := by simp at h
  seen := by simp

lemma readChunk_eq {file : File} {after : ℕ} {u : Update}
    (htail : internalTail runId file after = .ok u) (hrun : isRunId u.runId = true)
    (hoffset : u.offset ≤ u.size) (hsize : u.size < 10 ^ 15)
    (hchunk : len u.chunk ≤ tailChunkBytes)
    (hescaped : Wire.escapedLen u.chunk ≤ 2 * tailChunkBytes) :
    readChunk runId file after = some u := by
  have hbytes := bytes_stdout hrun hoffset hsize hescaped
  have hmax : u.size ≤ maxSafeInteger := by
    simp only [maxSafeInteger]
    omega
  simp only [readChunk, htail, if_pos hbytes, parseTailUpdate_stdout hrun hoffset hmax hchunk]
  rfl

/-- **One read of a log that has grown.** It succeeds, and the reader is behind as many lines or
more. -/
lemma At.read {seen file : File} {r : Reader} {k : ℕ} (h : At events seen r k)
    (hrun : isRunId runId = true) (hgrown : seen <+: file) (hlog : file <+: log events)
    (hsize : file.length < 10 ^ 15) :
    ∃ u k', readChunk runId file r.offset = some u ∧ At events file (r.take u) k' ∧
      (newline ∈ (file.drop r.offset).take tailChunkBytes → r.offset < (r.take u).offset) := by
  obtain ⟨m, htail, hseen, hchunk, hmore⟩ :=
    internalTail_log hrun (h.seen.trans hgrown) hlog hsize
  rw [← h.offset] at htail
  have hbytes : (log ((events.drop k).take m)).length = bytes (logText ((events.drop k).take m)) :=
    length_encode _
  have hescaped := escapedLen_le_of_lines (logText ((events.drop k).take m))
    fun c hc => le_or_newline_of_mem hc
  have hread := readChunk_eq htail hrun hseen.length_le hsize
    (by rw [len, String.toList_ofList]; omega) (by simp only; omega)
  refine ⟨_, k + m, hread, ⟨rfl, ?_, ?_, hseen⟩, fun hnl => ?_⟩
  · have htake : events.take (k + m) = events.take k ++ (events.drop k).take m := List.take_add
    by_cases hnone : (events.drop k).take m = []
    · rw [htake, hnone, List.append_nil, ← h.shown]
      rfl
    · have hne : String.ofList (logText ((events.drop k).take m)) ≠ "" := by
        intro heq
        have hnil := congrArg String.toList heq
        obtain ⟨e, es, hes⟩ := List.exists_cons_of_ne_nil hnone
        rw [String.toList_ofList, hes] at hnil
        simp [logText] at hnil
      have hchunks : (r.take ⟨runId, (log (events.take (k + m))).length, file.length,
          String.ofList (logText ((events.drop k).take m))⟩).chunks =
          r.chunks ++ [String.ofList (logText ((events.drop k).take m))] := if_neg hne
      rw [Reader.shown, hchunks, List.flatMap_append, ← Reader.shown, h.shown, htake,
        List.map_append, List.flatMap_singleton, linesOf_logText hnone]
  · intro e he
    rw [List.take_add, List.mem_append] at he
    exact he.elim (h.fits e) fun he => (Event.bytes_le he).trans hchunk
  · rw [h.offset] at hnl ⊢
    exact hmore hnl

/-! ### Runs of reads -/

/-- The file as it was seen last. -/
def lastSeen (polls : List (Option File)) : File := (polls.filterMap id).getLast?.getD []

lemma Grows.of_append {polls rest : List (Option File)} (h : Grows events (polls ++ rest)) :
    Grows events polls := by
  obtain ⟨hpair, hlog⟩ := h
  rw [List.filterMap_append] at hpair hlog
  exact ⟨(List.pairwise_append.mp hpair).1, fun f hf => hlog f (List.mem_append_left _ hf)⟩

lemma Grows.last {polls : List (Option File)} {file : File}
    (h : Grows events (polls ++ [some file])) :
    lastSeen polls <+: file ∧ file <+: log events := by
  obtain ⟨hpair, hlog⟩ := h
  rw [List.filterMap_append] at hpair hlog
  refine ⟨?_, hlog file (by simp)⟩
  unfold lastSeen
  cases hlast : (polls.filterMap id).getLast? with
  | none => exact List.nil_prefix
  | some f =>
      exact (List.pairwise_append.mp hpair).2.2 f (List.mem_of_getLast? hlast) file (by simp)

lemma streamRunProgress_snoc (polls : List (Option File)) (file : Option File) :
    streamRunProgress runId (polls ++ [file]) =
      poll runId (streamRunProgress runId polls) file := by
  simp [streamRunProgress]

lemma lastSeen_snoc (polls : List (Option File)) (file : File) :
    lastSeen (polls ++ [some file]) = file := by
  simp [lastSeen, List.filterMap_append]

/-- However the log grows, a reader is behind some line of it. -/
lemma at_stream (hrun : isRunId runId = true) (hsize : (log events).length < 10 ^ 15)
    {polls : List (Option File)} (h : Grows events polls) :
    ∃ k, At events (lastSeen polls) (streamRunProgress runId polls) k := by
  induction polls using List.reverseRecOn with
  | nil => exact ⟨0, at_start _ _⟩
  | append_singleton polls file ih =>
      obtain ⟨k, hk⟩ := ih h.of_append
      rw [streamRunProgress_snoc]
      cases file with
      | none =>
          refine ⟨k, ?_⟩
          have hseen : lastSeen (polls ++ [none]) = lastSeen polls := by
            simp [lastSeen, List.filterMap_append]
          rw [hseen]
          exact hk
      | some file =>
          obtain ⟨hgrown, hlog⟩ := h.last
          obtain ⟨u, k', hread, hat, -⟩ := hk.read hrun hgrown hlog
            (hlog.length_le.trans_lt hsize)
          refine ⟨k', ?_⟩
          rw [lastSeen_snoc]
          simpa [poll, hread] using hat

/-! ### Which logs are followed -/

/-- A newline that is there is within reach of a read, where the next line is. -/
lemma newline_mem_take {seen file : File} {r : Reader} {k : ℕ} (h : At events seen r k)
    (hfits : ∀ e ∈ events, e.Fits) (hgrown : seen <+: file) (hlog : file <+: log events)
    (hnl : newline ∈ file.drop r.offset) :
    newline ∈ (file.drop r.offset).take tailChunkBytes := by
  obtain ⟨rest, rfl⟩ := h.seen.trans hgrown
  have hrest : rest <+: log (events.drop k) := by
    rw [← List.take_append_drop k events, log_append] at hlog
    simpa using hlog
  rw [h.offset, List.drop_left] at hnl ⊢
  cases hdrop : events.drop k with
  | nil =>
      rw [hdrop, log_nil, List.prefix_nil] at hrest
      rw [hrest] at hnl
      cases hnl
  | cons e more =>
      have he : e.Fits := hfits e (List.mem_of_mem_drop (hdrop ▸ List.mem_cons_self))
      obtain ⟨a, b, rfl⟩ := List.append_of_mem hnl
      rw [hdrop, log_cons] at hrest
      -- the first newline of the rest ends the next line
      have hpre : encode e.line ++ [newline] <+: a ++ newline :: b := by
        have hone : encode e.line ++ [newline] <+: encode e.line ++ newline :: log more :=
          ⟨log more, by simp⟩
        refine List.prefix_of_prefix_length_le hone hrest ?_
        by_contra hlen
        have hshort : a ++ newline :: b <+: encode e.line := by
          refine List.prefix_of_prefix_length_le hrest ⟨newline :: log more, rfl⟩ ?_
          simp only [List.length_append, List.length_cons, List.length_nil] at hlen ⊢
          omega
        exact e.newline_not_mem (hshort.subset (by simp))
      have htake : encode e.line ++ [newline] <+: (a ++ newline :: b).take tailChunkBytes := by
        refine List.prefix_take_iff.mpr ⟨hpre, ?_⟩
        rw [List.length_append, length_encode, List.length_singleton]
        exact he
      exact htake.subset (by simp)

lemma followLogs_eq (hrun : isRunId runId = true) (hsize : (log events).length < 10 ^ 15)
    {files : List File} {polls : List (Option File)}
    (h : Grows events (polls ++ files.map some)) :
    followLogs runId (streamRunProgress runId polls) files =
      some (streamRunProgress runId (polls ++ files.map some)) := by
  induction files generalizing polls with
  | nil => simp [followLogs]
  | cons file files ih =>
      rw [List.map_cons, List.append_cons] at h ⊢
      have hpolls := h.of_append
      obtain ⟨hgrown, hlog⟩ := hpolls.last
      obtain ⟨k, hk⟩ := at_stream hrun hsize hpolls.of_append
      obtain ⟨u, -, hread, -⟩ := hk.read hrun hgrown hlog (hlog.length_le.trans_lt hsize)
      have hstep : streamRunProgress runId (polls ++ [some file]) =
          (streamRunProgress runId polls).take u := by
        rw [streamRunProgress_snoc]
        simp [poll, hread]
      rw [followLogs, hread]
      simp only
      rw [← hstep]
      exact ih h

lemma grows_replicate (events : List Event) (n : ℕ) :
    Grows events (List.replicate n (some (log events))) := by
  have hmap : (List.replicate n (some (log events))).filterMap id =
      List.replicate n (log events) := by
    induction n with
    | zero => rfl
    | succ n ih => simp [List.replicate_succ]
  rw [Grows, hmap]
  refine ⟨List.pairwise_replicate.mpr (.inr (List.prefix_refl _)), fun f hf => ?_⟩
  rw [(List.mem_replicate.mp hf).2]

/-- Reads that get further as long as there is a whole line come to the end. -/
lemma exists_end (h : FollowedOnce runId events) :
    ∃ n, newline ∉ (log events).drop
      (streamRunProgress runId (List.replicate n (some (log events)))).offset := by
  by_contra hall
  simp only [not_exists, not_not] at hall
  have hle : ∀ n, n ≤ (streamRunProgress runId (List.replicate n (some (log events)))).offset := by
    intro n
    induction n with
    | zero => exact Nat.zero_le _
    | succ n ih =>
        have hgrows := grows_replicate events (n + 1)
        rw [List.replicate_succ'] at hgrows ⊢
        have := h.advances _ _ hgrows (hall n)
        omega
  have hnone := hall ((log events).length)
  rw [List.drop_eq_nil_of_le (hle _)] at hnone
  cases hnone

lemma fits_of_followedOnce (hrun : isRunId runId = true) (hsize : (log events).length < 10 ^ 15)
    (h : FollowedOnce runId events) : ∀ e ∈ events, e.Fits := by
  obtain ⟨n, hn⟩ := exists_end h
  obtain ⟨k, hk⟩ := at_stream hrun hsize (grows_replicate events n)
  have hdrop : (log events).drop (log (events.take k)).length = log (events.drop k) := by
    conv_lhs => rw [← List.take_append_drop k events, log_append]
    rw [List.take_append_drop, List.drop_left]
  rw [hk.offset, hdrop] at hn
  have hnone : events.drop k = [] := by
    cases hrest : events.drop k with
    | nil => rfl
    | cons e more => exact absurd (by simp [hrest, log_cons]) hn
  have hall : events.take k = events := by
    have hsplit := List.take_append_drop k events
    rwa [hnone, List.append_nil] at hsplit
  exact hall ▸ hk.fits

/-- **Which runs are followed to the end.** Whatever a reader sees of a log while it grows, each
line is shown once and in order and no read is stuck in front of a whole line, exactly when no
line of the log is longer than what a read sees. -/
theorem followed_once_iff (hrun : isRunId runId = true) (hsize : (log events).length < 10 ^ 15) :
    FollowedOnce runId events ↔ ∀ e ∈ events, e.Fits := by
  refine ⟨fits_of_followedOnce hrun hsize, fun hfits => ⟨fun polls h => ?_,
    fun polls file h hnl => ?_, fun files h => ?_⟩⟩
  · obtain ⟨k, hk⟩ := at_stream hrun hsize h
    exact ⟨k, hk.offset, hk.shown⟩
  · obtain ⟨k, hk⟩ := at_stream hrun hsize h.of_append
    obtain ⟨hgrown, hlog⟩ := h.last
    obtain ⟨u, -, hread, -, hmore⟩ := hk.read hrun hgrown hlog (hlog.length_le.trans_lt hsize)
    have hstep : streamRunProgress runId (polls ++ [some file]) =
        (streamRunProgress runId polls).take u := by
      rw [streamRunProgress_snoc]
      simp [poll, hread]
    rw [hstep]
    exact hmore (newline_mem_take hk hfits hgrown hlog hnl)
  · have hnil : Grows events ([] ++ files.map some) := h
    exact followLogs_eq hrun hsize hnil

def sampleEvent : Event := ⟨[("type", .str "run.started")], by decide, trivial, trivial⟩

/-- A log of two short lines is followed. -/
theorem followed_once_two : FollowedOnce "r1" [sampleEvent, sampleEvent] := by
  have hlog : (log [sampleEvent, sampleEvent]).length < 10 ^ 15 := by
    rw [log, length_encode]
    decide
  exact (followed_once_iff (by decide) hlog).mpr (by simp; decide)

/-! ### A line that does not fit -/

mutual

def isWellFormed : Json → Bool
  | .null | .bool _ | .str _ => true
  | .num t => Wire.isNumber t.toList
  | .arr l => isWellFormedList l
  | .obj l => decide (l.map (·.1)).Nodup && isWellFormedFields l

def isWellFormedList : List Json → Bool
  | [] => true
  | v :: l => isWellFormed v && isWellFormedList l

def isWellFormedFields : List (String × Json) → Bool
  | [] => true
  | (_, v) :: l => isWellFormed v && isWellFormedFields l

end

mutual

lemma wellFormed_of : ∀ {v : Json}, isWellFormed v = true → v.WellFormed
  | .null, _ | .bool _, _ | .str _, _ => trivial
  | .num _, h => h
  | .arr _, h => wellFormedList_of h
  | .obj _, h => by
    rw [isWellFormed, Bool.and_eq_true, decide_eq_true_eq] at h
    exact ⟨h.1, wellFormedFields_of h.2⟩

lemma wellFormedList_of : ∀ {l : List Json}, isWellFormedList l = true → Wire.wellFormedList l
  | [], _ => trivial
  | _ :: _, h => by
    rw [isWellFormedList, Bool.and_eq_true] at h
    exact ⟨wellFormed_of h.1, wellFormedList_of h.2⟩

lemma wellFormedFields_of :
    ∀ {l : List (String × Json)}, isWellFormedFields l = true → Wire.wellFormedFields l
  | [], _ => trivial
  | (_, _) :: _, h => by
    rw [isWellFormedFields, Bool.and_eq_true] at h
    exact ⟨wellFormed_of h.1, wellFormedFields_of h.2⟩

end

def isNull : Json → Bool
  | .null => true
  | _ => false

/-- So many rows of so many nulls. -/
def isTable (n : ℕ) : Json → Bool
  | .arr rows => decide (rows.length = n) && rows.all fun
    | .arr row => decide (row.length = n) && row.all isNull
    | _ => false
  | _ => false

lemma bytes_row {n : ℕ} (hn : 0 < n) {row : List Json} (hlen : row.length = n)
    (h : row.all isNull = true) : bytes (text (.arr row)) = n * 5 + 1 := by
  have hrow : row = List.replicate n .null := by
    refine List.eq_replicate_iff.mpr ⟨hlen, fun v hv => ?_⟩
    have hnull := List.all_eq_true.mp h v hv
    cases v <;> simp_all [isNull]
  have hfour : bytes (text .null) = 4 := by decide
  have hne : row ≠ [] := by
    rintro rfl
    simp only [List.length_nil] at hlen
    omega
  rw [Sizes.bytes_text_arr hne, hrow, List.map_replicate, List.sum_replicate, hfour,
    nsmul_eq_mul, Nat.cast_id]

lemma bytes_table {n : ℕ} (hn : 0 < n) {v : Json} (h : isTable n v = true) :
    bytes (text v) = n * (n * 5 + 2) + 1 := by
  cases v with
  | arr rows =>
      rw [isTable, Bool.and_eq_true, decide_eq_true_eq] at h
      obtain ⟨hlen, hall⟩ := h
      have hrows : ∀ row ∈ rows, bytes (text row) + 1 = n * 5 + 2 := by
        intro row hrow
        have hone := List.all_eq_true.mp hall row hrow
        cases row with
        | arr row =>
            simp only [Bool.and_eq_true, decide_eq_true_eq] at hone
            rw [bytes_row hn hone.1 hone.2]
        | _ => cases hone
      have hne : rows ≠ [] := by
        rintro rfl
        simp only [List.length_nil] at hlen
        omega
      rw [Sizes.bytes_text_arr hne, List.map_congr_left hrows, List.map_const', List.sum_replicate,
        hlen, nsmul_eq_mul, Nat.cast_id]
  | _ => cases h

/-- A line takes more than a field of it. -/
lemma Event.bytes_field {e : Event} {key : String} {v : Json}
    (h : e.fields.lookup key = some v) : bytes (text v) ≤ bytes e.line := by
  obtain ⟨a, b, hfields, -⟩ := List.lookup_eq_some_iff.mp h
  have hne : e.fields ≠ [] := by simp [hfields]
  rw [Event.line, Sizes.bytes_text_obj hne, hfields]
  simp only [List.map_append, List.map_cons, List.sum_append, List.sum_cons, Sizes.fieldBytes]
  omega

/-- A verification with a field of its own, a table of 150 rows. -/
def tablePassed : Json :=
  .obj [("status", .str "passed"), ("evidence", .arr [.str "e"]),
    ("table", .arr (List.replicate 150 (.arr (List.replicate 150 .null))))]

/-- The events that a run has put on record. -/
def Recorded (events : List Event) (t : Flow.Trace) : Prop :=
  events.map Event.fields = (Flow.recorded t).map Prod.snd

/-- What is looked for in a run: its lines are JSON, and one of them has the table. -/
def hasTable (t : Flow.Trace) : Bool :=
  (Flow.recorded t).all (fun p => isWellFormed (.obj p.2)) &&
    (Flow.recorded t).any (fun p => (p.2.lookup "table").any (isTable 150)) &&
    decide (((Flow.recorded t).map fun p => Sizes.atMost 0 (.obj p.2) + 1).sum < 10 ^ 15)

lemma exists_recorded {l : List (String × Fields)}
    (h : l.all (fun p => isWellFormed (.obj p.2)) = true) :
    ∃ events : List Event, events.map Event.fields = l.map Prod.snd := by
  induction l with
  | nil => exact ⟨[], rfl⟩
  | cons p l ih =>
      rw [List.all_cons, Bool.and_eq_true] at h
      obtain ⟨events, hevents⟩ := ih h.2
      exact ⟨⟨p.2, wellFormed_of h.1⟩ :: events, by simp [hevents]⟩

lemma length_log_le (events : List Event) :
    (log events).length ≤ (events.map fun e => Sizes.atMost 0 (.obj e.fields) + 1).sum := by
  induction events with
  | nil => simp
  | cons e events ih =>
      have hline := Sizes.bytes_text_le 0 (.obj e.fields)
      rw [log_cons, List.length_append, length_encode, List.length_cons, List.map_cons,
        List.sum_cons, Event.line]
      omega

lemma not_followed_of_hasTable {t : Flow.Trace} (h : hasTable t = true) :
    ∃ events, Recorded events t ∧ ¬ FollowedOnce "r1" events := by
  rw [hasTable, Bool.and_eq_true, Bool.and_eq_true, decide_eq_true_eq] at h
  obtain ⟨⟨hwf, hany⟩, hsmall⟩ := h
  obtain ⟨events, hevents⟩ := exists_recorded hwf
  refine ⟨events, hevents, fun hfollowed => ?_⟩
  have hsize : (log events).length < 10 ^ 15 := by
    refine (length_log_le events).trans_lt ?_
    have hmap : (events.map fun e => Sizes.atMost 0 (.obj e.fields) + 1) =
        (Flow.recorded t).map fun p => Sizes.atMost 0 (.obj p.2) + 1 := by
      have := congrArg (List.map fun l => Sizes.atMost 0 (.obj l) + 1) hevents
      rwa [List.map_map, List.map_map] at this
    rw [hmap]
    exact hsmall
  obtain ⟨p, hp, htable⟩ := List.any_eq_true.mp hany
  obtain ⟨v, hv, hshape⟩ := (Option.any_eq_true _ _).mp htable
  obtain ⟨e, he, hfields⟩ := List.mem_map.mp (hevents ▸ List.mem_map_of_mem (f := Prod.snd) hp)
  have hfits := fits_of_followedOnce (by decide) hsize hfollowed e he
  have hbytes := Event.bytes_field (hfields ▸ hv)
  rw [bytes_table (by decide) hshape] at hbytes
  simp only [Event.Fits, tailChunkBytes] at hfits
  omega

/-- **A verification that says much is not followed**, nor is the run behind it: what it says
beyond its status and evidence is put on record in one line. -/
theorem long_line_not_followed : ∃ q t,
    Exec traced (Flow.runWorkflow Flow.sampleInput) [] q t ∧ Flow.Settled q ∧
      ∃ events, Recorded events t ∧ ¬ FollowedOnce Flow.sampleInput.runId events := by
  obtain ⟨q, t, hx, hP⟩ := Flow.exec_sampleRun (fun _ _ _ => true)
    (Flow.answers tablePassed Flow.samplePublication) 40
    (fun x => Flow.settled x.1 && hasTable x.2) (by
      delta Flow.sampleRun Flow.runWorkflow Flow.body Flow.steps
      delta Flow.steps._f Flow.takeStep
      delta Flow.roleStep
      rw [Flow.buildPrompt_eq_quickPrompt]
      decide +kernel)
  rw [Bool.and_eq_true] at hP
  exact ⟨q, t, hx.of_given, Flow.settled_of hP.1, not_followed_of_hasTable hP.2⟩

end Bimo.Follow
