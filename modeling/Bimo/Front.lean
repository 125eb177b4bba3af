import Bimo.Base64
import Bimo.FrontHead
import Bimo.Supervisor
import Bimo.Utf8
import Mathlib.Data.List.DropRight

/-!
The tenant proxy's front.

A connection is read up to its head. Its credential is looked up in one pass over the header
lines, what is sent on is chosen in another one, and both bring a name to one form before they
compare it. Here the two passes are the source's, over the text that the bytes are in Latin-1,
and what they come to is said about the bytes of the lines.

The hash of a token is a parameter. The network gives what the client sends, whether the route's
proxy takes a connection and how many bytes it takes.
-/

namespace Bimo.Front

open Supervisor (Route RouteId isRouteId)

/-! ### Texts -/

/-- `bytes.decode("latin-1")` -/
def latin1 (bs : List UInt8) : List Char := bs.map fun b => Char.ofNat b.toNat

/-- `str.encode("latin-1")`, which raises on any other character. -/
def toLatin1 (cs : List Char) : Option (List UInt8) :=
  cs.mapM fun c => if c.toNat < 256 then some (UInt8.ofNat c.toNat) else none

/-- The white space among the characters of Latin-1. -/
def isSpace (c : Char) : Bool :=
  let n := c.toNat
  (9 ≤ n && n ≤ 13) || (28 ≤ n && n ≤ 32) || n == 133 || n == 160

def strip (cs : List Char) : List Char := (cs.dropWhile isSpace).rdropWhile isSpace

/-- `str.lower()` on a character of Latin-1. -/
def lower (c : Char) : Char :=
  let n := c.toNat
  if (65 ≤ n ∧ n ≤ 90) ∨ (192 ≤ n ∧ n ≤ 222 ∧ n ≠ 215) then Char.ofNat (n + 32) else c

/-- `str.upper()` on a character of Latin-1. -/
def upper (c : Char) : List Char :=
  let n := c.toNat
  if (97 ≤ n ∧ n ≤ 122) ∨ (224 ≤ n ∧ n ≤ 254 ∧ n ≠ 247) then [Char.ofNat (n - 32)]
  else if n = 181 then ['Μ']
  else if n = 223 then ['S', 'S']
  else if n = 255 then ['Ÿ']
  else [c]

/-- `partition`, without the separator. -/
def partition (sep : Char) (cs : List Char) : List Char × List Char :=
  (cs.takeWhile (· != sep), (cs.dropWhile (· != sep)).drop 1)

/-- `split("\r\n")` -/
def splitLines : List Char → List (List Char)
  | [] => [[]]
  | '\r' :: '\n' :: cs => [] :: splitLines cs
  | c :: cs =>
    match splitLines cs with
    | [] => [[c]]
    | line :: lines => (c :: line) :: lines

/-! ### Credentials -/

def headerName (line : List Char) : List Char := (strip (partition ':' line).1).map lower

/-- The user and the password of a header's value. -/
def basic (value : List Char) : Option (String × String) :=
  let (scheme, encoded) := partition ' ' (strip value)
  if scheme.map lower = "basic".toList then do
    let bytes ← Base64.b64decode (String.ofList (strip encoded)) true
    let text ← Utf8.decode bytes
    let (user, password) := partition ':' text
    return (String.ofList user, String.ofList password)
  else none

/-- The first credential of the header lines; one that is not understood ends the search. -/
def credentials : List (List Char) → Option (String × String)
  | [] => none
  | line :: lines =>
    if headerName line ≠ "proxy-authorization".toList then credentials lines
    else basic (partition ':' line).2

/-! ### The connection -/

/-- `refuse_log` -/
structure Refusal where
  peer : String
  route : Option String
  reason : String
  deriving DecidableEq, Repr

structure Answer where
  status : ℕ
  reason : String
  error : String
  extra : String
  deriving DecidableEq, Repr

/-- What the client and the route's proxy do. A client's bytes end with the connection. -/
structure Net where
  peer : String
  chunks : List (List UInt8)
  /-- Only the end of a connection is received as nothing. -/
  nonempty : ∀ c ∈ chunks, c ≠ []
  connects : Bool
  /-- The bytes that are taken before the connection fails, if it does. -/
  takes : Option ℕ

/-- What the front does to the outside. -/
structure Outcome where
  refusal : Option Refusal
  answer : Option Answer
  /-- The port it connects to. -/
  tried : Option ℕ
  sent : List UInt8
  /-- An exception that nothing catches. -/
  raised : Bool
  deriving DecidableEq, Repr

def closed : Outcome := ⟨none, none, none, [], false⟩

def refuse (refusal : Refusal) (error : String) : Outcome :=
  { closed with
    refusal := some refusal
    answer := some ⟨407, "Proxy Authentication Required", error,
      "Proxy-Authenticate: Basic realm=\"monolith\"\r\n"⟩ }

/-- What of the bytes goes out, and what is still taken after them unless the connection failed. -/
def sendall (takes : Option ℕ) (bytes : List UInt8) : List UInt8 × Option (Option ℕ) :=
  match takes with
  | none => (bytes, some none)
  | some n => if bytes.length ≤ n then (bytes, some (some (n - bytes.length)))
    else (bytes.take n, none)

/-- The bytes that go from the client to the route's proxy. -/
def pipe : Option ℕ → List (List UInt8) → List UInt8
  | _, [] => []
  | takes, chunk :: chunks =>
    if chunk = [] then []
    else match sendall takes chunk with
      | (out, none) => out
      | (out, some takes) => out ++ pipe takes chunks

def crlf : List Char := ['\r', '\n']

/-- The line's method is `CONNECT`. -/
def isConnect (line : List Char) : Bool :=
  (partition ' ' line).1.flatMap upper == "CONNECT".toList

/-- Whether a header line is sent on. -/
def keeps (connect : Bool) (line : List Char) : Bool :=
  let name := headerName line
  if name = "proxy-authorization".toList then false
  else if !connect && ["connection", "proxy-connection", "keep-alive"].any (·.toList == name) then
    false
  else true

/-- The lines that are sent on. -/
def kept (start : List Char) (headers : List (List Char)) : List (List Char) :=
  start :: headers.filter (keeps (isConnect start)) ++
    if isConnect start then [] else ["Connection: close".toList]

section

variable (digest : String → String) (routes : RouteId → Option Route)

/-- The rest of `handle_front`, from the connection to the route's proxy on. -/
def splice (net : Net) (route : Route) (lines : List (List Char)) (rest : List UInt8)
    (left : List (List UInt8)) : Outcome :=
  let port := route.ports.tunnel
  if net.connects then
    match toLatin1 (crlf.intercalate lines ++ crlf ++ crlf) with
    | none => { closed with tried := some port, raised := true }
    | some bytes =>
      match sendall net.takes (bytes ++ rest) with
      | (out, none) => { closed with tried := some port, sent := out }
      | (out, some takes) => { closed with tried := some port, sent := out ++ pipe takes left }
  else
    { closed with
      tried := some port
      answer := some ⟨503, "Service Unavailable", "the route's proxy is not running", ""⟩ }

def handleFront (net : Net) : Outcome :=
  match readHead [] net.chunks with
  | (none, _) => closed
  | (some (head, rest), left) =>
    match splitLines (latin1 head) with
    | [] => closed
    | start :: headers =>
      match credentials headers with
      | none => refuse ⟨net.peer, none, "no proxy credential"⟩ "proxy credential required"
      | some (id, token) =>
        match routes id with
        | none => refuse ⟨net.peer, if isRouteId id then some id else none, "unknown route"⟩
            "proxy credential refused"
        | some route =>
          if digest token ≠ route.tokenSha256 then
            refuse ⟨net.peer, if isRouteId id then some id else none, "wrong token"⟩
              "proxy credential refused"
          else if route.source.any fun source => source != "" && source != net.peer then
            refuse ⟨net.peer, some id, "wrong source address"⟩ "proxy credential refused"
          else splice net route (kept start headers) rest left

end

/-! ### Latin-1 -/

lemma toNat_ofNat_byte (b : UInt8) : (Char.ofNat b.toNat).toNat = b.toNat := by
  have hb : b.toNat < 256 := b.toNat_lt
  have hvalid : b.toNat.isValidChar := Or.inl (by omega)
  unfold Char.ofNat
  rw [dif_pos hvalid]
  rfl

@[simp] lemma latin1_nil : latin1 [] = [] := rfl

@[simp] lemma latin1_append (a b : List UInt8) : latin1 (a ++ b) = latin1 a ++ latin1 b :=
  List.map_append

lemma toLatin1_latin1 (bs : List UInt8) : toLatin1 (latin1 bs) = some bs := by
  induction bs with
  | nil => rfl
  | cons b bs ih =>
    have hb : b.toNat < 256 := b.toNat_lt
    unfold toLatin1 latin1 at ih ⊢
    rw [List.map_cons, List.mapM_cons, ih, toNat_ofNat_byte, if_pos hb, UInt8.ofNat_toNat]
    rfl

lemma latin1_injective {a b : List UInt8} (h : latin1 a = latin1 b) : a = b := by
  have hsome := congrArg toLatin1 h
  rwa [toLatin1_latin1, toLatin1_latin1, Option.some.injEq] at hsome

lemma latin1_intercalate (sep : List UInt8) (lines : List (List UInt8)) :
    latin1 (sep.intercalate lines) = (latin1 sep).intercalate (lines.map latin1) := by
  induction lines with
  | nil => rfl
  | cons line lines ih =>
    cases lines with
    | nil => rw [List.map_singleton, List.intercalate_singleton, List.intercalate_singleton]
    | cons next lines =>
      rw [List.intercalate_cons_cons, latin1_append, latin1_append, ih]
      exact List.intercalate_cons_cons.symm

/-- A part of a text that came from bytes did so too. -/
lemma exists_latin1_of_infix {part : List Char} {bs : List UInt8} (h : part <:+: latin1 bs) :
    ∃ some, part = latin1 some := by
  obtain ⟨a, b, hab⟩ := h
  obtain ⟨l, r, rfl, hl, -⟩ := List.append_eq_map_iff.mp hab
  obtain ⟨l', m, rfl, -, hm⟩ := List.append_eq_map_iff.mp hl.symm
  exact ⟨m, hm.symm⟩

/-! ### Lines -/

/-- The lines are what stands between the separators of the text. -/
structure IsLines {α : Type} (sep : List α) (lines : List (List α)) (text : List α) : Prop where
  ne : lines ≠ []
  joined : sep.intercalate lines = text
  whole : ∀ line ∈ lines, ¬sep <:+: line

lemma isLines_splitLines (cs : List Char) : IsLines crlf (splitLines cs) cs := by
  fun_induction splitLines cs with
  | case1 =>
    refine ⟨List.cons_ne_nil _ _, rfl, fun line hline => ?_⟩
    rw [List.mem_singleton.mp hline]
    exact fun h => absurd (List.infix_nil.mp h) (List.cons_ne_nil _ _)
  | case2 cs ih =>
    refine ⟨List.cons_ne_nil _ _, ?_, ?_⟩
    · rw [List.intercalate_cons_of_ne_nil ih.ne, ih.joined]
      rfl
    · rintro line (- | ⟨_, hline⟩)
      · exact fun h => absurd (List.infix_nil.mp h) (List.cons_ne_nil _ _)
      · exact ih.whole line hline
  | case3 c cs hplain hnil ih => exact absurd hnil ih.ne
  | case4 c cs hplain line lines hcons ih =>
    rw [hcons] at ih
    refine ⟨List.cons_ne_nil _ _, ?_, ?_⟩
    · rw [List.intercalate_cons_cons_left, ih.joined]
    · intro l hl
      rcases List.mem_cons.mp hl with rfl | hl
      · intro h
        rcases List.infix_cons_iff.mp h with h | h
        · -- the character and the line's first one would be a line end of the text
          obtain ⟨t, ht⟩ := h
          obtain ⟨rfl, rfl⟩ := List.cons.inj ht
          have hjoined := ih.joined
          have hhead : ∃ u, cs = '\n' :: u := by
            cases lines with
            | nil => exact ⟨t, by rw [← hjoined, List.intercalate_singleton]; rfl⟩
            | cons next lines =>
              exact ⟨_, by rw [← hjoined, List.intercalate_cons_cons]; rfl⟩
          obtain ⟨u, rfl⟩ := hhead
          exact hplain u rfl rfl
        · exact ih.whole line List.mem_cons_self h
      · exact ih.whole l (List.mem_cons_of_mem _ hl)

lemma infix_intercalate {α : Type} {sep part : List α} {parts : List (List α)}
    (h : part ∈ parts) : part <:+: sep.intercalate parts := by
  induction parts with
  | nil => cases h
  | cons first parts ih =>
    cases parts with
    | nil =>
      rw [List.mem_singleton.mp h, List.intercalate_singleton]
    | cons next parts =>
      rw [List.intercalate_cons_cons]
      obtain - | ⟨_, h⟩ := h
      · rw [List.append_assoc]
        exact (List.prefix_append part _).isInfix
      · exact (ih h).trans (List.suffix_append _ _).isInfix

/-- The lines of a head, as bytes. -/
lemma exists_lines (head : List UInt8) : ∃ start headers,
    IsLines [13, 10] (start :: headers) head ∧
      splitLines (latin1 head) = latin1 start :: headers.map latin1 := by
  have hsplit := isLines_splitLines (latin1 head)
  have hbytes : ∃ lines : List (List UInt8), splitLines (latin1 head) = lines.map latin1 := by
    have hparts : ∀ line ∈ splitLines (latin1 head), ∃ bs, line = latin1 bs := by
      intro line hline
      have hpart := @infix_intercalate _ crlf _ _ hline
      rw [hsplit.joined] at hpart
      exact exists_latin1_of_infix hpart
    generalize splitLines (latin1 head) = lines at hparts
    induction lines with
    | nil => exact ⟨[], rfl⟩
    | cons line lines ih =>
      obtain ⟨bs, rfl⟩ := hparts line List.mem_cons_self
      obtain ⟨rest, rfl⟩ := ih fun l hl => hparts l (List.mem_cons_of_mem _ hl)
      exact ⟨bs :: rest, rfl⟩
  obtain ⟨lines, hlines⟩ := hbytes
  rw [hlines] at hsplit
  cases lines with
  | nil => exact absurd rfl hsplit.ne
  | cons start headers =>
    refine ⟨start, headers, ⟨List.cons_ne_nil _ _, ?_, ?_⟩, hlines⟩
    · have hjoined := hsplit.joined
      refine latin1_injective ?_
      rw [latin1_intercalate]
      exact hjoined
    · intro line hline hinfix
      exact hsplit.whole (latin1 line) (List.mem_map_of_mem hline)
        (List.IsInfix.map (fun b : UInt8 => Char.ofNat b.toNat) hinfix)

/-! ### Names -/

/-- The line's name, whatever the case of its letters and the white space around it. -/
def IsHeader (name : String) (line : List UInt8) : Prop :=
  ∃ before text after rest, latin1 line = before ++ text ++ after ++ rest ∧
    before.all isSpace = true ∧ after.all isSpace = true ∧ (∀ c ∈ rest.head?, c = ':') ∧
    text.map lower = name.toList

/-- A name that a line can have: no colon in it and no white space around it. -/
def plain (name : String) : Bool :=
  !name.toList.contains ':' && !name.toList.head?.any isSpace && !name.toList.getLast?.any isSpace

/-- What is stripped is white space. -/
lemma exists_strip (cs : List Char) : ∃ before after, cs = before ++ strip cs ++ after ∧
    before.all isSpace = true ∧ after.all isSpace = true := by
  refine ⟨cs.takeWhile isSpace, (cs.dropWhile isSpace).rtakeWhile isSpace, ?_, ?_, ?_⟩
  · rw [strip, List.append_assoc, List.rdropWhile_append_rtakeWhile,
      List.takeWhile_append_dropWhile]
  · exact List.all_eq_true.mpr fun c hc => List.mem_takeWhile_imp hc
  · exact List.all_eq_true.mpr fun c hc => List.mem_rtakeWhile_imp hc

lemma strip_eq {before text after : List Char} (hbefore : before.all isSpace = true)
    (hafter : after.all isSpace = true) (hhead : text.head?.any isSpace = false)
    (hlast : text.getLast?.any isSpace = false) : strip (before ++ text ++ after) = text := by
  have hb : ∀ c ∈ before, isSpace c = true := List.all_eq_true.mp hbefore
  have ha : ∀ c ∈ after, isSpace c = true := List.all_eq_true.mp hafter
  rw [strip, List.append_assoc, List.dropWhile_append_of_pos hb]
  cases text with
  | nil =>
    rw [List.nil_append, List.dropWhile_eq_nil_iff.mpr ha]
    rfl
  | cons c text =>
    have hc : ¬isSpace c = true := by simpa using hhead
    rw [List.cons_append, List.dropWhile_cons_of_neg hc, ← List.cons_append, List.rdropWhile,
      List.reverse_append, List.dropWhile_append_of_pos fun c hc => ha c (List.mem_reverse.mp hc)]
    rw [List.getLast?_eq_head?_reverse] at hlast
    cases hrev : (c :: text).reverse with
    | nil => exact absurd (List.reverse_eq_nil_iff.mp hrev) (List.cons_ne_nil _ _)
    | cons d ds =>
      rw [hrev] at hlast
      rw [List.dropWhile_cons_of_neg (by simpa using hlast), ← hrev, List.reverse_reverse]

lemma partition_fst_append {sep : Char} {name rest : List Char} (h : sep ∉ name)
    (hrest : ∀ c ∈ rest.head?, c = sep) : (partition sep (name ++ rest)).1 = name := by
  have hname : ∀ c ∈ name, (c != sep) = true := fun c hc => by
    rw [bne_iff_ne]
    rintro rfl
    exact h hc
  rw [partition, List.takeWhile_append_of_pos hname]
  cases rest with
  | nil => simp
  | cons c rest => simp [hrest c rfl]

/-- A text is its part before the separator, and what begins with the separator. -/
lemma exists_partition (sep : Char) (cs : List Char) : ∃ rest,
    cs = (partition sep cs).1 ++ rest ∧ (∀ c ∈ rest.head?, c = sep) ∧
      (partition sep cs).2 = rest.drop 1 ∧ sep ∉ (partition sep cs).1 := by
  refine ⟨cs.dropWhile (· != sep), List.takeWhile_append_dropWhile.symm, ?_, rfl, ?_⟩
  · intro c hc
    have hne := List.head?_dropWhile_not (· != sep) cs
    rw [Option.mem_def.mp hc] at hne
    simpa using hne
  · intro hmem
    have hp := List.mem_takeWhile_imp hmem
    simp at hp

lemma isSpace_lower (c : Char) : isSpace (lower c) = isSpace c := by
  unfold lower
  dsimp only
  split_ifs with h
  · have hvalid : (c.toNat + 32).isValidChar := Or.inl (by omega)
    have hnat : (Char.ofNat (c.toNat + 32)).toNat = c.toNat + 32 := by
      unfold Char.ofNat
      rw [dif_pos hvalid]
      rfl
    simp only [isSpace, hnat]
    rw [Bool.eq_iff_iff]
    simp only [Bool.or_eq_true, Bool.and_eq_true, decide_eq_true_eq, beq_iff_eq]
    omega
  · rfl

/-- The code's form of a name is the name. -/
lemma headerName_eq_iff {name : String} (h : plain name = true) (line : List UInt8) :
    headerName (latin1 line) = name.toList ↔ IsHeader name line := by
  simp only [plain, Bool.and_eq_true, Bool.not_eq_true'] at h
  obtain ⟨⟨hcolon, hhead⟩, hlast⟩ := h
  constructor
  · intro hname
    obtain ⟨rest, hline, hrest, -, -⟩ := exists_partition ':' (latin1 line)
    obtain ⟨before, after, hstrip, hbefore, hafter⟩ := exists_strip (partition ':' (latin1 line)).1
    refine ⟨before, strip (partition ':' (latin1 line)).1, after, rest, ?_, hbefore, hafter, hrest,
      hname⟩
    rw [← hstrip]
    exact hline
  · rintro ⟨before, text, after, rest, hline, hbefore, hafter, hrest, htext⟩
    have hspace : ∀ (cs : List Char), cs.all isSpace = true → ':' ∉ cs := fun cs hcs hmem =>
      absurd (List.all_eq_true.mp hcs _ hmem) (by decide)
    have hplain : ':' ∉ before ++ text ++ after := by
      have hmap : ':' ∉ text := fun hmem => by
        have hlower : lower ':' ∈ text.map lower := List.mem_map_of_mem hmem
        rw [htext] at hlower
        have hnot : ':' ∉ name.toList := by simpa using hcolon
        exact hnot hlower
      simp only [List.mem_append, not_or]
      exact ⟨⟨hspace _ hbefore, hmap⟩, hspace _ hafter⟩
    have hends : text.head?.any isSpace = false ∧ text.getLast?.any isSpace = false := by
      rw [← htext, List.head?_map, Option.any_map] at hhead
      rw [← htext, List.getLast?_map, Option.any_map] at hlast
      simp only [isSpace_lower] at hhead hlast
      exact ⟨hhead, hlast⟩
    rw [headerName, hline, partition_fst_append hplain hrest,
      strip_eq hbefore hafter hends.1 hends.2, htext]

/-! ### What a connection is tried for -/

/-- A header's value that is a Basic credential of the user and the token. -/
def IsBasic (value user token : List Char) : Prop :=
  ∃ before scheme gap encoded after bytes,
    value = before ++ scheme ++ gap ++ encoded ++ after ∧
    (before ++ gap ++ after).all isSpace = true ∧ (∀ c ∈ (gap ++ encoded).head?, c = ' ') ∧
    scheme.map lower = "basic".toList ∧
    Base64.b64decode (String.ofList encoded) true = some bytes ∧ ':' ∉ user ∧
    (bytes = Utf8.encode (user ++ ':' :: token) ∨ bytes = Utf8.encode user ∧ token = [])

lemma isBasic_of_basic {value : List Char} {user token : String}
    (h : basic value = some (user, token)) : IsBasic value user.toList token.toList := by
  unfold basic at h
  dsimp only at h
  split_ifs at h with hscheme
  obtain ⟨bytes, hbytes, h⟩ := Option.bind_eq_some_iff.mp h
  obtain ⟨text, htext, h⟩ := Option.bind_eq_some_iff.mp h
  obtain ⟨rfl, rfl⟩ := Prod.mk.inj (Option.some.inj h)
  obtain ⟨before, after, hvalue, hbefore, hafter⟩ := exists_strip value
  obtain ⟨rest, hrest, hhead, hdrop, -⟩ := exists_partition ' ' (strip value)
  obtain ⟨gap, tail, hgap, hgaps, htail⟩ := exists_strip (partition ' ' (strip value)).2
  obtain ⟨more, hmore, hcolon, hpassword, huser⟩ := exists_partition ':' text
  rw [hdrop] at hgap hbytes
  have hwhole : rest = rest.take 1 ++ gap ++ strip (rest.drop 1) ++ tail := by
    rw [List.append_assoc (rest.take 1 ++ gap), List.append_assoc (rest.take 1),
      ← List.append_assoc gap, ← hgap, List.take_append_drop]
  have hfirst : (rest.take 1).all isSpace = true := by
    cases rest with
    | nil => rfl
    | cons c rest =>
      rw [hhead c rfl]
      rfl
  refine ⟨before, _, rest.take 1 ++ gap, strip (rest.drop 1), tail ++ after, bytes, ?_, ?_, ?_,
    hscheme, hbytes, ?_, ?_⟩
  · calc value = before ++ strip value ++ after := hvalue
      _ = before ++ ((partition ' ' (strip value)).1 ++ rest) ++ after := by rw [← hrest]
      _ = before ++ ((partition ' ' (strip value)).1 ++
            (rest.take 1 ++ gap ++ strip (rest.drop 1) ++ tail)) ++ after := by rw [← hwhole]
      _ = _ := by simp only [List.append_assoc]
  · simp only [List.all_append, Bool.and_eq_true]
    exact ⟨⟨hbefore, hfirst, hgaps⟩, htail, hafter⟩
  · intro c hc
    cases rest with
    | nil =>
      obtain ⟨hnil, -⟩ := List.append_eq_nil_iff.mp hgap.symm
      rw [List.take_nil, List.nil_append, hnil] at hc
      cases hc
    | cons d rest =>
      have hd : d = c := by simpa using hc
      exact hd ▸ hhead d rfl
  · rw [String.toList_ofList]
    exact huser
  · rw [String.toList_ofList, String.toList_ofList, ← Utf8.decode_eq_some,
      ← Utf8.decode_eq_some, hpassword]
    cases more with
    | nil =>
      rw [List.append_nil] at hmore
      exact Or.inr ⟨hmore ▸ htext, rfl⟩
    | cons c more =>
      have hc := hcolon c rfl
      subst hc
      exact Or.inl (hmore ▸ htext)

/-- A header line with such a value. -/
def IsCredential (line : List UInt8) (user token : String) : Prop :=
  ∃ name value, latin1 line = name ++ ':' :: value ∧ ':' ∉ name ∧
    IsBasic value user.toList token.toList

section

variable (digest : String → String) (routes : RouteId → Option Route)

/-- The first `Proxy-Authorization` line is a credential of the route, and the peer is the route's
source if it has one. -/
structure Authenticated (peer : String) (headers : List (List UInt8)) (route : Route) : Prop where
  credential : ∃ before line after user token, headers = before ++ line :: after ∧
    (∀ l ∈ before, ¬IsHeader "proxy-authorization" l) ∧ IsHeader "proxy-authorization" line ∧
    IsCredential line user token ∧ routes user = some route ∧ digest token = route.tokenSha256
  source : ∀ source ∈ route.source, source ≠ "" → source = peer

end

/-- The method of a start line, in upper case, is `CONNECT`. -/
def Connects (start : List UInt8) : Prop :=
  ((latin1 start).takeWhile (· != ' ')).flatMap upper = "CONNECT".toList

open Classical in
/-- The lines that are to be sent on. -/
noncomputable def forwarded (start : List UInt8) (headers : List (List UInt8)) :
    List (List UInt8) :=
  start :: headers.filter (fun line => ¬IsHeader "proxy-authorization" line ∧
    (Connects start ∨ ∀ name ∈ ["connection", "proxy-connection", "keep-alive"],
      ¬IsHeader name line)) ++
  if Connects start then [] else [Utf8.encode "Connection: close".toList]

/-- The bytes of a text that are taken. -/
def taken : Option ℕ → List UInt8 → List UInt8
  | none, bytes => bytes
  | some n, bytes => bytes.take n

lemma exists_credential {headers : List (List UInt8)} {user token : String}
    (h : credentials (headers.map latin1) = some (user, token)) :
    ∃ before line after, headers = before ++ line :: after ∧
      (∀ l ∈ before, ¬IsHeader "proxy-authorization" l) ∧
      IsHeader "proxy-authorization" line ∧ IsCredential line user token := by
  have hplain : plain "proxy-authorization" = true := by decide
  induction headers with
  | nil => cases h
  | cons line headers ih =>
    rw [List.map_cons, credentials] at h
    split_ifs at h with hname
    · obtain ⟨before, found, after, rfl, hbefore, hfound, hcred⟩ := ih h
      refine ⟨line :: before, found, after, rfl, fun l hl => ?_, hfound, hcred⟩
      rcases List.mem_cons.mp hl with rfl | hl
      · exact fun hl => hname ((headerName_eq_iff hplain l).mpr hl)
      · exact hbefore l hl
    · refine ⟨[], line, headers, rfl, fun l hl => absurd hl List.not_mem_nil,
        (headerName_eq_iff hplain line).mp (not_not.mp hname), ?_⟩
      obtain ⟨rest, hline, hrest, hvalue, hcolon⟩ := exists_partition ':' (latin1 line)
      rw [hvalue] at h
      cases rest with
      | nil =>
        -- no value: not a Basic credential
        have hnone : basic [] = none := rfl
        rw [List.drop_nil, hnone] at h
        cases h
      | cons c rest =>
        obtain rfl := hrest c rfl
        exact ⟨_, rest, hline, hcolon, isBasic_of_basic h⟩

/-! ### What is sent -/

lemma isConnect_iff (start : List UInt8) : isConnect (latin1 start) = true ↔ Connects start :=
  beq_iff_eq

open Classical in
lemma keeps_iff (start line : List UInt8) :
    keeps (isConnect (latin1 start)) (latin1 line) =
      decide (¬IsHeader "proxy-authorization" line ∧
        (Connects start ∨ ∀ name ∈ ["connection", "proxy-connection", "keep-alive"],
          ¬IsHeader name line)) := by
  have hname : ∀ name : String, plain name = true →
      (headerName (latin1 line) = name.toList ↔ IsHeader name line) :=
    fun name h => headerName_eq_iff h line
  rw [Bool.eq_iff_iff, decide_eq_true_iff, keeps, ← isConnect_iff]
  simp only [List.any_cons, List.any_nil, Bool.or_false, List.forall_mem_cons, List.not_mem_nil,
    false_implies, implies_true, and_true, ← hname "proxy-authorization" (by decide),
    ← hname "connection" (by decide), ← hname "proxy-connection" (by decide),
    ← hname "keep-alive" (by decide)]
  split_ifs with hauth hdrop
  · simp [hauth]
  · simp only [Bool.and_eq_true, Bool.not_eq_true', Bool.or_eq_true, beq_iff_eq] at hdrop
    simp only [Bool.false_eq_true, hdrop.1, false_or, false_iff, not_and]
    rintro - h1 h2 h3
    rcases hdrop.2 with h | h | h
    · exact h1 h.symm
    · exact h2 h.symm
    · exact h3 h.symm
  · simp only [true_iff]
    refine ⟨hauth, ?_⟩
    cases hconnect : isConnect (latin1 start) with
    | true => exact Or.inl rfl
    | false =>
      simp only [hconnect, Bool.not_false, Bool.true_and, Bool.or_eq_true, beq_iff_eq,
        not_or] at hdrop
      exact Or.inr ⟨fun h => hdrop.1 h.symm, fun h => hdrop.2.1 h.symm, fun h => hdrop.2.2 h.symm⟩

lemma kept_latin1 (start : List UInt8) (headers : List (List UInt8)) :
    kept (latin1 start) (headers.map latin1) = (forwarded start headers).map latin1 := by
  have hclose : latin1 (Utf8.encode "Connection: close".toList) = "Connection: close".toList := by
    decide
  rw [kept, forwarded, List.map_append, List.map_cons, List.filter_map]
  have hkeeps : keeps (isConnect (latin1 start)) ∘ latin1 = _ := funext (keeps_iff start)
  congr 2
  · rw [hkeeps]
  · by_cases hconnect : Connects start
    · rw [if_pos hconnect, if_pos ((isConnect_iff start).mpr hconnect)]
      rfl
    · rw [if_neg hconnect, if_neg (fun h => hconnect ((isConnect_iff start).mp h)),
        List.map_singleton, hclose]

/-- What goes out of some bytes and of more behind them is what is taken of them together. -/
lemma sendall_then {β : Type} (takes : Option ℕ) (bytes more : List UInt8)
    (send : Option ℕ → List UInt8) (hsend : ∀ t, send t = taken t more) (done : List UInt8 → β) :
    (match sendall takes bytes with
      | (out, none) => done out
      | (out, some t) => done (out ++ send t)) = done (taken takes (bytes ++ more)) := by
  cases takes with
  | none =>
    show done (bytes ++ send none) = _
    rw [hsend, taken, taken]
  | some n =>
    rw [sendall]
    split_ifs with hn
    · show done (bytes ++ send (some (n - bytes.length))) = _
      rw [hsend, taken, taken, List.take_append, List.take_of_length_le hn]
    · show done (bytes.take n) = _
      rw [taken, List.take_append_of_le_length (by omega)]

lemma pipe_eq {chunks : List (List UInt8)} (h : ∀ c ∈ chunks, c ≠ []) (takes : Option ℕ) :
    pipe takes chunks = taken takes chunks.flatten := by
  induction chunks generalizing takes with
  | nil => cases takes <;> simp [pipe, taken]
  | cons chunk chunks ih =>
    have ih := ih fun c hc => h c (List.mem_cons_of_mem _ hc)
    rw [pipe, if_neg (h chunk List.mem_cons_self), List.flatten_cons]
    exact sendall_then takes chunk chunks.flatten (pipe · chunks) ih id

/-- The connection to the route's proxy, when there is one, takes the lines that are to be sent on,
the blank line and all that the client sends behind it. -/
lemma splice_kept (net : Net) (route : Route) (start : List UInt8) (headers : List (List UInt8))
    (rest : List UInt8) {left : List (List UInt8)} (hleft : ∀ c ∈ left, c ≠ []) :
    splice net route (kept (latin1 start) (headers.map latin1)) rest left =
      if net.connects = true then
        { closed with
          tried := some route.ports.tunnel
          sent := taken net.takes
            ([13, 10].intercalate (forwarded start headers) ++ blank ++ (rest ++ left.flatten)) }
      else { closed with
        tried := some route.ports.tunnel
        answer := some ⟨503, "Service Unavailable", "the route's proxy is not running", ""⟩ } := by
  have hlines : crlf.intercalate ((forwarded start headers).map latin1) ++ crlf ++ crlf =
      latin1 ([13, 10].intercalate (forwarded start headers) ++ blank) := by
    rw [latin1_append, latin1_intercalate, List.append_assoc]
    rfl
  rw [splice, kept_latin1, hlines, toLatin1_latin1, ← List.append_assoc _ rest]
  dsimp only
  split_ifs
  · exact sendall_then net.takes _ left.flatten (pipe · left) (pipe_eq hleft)
      fun out => { closed with tried := some route.ports.tunnel, sent := out }
  · rfl

lemma splitHead_of_readHead {data head rest : List UInt8} {chunks left : List (List UInt8)}
    (h : readHead data chunks = (some (head, rest), left)) :
    splitHead (data ++ chunks.flatten) = some (head, rest ++ left.flatten) ∧
      ∀ c ∈ left, c ∈ chunks := by
  induction chunks generalizing data with
  | nil =>
    rw [readHead] at h
    cases hsplit : splitHead data with
    | none =>
      rw [hsplit] at h
      cases h
    | some split =>
      rw [hsplit] at h
      obtain ⟨hs, rfl⟩ := Prod.mk.inj h
      exact ⟨splitHead_append (hsplit.trans hs) _, fun c hc => hc⟩
  | cons chunk chunks ih =>
    rw [readHead] at h
    cases hsplit : splitHead data with
    | none =>
      rw [hsplit] at h
      dsimp only at h
      split_ifs at h
      · cases h
      · cases h
      · obtain ⟨hhead, hleft⟩ := ih h
        rw [List.append_assoc] at hhead
        exact ⟨hhead, fun c hc => List.mem_cons_of_mem _ (hleft c hc)⟩
    | some split =>
      rw [hsplit] at h
      obtain ⟨hs, rfl⟩ := Prod.mk.inj h
      exact ⟨splitHead_append (hsplit.trans hs) _, fun c hc => hc⟩

/-- **The front forwards authenticated requests only, and their bytes.** If it connects to a
route's proxy, then the first `Proxy-Authorization` line behind the start line is a Basic
credential of that route with its token, and the peer is the route's source if the route has one;
and what it sends are the start line, the header lines without credentials and, but for `CONNECT`,
without the lines about the connection, the blank line and every byte behind the client's head, as
far as the proxy's connection takes them. -/
theorem handleFront_faithful (digest : String → String) (routes : RouteId → Option Route)
    (net : Net) (port : ℕ) (h : (handleFront digest routes net).tried = some port) :
    ∃ head after start headers route,
      splitHead net.chunks.flatten = some (head, after) ∧
      IsLines [13, 10] (start :: headers) head ∧
      Authenticated digest routes net.peer headers route ∧
      port = route.ports.tunnel ∧
      (net.connects = true → (handleFront digest routes net).sent = taken net.takes
        ([13, 10].intercalate (forwarded start headers) ++ blank ++ after)) := by
  obtain ⟨split, left, hread⟩ : ∃ split left, readHead [] net.chunks = (split, left) := ⟨_, _, rfl⟩
  rw [handleFront, hread] at h ⊢
  obtain - | ⟨head, rest⟩ := split
  · cases h
  obtain ⟨hsplit, hleft⟩ := splitHead_of_readHead hread
  obtain ⟨start, headers, hlines, heq⟩ := exists_lines head
  dsimp only at h ⊢
  rw [heq] at h ⊢
  dsimp only at h ⊢
  cases hcred : credentials (headers.map latin1) with
  | none =>
    rw [hcred] at h
    cases h
  | some pair =>
    obtain ⟨user, token⟩ := pair
    rw [hcred] at h
    dsimp only at h ⊢
    cases hroute : routes user with
    | none =>
      rw [hroute] at h
      cases h
    | some route =>
      rw [hroute] at h
      dsimp only at h ⊢
      by_cases hdigest : digest token ≠ route.tokenSha256
      · rw [if_pos hdigest] at h
        cases h
      rw [if_neg hdigest] at h ⊢
      by_cases hsource : (route.source.any fun source => source != "" && source != net.peer) = true
      · rw [if_pos hsource] at h
        cases h
      rw [if_neg hsource] at h ⊢
      rw [splice_kept net route start headers rest
        fun c hc => net.nonempty c (hleft c hc)] at h ⊢
      obtain ⟨before, line, after, hheaders, hbefore, hline, hbasic⟩ := exists_credential hcred
      refine ⟨head, rest ++ left.flatten, start, headers, route, hsplit, hlines, ⟨⟨before, line,
        after, user, token, hheaders, hbefore, hline, hbasic, hroute, not_not.mp hdigest⟩, ?_⟩,
        ?_, ?_⟩
      · intro source hmem hne
        by_contra hother
        rw [Option.mem_def.mp hmem] at hsource
        exact hsource (by simp [hne, hother])
      · split_ifs at h
        · exact (Option.some.inj h).symm
        · exact (Option.some.inj h).symm
      · intro hconnects
        rw [if_pos hconnects]

/-! ### Connections -/

def sampleRoute : Route := ⟨0, "a", "c", some "10.0.0.2", ⟨20000, 20001, 20002, 20003, 20004⟩⟩

def sampleRoutes (route : Route) (id : RouteId) : Option Route :=
  if id = route.id then some route else none

/-- A client that sends the text and ends, and a proxy that takes everything. -/
def sampleNet (peer text : String) : Net where
  peer := peer
  chunks := if Utf8.encode text.toList = [] then [] else [Utf8.encode text.toList]
  nonempty c hc := by
    split_ifs at hc with h
    · cases hc
    · rw [List.mem_singleton.mp hc]
      exact h
  connects := true
  takes := none

/-- `a:c` as a credential. -/
def sampleHead : String := "GET http://x/ HTTP/1.1\r\nproxy-authorization : Basic YTpj\r\n\r\nbody"

theorem handleFront_faithful_sample : ∃ head after start headers route,
      splitHead (sampleNet "10.0.0.2" sampleHead).chunks.flatten = some (head, after) ∧
      IsLines [13, 10] (start :: headers) head ∧
      Authenticated id (sampleRoutes sampleRoute) "10.0.0.2" headers route ∧
      20000 = route.ports.tunnel ∧
      ((sampleNet "10.0.0.2" sampleHead).connects = true →
        (handleFront id (sampleRoutes sampleRoute) (sampleNet "10.0.0.2" sampleHead)).sent =
          taken none ([13, 10].intercalate (forwarded start headers) ++ blank ++ after)) :=
  handleFront_faithful id (sampleRoutes sampleRoute) (sampleNet "10.0.0.2" sampleHead) 20000
    (by decide +kernel)

/-- A route without a source takes any peer, a start line that reads like a credential is sent on,
a method is `CONNECT` in small letters too, and a connection that fails takes no more. -/
theorem front_forwards_more :
    (handleFront id (sampleRoutes { sampleRoute with source := none })
      (sampleNet "10.9.9.9" ("Proxy-Authorization: Basic YTpj\r\n" ++
        "Proxy-Authorization: Basic YTpj\r\n\r\n"))).sent =
      Utf8.encode ("Proxy-Authorization: Basic YTpj\r\nConnection: close\r\n\r\n").toList ∧
    (handleFront id (sampleRoutes sampleRoute)
      (sampleNet "10.0.0.2" "connect x:1\r\nproxy-authorization: Basic YTpj\r\n\r\n")).sent =
      Utf8.encode "connect x:1\r\n\r\n".toList ∧
    (handleFront id (sampleRoutes sampleRoute)
      { sampleNet "10.0.0.2" sampleHead with takes := some 3 }).sent = Utf8.encode "GET".toList := by
  decide +kernel

end Bimo.Front
