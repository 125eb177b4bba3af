import Mathlib.Data.List.Forall2
import Mathlib.Data.List.Lex
import Mathlib.Data.List.Pairwise
import Bimo.DockerRuntime
import Bimo.Lossy

/-!
The artifact, from the verifier to its locked copy.

Three walks go through a directory in the order of its names: the verifier's, which makes the
receipt, the one that copies what was verified, and the one that reads the copy again. Names are
sorted as they are read, so a name that is no text is looked for under the text it was read as,
and names that compare equal stay in the order that the system lists them. The walks differ in
their limits: only the last two count entries and levels.
-/

namespace Bimo.Snapshot

open Docker (Artifact Owner sameArtifact maxSnapshotEntries maxSnapshotDepth)
open Js (Text lit)
open Utf8 (encode lossy)

/-! ### Trees -/

abbrev Name := List UInt8

/-- The components of a path, as they are read. -/
abbrev Path := List (List Char)

structure Attr where
  mode : ℕ
  uid : ℕ
  gid : ℕ
  deriving DecidableEq

inductive Node
  | file (attr : Attr) (content : List UInt8)
  | dir (attr : Attr) (entries : List (Name × Node))
  | symlink
  | other

inductive Failure
  | message (text : String)
  /-- `ENOENT` -/
  | missing (relative : Path)
  /-- `EEXIST` -/
  | occupied (relative : Path)
  deriving DecidableEq

def fail {α : Type} (text : String) : Except Failure α := .error (.message text)

/-- `localeCompare`, as an order in which different names may be equal. -/
structure Collation where
  le : List Char → List Char → Bool
  total : ∀ a b, (le a b || le b a) = true
  trans : ∀ a b c, le a b = true → le b c = true → le a c = true

/-- The order in which the system lists the names of a directory. -/
structure Listing where
  names : Path → List Name → List Name
  perm : ∀ p l, (names p l).Perm l

/-- The names of a directory as they are read, sorted. -/
def order (c : Collation) (l : Listing) (p : Path) (names : List Name) : List (List Char) :=
  ((l.names p names).map lossy).insertionSort fun a b => c.le a b = true

def relativeChars (p : Path) : List Char := ['/'].intercalate p

def relativeText (p : Path) : String := String.ofList (relativeChars p)

/-! ### Walks -/

/-- What a walk does, with a state, and what it makes of what it comes upon. -/
structure Walk (σ β : Type) where
  /-- A directory, before it is listed. -/
  enter : Path → Attr → σ → Except Failure σ
  /-- An entry, before it is looked at. -/
  entry : Path → σ → Except Failure σ
  file : Path → Attr → List UInt8 → σ → Except Failure (β × σ)
  symlink : Path → String
  other : Path → String
  /-- A directory, once its entries are done with. -/
  leave : List (List Char × β) → β

abbrev Visit (σ β : Type) := Path → σ → Except Failure (β × σ)

section

variable {σ β : Type}

/-- The entries of a directory, each under the name it was read with. -/
def visitAll (w : Walk σ β) (visits : List (Name × Visit σ β)) (p : Path) :
    List (List Char) → σ → Except Failure (List (List Char × β) × σ)
  | [], s => pure ([], s)
  | name :: names, s => do
    let s ← w.entry (p ++ [name]) s
    match visits.lookup (encode name) with
    | none => .error (.missing (p ++ [name]))
    | some visit =>
      let (b, s) ← visit (p ++ [name]) s
      let (bs, s) ← visitAll w visits p names s
      pure ((name, b) :: bs, s)

mutual

def walk (c : Collation) (l : Listing) (w : Walk σ β) : Node → Visit σ β
  | .file attr content => fun p s => w.file p attr content s
  | .dir attr entries => fun p s => do
    let s ← w.enter p attr s
    let (bs, s) ← visitAll w (walks c l w entries) p (order c l p (entries.map Prod.fst)) s
    pure (w.leave bs, s)
  | .symlink => fun p _ => fail (w.symlink p)
  | .other => fun p _ => fail (w.other p)

def walks (c : Collation) (l : Listing) (w : Walk σ β) :
    List (Name × Node) → List (Name × Visit σ β)
  | [] => []
  | (name, node) :: entries => (name, walk c l w node) :: walks c l w entries

end

end

/-! ### The verifier -/

structure Output where
  files : ℕ := 0
  bytes : ℕ := 0
  hashed : List UInt8 := []
  markerFound : Bool := false

/-- What is hashed in front of the content of a file. -/
def header (p : Path) (size : ℕ) : List UInt8 :=
  encode (relativeChars p ++ '\x00' :: ((toString size).toList ++ ['\x00']))

def outputWalk (maxFiles maxBytes : ℕ) (contains : List UInt8) : Walk Output Unit where
  enter _ _ s := pure s
  entry _ s := pure s
  file p _ content s :=
    if maxFiles < s.files + 1 then fail ("output exceeds " ++ toString maxFiles ++ " files")
    else if maxBytes < s.bytes + content.length then
      fail ("output exceeds " ++ toString maxBytes ++ " bytes")
    else pure ((), ⟨s.files + 1, s.bytes + content.length,
      s.hashed ++ header p content.length ++ content,
      s.markerFound || decide (contains <:+: content)⟩)
  symlink p := "output contains a symlink: " ++ relativeText p
  other p := "output contains an unsupported entry: " ++ relativeText p
  leave _ := ()

/-- `scanOutput` -/
def scanOutput (c : Collation) (sha256 : List UInt8 → Text) (l : Listing)
    (maxFiles maxBytes : ℕ) (contains : List Char) (root : Node) : Except Failure Artifact := do
  let (_, s) ← walk c l (outputWalk maxFiles maxBytes (encode contains)) root [] {}
  if s.files = 0 then fail "output directory is empty"
  else if s.markerFound = false then
    fail ("output does not contain required marker: " ++ String.ofList contains)
  else pure ⟨s.files, s.bytes, sha256 s.hashed⟩

/-! ### The copy -/

structure Limits where
  maxFiles : ℕ
  maxBytes : ℕ
  maxEntries : ℕ := maxSnapshotEntries
  maxDepth : ℕ := maxSnapshotDepth

/-- One more entry; the depth is the number of its components. -/
def assertSnapshotBounds (lim : Limits) (entries : ℕ) (relative : Path) : Except Failure ℕ :=
  if lim.maxEntries < entries + 1 then
    fail ("verified output exceeds " ++ toString lim.maxEntries ++ " entries")
  else if lim.maxDepth < relative.length then
    fail ("verified output exceeds maximum depth at: " ++ relativeText relative)
  else pure (entries + 1)

structure Copy where
  entries : ℕ := 0
  files : ℕ := 0
  bytes : ℕ := 0
  /-- What there is at the destination. -/
  made : List Path := []

/-- `mkdir` and `open` with `O_EXCL` -/
def create (p : Path) (s : Copy) : Except Failure Copy :=
  if p ∈ s.made then .error (.occupied p) else pure { s with made := p :: s.made }

def copyWalk (lim : Limits) (process : Owner) : Walk Copy Node where
  enter p _ s := create p s
  entry p s := do
    let entries ← assertSnapshotBounds lim s.entries p
    pure { s with entries := entries }
  file p _ content s := do
    if lim.maxFiles < s.files + 1 then
      fail ("verified output exceeds " ++ toString lim.maxFiles ++ " files")
    else if lim.maxBytes < s.bytes + content.length then
      fail ("verified output exceeds " ++ toString lim.maxBytes ++ " bytes")
    else
      let s ← create p { s with files := s.files + 1, bytes := s.bytes + content.length }
      pure (.file ⟨0o600, process.uid, process.gid⟩ content, s)
  symlink p := "verified output contains a symlink: " ++ relativeText p
  other p := "verified output contains an unsupported entry: " ++ relativeText p
  leave bs := .dir ⟨0o700, process.uid, process.gid⟩ (bs.map fun b => (encode b.1, b.2))

mutual

/-- `lockSnapshotEntries`, with the directory itself. -/
def lock (owner : Owner) (name : Name) : Node → Except Failure Node
  | .file _ content => pure (.file ⟨0o444, owner.uid, owner.gid⟩ content)
  | .dir _ entries => do
    let entries ← lockEntries owner entries
    pure (.dir ⟨0o555, owner.uid, owner.gid⟩ entries)
  | .symlink => fail ("artifact snapshot contains an unsupported entry: " ++
      String.ofList (lossy name))
  | .other => fail ("artifact snapshot contains an unsupported entry: " ++
      String.ofList (lossy name))

def lockEntries (owner : Owner) : List (Name × Node) → Except Failure (List (Name × Node))
  | [] => pure []
  | (name, node) :: entries => do
    let node ← lock owner name node
    let entries ← lockEntries owner entries
    pure ((name, node) :: entries)

end

/-! ### The copy, read again -/

structure Scan where
  entries : ℕ := 0
  files : ℕ := 0
  bytes : ℕ := 0
  hashed : List UInt8 := []

def isLocked (owner : Owner) (attr : Attr) : Bool :=
  attr.mode &&& 0o222 == 0 && attr.uid == owner.uid && attr.gid == owner.gid

def snapshotWalk (expected : Artifact) (owner : Owner) : Walk Scan Unit where
  enter _ attr s :=
    if isLocked owner attr then pure s else fail "artifact snapshot is not locked"
  entry p s := do
    let entries ← assertSnapshotBounds ⟨expected.files, expected.bytes, maxSnapshotEntries,
      maxSnapshotDepth⟩ s.entries p
    pure { s with entries := entries }
  file p attr content s :=
    if isLocked owner attr = false then
      fail ("artifact snapshot is not locked: " ++ relativeText p)
    else if expected.files < s.files + 1 then
      fail "artifact snapshot file count does not match verification"
    else if expected.bytes < s.bytes + content.length then
      fail "artifact snapshot byte count does not match verification"
    else pure ((), { s with
      files := s.files + 1, bytes := s.bytes + content.length,
      hashed := s.hashed ++ header p content.length ++ content })
  symlink p := "artifact snapshot contains a symlink: " ++ relativeText p
  other p := "artifact snapshot contains an unsupported entry: " ++ relativeText p
  leave _ := ()

def scanSnapshot (c : Collation) (sha256 : List UInt8 → Text) (l : Listing) (expected : Artifact)
    (owner : Owner) (root : Node) : Except Failure Artifact := do
  match root with
  | .dir _ _ =>
    let (_, s) ← walk c l (snapshotWalk expected owner) root [] {}
    pure ⟨s.files, s.bytes, sha256 s.hashed⟩
  | _ => fail "artifact snapshot is not locked"

structure Options where
  maxFiles : Option ℕ := none
  maxBytes : Option ℕ := none
  maxEntries : Option ℕ := none
  maxDepth : Option ℕ := none
  expectedArtifact : Option Artifact := none

/-- What is expected of the copy when no receipt is. -/
def Options.expected (o : Options) : Artifact :=
  o.expectedArtifact.getD
    ⟨o.maxFiles.getD 5000, o.maxBytes.getD 104857600, lit (String.ofList (List.replicate 64 '0'))⟩

/-- `snapshotDirectory`, as long as no operation fails and no deadline goes by: the receipt and
the copy. `taken` says whether there is something at the destination. The source and the copy are
listed in orders of their own. -/
def snapshotDirectory (c : Collation) (sha256 : List UInt8 → Text) (atSource atCopy : Listing)
    (process owner : Owner) (o : Options) (taken : Bool) (source : Node) :
    Except Failure (Artifact × Node) := do
  let expected := o.expected
  match source with
  | .dir _ _ =>
    if taken then fail "artifact snapshot already exists"
    else
      let (copy, _) ← walk c atSource (copyWalk
        ⟨o.maxFiles.getD expected.files, o.maxBytes.getD expected.bytes,
          o.maxEntries.getD maxSnapshotEntries, o.maxDepth.getD maxSnapshotDepth⟩ process)
        source [] {}
      let locked ← lock owner [] copy
      let receipt ← scanSnapshot c sha256 atCopy expected owner locked
      if o.expectedArtifact.isSome ∧ sameArtifact receipt expected = false then
        fail "artifact snapshot does not match verification receipt"
      else pure (receipt, locked)
  | _ => fail "verified output is not a directory"

/-! ### Sorted entries -/

/-- Two names that the collation takes for one. -/
def Collation.Same (c : Collation) (a b : List Char) : Prop := c.le a b = true ∧ c.le b a = true

lemma Collation.same_refl (c : Collation) (a : List Char) : c.Same a a := by
  have h := c.total a a
  rw [Bool.or_self] at h
  exact ⟨h, h⟩

/-- No two names of a directory are taken for one, as they are read. -/
def Apart (c : Collation) (entries : List (Name × Node)) : Prop :=
  entries.Pairwise fun a b => ¬ c.Same (lossy a.1) (lossy b.1)

def Legible (e : Name × Node) : Prop := encode (lossy e.1) = e.1

/-- The entries of a directory in the order of their names. -/
def ordered (c : Collation) (entries : List (Name × Node)) : List (Name × Node) :=
  entries.insertionSort fun a b => c.le (lossy a.1) (lossy b.1) = true

lemma mem_ordered {c : Collation} {entries : List (Name × Node)} {e : Name × Node} :
    e ∈ ordered c entries ↔ e ∈ entries := List.mem_insertionSort _

lemma ordered_perm (c : Collation) (entries : List (Name × Node)) :
    (ordered c entries).Perm entries := List.perm_insertionSort _ _

section

variable {c : Collation} {entries : List (Name × Node)}

lemma Apart.eq (h : Apart c entries) {a b : Name × Node} (ha : a ∈ entries) (hb : b ∈ entries)
    (hsame : c.Same (lossy a.1) (lossy b.1)) : a = b := by
  have hsymm : Std.Symm fun a b : Name × Node => ¬ c.Same (lossy a.1) (lossy b.1) :=
    ⟨fun _ _ hab hba => hab ⟨hba.2, hba.1⟩⟩
  by_contra hne
  exact h.forall ha hb hne hsame

lemma pairwise_sort (c : Collation) (names : List (List Char)) :
    (names.insertionSort fun a b => c.le a b = true).Pairwise fun a b => c.le a b = true := by
  have : Std.Total fun a b => c.le a b = true :=
    ⟨fun a b => by simpa using c.total a b⟩
  have : IsTrans (List Char) fun a b => c.le a b = true := ⟨c.trans⟩
  exact List.pairwise_insertionSort _ _

lemma map_ordered (c : Collation) (entries : List (Name × Node)) :
    (ordered c entries).map (fun e => lossy e.1) =
      (entries.map fun e => lossy e.1).insertionSort fun a b => c.le a b = true :=
  List.map_insertionSort _ _ _ _ fun _ _ _ _ => Iff.rfl

/-- **However a directory is listed, its names are sorted to one list.** -/
lemma order_eq (h : Apart c entries) (l : Listing) (p : Path) :
    order c l p (entries.map Prod.fst) = (ordered c entries).map fun e => lossy e.1 := by
  rw [map_ordered, order]
  have hperm : ((l.names p (entries.map Prod.fst)).map lossy).Perm
      (entries.map fun e => lossy e.1) := by
    have := (l.perm p (entries.map Prod.fst)).map lossy
    rwa [List.map_map] at this
  refine List.Perm.eq_of_pairwise (fun a b ha hb hab hba => ?_) (pairwise_sort c _)
    (pairwise_sort c _) ((List.perm_insertionSort _ _).trans
      (hperm.trans (List.perm_insertionSort _ _).symm))
  obtain ⟨x, hx, rfl⟩ := List.mem_map.mp (hperm.mem_iff.mp ((List.mem_insertionSort _).mp ha))
  obtain ⟨y, hy, rfl⟩ := List.mem_map.mp ((List.mem_insertionSort _).mp hb)
  rw [h.eq hx hy ⟨hab, hba⟩]

end

/-! ### Walks over entries that are told apart -/

section

variable {σ β : Type} {c : Collation} {l : Listing} {w : Walk σ β}
  {entries : List (Name × Node)}

/-- The walk over entries that are found under the names they were read with. -/
def walkAll (c : Collation) (l : Listing) (w : Walk σ β) (p : Path) :
    List (Name × Node) → σ → Except Failure (List (List Char × β) × σ)
  | [], s => pure ([], s)
  | e :: es, s => do
    let s ← w.entry (p ++ [lossy e.1]) s
    let (b, s) ← walk c l w e.2 (p ++ [lossy e.1]) s
    let (bs, s) ← walkAll c l w p es s
    pure ((lossy e.1, b) :: bs, s)

lemma lookup_walks (name : Name) :
    (walks c l w entries).lookup name = (entries.lookup name).map (walk c l w) := by
  induction entries with
  | nil => rfl
  | cons e entries ih =>
      obtain ⟨n, node⟩ := e
      rw [walks, List.lookup_cons, List.lookup_cons, ih]
      split <;> rfl

lemma mem_of_lookup {name : Name} {node : Node} (h : entries.lookup name = some node) :
    (name, node) ∈ entries := by
  induction entries with
  | nil => cases h
  | cons e entries ih =>
      rw [List.lookup_cons] at h
      split at h
      · rename_i heq
        obtain rfl := eq_of_beq heq
        obtain rfl := Option.some.inj h
        exact List.mem_cons_self
      · exact List.mem_cons_of_mem _ (ih h)

/-- Only an entry itself is found under the name it was read with. -/
lemma lookup_eq_some (h : Apart c entries) {e : Name × Node} (he : e ∈ entries) {node : Node}
    (hlook : entries.lookup (encode (lossy e.1)) = some node) : Legible e ∧ e.2 = node := by
  have hmem := mem_of_lookup hlook
  have heq := h.eq he hmem (by rw [Utf8.lossy_encode]; exact c.same_refl _)
  exact ⟨(congrArg Prod.fst heq).symm, congrArg Prod.snd heq⟩

lemma lookup_legible (h : Apart c entries) {e : Name × Node} (he : e ∈ entries)
    (hleg : Legible e) : entries.lookup (encode (lossy e.1)) = some e.2 := by
  cases hlook : entries.lookup (encode (lossy e.1)) with
  | some node => rw [(lookup_eq_some h he hlook).2]
  | none =>
      rw [hleg, List.lookup_eq_none_iff] at hlook
      simpa using hlook e he

/-- A walk that comes through has found every entry. -/
lemma visitAll_eq_ok (h : Apart c entries) {p : Path} {es : List (Name × Node)}
    (hes : ∀ e ∈ es, e ∈ entries) {s : σ} {r : List (List Char × β) × σ} :
    visitAll w (walks c l w entries) p (es.map fun e => lossy e.1) s = .ok r ↔
      (∀ e ∈ es, Legible e) ∧ walkAll c l w p es s = .ok r := by
  induction es generalizing s r with
  | nil => simp [visitAll, walkAll]
  | cons e es ih =>
      have he := hes e List.mem_cons_self
      have hrest := fun x hx => hes x (List.mem_cons_of_mem _ hx)
      rw [List.map_cons, visitAll, walkAll, bind_eq_ok, bind_eq_ok, lookup_walks]
      constructor
      · rintro ⟨s₁, hentry, hvisit⟩
        cases hlook : entries.lookup (encode (lossy e.1)) with
        | none =>
            rw [hlook] at hvisit
            cases hvisit
        | some node =>
            obtain ⟨hleg, rfl⟩ := lookup_eq_some h he hlook
            rw [hlook, Option.map_some] at hvisit
            obtain ⟨q, hq, hvisit⟩ := bind_eq_ok.mp hvisit
            obtain ⟨q', hq', hvisit⟩ := bind_eq_ok.mp hvisit
            obtain ⟨hlegs, hall⟩ := (ih hrest).mp hq'
            refine ⟨List.forall_mem_cons.mpr ⟨hleg, hlegs⟩, s₁, hentry, ?_⟩
            exact bind_eq_ok.mpr ⟨q, hq, bind_eq_ok.mpr ⟨q', hall, hvisit⟩⟩
      · rintro ⟨hlegs, s₁, hentry, hvisit⟩
        obtain ⟨hleg, hlegs⟩ := List.forall_mem_cons.mp hlegs
        obtain ⟨q, hq, hvisit⟩ := bind_eq_ok.mp hvisit
        obtain ⟨q', hq', hvisit⟩ := bind_eq_ok.mp hvisit
        refine ⟨s₁, hentry, ?_⟩
        rw [lookup_legible h he hleg, Option.map_some]
        exact bind_eq_ok.mpr ⟨q, hq, bind_eq_ok.mpr ⟨q', (ih hrest).mpr ⟨hlegs, hq'⟩, hvisit⟩⟩

/-- A directory whose entries are told apart. -/
lemma walk_dir_eq_ok (h : Apart c entries) {attr : Attr} {p : Path} {s s' : σ} {b : β} :
    walk c l w (.dir attr entries) p s = .ok (b, s') ↔
      (∀ e ∈ entries, Legible e) ∧ ∃ s₁ bs, w.enter p attr s = .ok s₁ ∧
        walkAll c l w p (ordered c entries) s₁ = .ok (bs, s') ∧ b = w.leave bs := by
  have hmem : ∀ e ∈ ordered c entries, e ∈ entries := fun e => mem_ordered.mp
  rw [walk]
  simp only [bind_eq_ok, order_eq h, visitAll_eq_ok h hmem]
  constructor
  · rintro ⟨s₁, henter, ⟨bs, s₂⟩, ⟨hlegs, hall⟩, hend⟩
    obtain ⟨rfl, rfl⟩ := Prod.mk.inj (Except.ok.inj hend)
    exact ⟨fun e he => hlegs e (mem_ordered.mpr he), s₁, bs, henter, hall, rfl⟩
  · rintro ⟨hlegs, s₁, bs, henter, hall, rfl⟩
    exact ⟨s₁, henter, (bs, s'), ⟨fun e he => hlegs e (hmem e he), hall⟩, rfl⟩

lemma walkAll_cons_eq_ok {p : Path} {e : Name × Node} {es : List (Name × Node)} {s s' : σ}
    {bs : List (List Char × β)} :
    walkAll c l w p (e :: es) s = .ok (bs, s') ↔
      ∃ s₁ b s₂ rest, w.entry (p ++ [lossy e.1]) s = .ok s₁ ∧
        walk c l w e.2 (p ++ [lossy e.1]) s₁ = .ok (b, s₂) ∧
        walkAll c l w p es s₂ = .ok (rest, s') ∧ bs = (lossy e.1, b) :: rest := by
  rw [walkAll]
  simp only [bind_eq_ok]
  constructor
  · rintro ⟨s₁, hentry, ⟨b, s₂⟩, hwalk, ⟨rest, s₃⟩, hall, hend⟩
    obtain ⟨rfl, rfl⟩ := Prod.mk.inj (Except.ok.inj hend)
    exact ⟨s₁, b, s₂, rest, hentry, hwalk, hall, rfl⟩
  · rintro ⟨s₁, b, s₂, rest, hentry, hwalk, hall, rfl⟩
    exact ⟨s₁, hentry, (b, s₂), hwalk, (rest, s'), hall, rfl⟩

lemma walkAll_nil_eq_ok {p : Path} {s s' : σ} {bs : List (List Char × β)} :
    walkAll c l w p [] s = .ok (bs, s') ↔ bs = [] ∧ s' = s := by
  rw [walkAll]
  constructor
  · intro h
    obtain ⟨rfl, rfl⟩ := Prod.mk.inj (Except.ok.inj h)
    exact ⟨rfl, rfl⟩
  · rintro ⟨rfl, rfl⟩
    rfl

/-- Every entry that was walked over was walked through. -/
lemma walk_of_mem {p : Path} {es : List (Name × Node)} {s s' : σ} {bs : List (List Char × β)}
    (h : walkAll c l w p es s = .ok (bs, s')) {e : Name × Node} (he : e ∈ es) :
    ∃ s₁ r, walk c l w e.2 (p ++ [lossy e.1]) s₁ = .ok r := by
  induction es generalizing s bs with
  | nil => cases he
  | cons x es ih =>
      obtain ⟨s₁, b, s₂, rest, -, hwalk, hall, -⟩ := walkAll_cons_eq_ok.mp h
      rcases List.mem_cons.mp he with rfl | he
      · exact ⟨s₁, _, hwalk⟩
      · exact ih hall he

end

/-! ### What the verifier accepts -/

/-- In every directory the names are told apart. -/
inductive Told (c : Collation) : Node → Prop
  | file (attr : Attr) (content : List UInt8) : Told c (.file attr content)
  | dir (attr : Attr) {entries : List (Name × Node)} (apart : Apart c entries)
      (below : ∀ e ∈ entries, Told c e.2) : Told c (.dir attr entries)
  | symlink : Told c .symlink
  | other : Told c .other

/-- Directories and files, each under a name that is a text. -/
inductive Sound (c : Collation) : Node → Prop
  | file (attr : Attr) (content : List UInt8) : Sound c (.file attr content)
  | dir (attr : Attr) {entries : List (Name × Node)} (apart : Apart c entries)
      (legible : ∀ e ∈ entries, Legible e) (below : ∀ e ∈ entries, Sound c e.2) :
      Sound c (.dir attr entries)

section

variable {c : Collation} {l : Listing} {σ β : Type} {w : Walk σ β}

/-- A walk comes through only where every name is a text and nothing is a link. -/
lemma sound_of_walk {t : Node} (h : Told c t) {p : Path} {s : σ} {r : β × σ}
    (hok : walk c l w t p s = .ok r) : Sound c t := by
  induction h generalizing p s r with
  | file attr content => exact .file attr content
  | symlink => cases hok
  | other => cases hok
  | dir attr apart below ih =>
      obtain ⟨hlegs, s₁, bs, -, hall, -⟩ := (walk_dir_eq_ok apart).mp hok
      refine .dir attr apart hlegs fun e he => ?_
      obtain ⟨s₂, r', hwalk⟩ := walk_of_mem hall (mem_ordered.mpr he)
      exact ih e he hwalk

section

variable {R : σ → σ → Prop} (hrefl : ∀ s, R s s) (htrans : ∀ s t u, R s t → R t u → R s u)
  (henter : ∀ p a s s', w.enter p a s = .ok s' → R s s')
  (hentry : ∀ p s s', w.entry p s = .ok s' → R s s')
  (hfile : ∀ p a x s b s', w.file p a x s = .ok (b, s') → R s s')

include hrefl htrans hentry

lemma walkAll_rel {p : Path} {es : List (Name × Node)}
    (hwalk : ∀ e ∈ es, ∀ p s b s', walk c l w e.2 p s = .ok (b, s') → R s s') {s s' : σ}
    {bs : List (List Char × β)} (hok : walkAll c l w p es s = .ok (bs, s')) : R s s' := by
  induction es generalizing s bs with
  | nil =>
      obtain ⟨-, rfl⟩ := walkAll_nil_eq_ok.mp hok
      exact hrefl _
  | cons e es ih =>
      obtain ⟨s₁, b, s₂, rest, he, hstep, hall, -⟩ := walkAll_cons_eq_ok.mp hok
      have hrest := ih (fun x hx => hwalk x (List.mem_cons_of_mem _ hx)) hall
      exact htrans _ _ _ (hentry _ _ _ he)
        (htrans _ _ _ (hwalk e List.mem_cons_self _ _ _ _ hstep) hrest)

include henter hfile

/-- What no step undoes no walk undoes. -/
lemma walk_rel {t : Node} (h : Sound c t) (p : Path) (s : σ) (b : β) (s' : σ)
    (hok : walk c l w t p s = .ok (b, s')) : R s s' := by
  induction h generalizing p s s' b with
  | file attr content => exact hfile _ _ _ _ _ _ hok
  | dir attr apart legible below ih =>
      obtain ⟨-, s₁, bs, hin, hall, -⟩ := (walk_dir_eq_ok apart).mp hok
      exact htrans _ _ _ (henter _ _ _ _ hin) (walkAll_rel hrefl htrans hentry
        (fun e he => ih e (mem_ordered.mp he)) hall)

end

end

/-! ### The copy of what was accepted -/

mutual

/-- The entries below a node. -/
def count : Node → ℕ
  | .dir _ entries => countAll entries
  | _ => 0

def countAll : List (Name × Node) → ℕ
  | [] => 0
  | (_, node) :: entries => count node + 1 + countAll entries

end

mutual

/-- The levels below a node. -/
def height : Node → ℕ
  | .dir _ entries => heightAll entries
  | _ => 0

def heightAll : List (Name × Node) → ℕ
  | [] => 0
  | (_, node) :: entries => max (height node + 1) (heightAll entries)

end

lemma countAll_perm {a b : List (Name × Node)} (h : a.Perm b) : countAll a = countAll b := by
  have hsum : ∀ es, countAll es = (es.map fun e : Name × Node => count e.2 + 1).sum := by
    intro es
    induction es with
    | nil => rfl
    | cons e es ih => rw [countAll, ih, List.map_cons, List.sum_cons]
  rw [hsum, hsum, (h.map _).sum_eq]

lemma height_le {entries : List (Name × Node)} {e : Name × Node} (h : e ∈ entries) :
    height e.2 + 1 ≤ heightAll entries := by
  induction entries with
  | nil => cases h
  | cons x entries ih =>
      rw [heightAll]
      rcases List.mem_cons.mp h with rfl | h
      · exact le_max_left _ _
      · exact (ih h).trans (le_max_right _ _)

/-- The files and directories of a node, a directory in the order of its names; owners and modes
are another's. -/
inductive Copied (c : Collation) : Node → Node → Prop
  | file (a b : Attr) (content : List UInt8) : Copied c (.file a content) (.file b content)
  | dir (a b : Attr) {entries copies : List (Name × Node)}
      (names : (ordered c entries).map Prod.fst = copies.map Prod.fst)
      (nodes : List.Forall₂ (Copied c) ((ordered c entries).map Prod.snd)
        (copies.map Prod.snd)) :
      Copied c (.dir a entries) (.dir b copies)

/-- Nothing at the destination is at a path or below it. -/
def Free (p : Path) (s : Copy) : Prop := ∀ q ∈ s.made, ¬ p <+: q

section

variable {c : Collation} {l l' : Listing} {lim : Limits} {process : Owner}
  {contains : List UInt8}

/-- Where the copy is when it is where the verifier was. -/
structure Beside (p : Path) (t : Node) (o : Output) (s s' : Copy) : Prop where
  files : s'.files = o.files
  bytes : s'.bytes = o.bytes
  entries : s'.entries = s.entries + count t
  made : ∀ q ∈ s'.made, q ∈ s.made ∨ p <+: q

lemma create_of_free {p : Path} {s : Copy} (h : Free p s) :
    create p s = .ok { s with made := p :: s.made } :=
  if_neg fun hmem => h p hmem (List.prefix_refl p)

lemma copy_file {p : Path} {a : Attr} {content : List UInt8} {o o' : Output} {s : Copy}
    (hok : (outputWalk lim.maxFiles lim.maxBytes contains).file p a content o = .ok ((), o'))
    (hfiles : s.files = o.files) (hbytes : s.bytes = o.bytes) (hfree : Free p s) :
    ∃ n s', (copyWalk lim process).file p a content s = .ok (n, s') ∧
      Copied c (.file a content) n ∧ Beside p (.file a content) o' s s' := by
  simp only [outputWalk] at hok
  split_ifs at hok with h1 h2
  · cases hok
  · cases hok
  obtain ⟨-, rfl⟩ := Prod.mk.inj (Except.ok.inj hok)
  refine ⟨.file ⟨0o600, process.uid, process.gid⟩ content, ⟨s.entries, s.files + 1,
    s.bytes + content.length, p :: s.made⟩, ?_, .file _ _ _, ?_⟩
  · simp only [copyWalk]
    rw [if_neg (by rwa [hfiles]), if_neg (by rwa [hbytes])]
    refine bind_eq_ok.mpr ⟨_, create_of_free ?_, rfl⟩
    exact hfree
  · refine ⟨by simp only [hfiles], by simp only [hbytes], rfl, fun q hq => ?_⟩
    rcases List.mem_cons.mp hq with rfl | hq
    · exact .inr (List.prefix_refl _)
    · exact .inl hq

/-- Paths of two entries of one directory are not below each other. -/
lemma name_of_both {p q : Path} {a b : List Char} (ha : p ++ [a] <+: q) (hb : p ++ [b] <+: q) :
    a = b := by
  have h := List.prefix_of_prefix_length_le ha hb (by simp)
  simpa using (h.eq_of_length (by simp) : p ++ [a] = p ++ [b])

/-- **What the verifier accepts can be copied**, where there is room for its entries and levels. -/
lemma copy_of_output {t : Node} (h : Sound c t) {p : Path} {o o' : Output} {s : Copy}
    (hok : walk c l (outputWalk lim.maxFiles lim.maxBytes contains) t p o = .ok ((), o'))
    (hfiles : s.files = o.files) (hbytes : s.bytes = o.bytes)
    (hentries : s.entries + count t ≤ lim.maxEntries) (hdepth : p.length + height t ≤ lim.maxDepth)
    (hfree : Free p s) :
    ∃ n s', walk c l' (copyWalk lim process) t p s = .ok (n, s') ∧ Copied c t n ∧
      Beside p t o' s s' := by
  induction h generalizing p o o' s with
  | file attr content => exact copy_file hok hfiles hbytes hfree
  | @dir attr entries apart legible below ih =>
      obtain ⟨-, o₁, bs, hin, hall, -⟩ := (walk_dir_eq_ok apart).mp hok
      obtain rfl := Except.ok.inj hin
      -- along the entries: the paths of those to come are free
      have hlist : ∀ es : List (Name × Node), (∀ e ∈ es, e ∈ entries) →
          (es.map fun e => lossy e.1).Nodup → ∀ o bs, walkAll c l
            (outputWalk lim.maxFiles lim.maxBytes contains) p es o = .ok (bs, o') →
          ∀ s : Copy, s.files = o.files → s.bytes = o.bytes →
          s.entries + countAll es ≤ lim.maxEntries →
          (∀ e ∈ es, Free (p ++ [lossy e.1]) s) →
          ∃ ns s', walkAll c l' (copyWalk lim process) p es s = .ok (ns, s') ∧
            ns.map (fun n => encode n.1) = es.map Prod.fst ∧
            List.Forall₂ (Copied c) (es.map Prod.snd) (ns.map Prod.snd) ∧
            s'.files = o'.files ∧ s'.bytes = o'.bytes ∧ s'.entries = s.entries + countAll es ∧
            ∀ q ∈ s'.made, q ∈ s.made ∨ p <+: q := by
        intro es
        induction es with
        | nil =>
            intro _ _ o bs hall s hfiles hbytes _ _
            obtain ⟨-, rfl⟩ := walkAll_nil_eq_ok.mp hall
            exact ⟨[], s, rfl, rfl, .nil, hfiles, hbytes, rfl, fun q hq => .inl hq⟩
        | cons e es ihes =>
            intro hes hnodup o bs hall s hfiles hbytes hentries hfree
            obtain ⟨o₁, b, o₂, rest, hentry, hwalk, hall, -⟩ := walkAll_cons_eq_ok.mp hall
            obtain rfl := Except.ok.inj hentry
            have he := hes e List.mem_cons_self
            have hheight := height_le he
            rw [countAll] at hentries
            rw [height] at hdepth
            rw [List.map_cons, List.nodup_cons] at hnodup
            have hbounds : assertSnapshotBounds lim s.entries (p ++ [lossy e.1]) =
                .ok (s.entries + 1) := by
              rw [assertSnapshotBounds, if_neg (by omega), if_neg]
              · rfl
              · rw [List.length_append, List.length_singleton]
                omega
            obtain ⟨n, s₂, hcopy, hcopied, hbeside⟩ := ih e he hwalk
              (s := { s with entries := s.entries + 1 }) hfiles hbytes
              (by simp only; omega)
              (by rw [List.length_append, List.length_singleton]; omega)
              (hfree e List.mem_cons_self)
            have hentries₂ := hbeside.entries
            simp only at hentries₂
            obtain ⟨ns, s', hcopies, hnames, hnodes, hf, hb, hn, hmade⟩ := ihes
              (fun x hx => hes x (List.mem_cons_of_mem _ hx)) hnodup.2 _ _ hall s₂
              hbeside.files hbeside.bytes (by omega) (fun x hx q hq hpre => by
                rcases hbeside.made q hq with hq | hq
                · exact hfree x (List.mem_cons_of_mem _ hx) q hq hpre
                · exact hnodup.1 (name_of_both hpre hq ▸ List.mem_map.mpr ⟨x, hx, rfl⟩))
            refine ⟨(lossy e.1, n) :: ns, s', ?_, ?_, .cons hcopied hnodes, hf, hb, ?_, ?_⟩
            · exact walkAll_cons_eq_ok.mpr ⟨_, n, s₂, ns,
                bind_eq_ok.mpr ⟨_, hbounds, rfl⟩, hcopy, hcopies, rfl⟩
            · rw [List.map_cons, List.map_cons, hnames, legible e he]
            · rw [countAll]
              omega
            · intro q hq
              rcases hmade q hq with hq | hq
              · exact (hbeside.made q hq).imp_right ((List.prefix_append _ _).trans ·)
              · exact .inr hq
      have hnodup : ((ordered c entries).map fun e => lossy e.1).Nodup := by
        refine List.Nodup.map_on (fun a ha b hb hab => ?_) ?_
        · exact apart.eq (mem_ordered.mp ha) (mem_ordered.mp hb) (hab ▸ c.same_refl _)
        · refine (ordered_perm c entries).nodup_iff.mpr (apart.imp fun hne heq => hne ?_)
          exact heq ▸ c.same_refl _
      have hcount : countAll (ordered c entries) = countAll entries :=
        countAll_perm (ordered_perm c entries)
      obtain ⟨ns, s', hcopies, hnames, hnodes, hf, hb, hn, hmade⟩ := hlist (ordered c entries)
        (fun e => mem_ordered.mp) hnodup _ _ hall { s with made := p :: s.made } hfiles hbytes
        (by rw [hcount]; exact hentries) (fun e _ q hq hpre => by
          rcases List.mem_cons.mp hq with rfl | hq
          · simpa using hpre.length_le
          · exact hfree q hq ((List.prefix_append _ _).trans hpre))
      refine ⟨_, s', (walk_dir_eq_ok apart).mpr ⟨legible, _, ns, create_of_free hfree, hcopies,
        rfl⟩, .dir _ _ ?_ ?_, hf, hb, by rw [hn, hcount]; rfl, fun q hq => ?_⟩
      · rw [List.map_map]
        exact hnames.symm
      · rw [List.map_map]
        exact hnodes
      · rcases hmade q hq with hq | hq
        · rcases List.mem_cons.mp hq with rfl | hq
          · exact .inr (List.prefix_refl _)
          · exact .inl hq
        · exact .inr hq

/-- A copy that comes through has counted every entry and every level. -/
lemma bounds_of_copy {t : Node} (h : Sound c t) {p : Path} {s s' : Copy} {n : Node}
    (hok : walk c l (copyWalk lim process) t p s = .ok (n, s')) (hs : s.entries ≤ lim.maxEntries)
    (hp : p.length ≤ lim.maxDepth) :
    s'.entries = s.entries + count t ∧ s'.entries ≤ lim.maxEntries ∧
      p.length + height t ≤ lim.maxDepth := by
  have hcreate : ∀ {p : Path} {s s' : Copy}, create p s = .ok s' → s'.entries = s.entries := by
    intro p s s' h
    rw [create] at h
    split_ifs at h
    obtain rfl := Except.ok.inj h
    rfl
  induction h generalizing p s s' n with
  | file attr content =>
      simp only [walk, copyWalk] at hok
      split_ifs at hok
      · cases hok
      · cases hok
      obtain ⟨s₁, hs₁, hok⟩ := bind_eq_ok.mp hok
      obtain ⟨-, rfl⟩ := Prod.mk.inj (Except.ok.inj hok)
      have hentries := hcreate hs₁
      exact ⟨hentries, hentries.trans_le hs, hp⟩
  | @dir attr entries apart legible below ih =>
      obtain ⟨-, s₁, bs, hin, hall, -⟩ := (walk_dir_eq_ok apart).mp hok
      have hs₁ := hcreate hin
      have hlist : ∀ es : List (Name × Node), (∀ e ∈ es, e ∈ entries) → ∀ s bs,
          walkAll c l (copyWalk lim process) p es s = .ok (bs, s') → s.entries ≤ lim.maxEntries →
          s'.entries = s.entries + countAll es ∧ s'.entries ≤ lim.maxEntries ∧
            ∀ e ∈ es, p.length + (height e.2 + 1) ≤ lim.maxDepth := by
        intro es
        induction es with
        | nil =>
            intro _ s bs hall hs
            obtain ⟨-, rfl⟩ := walkAll_nil_eq_ok.mp hall
            exact ⟨rfl, hs, nofun⟩
        | cons e es ihes =>
            intro hes s bs hall hs
            obtain ⟨s₁, b, s₂, rest, hentry, hwalk, hall, -⟩ := walkAll_cons_eq_ok.mp hall
            obtain ⟨k, hk, hentry⟩ := bind_eq_ok.mp hentry
            obtain rfl := Except.ok.inj hentry
            rw [assertSnapshotBounds] at hk
            split_ifs at hk with h1 h2
            · cases hk
            · cases hk
            obtain rfl := Except.ok.inj hk
            obtain ⟨hcount, hle, hheight⟩ := ih e (hes e List.mem_cons_self) hwalk
              (not_lt.mp h1) (not_lt.mp h2)
            obtain ⟨hcounts, hles, hheights⟩ := ihes
              (fun x hx => hes x (List.mem_cons_of_mem _ hx)) s₂ rest hall hle
            dsimp only at hcount
            rw [List.length_append, List.length_singleton] at hheight
            refine ⟨?_, hles, List.forall_mem_cons.mpr ⟨by omega, hheights⟩⟩
            rw [countAll]
            omega
      obtain ⟨hcount, hle, hheight⟩ := hlist _ (fun e => mem_ordered.mp) _ _ hall (hs₁.trans_le hs)
      rw [countAll_perm (ordered_perm c entries)] at hcount
      refine ⟨by rw [hcount, hs₁]; rfl, hle, ?_⟩
      rw [height]
      have hmax : ∀ es : List (Name × Node),
          (∀ e ∈ es, p.length + (height e.2 + 1) ≤ lim.maxDepth) →
          p.length + heightAll es ≤ lim.maxDepth := by
        intro es hes
        induction es with
        | nil => exact hp
        | cons e es ihes =>
            have he := hes e List.mem_cons_self
            have hrest := ihes fun x hx => hes x (List.mem_cons_of_mem _ hx)
            rw [heightAll]
            omega
      exact hmax entries fun e he => hheight e (mem_ordered.mpr he)

/-! ### The copy, read again -/

/-- Nothing can be written, and everything is the owner's. -/
inductive Locked (owner : Owner) : Node → Prop
  | file {attr : Attr} (locked : isLocked owner attr = true) (content : List UInt8) :
      Locked owner (.file attr content)
  | dir {attr : Attr} (locked : isLocked owner attr = true) {entries : List (Name × Node)}
      (below : ∀ e ∈ entries, Locked owner e.2) : Locked owner (.dir attr entries)

lemma isLocked_of_mode (owner : Owner) {mode : ℕ} (h : mode &&& 0o222 = 0) :
    isLocked owner ⟨mode, owner.uid, owner.gid⟩ = true := by
  simp [isLocked, h]

/-- A copy can be locked. -/
lemma lock_of_copied {owner : Owner} {t n : Node} (h : Sound c t) (hn : Copied c t n)
    (name : Name) : ∃ n', lock owner name n = .ok n' ∧ Copied c t n' ∧ Locked owner n' := by
  induction h generalizing n name with
  | file attr content =>
      cases hn
      exact ⟨_, rfl, .file _ _ _, .file (isLocked_of_mode owner (by decide)) _⟩
  | @dir attr entries apart legible below ih =>
      cases hn with
      | @dir a b entries copies names nodes =>
      have hlist : ∀ es : List (Name × Node), (∀ e ∈ es, e ∈ entries) → ∀ copies,
          List.Forall₂ (Copied c) (es.map Prod.snd) (copies.map Prod.snd) →
          ∃ copies', lockEntries owner copies = .ok copies' ∧
            copies'.map Prod.fst = copies.map Prod.fst ∧
            List.Forall₂ (Copied c) (es.map Prod.snd) (copies'.map Prod.snd) ∧
            ∀ e ∈ copies', Locked owner e.2 := by
        intro es
        induction es with
        | nil =>
            intro _ copies hnodes
            obtain rfl : copies = [] := by simpa using hnodes
            exact ⟨[], rfl, rfl, .nil, nofun⟩
        | cons e es ihes =>
            intro hes copies hnodes
            cases copies with
            | nil => cases hnodes
            | cons x copies =>
                obtain ⟨hx, hnodes⟩ := List.forall₂_cons.mp hnodes
                obtain ⟨n', hlock, hcopied, hlocked⟩ := ih e (hes e List.mem_cons_self) hx x.1
                obtain ⟨copies', hall, hnames, hnodes', hlocks⟩ :=
                  ihes (fun y hy => hes y (List.mem_cons_of_mem _ hy)) copies hnodes
                refine ⟨(x.1, n') :: copies', ?_, by simp [hnames], .cons hcopied hnodes',
                  List.forall_mem_cons.mpr ⟨hlocked, hlocks⟩⟩
                exact bind_eq_ok.mpr ⟨n', hlock, bind_eq_ok.mpr ⟨copies', hall, rfl⟩⟩
      obtain ⟨copies', hall, hnames, hnodes, hlocks⟩ :=
        hlist _ (fun e => mem_ordered.mp) _ nodes
      exact ⟨_, bind_eq_ok.mpr ⟨copies', hall, rfl⟩, .dir _ _ (names.trans hnames.symm) hnodes,
        .dir (isLocked_of_mode owner (by decide)) hlocks⟩

/-- Where a scan is when it is where the verifier was. -/
structure Agrees (o : Output) (s : Scan) : Prop where
  files : s.files = o.files
  bytes : s.bytes = o.bytes
  hashed : s.hashed = o.hashed

section

variable {expected : Artifact} {owner : Owner} {maxFiles maxBytes : ℕ}

lemma scan_file {p : Path} {a b : Attr} {content : List UInt8} {o o' : Output} {s : Scan}
    (hok : (outputWalk maxFiles maxBytes contains).file p a content o = .ok ((), o'))
    (hlocked : isLocked owner b = true) (hs : Agrees o s) (hfiles : o'.files ≤ expected.files)
    (hbytes : o'.bytes ≤ expected.bytes) :
    ∃ s', (snapshotWalk expected owner).file p b content s = .ok ((), s') ∧ Agrees o' s' ∧
      s'.entries = s.entries := by
  simp only [outputWalk] at hok
  split_ifs at hok with h1 h2
  · cases hok
  · cases hok
  obtain ⟨-, rfl⟩ := Prod.mk.inj (Except.ok.inj hok)
  simp only at hfiles hbytes
  refine ⟨⟨s.entries, s.files + 1, s.bytes + content.length,
    s.hashed ++ header p content.length ++ content⟩, ?_, ?_, rfl⟩
  · simp only [snapshotWalk]
    rw [if_neg (by simp [hlocked]), if_neg (by rw [hs.files]; omega),
      if_neg (by rw [hs.bytes]; omega)]
    rfl
  · exact ⟨by simp only [hs.files], by simp only [hs.bytes], by simp only [hs.hashed]⟩

/-- The verifier's counts only grow. -/
lemma output_mono {t : Node} (h : Sound c t) (p : Path) (o : Output) (u : Unit) (o' : Output)
    (hok : walk c l (outputWalk maxFiles maxBytes contains) t p o = .ok (u, o')) :
    o.files ≤ o'.files ∧ o.bytes ≤ o'.bytes := by
  refine walk_rel (R := fun o o' : Output => o.files ≤ o'.files ∧ o.bytes ≤ o'.bytes)
    (fun _ => ⟨le_rfl, le_rfl⟩) (fun _ _ _ h h' => ⟨h.1.trans h'.1, h.2.trans h'.2⟩) ?_ ?_ ?_ h
    p o u o' hok
  · intro _ _ _ _ h
    obtain rfl := Except.ok.inj h
    exact ⟨le_rfl, le_rfl⟩
  · intro _ _ _ h
    obtain rfl := Except.ok.inj h
    exact ⟨le_rfl, le_rfl⟩
  · intro _ _ _ _ _ _ h
    simp only [outputWalk] at h
    split_ifs at h
    · cases h
    · cases h
    · obtain ⟨-, rfl⟩ := Prod.mk.inj (Except.ok.inj h)
      exact ⟨Nat.le_succ _, Nat.le_add_right _ _⟩

lemma output_mono_all {es : List (Name × Node)} (hes : ∀ e ∈ es, Sound c e.2) {p : Path}
    {o o' : Output} {bs : List (List Char × Unit)}
    (hok : walkAll c l (outputWalk maxFiles maxBytes contains) p es o = .ok (bs, o')) :
    o.files ≤ o'.files ∧ o.bytes ≤ o'.bytes := by
  refine walkAll_rel (R := fun o o' : Output => o.files ≤ o'.files ∧ o.bytes ≤ o'.bytes)
    (fun _ => ⟨le_rfl, le_rfl⟩) (fun _ _ _ h h' => ⟨h.1.trans h'.1, h.2.trans h'.2⟩) ?_
    (fun e he => output_mono (hes e he)) hok
  intro _ _ _ h
  obtain rfl := Except.ok.inj h
  exact ⟨le_rfl, le_rfl⟩

lemma apart_iff {entries : List (Name × Node)} : Apart c entries ↔
    (entries.map Prod.fst).Pairwise fun a b => ¬ c.Same (lossy a) (lossy b) := by
  rw [List.pairwise_map]
  rfl

/-- The entries of a copy: told apart, under texts, and sorted already. -/
lemma entries_of_copy {entries copies : List (Name × Node)} (apart : Apart c entries)
    (legible : ∀ e ∈ entries, Legible e)
    (names : (ordered c entries).map Prod.fst = copies.map Prod.fst) :
    Apart c copies ∧ (∀ e ∈ copies, Legible e) ∧ ordered c copies = copies := by
  refine ⟨?_, fun e he => ?_, ?_⟩
  · rw [apart_iff, ← names, ← apart_iff]
    exact (ordered_perm c entries).symm.pairwise apart fun h h' => h ⟨h'.2, h'.1⟩
  · have hmem : e.1 ∈ (ordered c entries).map Prod.fst := names ▸ List.mem_map_of_mem he
    obtain ⟨x, hx, hname⟩ := List.mem_map.mp hmem
    have hleg := legible x (mem_ordered.mp hx)
    rwa [Legible, hname] at hleg
  · have hlossy : (copies.map fun e => lossy e.1) = (ordered c entries).map fun e => lossy e.1 := by
      have := congrArg (List.map lossy) names.symm
      rwa [List.map_map, List.map_map] at this
    have hsorted := pairwise_sort c (entries.map fun e => lossy e.1)
    rw [← map_ordered, ← hlossy, List.pairwise_map] at hsorted
    exact hsorted.insertionSort_eq

/-- **A locked copy is read as the verifier read the source.** -/
lemma scan_of_output {t n : Node} (h : Sound c t) (hn : Copied c t n) (hlock : Locked owner n)
    {p : Path} {o o' : Output} {s : Scan}
    (hok : walk c l (outputWalk maxFiles maxBytes contains) t p o = .ok ((), o'))
    (hs : Agrees o s) (hentries : s.entries + count t ≤ maxSnapshotEntries)
    (hdepth : p.length + height t ≤ maxSnapshotDepth) (hfiles : o'.files ≤ expected.files)
    (hbytes : o'.bytes ≤ expected.bytes) :
    ∃ s', walk c l' (snapshotWalk expected owner) n p s = .ok ((), s') ∧ Agrees o' s' ∧
      s'.entries = s.entries + count t := by
  induction h generalizing n p o o' s with
  | file attr content =>
      cases hn
      cases hlock with
      | file locked => exact scan_file hok locked hs hfiles hbytes
  | @dir attr entries apart legible below ih =>
      cases hn with
      | @dir a b entries copies names nodes =>
      cases hlock with
      | dir locked hlocks =>
      obtain ⟨-, o₁, bs, hin, hall, -⟩ := (walk_dir_eq_ok apart).mp hok
      obtain rfl := Except.ok.inj hin
      obtain ⟨hapart, hlegs, hsorted⟩ := entries_of_copy apart legible names
      have hlist : ∀ es : List (Name × Node), (∀ e ∈ es, e ∈ entries) → ∀ copies,
          es.map Prod.fst = copies.map Prod.fst →
          List.Forall₂ (Copied c) (es.map Prod.snd) (copies.map Prod.snd) →
          (∀ e ∈ copies, Locked owner e.2) → ∀ o bs,
          walkAll c l (outputWalk maxFiles maxBytes contains) p es o = .ok (bs, o') →
          ∀ s, Agrees o s → s.entries + countAll es ≤ maxSnapshotEntries →
          ∃ bs' s', walkAll c l' (snapshotWalk expected owner) p copies s = .ok (bs', s') ∧
            Agrees o' s' ∧ s'.entries = s.entries + countAll es := by
        intro es
        induction es with
        | nil =>
            intro _ copies hnames _ _ o bs hall s hs _
            obtain rfl : copies = [] := by simpa using hnames.symm
            obtain ⟨-, rfl⟩ := walkAll_nil_eq_ok.mp hall
            exact ⟨[], s, rfl, hs, rfl⟩
        | cons e es ihes =>
            intro hes copies hnames hnodes hlocks o bs hall s hs hentries
            cases copies with
            | nil => cases hnames
            | cons x copies =>
                obtain ⟨hname, hnames⟩ := List.cons.inj hnames
                obtain ⟨hx, hnodes⟩ := List.forall₂_cons.mp hnodes
                obtain ⟨hlock, hlocks⟩ := List.forall_mem_cons.mp hlocks
                obtain ⟨o₁, u, o₂, rest, hentry, hwalk, hall, -⟩ := walkAll_cons_eq_ok.mp hall
                obtain rfl := Except.ok.inj hentry
                have he := hes e List.mem_cons_self
                have hrest := fun y hy => hes y (List.mem_cons_of_mem _ hy)
                have hheight := height_le he
                have hmono := output_mono_all (fun y hy => below y (hrest y hy)) hall
                rw [countAll] at hentries
                rw [height] at hdepth
                have hbounds : (snapshotWalk expected owner).entry (p ++ [lossy x.1]) s =
                    .ok { s with entries := s.entries + 1 } := by
                  refine bind_eq_ok.mpr ⟨s.entries + 1, ?_, rfl⟩
                  rw [assertSnapshotBounds, if_neg (by dsimp only; omega), if_neg]
                  · rfl
                  · rw [List.length_append, List.length_singleton]
                    dsimp only
                    omega
                rw [hname] at hwalk
                obtain ⟨s₂, hscan, hs₂, hn₂⟩ := ih e he hx hlock hwalk
                  (s := { s with entries := s.entries + 1 }) ⟨hs.files, hs.bytes, hs.hashed⟩
                  (by dsimp only; omega)
                  (by rw [List.length_append, List.length_singleton]; omega)
                  (hmono.1.trans hfiles) (hmono.2.trans hbytes)
                dsimp only at hn₂
                obtain ⟨bs', s', hscans, hs', hn'⟩ := ihes hrest copies hnames hnodes hlocks _ _
                  hall s₂ hs₂ (by omega)
                refine ⟨_, s', walkAll_cons_eq_ok.mpr ⟨_, (), s₂, bs', hbounds, hscan, hscans,
                  rfl⟩, hs', ?_⟩
                rw [countAll]
                omega
      have hcount : countAll (ordered c entries) = countAll entries :=
        countAll_perm (ordered_perm c entries)
      obtain ⟨bs', s', hscans, hs', hn'⟩ := hlist _ (fun e => mem_ordered.mp) copies names nodes
        hlocks _ _ hall s hs (by rw [hcount]; exact hentries)
      refine ⟨s', (walk_dir_eq_ok hapart).mpr ⟨hlegs, s, bs', if_pos locked, ?_, rfl⟩, hs', ?_⟩
      · rw [hsorted]
        exact hscans
      · rw [hn', hcount]
        rfl

end

end

/-! ### From the receipt to the copy -/

mutual

/-- The files of a node with their paths. -/
def filesOf : Node → List Name → List (List Name × List UInt8)
  | .file _ content, p => [(p, content)]
  | .dir _ entries, p => filesIn entries p
  | _, _ => []

def filesIn : List (Name × Node) → List Name → List (List Name × List UInt8)
  | [], _ => []
  | (name, node) :: entries, p => filesOf node (p ++ [name]) ++ filesIn entries p

end

lemma filesIn_perm {a b : List (Name × Node)} (h : a.Perm b) (p : List Name) :
    (filesIn a p).Perm (filesIn b p) := by
  have hflat : ∀ es, filesIn es p =
      es.flatMap fun e : Name × Node => filesOf e.2 (p ++ [e.1]) := by
    intro es
    induction es with
    | nil => rfl
    | cons e es ih => rw [filesIn, ih, List.flatMap_cons]
  rw [hflat, hflat]
  exact h.flatMap_right _

/-- A copy has the same files. -/
lemma filesOf_copied {c : Collation} {t n : Node} (h : Sound c t) (hn : Copied c t n)
    (p : List Name) : (filesOf n p).Perm (filesOf t p) := by
  induction h generalizing n p with
  | file attr content =>
      cases hn
      exact .refl _
  | @dir attr entries apart legible below ih =>
      cases hn with
      | @dir a b entries copies names nodes =>
      have hlist : ∀ es : List (Name × Node), (∀ e ∈ es, e ∈ entries) → ∀ copies,
          es.map Prod.fst = copies.map Prod.fst →
          List.Forall₂ (Copied c) (es.map Prod.snd) (copies.map Prod.snd) →
          (filesIn copies p).Perm (filesIn es p) := by
        intro es
        induction es with
        | nil =>
            intro _ copies hnames _
            obtain rfl : copies = [] := by simpa using hnames.symm
            exact .refl _
        | cons e es ihes =>
            intro hes copies hnames hnodes
            cases copies with
            | nil => cases hnames
            | cons x copies =>
                obtain ⟨hname, hnames⟩ := List.cons.inj hnames
                obtain ⟨hx, hnodes⟩ := List.forall₂_cons.mp hnodes
                rw [filesIn, filesIn, hname]
                exact (ih e (hes e List.mem_cons_self) hx _).append
                  (ihes (fun y hy => hes y (List.mem_cons_of_mem _ hy)) copies hnames hnodes)
      rw [filesOf, filesOf]
      exact (hlist _ (fun e => mem_ordered.mp) copies names nodes).trans
        (filesIn_perm (ordered_perm c entries) p)

lemma artifact_of_output {c : Collation} {sha256 : List UInt8 → Text} {l : Listing}
    {maxFiles maxBytes : ℕ} {contains : List Char} {root : Node} {r : Artifact}
    (h : scanOutput c sha256 l maxFiles maxBytes contains root = .ok r) :
    ∃ o, walk c l (outputWalk maxFiles maxBytes (encode contains)) root [] {} = .ok ((), o) ∧
      r = ⟨o.files, o.bytes, sha256 o.hashed⟩ := by
  obtain ⟨⟨u, o⟩, hwalk, h⟩ := bind_eq_ok.mp h
  dsimp only at h
  split_ifs at h
  · cases h
  · cases h
  · exact ⟨o, hwalk, (Except.ok.inj h).symm⟩

section Published

variable {c : Collation} {sha256 : List UInt8 → Text} {atVerifier atSource atCopy : Listing}
  {process owner : Owner} {maxFiles maxBytes : ℕ} {contains : List Char} {attr : Attr}
  {entries : List (Name × Node)} {r : Artifact}

/-- What is copied is within the bounds of the copy. -/
lemma bounds_of_snapshot (hsound : Sound c (.dir attr entries)) {x : Artifact × Node}
    (h : snapshotDirectory c sha256 atSource atCopy process owner
      { maxFiles := some maxFiles, maxBytes := some maxBytes, expectedArtifact := some r } false
      (.dir attr entries) = .ok x) :
    count (.dir attr entries) ≤ maxSnapshotEntries ∧
      height (.dir attr entries) ≤ maxSnapshotDepth := by
  rw [snapshotDirectory, if_neg (by simp)] at h
  obtain ⟨⟨n, s⟩, hcopies, -⟩ := bind_eq_ok.mp h
  obtain ⟨hcount, hle, hheight⟩ := bounds_of_copy hsound hcopies (Nat.zero_le _) (Nat.zero_le _)
  simp only [Nat.zero_add, List.length_nil] at hcount hheight
  exact ⟨hcount ▸ hle, hheight⟩

/-- Within these bounds what the verifier has accepted is copied, locked and read again. -/
lemma snapshot_of_bounds (htold : Told c (.dir attr entries))
    (hr : scanOutput c sha256 atVerifier maxFiles maxBytes contains (.dir attr entries) = .ok r)
    (hcount : count (.dir attr entries) ≤ maxSnapshotEntries)
    (hheight : height (.dir attr entries) ≤ maxSnapshotDepth) :
    ∃ copy, snapshotDirectory c sha256 atSource atCopy process owner
        { maxFiles := some maxFiles, maxBytes := some maxBytes, expectedArtifact := some r } false
        (.dir attr entries) = .ok (r, copy) ∧
      (filesOf copy []).Perm (filesOf (.dir attr entries) []) ∧
      ∀ again, scanSnapshot c sha256 again r owner copy = .ok r := by
  obtain ⟨o, hwalk, rfl⟩ := artifact_of_output hr
  have hsound := sound_of_walk htold hwalk
  obtain ⟨n, s, hcopy, hcopied, -⟩ : ∃ n s, walk c atSource (copyWalk ⟨maxFiles, maxBytes,
      maxSnapshotEntries, maxSnapshotDepth⟩ process) (.dir attr entries) [] {} = .ok (n, s) ∧
      Copied c (.dir attr entries) n ∧ Beside [] (.dir attr entries) o {} s :=
    copy_of_output hsound hwalk rfl rfl (by simpa using hcount) (by simpa using hheight) nofun
  obtain ⟨n', hlock, hcopied', hlocked⟩ : ∃ n', lock owner [] n = .ok n' ∧
      Copied c (.dir attr entries) n' ∧ Locked owner n' := lock_of_copied hsound hcopied []
  have hscan : ∀ l : Listing, scanSnapshot c sha256 l ⟨o.files, o.bytes, sha256 o.hashed⟩ owner n' =
      .ok ⟨o.files, o.bytes, sha256 o.hashed⟩ := by
    intro l
    obtain ⟨s', hread, hagrees, -⟩ : ∃ s', walk c l (snapshotWalk ⟨o.files, o.bytes,
        sha256 o.hashed⟩ owner) n' [] {} = .ok ((), s') ∧ Agrees o s' ∧
        s'.entries = 0 + count (.dir attr entries) :=
      scan_of_output hsound hcopied' hlocked hwalk ⟨rfl, rfl, rfl⟩ (by simpa using hcount)
        (by simpa using hheight) le_rfl le_rfl
    cases hcopied' with
    | dir a b names nodes =>
      refine bind_eq_ok.mpr ⟨((), s'), hread, ?_⟩
      dsimp only
      rw [hagrees.files, hagrees.bytes, hagrees.hashed]
      rfl
  refine ⟨n', ?_, filesOf_copied hsound hcopied' [], hscan⟩
  rw [snapshotDirectory, if_neg (by simp)]
  refine bind_eq_ok.mpr ⟨(n, s), hcopy, bind_eq_ok.mpr ⟨n', hlock,
    bind_eq_ok.mpr ⟨_, hscan atCopy, if_neg ?_⟩⟩⟩
  simp [sameArtifact, Options.expected]

end Published

/-- **What the verifier accepts can be published, within the bounds of the copy.** Where the names
of every directory are told apart, as they are read, a tree that the verifier has made a receipt of
is copied, whatever order it is listed in, exactly when it has at most 10000 entries on at most 64
levels. Any copy is accepted with that receipt; locked, it has the same files, and it is read to
the same receipt whatever order it is listed in. -/
theorem snapshot_of_output (c : Collation) (sha256 : List UInt8 → Text)
    (atVerifier atSource atCopy : Listing) (process owner : Owner) {maxFiles maxBytes : ℕ}
    {contains : List Char} {attr : Attr} {entries : List (Name × Node)} {r : Artifact}
    (htold : Told c (.dir attr entries))
    (hr : scanOutput c sha256 atVerifier maxFiles maxBytes contains (.dir attr entries) = .ok r) :
    let snapshot := snapshotDirectory c sha256 atSource atCopy process owner
      { maxFiles := some maxFiles, maxBytes := some maxBytes, expectedArtifact := some r } false
      (.dir attr entries)
    ((∃ receipt copy, snapshot = .ok (receipt, copy)) ↔
      count (.dir attr entries) ≤ maxSnapshotEntries ∧
        height (.dir attr entries) ≤ maxSnapshotDepth) ∧
    ∀ receipt copy, snapshot = .ok (receipt, copy) →
      receipt = r ∧ (filesOf copy []).Perm (filesOf (.dir attr entries) []) ∧
        ∀ again, scanSnapshot c sha256 again r owner copy = .ok r := by
  intro snapshot
  have hbounds : ∀ x, snapshot = .ok x → count (.dir attr entries) ≤ maxSnapshotEntries ∧
      height (.dir attr entries) ≤ maxSnapshotDepth := by
    obtain ⟨o, hwalk, -⟩ := artifact_of_output hr
    exact fun x => bounds_of_snapshot (sound_of_walk htold hwalk)
  refine ⟨⟨?_, ?_⟩, fun receipt copy hcopy => ?_⟩
  · rintro ⟨receipt, copy, hcopy⟩
    exact hbounds _ hcopy
  · rintro ⟨hcount, hheight⟩
    obtain ⟨copy, hcopy, -⟩ := snapshot_of_bounds htold hr hcount hheight
    exact ⟨r, copy, hcopy⟩
  · obtain ⟨hcount, hheight⟩ := hbounds _ hcopy
    obtain ⟨copy', hcopy', hrest⟩ := snapshot_of_bounds htold hr hcount hheight
    obtain ⟨rfl, rfl⟩ := Prod.mk.inj (Except.ok.inj (hcopy.symm.trans hcopy'))
    exact ⟨rfl, hrest⟩

deriving instance DecidableEq for Artifact

/-- The order of the code points of a key. -/
def Collation.ofKey (key : List Char → List Char) : Collation where
  le a b := decide ((key a).map Char.toNat ≤ (key b).map Char.toNat)
  total a b := by
    rcases le_total ((key a).map Char.toNat) ((key b).map Char.toNat) with h | h <;> simp [h]
  trans a b c hab hbc := decide_eq_true ((of_decide_eq_true hab).trans (of_decide_eq_true hbc))

def Listing.asIs : Listing := ⟨fun _ l => l, fun _ _ => .refl _⟩

def Listing.reversed : Listing := ⟨fun _ l => l.reverse, fun _ _ => List.reverse_perm _⟩

def sampleAttr : Attr := ⟨0o644, 1000, 1000⟩

def sampleFiles : List (Name × Node) :=
  [(encode ['a'], .file sampleAttr (encode ['x'])),
    (encode ['b'], .dir sampleAttr [(encode ['c'], .file sampleAttr (encode ['y', 'z']))])]

/-- The digest of the sample, where it is read in order. -/
def sampleDigest (hashed : List UInt8) : Text :=
  if hashed = header [['a']] 1 ++ encode ['x'] ++
      (header [['b'], ['c']] 2 ++ encode ['y', 'z']) then
    lit "f88ae00b251ca22aab0c813ad942454e53e73fa1e34ed5144687c73897335e83"
  else []

def sampleReceipt : Artifact := ⟨2, 3, sampleDigest (header [['a']] 1 ++ encode ['x'] ++
  (header [['b'], ['c']] 2 ++ encode ['y', 'z']))⟩

lemma told_sample : Told (.ofKey id) (.dir sampleAttr sampleFiles) := by
  refine .dir _ ?_ fun e he => ?_
  · simp only [Apart, sampleFiles, List.pairwise_cons, List.mem_singleton, forall_eq,
      List.not_mem_nil, IsEmpty.forall_iff, implies_true, List.Pairwise.nil, and_true,
      Utf8.lossy_encode, Collation.Same]
    decide +kernel
  · simp only [sampleFiles, List.mem_cons, List.not_mem_nil, or_false] at he
    rcases he with rfl | rfl
    · exact .file _ _
    · refine .dir _ (List.pairwise_singleton _ _) fun e he => ?_
      obtain rfl := List.mem_singleton.mp he
      exact .file _ _

/-- Two files, the directory of one of them read in the other order. -/
theorem snapshot_of_output_sample : ∃ copy, snapshotDirectory (.ofKey id) sampleDigest .reversed
      .reversed ⟨1000, 1000⟩ ⟨0, 0⟩
      { maxFiles := some 5, maxBytes := some 1024, expectedArtifact := some sampleReceipt } false
      (.dir sampleAttr sampleFiles) = .ok (sampleReceipt, copy) := by
  have hr : scanOutput (.ofKey id) sampleDigest .asIs 5 1024 ['z'] (.dir sampleAttr sampleFiles) =
      .ok sampleReceipt := by decide +kernel
  obtain ⟨hbounds, hcopies⟩ := snapshot_of_output (.ofKey id) sampleDigest .asIs .reversed .reversed
    ⟨1000, 1000⟩ ⟨0, 0⟩ told_sample hr
  obtain ⟨receipt, copy, hcopy⟩ := hbounds.mpr (by decide)
  obtain ⟨rfl, -⟩ := hcopies receipt copy hcopy
  exact ⟨copy, hcopy⟩

/-! ### Trees that are verified but not published -/

/-- A file so many directories down. -/
def nest : ℕ → Node
  | 0 => .file sampleAttr (encode ['x'])
  | n + 1 => .dir sampleAttr [(encode ['a'], nest n)]

/-- A letter with its accent, or behind it the accent alone: equal texts. -/
def decomposed (cs : List Char) : List Char :=
  cs.flatMap fun c => if c = '\u00E9' then ['e', '\u0301'] else [c]

def accented : Node :=
  .dir sampleAttr [(encode ['\u00E9'], .file sampleAttr (encode ['x'])),
    (encode ['e', '\u0301'], .file sampleAttr (encode ['y']))]

def composedFirst : List UInt8 :=
  header [['\u00E9']] 1 ++ encode ['x'] ++ (header [['e', '\u0301']] 1 ++ encode ['y'])

def decomposedFirst : List UInt8 :=
  header [['e', '\u0301']] 1 ++ encode ['y'] ++ (header [['\u00E9']] 1 ++ encode ['x'])

/-- The digests of what is hashed here. -/
def knownDigest (hashed : List UInt8) : Text :=
  if hashed = header (List.replicate 65 ['a']) 1 ++ encode ['x'] then
    lit "b085b5c02f1e6ff6e58dced1767eab1d8ffba81690b2b4ee1dd80436767654c1"
  else if hashed = composedFirst then
    lit "32d1bf1f54474fe043f76dd79ee4a3b4299a3557ab3c39805d14ff0756b48df6"
  else if hashed = decomposedFirst then
    lit "da046cdaf0e5d48b8fb478be69ddf2bf741ff1ecd3e5e0ebf8f69df7d9ab041f"
  else []

def errorOf {α : Type} : Except Failure α → Option Failure
  | .ok _ => none
  | .error e => some e

/-- What the runtime asks for when the verifier has made this receipt. -/
def published (c : Collation) (atSource atCopy : Listing) (r : Artifact) (root : Node) :
    Except Failure (Artifact × Node) :=
  snapshotDirectory c knownDigest atSource atCopy ⟨1000, 1000⟩ ⟨0, 0⟩
    { maxFiles := some 5, maxBytes := some 1024, expectedArtifact := some r } false root

/-- A file below 64 directories has a receipt and is not copied. Two files whose names compare
equal have a receipt of the order in which they were listed, and their copy, listed in the other
order, is not what was verified. -/
theorem verified_not_published :
    (scanOutput (.ofKey id) knownDigest .asIs 5 1024 ['x'] (nest 65) =
        .ok ⟨1, 1, knownDigest (header (List.replicate 65 ['a']) 1 ++ encode ['x'])⟩ ∧
      errorOf (published (.ofKey id) .asIs .asIs
        ⟨1, 1, knownDigest (header (List.replicate 65 ['a']) 1 ++ encode ['x'])⟩ (nest 65)) =
          some (.message ("verified output exceeds maximum depth at: " ++
            relativeText (List.replicate 65 ['a'])))) ∧
    scanOutput (.ofKey decomposed) knownDigest .asIs 5 1024 ['x'] accented =
        .ok ⟨2, 2, knownDigest composedFirst⟩ ∧
      errorOf (published (.ofKey decomposed) .asIs .reversed ⟨2, 2, knownDigest composedFirst⟩
        accented) =
          some (.message "artifact snapshot does not match verification receipt") := by
  refine ⟨⟨?_, ?_⟩, ?_, ?_⟩
  · decide +kernel
  · decide +kernel
  · decide +kernel
  · decide +kernel

end Bimo.Snapshot
