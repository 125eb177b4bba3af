import Bimo.WriterChanges

/-!
The results of the three writers, put together.

The changed paths of the three are claimed one slot after the other, and a path is refused that is
claimed already, or lies in one that is, or has one in it. What is claimed is not kept apart by
slots while a slot's own paths are looked at, so that a file and what comes in its place as a
directory refuse each other.
-/

namespace Bimo.Git

open Utf8

inductive Err
  /-- `integration path conflict between other and slot` -/
  | conflict (other slot : Slot)
  | error (message : String)
  deriving DecidableEq

abbrev Io' := Prog Call Call.Ret Err

/-- A part that reports no path conflict. -/
def part {α : Type} (p : Io α) : Io' α := p.mapErr .error

/-! ### Inputs -/

structure AcceptedCommit where
  resultSha : Text
  ownerSlot : Option Text

structure Integration where
  attempt : ℕ
  baseSha : Text
  commits : List AcceptedCommit
  integrationOrder : List Text
  branch : Text

/-- What the runtime remembers of the run. -/
structure RunState where
  baseSha : Text
  resultRecords : List ResultRecord
  branchHeads : List (Text × Text)
  workspaceCounter : ℕ

abbrev BySlot := List (Slot × ResultRecord)

def recordOf (records : List ResultRecord) (sha : Text) : Option ResultRecord :=
  records.reverse.find? (·.resultSha = sha)

def acceptCommit (s : RunState) (attempt : ℕ) (bySlot : BySlot) (value : AcceptedCommit) :
    Except String BySlot := do
  let _ ← requireSha "accepted resultSha" value.resultSha
  match recordOf s.resultRecords value.resultSha with
  | none => .error "integration received a commit not authored by this controller"
  | some record => do
    failUnless (record.attempt = attempt) "integration commits must belong to the active attempt"
    failUnless (value.ownerSlot.all (· = record.slot.text))
      "accepted commit slot does not match its controller record"
    failUnless (bySlot.all (·.1 ≠ record.slot)) "integration received duplicate writer slots"
    pure (bySlot ++ [(record.slot, record)])

def slotRecord (bySlot : BySlot) (slot : Slot) : Option ResultRecord :=
  (bySlot.find? (·.1 = slot)).map (·.2)

/-- The records of the three slots, in the fixed order. -/
def readInput (s : RunState) (i : Integration) : Except String BySlot := do
  failUnless (1 ≤ i.attempt ∧ i.attempt ≤ maxSafeInteger) "invalid attempt"
  let baseSha ← requireSha "baseSha" i.baseSha
  failUnless (baseSha.1 = s.baseSha) "integration base must be the immutable run base"
  failUnless (i.integrationOrder = integrationOrder.map Slot.text)
    "integration must use the fixed integration order"
  failUnless (i.commits.length = integrationOrder.length)
    "integration requires exactly three accepted commits"
  let bySlot ← i.commits.foldlM (acceptCommit s i.attempt) []
  integrationOrder.mapM fun slot =>
    match slotRecord bySlot slot with
    | some record => .ok (slot, record)
    | none => .error "integration requires the fixed engineering and QA slots"

def isBranchChar (c : Char) : Bool :=
  c.isAlphanum || c == '.' || c == '_' || c == '/' || c == '-'

/-- The one text stands somewhere in the other. -/
def includes (t w : Text) : Bool := t.tails.any fun r => w.isPrefixOf r

def requireBranch (branch : Text) : Except String Text := do
  failUnless (branch.head?.any Char.isAlphanum ∧ branch.length ≤ 255 ∧ branch.all isBranchChar ∧
    branch ≠ "HEAD".toList ∧ ¬"refs/".toList.isPrefixOf branch ∧ ¬includes branch "..".toList ∧
    ¬includes branch "//".toList ∧ ¬includes branch "@\x7b".toList ∧
    ¬"/".toList.isSuffixOf branch ∧ ¬".".toList.isSuffixOf branch ∧
    ∀ c ∈ components branch, c ≠ [] ∧ c.head? ≠ some '.' ∧ ¬".lock".toList.isSuffixOf c)
    "invalid branch"
  pure branch

/-! ### The claimed paths -/

/-- The one folded path is the other, lies in it, or has it in it. -/
def overlaps (folded otherPath : Text) : Bool :=
  folded = otherPath || (otherPath ++ ['/']).isPrefixOf folded ||
    (folded ++ ['/']).isPrefixOf otherPath

def claimPath (lib : Lib) (slot : Slot) (claimedPaths : List (Text × Slot)) (path : Text) :
    Except Err (List (Text × Slot)) :=
  match claimedPaths.find? fun c => overlaps (lib.lower path) c.1 with
  | some (_, otherSlot) => .error (.conflict otherSlot slot)
  | none => .ok (claimedPaths ++ [(lib.lower path, slot)])

def cumulativePatch (lib : Lib) (r : ResultRecord) : Io Diff :=
  diffBetween lib r.runBaseSha r.resultSha r.writeDirectories

def readPatches (lib : Lib) (claimedPaths : List (Text × Slot)) : BySlot → Io' (List Diff)
  | [] => pure []
  | (slot, record) :: rest => do
    let patch ← part (cumulativePatch lib record)
    let claimedPaths ← Prog.ofExcept (patch.changedPaths.foldlM (claimPath lib slot) claimedPaths)
    let patches ← readPatches lib claimedPaths rest
    pure (patch :: patches)

/-! ### The candidate -/

def applyResultToIndex (lib : Lib) (workspace : Text) (r : ResultRecord) : Io Unit := do
  let patch ← cumulativePatch lib r
  Prog.ofExcept (failUnless (patch.changedPaths ≠ [])
    "accepted result has an empty cumulative patch")
  Prog.ofExcept (failUnless
    (∀ p ∈ patch.changedPaths, r.writeDirectories.any fun d => pathWithin d p)
    "accepted result escaped its captured writer scope")
  let _ ← git (.apply workspace patch.bytes)

def acceptedTime (sha : Text) : Io ℕ := do
  match (number (asciiTrim (← git (.committedAt sha)))).filter (· ≤ maxSafeInteger) with
  | some seconds => pure seconds
  | none => .fail "accepted commit has an invalid timestamp"

/-- The candidate has the slot's result among its ancestors, and its changes unaltered. -/
def checkPreserved (lib : Lib) (base candidateSha : Text) (slot : Slot) (r : ResultRecord)
    (accepted : Diff) : Io Unit := do
  let result ← Prog.ofExcept (requireSha "resultSha" r.resultSha)
  let candidate ← Prog.ofExcept (requireSha "candidateSha" candidateSha)
  let ancestry ← Prog.ask (Call.isAncestor result candidate)
  Prog.ofExcept (ancestry.bind fun yes => failUnless (yes = true)
    "candidate omitted an accepted commit from its ancestry")
  let patch ← diffBetween lib base candidateSha r.writeDirectories
  Prog.ofExcept (failUnless
    (patch.diffSha256 = accepted.diffSha256 ∧ patch.changedPaths = accepted.changedPaths)
    ("candidate tree does not exactly preserve the accepted " ++ String.ofList slot.text ++
      " result"))

/-- What is done in the integration's own workspace. -/
def buildCandidate (lib : Lib) (s : RunState) (attempt : ℕ) (workspace : Text) (bySlot : BySlot)
    (patches : List Diff) : Io Text := do
  bySlot.forM fun x => applyResultToIndex lib workspace x.2
  let treeSha := asciiTrim (← git (.writeTree workspace))
  let _ ← Prog.ofExcept (requireSha "integrated tree SHA" treeSha)
  let shas := bySlot.map (·.2.resultSha)
  let acceptedTimes ← shas.mapM acceptedTime
  let message := "bimo integration: attempt ".toList ++ (toString attempt).toList
  let out ← git (.commitTree treeSha shas message (acceptedTimes.foldl max 0 + 1))
  let candidateSha := asciiTrim out
  let _ ← Prog.ofExcept (requireSha "candidateSha" candidateSha)
  let parents := ((asciiTrim (← git (.parents candidateSha))).splitOnP isSpace).filter (· ≠ [])
  Prog.ofExcept (failUnless (parents = shas)
    "candidate does not preserve the exact accepted commit parents")
  (bySlot.zip patches).forM fun x => checkPreserved lib s.baseSha candidateSha x.1.1 x.1.2 x.2
  guard (.unlock workspace)
  let _ ← git (.reset workspace candidateSha)
  guard (.secure workspace)
  pure candidateSha

structure Candidate where
  branch : Text
  candidateSha : Text
  workspaceId : Text
  integratedResultShas : List Text

/-- The branch is moved to the candidate from where the runtime left it. -/
def publishBranch (s : RunState) (branch candidateSha workspace : Text) : Io Unit := do
  let head := asciiTrim (← git (.head workspace))
  Prog.ofExcept (failUnless (head = candidateSha)
    "integration worktree is not at the exact candidate SHA")
  let found := asciiTrim (← git (.readBranch branch))
  let existing ←
    if found = [] then pure none
    else do
      let o ← Prog.ofExcept (requireSha "branch head" found)
      pure (some o.1)
  let expected := (s.branchHeads.find? (·.1 = branch)).map (·.2)
  Prog.ofExcept (failUnless (expected = none → existing = none)
    "integration branch already exists outside this runtime")
  Prog.ofExcept (failUnless (expected ≠ none → existing = expected)
    "integration branch changed concurrently")
  let _ ← git (.updateRef branch candidateSha (expected.getD noOid))

def integrate (lib : Lib) (s : RunState) (i : Integration) : Io' Candidate := do
  part requireDeadline
  let bySlot ← part (Prog.ofExcept (readInput s i))
  let patches ← readPatches lib [] bySlot
  part do
    let branch ← Prog.ofExcept (requireBranch i.branch)
    let id := s!"attempt-{i.attempt}-integration-{s.workspaceCounter + 1}".toList
    guard (.addWorktree id s.baseSha)
    let candidateSha ← (buildCandidate lib s i.attempt id bySlot patches).mapErr
      ("integration conflict; refusing candidate: " ++ ·)
    publishBranch s branch candidateSha id
    pure ⟨branch, candidateSha, id, bySlot.map (·.2.resultSha)⟩

/-! ### What Git lists -/

/-- The paths that differ between two commits, within some directories: Git's listing of them. -/
abbrev Listing := Oid → Oid → List Text → List Bytes

/-- Git lists changed paths as it does, and answers anything else, or nothing at all. -/
def Lists (names : Listing) : (o : Call) → o.Ret → Prop
  | .out (.diffNames b c dirs), .ok out => out = nulled (names b c dirs)
  | _, _ => True

/-- The changed paths that are read of a result's listing. -/
def changedPaths (lib : Lib) (names : Listing) (r : ResultRecord) : Except String (List Text) := do
  let baseSha ← requireSha "baseSha" r.runBaseSha
  let resultSha ← requireSha "resultSha" r.resultSha
  let listed ← splitNull "Git commit diff" (nulled (names baseSha resultSha r.writeDirectories))
  listed.forM fun n => (validateRelativePath lib n "changed path").map fun _ => ()
  ensureNoPathCollisions lib listed "changed paths"
  pure (sortPaths listed)

lemma yields_cumulativePatch {lib : Lib} {names : Listing} {r : ResultRecord} {d : Diff}
    (h : Yields (Lists names) (cumulativePatch lib r) d) :
    changedPaths lib names r = .ok d.changedPaths := by
  unfold cumulativePatch diffBetween git at h
  simp only [yields_bind, yields_ofExcept, yields_ask, yields_pure] at h
  obtain ⟨b, hb, c, hc, _, _, _, ⟨_, hout, rfl⟩, listed, hlisted, _, hvalid, _, hcoll, rfl⟩ := h
  obtain rfl := hout
  exact bind_eq_ok.mpr ⟨b, hb, bind_eq_ok.mpr ⟨c, hc, bind_eq_ok.mpr ⟨listed, hlisted,
    bind_eq_ok.mpr ⟨_, hvalid, bind_eq_ok.mpr ⟨_, hcoll, rfl⟩⟩⟩⟩⟩

/-- What can be read is read, when Git answers. -/
lemma exists_cumulativePatch {lib : Lib} {names : Listing} {r : ResultRecord} {ps : List Text}
    (h : changedPaths lib names r = .ok ps) :
    ∃ d, Yields (Lists names) (cumulativePatch lib r) d ∧ d.changedPaths = ps := by
  obtain ⟨b, hb, h⟩ := bind_eq_ok.mp h
  obtain ⟨c, hc, h⟩ := bind_eq_ok.mp h
  obtain ⟨listed, hlisted, h⟩ := bind_eq_ok.mp h
  obtain ⟨_, hvalid, h⟩ := bind_eq_ok.mp h
  obtain ⟨_, hcoll, h⟩ := bind_eq_ok.mp h
  obtain rfl := Except.ok.inj h
  refine ⟨⟨[], lib.sha256 [], sortPaths listed⟩, ?_, rfl⟩
  unfold cumulativePatch diffBetween git
  simp only [yields_bind, yields_ofExcept, yields_ask, yields_pure]
  exact ⟨b, hb, c, hc, [], ⟨.ok [], trivial, rfl⟩, _, ⟨.ok _, rfl, rfl⟩, listed, hlisted, _, hvalid,
    _, hcoll, rfl⟩

/-! ### The claims of one slot -/

lemma overlaps_comm (a b : Text) : overlaps a b = overlaps b a := by
  unfold overlaps
  rw [Bool.or_right_comm, show decide (a = b) = decide (b = a) from decide_eq_decide.mpr eq_comm]

/-- No path of the list is another one, nor in another one, but for letter case. -/
def Unnested (lib : Lib) (ps : List Text) : Prop :=
  ps.Pairwise fun p q => overlaps (lib.lower p) (lib.lower q) = false

/-- A path of the list meets one that is claimed. -/
def Meets (lib : Lib) (claimed : List (Text × Slot)) (ps : List Text) : Prop :=
  ∃ p ∈ ps, ∃ c ∈ claimed, overlaps (lib.lower p) c.1 = true

/-- **What one slot claims.** Either its paths are all apart from each other and from those claimed
before, or a conflict is reported. -/
lemma claimPaths_cases (lib : Lib) (slot : Slot) (ps : List Text) (claimed : List (Text × Slot)) :
    (ps.foldlM (claimPath lib slot) claimed = .ok (claimed ++ ps.map fun p => (lib.lower p, slot)) ∧
        Unnested lib ps ∧ ¬Meets lib claimed ps) ∨
      (∃ other, ps.foldlM (claimPath lib slot) claimed = .error (.conflict other slot)) ∧
        (¬Unnested lib ps ∨ Meets lib claimed ps) := by
  induction ps generalizing claimed with
  | nil => exact .inl ⟨by simp [pure, Except.pure], .nil, by simp [Meets]⟩
  | cons p ps ih =>
      rw [List.foldlM_cons, claimPath]
      cases hfind : claimed.find? fun c => overlaps (lib.lower p) c.1 with
      | some c =>
          have hover := List.find?_some hfind
          exact .inr ⟨⟨c.2, rfl⟩,
            .inr ⟨p, List.mem_cons_self .., c, List.mem_of_find?_eq_some hfind, hover⟩⟩
      | none =>
          have hnone : ∀ c ∈ claimed, overlaps (lib.lower p) c.1 = false := by
            simpa using List.find?_eq_none.mp hfind
          rcases ih (claimed ++ [(lib.lower p, slot)]) with ⟨hok, hunnested, hmeets⟩ | ⟨herr, hwhy⟩
          · refine .inl ⟨?_, List.pairwise_cons.mpr ⟨fun q hq => ?_, hunnested⟩, ?_⟩
            · rw [List.map_cons, ← List.append_cons] at *
              exact hok
            · rw [overlaps_comm]
              by_contra hover
              exact hmeets ⟨q, hq, _, List.mem_append_right _ (List.mem_singleton_self _),
                by simpa using hover⟩
            · rintro ⟨q, hq, c, hc, hover⟩
              rcases List.mem_cons.mp hq with rfl | hq
              · rw [hnone c hc] at hover
                cases hover
              · exact hmeets ⟨q, hq, c, List.mem_append_left _ hc, hover⟩
          · refine .inr ⟨herr, ?_⟩
            rcases hwhy with hwhy | ⟨q, hq, c, hc, hover⟩
            · exact .inl fun h => hwhy (List.pairwise_cons.mp h).2
            · rcases List.mem_append.mp hc with hc | hc
              · exact .inr ⟨q, List.mem_cons_of_mem _ hq, c, hc, hover⟩
              · obtain rfl := List.mem_singleton.mp hc
                refine .inl fun h => ?_
                have := (List.pairwise_cons.mp h).1 q hq
                rw [overlaps_comm, hover] at this
                cases this

/-! ### The claims of all slots -/

/-- A changed path of one slot is one of another slot, in one, or has one in it. -/
def Crosses (lib : Lib) (names : Listing) (bySlot : BySlot) : Prop :=
  ∃ x ∈ bySlot, ∃ y ∈ bySlot, x.1 ≠ y.1 ∧ ∃ ps qs, changedPaths lib names x.2 = .ok ps ∧
    changedPaths lib names y.2 = .ok qs ∧ ∃ p ∈ ps, ∃ q ∈ qs,
      overlaps (lib.lower p) (lib.lower q) = true

/-- The changed paths of some slot are nested: one of them is in another one. They are read as long
as those before can be. -/
def Nests (lib : Lib) (names : Listing) : BySlot → Prop
  | [] => False
  | (_, r) :: rest => ∃ ps, changedPaths lib names r = .ok ps ∧
    (¬Unnested lib ps ∨ Nests lib names rest)

/-- What is claimed was changed by slots that are not to come. -/
def ClaimedBy (lib : Lib) (names : Listing) (seen rest : BySlot) (claimed : List (Text × Slot)) :
    Prop :=
  ∀ c ∈ claimed, (∀ x ∈ rest, x.1 ≠ c.2) ∧ ∃ r, (c.2, r) ∈ seen ∧
    ∃ ps, changedPaths lib names r = .ok ps ∧ ∃ p ∈ ps, c.1 = lib.lower p

lemma crosses_of_meets {lib : Lib} {names : Listing} {seen rest : BySlot} {slot : Slot}
    {r : ResultRecord} {claimed : List (Text × Slot)} {ps : List Text}
    (hclaimed : ClaimedBy lib names seen ((slot, r) :: rest) claimed)
    (hps : changedPaths lib names r = .ok ps) (h : Meets lib claimed ps) :
    Crosses lib names (seen ++ (slot, r) :: rest) := by
  obtain ⟨p, hp, c, hc, hover⟩ := h
  obtain ⟨hother, r', hr', qs, hqs, q, hq, heq⟩ := hclaimed c hc
  exact ⟨(slot, r), by simp, (c.2, r'), List.mem_append_left _ hr',
    hother _ (List.mem_cons_self ..), ps, qs, hps, hqs, p, hp, q, hq, heq ▸ hover⟩

lemma claimedBy_append {lib : Lib} {names : Listing} {seen rest : BySlot} {slot : Slot}
    {r : ResultRecord} {claimed : List (Text × Slot)} {ps : List Text}
    (hclaimed : ClaimedBy lib names seen ((slot, r) :: rest) claimed)
    (hslot : ∀ x ∈ rest, x.1 ≠ slot) (hps : changedPaths lib names r = .ok ps) :
    ClaimedBy lib names (seen ++ [(slot, r)]) rest
      (claimed ++ ps.map fun p => (lib.lower p, slot)) := by
  intro c hc
  rcases List.mem_append.mp hc with hc | hc
  · obtain ⟨hother, r', hr', hrest⟩ := hclaimed c hc
    exact ⟨fun x hx => hother x (List.mem_cons_of_mem _ hx), r', List.mem_append_left _ hr', hrest⟩
  · obtain ⟨p, hp, rfl⟩ := List.mem_map.mp hc
    exact ⟨hslot, r, by simp, ps, hps, p, hp, rfl⟩

/-- **A conflict has one of two reasons.** -/
lemma reason_of_conflict {lib : Lib} {names : Listing} {a b : Slot} (rest : BySlot) :
    ∀ {seen : BySlot} {claimed : List (Text × Slot)}, (rest.map (·.1)).Nodup →
      ClaimedBy lib names seen rest claimed →
      Fails (Lists names) (readPatches lib claimed rest) (.conflict a b) →
      Nests lib names rest ∨ Crosses lib names (seen ++ rest) := by
  induction rest with
  | nil => exact fun _ _ h => h.elim
  | cons x rest ih =>
      obtain ⟨slot, r⟩ := x
      intro seen claimed hnodup hclaimed h
      obtain ⟨hslot, hnodup⟩ := List.nodup_cons.mp hnodup
      have hslot : ∀ x ∈ rest, x.1 ≠ slot := fun x hx heq =>
        hslot (List.mem_map.mpr ⟨x, hx, heq⟩)
      rw [readPatches, fails_bind] at h
      rcases h with h | ⟨d, hd, h⟩
      · obtain ⟨_, _, h⟩ := (fails_mapErr _ _ _).mp h
        cases h
      have hps := yields_cumulativePatch ((yields_mapErr _ _ _).mp hd)
      rw [fails_bind] at h
      rcases claimPaths_cases lib slot d.changedPaths claimed with ⟨hok, -, -⟩ | ⟨-, hwhy | hmeets⟩
      · rw [hok] at h
        rcases h with h | ⟨claimed', hclaimed', h⟩
        · cases h
        · obtain rfl := Except.ok.inj ((yields_ofExcept _ _).mp hclaimed')
          rw [fails_bind] at h
          rcases h with h | ⟨_, -, h⟩
          · refine (ih hnodup (claimedBy_append hclaimed hslot hps) h).imp
              (fun h => ⟨_, hps, .inr h⟩) fun h => ?_
            rwa [List.append_assoc] at h
          · cases h
      · exact .inl ⟨_, hps, .inl hwhy⟩
      · exact .inr (crosses_of_meets hclaimed hps hmeets)

/-- **Nested changes are refused**, when no two slots meet. -/
lemma conflict_of_nests {lib : Lib} {names : Listing} (rest : BySlot) :
    ∀ {seen : BySlot} {claimed : List (Text × Slot)}, (rest.map (·.1)).Nodup →
      ClaimedBy lib names seen rest claimed → Nests lib names rest →
      ¬Crosses lib names (seen ++ rest) →
      ∃ a b, Fails (Lists names) (readPatches lib claimed rest) (.conflict a b) := by
  induction rest with
  | nil => exact fun _ _ h => h.elim
  | cons x rest ih =>
      obtain ⟨slot, r⟩ := x
      rintro seen claimed hnodup hclaimed ⟨ps, hps, hwhy⟩ hcross
      obtain ⟨hslot, hnodup⟩ := List.nodup_cons.mp hnodup
      have hslot : ∀ x ∈ rest, x.1 ≠ slot := fun x hx heq =>
        hslot (List.mem_map.mpr ⟨x, hx, heq⟩)
      obtain ⟨d, hd, rfl⟩ := exists_cumulativePatch hps
      have hread := (yields_mapErr Err.error _ _).mpr hd
      simp only [readPatches, fails_bind]
      rcases claimPaths_cases lib slot d.changedPaths claimed with
        ⟨hok, hunnested, -⟩ | ⟨⟨other, herr⟩, -⟩
      · have hnests := hwhy.resolve_left (not_not_intro hunnested)
        obtain ⟨a, b, h⟩ := ih hnodup (claimedBy_append hclaimed hslot hps) hnests
          (by rwa [List.append_assoc])
        exact ⟨a, b, .inr ⟨d, hread, .inr ⟨_, (yields_ofExcept _ _).mpr hok, .inl h⟩⟩⟩
      · exact ⟨other, slot, .inr ⟨d, hread, .inl ((fails_ofExcept _ _).mpr herr)⟩⟩

lemma not_fails_part {α : Type} {can : (o : Call) → o.Ret → Prop} {p : Io α} {a b : Slot} :
    Fails can (part p) (.conflict a b) ↔ False := by
  rw [part, fails_mapErr, iff_false]
  rintro ⟨_, _, h⟩
  cases h

lemma yields_part {α : Type} {can : (o : Call) → o.Ret → Prop} {p : Io α} {a : α} :
    Yields can (part p) a ↔ Yields can p a := yields_mapErr _ _ _

lemma yields_requireDeadline (names : Listing) : Yields (Lists names) requireDeadline () := by
  rw [requireDeadline, yields_bind]
  exact ⟨true, (yields_ask _ _).mpr trivial, (yields_ofExcept _ _).mpr rfl⟩

lemma nodup_of_readInput {s : RunState} {i : Integration} {bySlot : BySlot}
    (h : readInput s i = .ok bySlot) : (bySlot.map (·.1)).Nodup := by
  obtain ⟨_, _, h⟩ := bind_eq_ok.mp h
  obtain ⟨_, _, h⟩ := bind_eq_ok.mp h
  obtain ⟨_, _, h⟩ := bind_eq_ok.mp h
  obtain ⟨_, _, h⟩ := bind_eq_ok.mp h
  obtain ⟨_, _, h⟩ := bind_eq_ok.mp h
  obtain ⟨found, _, h⟩ := bind_eq_ok.mp h
  have hall : List.Forall₂ Eq integrationOrder (bySlot.map (·.1)) := by
    rw [List.forall₂_map_right_iff]
    refine (forall₂_of_mapM h).imp fun slot x hx => ?_
    cases hrecord : slotRecord found slot with
    | none =>
        rw [hrecord] at hx
        cases hx
    | some r =>
        rw [hrecord] at hx
        obtain rfl := Except.ok.inj hx
        rfl
  rw [List.forall₂_eq_eq_eq] at hall
  rw [← hall]
  decide

/-- **Conflicts are real, unless a slot's own changes are nested.** -/
theorem conflict_iff {lib : Lib} {names : Listing} {s : RunState} {i : Integration}
    {bySlot : BySlot} (h : readInput s i = .ok bySlot) :
    (∀ a b, Fails (Lists names) (integrate lib s i) (.conflict a b) →
        Crosses lib names bySlot) ↔
      ¬Nests lib names bySlot ∨ Crosses lib names bySlot := by
  have hnodup := nodup_of_readInput h
  have hnone : ClaimedBy lib names [] bySlot [] := by simp [ClaimedBy]
  have hfails : ∀ a b, Fails (Lists names) (integrate lib s i) (.conflict a b) ↔
      Fails (Lists names) (readPatches lib [] bySlot) (.conflict a b) := by
    intro a b
    simp only [integrate, fails_bind, not_fails_part, yields_part, yields_ofExcept, h, false_or,
      and_false, exists_false, or_false, Except.ok.injEq, exists_eq_left']
    constructor
    · rintro ⟨_, _, hp⟩
      exact hp
    · intro hp
      exact ⟨(), yields_requireDeadline names, hp⟩
  simp only [hfails]
  constructor
  · intro hreal
    by_contra hnot
    obtain ⟨hnests, hcross⟩ := not_or.mp hnot
    obtain ⟨a, b, hab⟩ := conflict_of_nests bySlot hnodup hnone (not_not.mp hnests)
      (by simpa using hcross)
    exact hcross (hreal a b hab)
  · intro hwhen a b hab
    have hreason := reason_of_conflict bySlot hnodup hnone hab
    exact hreason.elim (fun hnests => hwhen.resolve_left (not_not_intro hnests)) id

/-! ### A workspace and its Git -/

/-- The files of the commit a workspace starts from, the files in it, and how far the changes have
come. -/
structure Site where
  base : List (Text × Bytes)
  files : List (Text × Bytes)
  baseSha : Oid
  resultSha : Oid
  objectId : Bytes → Oid
  staged : Bool
  committed : Bool

namespace Site

/-- The changes with their states, in the order of their paths. -/
def changes (s : Site) : List (Char × Text) :=
  let deleted := s.base.filter fun b => s.files.all (·.1 ≠ b.1)
  let written := s.files.filter fun f => f ∉ s.base
  let all := deleted.map (fun b => ('D', b.1)) ++
    written.map fun f => (if s.base.all (·.1 ≠ f.1) then 'A' else 'M', f.1)
  all.insertionSort fun x y => pathLe x.2 y.2

def statusBytes (l : List (Char × Text)) : Bytes :=
  nulled (l.flatMap fun c => [encode [c.1], encode c.2])

/-- The paths that differ between the two commits, within the directories. -/
def changedIn (s : Site) (directories : List Text) : List Bytes :=
  ((s.changes.map (·.2)).filter fun p =>
    directories = [] || directories.any fun d => pathWithin d p).map encode

def line (t : Text) : Bytes := encode t ++ [0x0A]

def contentOf (l : List (Text × Bytes)) (path : Text) : Except String Bytes :=
  match l.find? (·.1 = path) with
  | some f => .ok f.2
  | none => .error "no such file"

def blobOf (s : Site) (o : Oid) : Except String Bytes :=
  match (s.files ++ s.base).find? fun f => s.objectId f.2 = o with
  | some f => .ok f.2
  | none => .error "no such object"

def answer (s : Site) : (o : Call) → o.Ret
  | .inTime => true
  | .isAncestor _ _ => .error ""
  | .guard _ => .ok ()
  | .readFile _ path => contentOf s.files path
  | .out (.unmerged _) => .ok []
  | .out (.trackedDiff _) =>
    .ok (if s.committed then [] else statusBytes (s.changes.filter fun c => s.staged || c.1 ≠ 'A'))
  | .out (.others _) =>
    .ok (if s.staged then [] else nulled ((s.changes.filter (·.1 = 'A')).map (encode ·.2)))
  | .out (.head _) => .ok (line (if s.committed then s.resultSha.1 else s.baseSha.1))
  | .out (.headEntry _ path) => do
    let content ← contentOf (if s.committed then s.files else s.base) path
    pure (nulled [encode ("100644 blob ".toList ++ (s.objectId content).1 ++ "     ".toList ++
      Nat.toDigits 10 content.length ++ '\t' :: path)])
  | .out (.stagedEntry _ path) => do
    let content ← contentOf (if s.staged then s.files else s.base) path
    pure (nulled [encode ("100644 ".toList ++ (s.objectId content).1 ++ " 0\t".toList ++ path)])
  | .out (.stagedDiff _) => .ok (if s.staged && !s.committed then statusBytes s.changes else [])
  | .out (.size o) => do pure (line (Nat.toDigits 10 (← s.blobOf o).length))
  | .out (.blob o) => s.blobOf o
  | .out (.parents r) => if r = s.resultSha.1 then .ok (line s.baseSha.1) else .error ""
  | .out (.diffNames b c dirs) =>
    if b = s.baseSha ∧ c = s.resultSha then .ok (nulled (s.changedIn dirs)) else .error ""
  | .out _ => .ok []

def next (s : Site) : (o : Call) → o.Ret → Site
  | .out (.add _ _), _ => { s with staged := true }
  | .out (.commit _ _), _ => { s with committed := true }
  | _, _ => s

end Site

/-! ### A file that is replaced by a directory -/

def digitOid (b : Bytes) : Oid :=
  match (toOid (List.replicate 40 (Nat.digitChar ((b.headD 0).toNat % 10)))) with
  | some o => o
  | none => ⟨noOid, by decide⟩

def startSha : Oid := ⟨List.replicate 40 'f', by decide⟩

def start : List (Text × Bytes) :=
  [("a/f".toList, [1]), ("b/k".toList, [2]), ("q/k".toList, [3])]

def siteOf (files : List (Text × Bytes)) (sha : Char)
    (h : isSha (List.replicate 40 sha) = true := by decide) : Site where
  base := start
  files := files
  baseSha := startSha
  resultSha := ⟨List.replicate 40 sha, h⟩
  objectId := digitOid
  staged := false
  committed := false

lemma isSha_a : isSha (List.replicate 40 'a') = true := by decide

lemma isSha_b : isSha (List.replicate 40 'b') = true := by decide

lemma isSha_c : isSha (List.replicate 40 'c') = true := by decide

/-- The first writer replaces a file by a directory; the other two add a file each. -/
def sites : Slot → Site
  | .engineeringA =>
    siteOf [("a/f/g".toList, [4]), ("b/k".toList, [2]), ("q/k".toList, [3])] 'a' isSha_a
  | .engineeringB => siteOf (start ++ [("b/n".toList, [5])]) 'b' isSha_b
  | .qaTests => siteOf (start ++ [("q/n".toList, [6])]) 'c' isSha_c

def directoryOf : Slot → Text
  | .engineeringA => "a".toList
  | .engineeringB => "b".toList
  | .qaTests => "q".toList

def workspaceOf (slot : Slot) : Workspace where
  id := slot.text
  root := slot.text
  kind := .writer
  attempt := 1
  slot := slot
  workItemId := slot.text
  runBaseSha := startSha.1
  writeDirectories := [directoryOf slot]

def commitOf (slot : Slot) : Io (ResultRecord × WriterResult) :=
  validateAndCommit plainLib (fun s => [directoryOf s]) [workspaceOf slot] slot.text slot.text
    ⟨slot.text, slot.text, [directoryOf slot]⟩ ⟨10, 100⟩

def recordOfSlot (slot : Slot) : ResultRecord where
  attempt := 1
  slot := slot
  workItemId := slot.text
  directBaseSha := startSha.1
  runBaseSha := startSha.1
  resultSha := (sites slot).resultSha.1
  treeSha := []
  writeDirectories := [directoryOf slot]

/-- The writer's changes are accepted, and the record is as described. -/
def Accepted (slot : Slot) : Prop :=
  (((commitOf slot).run (fun s o => s.answer o) Site.next (sites slot)).1.toOption.map (·.1)) =
    some (recordOfSlot slot)

instance (slot : Slot) : Decidable (Accepted slot) := by
  unfold Accepted
  infer_instance

def threeResults : RunState where
  baseSha := startSha.1
  resultRecords := integrationOrder.map recordOfSlot
  branchHeads := []
  workspaceCounter := 0

def threeInput : Integration where
  attempt := 1
  baseSha := startSha.1
  commits := integrationOrder.map fun slot => ⟨(recordOfSlot slot).resultSha, some slot.text⟩
  integrationOrder := integrationOrder.map Slot.text
  branch := "candidate".toList

def threeRecords : BySlot := integrationOrder.map fun slot => (slot, recordOfSlot slot)

/-- Git's listings of what the three changed. -/
def threeListing : Listing := fun _ c dirs =>
  match integrationOrder.find? fun slot => (sites slot).resultSha = c with
  | some slot => (sites slot).changedIn dirs
  | none => []

def listingAnswer : (o : Call) → o.Ret
  | .inTime => true
  | .isAncestor _ _ => .error ""
  | .guard _ => .error ""
  | .readFile _ _ => .error ""
  | .out (.diffNames b c dirs) => .ok (nulled (threeListing b c dirs))
  | .out _ => .ok []

lemma lists_listingAnswer : ∀ o, Lists threeListing o (listingAnswer o)
  | .inTime | .isAncestor _ _ | .guard _ | .readFile _ _ => trivial
  | .out (.diffNames _ _ _) => rfl
  | .out q => by cases q <;> first | rfl | trivial

lemma threeInput_read : readInput threeResults threeInput = .ok threeRecords := rfl

/-- The changed paths of a slot. -/
def pathsOf : Slot → List Text
  | .engineeringA => ["a/f".toList, "a/f/g".toList]
  | .engineeringB => ["b/n".toList]
  | .qaTests => ["q/n".toList]

lemma changedPaths_three (slot : Slot) :
    changedPaths plainLib threeListing (recordOfSlot slot) = .ok (pathsOf slot) := by
  cases slot <;> rfl

lemma mem_integrationOrder (slot : Slot) : slot ∈ integrationOrder := by
  cases slot <;> decide

lemma not_crosses_three : ¬Crosses plainLib threeListing threeRecords := by
  have hapart : ∀ s ∈ integrationOrder, ∀ s' ∈ integrationOrder, s ≠ s' → ∀ p ∈ pathsOf s,
      ∀ q ∈ pathsOf s', overlaps p q = false := by decide +kernel
  rintro ⟨x, hx, y, hy, hne, ps, qs, hps, hqs, p, hp, q, hq, hover⟩
  obtain ⟨s, -, rfl⟩ := List.mem_map.mp hx
  obtain ⟨s', -, rfl⟩ := List.mem_map.mp hy
  obtain rfl := Except.ok.inj (hps.symm.trans (changedPaths_three s))
  obtain rfl := Except.ok.inj (hqs.symm.trans (changedPaths_three s'))
  have := hapart s (mem_integrationOrder s) s' (mem_integrationOrder s') hne p hp q hq
  exact absurd hover (by rw [show plainLib.lower = id from rfl]; simp [this])

/-- `conflict_iff`, of three results of which one replaces a file. -/
theorem conflict_iff_three : readInput threeResults threeInput = .ok threeRecords ∧
    ((∀ a b, Fails (Lists threeListing) (integrate plainLib threeResults threeInput)
        (.conflict a b) → Crosses plainLib threeListing threeRecords) ↔
      ¬Nests plainLib threeListing threeRecords ∨
        Crosses plainLib threeListing threeRecords) :=
  ⟨threeInput_read, conflict_iff threeInput_read⟩

/-- **A file that is replaced by a directory conflicts with itself.** The three results were
accepted, their directories are apart, and so are their changes. -/
theorem replaced_file_conflicts : (∀ slot, Accepted slot) ∧
    (∀ s s', s ≠ s' → pathWithin (directoryOf s) (directoryOf s') = false) ∧
    readInput threeResults threeInput = .ok threeRecords ∧
    Fails (Lists threeListing) (integrate plainLib threeResults threeInput)
      (.conflict .engineeringA .engineeringA) ∧
    ¬Crosses plainLib threeListing threeRecords := by
  refine ⟨fun slot => ?_, fun s s' hne => ?_, threeInput_read, ?_, not_crosses_three⟩
  · cases slot <;> decide +kernel
  · revert hne
    cases s <;> cases s' <;> decide
  · exact fails_of_run lists_listingAnswer (by rfl)

end Bimo.Git
