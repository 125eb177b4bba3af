import Bimo.Ownership

/-!
The inbox entries that a receipt answers for.

An entry that was delivered is a request of the other engineer, checked against the plan once
more, and the entries are numbered one after the other. The number behind the cursor is a sum of
doubles, so the numbering stands still where it gets beyond the integers that a double tells
apart. The receipt of a writer names the last number as a safe integer and cannot get there; that
of a checker can.
-/

namespace Bimo.Contract

open Wire (Json)
open PodStore (Fields field plainObject require require_eq)

variable {lib : Lib} {plan : Plan}

/-! ### What an entry is allowed to ask for -/

/-- The IDs of a request, in view of the two writers and of the plan's criteria. -/
structure Covered (plan : Plan) (owner requester : Slot) (reqs accs : List String) : Prop where
  reqs_nodup : reqs.Nodup
  accs_nodup : accs.Nodup
  reqs_assigned : ∀ r ∈ reqs, r ∈ (plan.writers requester).requirementIds ∧
    r ∈ (plan.writers owner).requirementIds
  accs_assigned : ∀ a ∈ accs, a ∈ (plan.writers requester).acceptanceIds ∧
    a ∈ (plan.writers owner).acceptanceIds
  known : ∀ a ∈ accs, ∃ c ∈ plan.acceptanceCriteria, c.id = a
  closed : ∀ c ∈ plan.acceptanceCriteria, c.id ∈ accs → ∀ r ∈ c.requirementIds, r ∈ reqs

/-- One engineer asks the other for something in a file of the other's. -/
structure Authorised (lib : Lib) (plan : Plan) (owner requester : Slot) (v : Json) : Prop where
  engineers : owner = .engineeringA ∧ requester = .engineeringB ∨
    owner = .engineeringB ∧ requester = .engineeringA
  requester_eq : v.get "requester" = some (.str requester.name)
  owner_eq : v.get "owner" = some (.str owner.name)
  path : ∃ path, v.get "path" = some (.str path) ∧ canonical path = true ∧
    ∃ dir ∈ (plan.writers owner).writePaths, within dir.toList path.toList
  ids : ∃ reqs accs : List String, v.get "requirementIds" = some (.arr (reqs.map .str)) ∧
    v.get "acceptanceIds" = some (.arr (accs.map .str)) ∧ Covered plan owner requester reqs accs
  brief : v.get "ownerBriefSha256" = some (.str (lib.sha256 (plan.writers owner).brief))

def sequenceOf (v : Json) : Option ℕ := (v.get "sequence").bind natOf

/-- The entries are numbered from the one behind `p` on, and each of them is authorised. -/
def Delivered (lib : Lib) (plan : Plan) (owner : Slot) (p : ℕ) (entries : List Json) : Prop :=
  ∀ i v, entries[i]? = some v →
    sequenceOf v = some (p + i + 1) ∧ ∃ requester, Authorised lib plan owner requester v

/-! ### What the plan was checked for -/

lemma known_of_idsFrom {known : List String} {label : String} {i : ℕ} {seen ids : List String}
    {l : List Json} (h : idsFrom (some known) label i seen l = .ok ids)
    (hseen : ∀ a ∈ seen, a ∈ known) : ∀ a ∈ ids, a ∈ known := by
  induction l generalizing i seen with
  | nil =>
      obtain rfl := Except.ok.inj h
      exact hseen
  | cons v l ih =>
      obtain ⟨id, -, h⟩ := bind_eq_ok.mp h
      obtain ⟨_, -, h⟩ := bind_eq_ok.mp h
      obtain ⟨_, hknown, h⟩ := bind_eq_ok.mp h
      refine ih h (List.forall_mem_append.mpr ⟨hseen, List.forall_mem_singleton.mpr ?_⟩)
      simpa using require_eq.mp hknown

lemma known_of_planWriter {template : Template} {directories requirementIds : List String}
    {criteria : List Criterion} {l : Fields} {claimed : List (Slot × String)} {slot : Slot}
    {w : PlanWriter}
    (h : planWriter lib template directories requirementIds criteria l claimed slot = .ok w) :
    ∀ a ∈ w.acceptanceIds, a ∈ criteria.map (·.id) := by
  obtain ⟨_, -, h⟩ := bind_eq_ok.mp h
  obtain ⟨_, -, h⟩ := bind_eq_ok.mp h
  obtain ⟨reqs, -, h⟩ := bind_eq_ok.mp h
  obtain ⟨accs, haccs, h⟩ := bind_eq_ok.mp h
  obtain ⟨_, -, h⟩ := bind_eq_ok.mp h
  obtain ⟨_, -, h⟩ := bind_eq_ok.mp h
  obtain ⟨_, -, h⟩ := bind_eq_ok.mp h
  obtain ⟨paths, -, h⟩ := bind_eq_ok.mp h
  obtain rfl := Except.ok.inj h
  obtain ⟨l, -, haccs⟩ := bind_eq_ok.mp haccs
  exact known_of_idsFrom haccs fun a ha => by cases ha

/-- The criteria of a plan have IDs of their own, and writers are assigned no others. -/
structure Linked (plan : Plan) : Prop where
  nodup : (plan.acceptanceCriteria.map (·.id)).Nodup
  known : ∀ slot, ∀ a ∈ (plan.writers slot).acceptanceIds, a ∈ plan.acceptanceCriteria.map (·.id)

lemma linked_of_validateAttemptPlan {v templateJson runBaseSha existingDirectories : Json}
    (h : validateAttemptPlan lib v templateJson runBaseSha existingDirectories = .ok plan) :
    Linked plan := by
  obtain ⟨template, -, h⟩ := bind_eq_ok.mp h
  obtain ⟨_, -, h⟩ := bind_eq_ok.mp h
  obtain ⟨directories, -, h⟩ := bind_eq_ok.mp h
  obtain ⟨_, -, h⟩ := bind_eq_ok.mp h
  obtain ⟨_, -, h⟩ := bind_eq_ok.mp h
  obtain ⟨_, -, h⟩ := bind_eq_ok.mp h
  obtain ⟨_, -, h⟩ := bind_eq_ok.mp h
  obtain ⟨_, -, h⟩ := bind_eq_ok.mp h
  obtain ⟨_, -, h⟩ := bind_eq_ok.mp h
  obtain ⟨requirements, -, h⟩ := bind_eq_ok.mp h
  obtain ⟨_, -, h⟩ := bind_eq_ok.mp h
  obtain ⟨criteria, hcrit, h⟩ := bind_eq_ok.mp h
  obtain ⟨_, -, h⟩ := bind_eq_ok.mp h
  obtain ⟨_, -, h⟩ := bind_eq_ok.mp h
  obtain ⟨a, ha, h⟩ := bind_eq_ok.mp h
  obtain ⟨b, hb, h⟩ := bind_eq_ok.mp h
  obtain ⟨q, hq, h⟩ := bind_eq_ok.mp h
  obtain ⟨_, -, h⟩ := bind_eq_ok.mp h
  obtain ⟨_, -, h⟩ := bind_eq_ok.mp h
  obtain rfl := Except.ok.inj h
  refine ⟨nodup_criteriaFrom (by simp) hcrit, fun slot => ?_⟩
  cases slot with
  | engineeringA => exact known_of_planWriter ha
  | engineeringB => exact known_of_planWriter hb
  | qaTests => exact known_of_planWriter hq

/-! ### What a request was checked for -/

lemma covered_of_coveredFrom {requester owner : List String} {label : String} {i : ℕ}
    {seen ids : List String} {l : List Json}
    (h : coveredFrom requester owner label i seen l = .ok ids) (hseen : seen.Nodup) :
    ∃ new, ids = seen ++ new ∧ l = new.map .str ∧ ids.Nodup ∧
      ∀ a ∈ new, a ∈ requester ∧ a ∈ owner := by
  induction l generalizing i seen with
  | nil =>
      obtain rfl := Except.ok.inj h
      exact ⟨[], by simp, rfl, hseen, nofun⟩
  | cons v l ih =>
      obtain ⟨id, hid, h⟩ := bind_eq_ok.mp h
      obtain ⟨_, hnew, h⟩ := bind_eq_ok.mp h
      obtain ⟨_, hcovered, h⟩ := bind_eq_ok.mp h
      have hnodup : (seen ++ [id]).Nodup :=
        List.nodup_append.mpr ⟨hseen, List.nodup_singleton _, fun a ha b hb => by
          rintro rfl
          obtain rfl := List.mem_singleton.mp hb
          exact require_eq.mp hnew ha⟩
      obtain ⟨new, rfl, rfl, hids, hrest⟩ := ih h hnodup
      refine ⟨id :: new, by simp, ?_, hids, ?_⟩
      · rw [List.map_cons, (str_of_assertForm hid).1]
      · exact List.forall_mem_cons.mpr ⟨require_eq.mp hcovered, hrest⟩

lemma covered_of_assertIdsCovered {v : Json} {requester owner ids : List String} {label : String}
    (h : assertIdsCovered v requester owner label = .ok ids) :
    v = .arr (ids.map .str) ∧ ids.Nodup ∧ ∀ a ∈ ids, a ∈ requester ∧ a ∈ owner := by
  cases v with
  | arr l =>
      obtain ⟨_, -, h⟩ := bind_eq_ok.mp h
      obtain ⟨new, rfl, rfl, hnodup, hcovered⟩ := covered_of_coveredFrom h List.nodup_nil
      exact ⟨rfl, hnodup, hcovered⟩
  | _ => cases h

lemma within_of_directoryContains {dir path : String} (h : directoryContains dir path = true) :
    within dir.toList path.toList := by
  rw [directoryContains, Bool.or_eq_true, decide_eq_true_eq, inside_iff] at h
  exact h.imp (fun heq => (congrArg String.toList heq).symm) id

lemma covered_of_missing {owner requester : Slot} {reqs accs : List String} (hplan : Linked plan)
    (hreqs : reqs.Nodup ∧ ∀ r ∈ reqs, r ∈ (plan.writers requester).requirementIds ∧
      r ∈ (plan.writers owner).requirementIds)
    (haccs : accs.Nodup ∧ ∀ a ∈ accs, a ∈ (plan.writers requester).acceptanceIds ∧
      a ∈ (plan.writers owner).acceptanceIds)
    (h : missing plan.acceptanceCriteria reqs accs = none) :
    Covered plan owner requester reqs accs where
  reqs_nodup := hreqs.1
  accs_nodup := haccs.1
  reqs_assigned := hreqs.2
  accs_assigned := haccs.2
  known a ha := List.mem_map.mp (hplan.known owner a (haccs.2 a ha).2)
  closed c hc ha r hr := by
    refine linked_of_missing h c.id ha r ?_
    rw [linkedTo_of_mem hplan.nodup hc]
    exact hr

/-- What is said of the fields of a request that was accepted. -/
structure Asked (lib : Lib) (plan : Plan) (owner requester : Slot) (l : Fields) : Prop where
  engineers : owner = .engineeringA ∧ requester = .engineeringB ∨
    owner = .engineeringB ∧ requester = .engineeringA
  owner_eq : PodStore.isStr (l.lookup "owner") owner.name = true
  path : ∃ path, field l "path" = .str path ∧ canonical path = true ∧
    ∃ dir ∈ (plan.writers owner).writePaths, within dir.toList path.toList
  ids : ∃ reqs accs : List String, field l "requirementIds" = .arr (reqs.map .str) ∧
    field l "acceptanceIds" = .arr (accs.map .str) ∧ Covered plan owner requester reqs accs
  brief : field l "ownerBriefSha256" = .str (lib.sha256 (plan.writers owner).brief)

lemma name_of_slotOf {s : String} {slot : Slot} (h : slotOf s = some slot) : s = slot.name := by
  have hname : slot.name = s := by simpa using List.find?_some h
  exact hname.symm

lemma exactObject_obj {l l' : Fields} {allowed : List String} {label : String}
    (h : exactObject (.obj l) allowed label = .ok l') : l' = l := by
  obtain ⟨_, hl, h⟩ := bind_eq_ok.mp h
  obtain ⟨_, -, h⟩ := bind_eq_ok.mp h
  obtain rfl := Except.ok.inj h
  exact (Json.obj.inj (PodStore.plainObject_eq hl)).symm

lemma asked_of_validateDependencyRequest {writerId : String} {l : Fields} {r : Request}
    (hplan : Linked plan)
    (h : validateDependencyRequest lib plan writerId (.obj l) = .ok r) :
    ∃ owner requester, writerId = requester.name ∧ Asked lib plan owner requester l := by
  obtain ⟨_, hengineer, h⟩ := bind_eq_ok.mp h
  obtain ⟨l', hl, h⟩ := bind_eq_ok.mp h
  obtain ⟨_, howner, h⟩ := bind_eq_ok.mp h
  obtain ⟨requester, hrequester, h⟩ := bind_eq_ok.mp h
  obtain ⟨path, hpath, h⟩ := bind_eq_ok.mp h
  obtain ⟨_, hinside, h⟩ := bind_eq_ok.mp h
  obtain ⟨reqs, hreqs, h⟩ := bind_eq_ok.mp h
  obtain ⟨accs, haccs, h⟩ := bind_eq_ok.mp h
  obtain ⟨_, hmissing, h⟩ := bind_eq_ok.mp h
  obtain ⟨digest, hdigest, -⟩ := bind_eq_ok.mp h
  obtain rfl := exactObject_obj hl
  obtain ⟨hreqsArr, hreqs⟩ := covered_of_assertIdsCovered hreqs
  obtain ⟨haccsArr, haccs⟩ := covered_of_assertIdsCovered haccs
  obtain ⟨dir, hdir, hin⟩ := List.any_eq_true.mp (require_eq.mp hinside)
  obtain ⟨hdigest, hbrief⟩ := str_of_assertForm hdigest
  have hname : writerId = requester.name := by
    cases hslot : slotOf writerId with
    | none => rw [hslot] at hrequester; cases hrequester
    | some slot =>
        rw [hslot] at hrequester
        obtain rfl := Except.ok.inj hrequester
        exact name_of_slotOf hslot
  refine ⟨_, requester, hname, ?_, require_eq.mp howner, ?_, ?_, ?_⟩
  · have hengineer := require_eq.mp hengineer
    rw [hname] at hengineer
    cases requester with
    | engineeringA => exact .inr ⟨if_pos hname, rfl⟩
    | engineeringB =>
        have hne : writerId ≠ "engineering-a" := hname ▸ by decide
        exact .inl ⟨if_neg hne, rfl⟩
    | qaTests => exact absurd hengineer (by decide)
  · exact ⟨path, str_of_assertRepositoryPath hpath, (portable_of_assert hpath).1, dir, hdir,
      within_of_directoryContains hin⟩
  · exact ⟨reqs, accs, hreqsArr, haccsArr,
      covered_of_missing hplan hreqs haccs (noneFound_eq.mp hmissing)⟩
  · rw [hdigest]
    exact congrArg Json.str (beq_iff_eq.mp (Bool.and_eq_true_iff.mp hbrief).2)

/-! ### What the entries were checked for -/

lemma get_of_field {e : Fields} {key : String} {v : Json} (h : field e key = v) (hv : v ≠ .null) :
    (Json.obj e).get key = some v := by
  show e.lookup key = some v
  unfold field at h
  cases hlookup : e.lookup key with
  | none => exact absurd (by simpa [hlookup] using h) (Ne.symm hv)
  | some w => simpa [hlookup] using h

/-- The request that an entry is checked as has the fields of the entry. -/
lemma field_request (e : Fields) {key : String} (h : key ∈ requestFields) :
    field (requestFields.map fun key => (key, field e key)) key = field e key := by
  simp only [requestFields, List.mem_cons, List.not_mem_nil, or_false] at h
  rcases h with rfl | rfl | rfl | rfl | rfl | rfl | rfl <;> rfl

lemma str_of_isStr {x : Option Json} {s : String} (h : PodStore.isStr x s = true) :
    x = some (.str s) := by
  unfold PodStore.isStr at h
  split at h
  · rw [of_decide_eq_true h]
  · cases h

lemma name_injective {slot slot' : Slot} (h : slot.name = slot'.name) : slot = slot' := by
  cases slot <;> cases slot' <;> first | rfl | exact absurd h (by decide)

lemma assertInteger_self {v : Json} {n m : ℕ} {label : String}
    (h : assertInteger v n n label = .ok m) : m = n ∧ natOf v = some n := by
  obtain ⟨hle, hge⟩ := assertInteger_eq h
  obtain rfl : m = n := Nat.le_antisymm hge hle
  unfold assertInteger at h
  split at h
  · rename_i k hk
    obtain rfl := Except.ok.inj h
    exact ⟨rfl, (Option.filter_eq_some_iff.mp hk).1⟩
  · cases h

/-- One entry, with the number that follows the cursor. -/
lemma authorised_entry {owner : Slot} {i cursor last : ℕ} {v : Json} {l : List Json}
    (hplan : Linked plan) (h : deliveredFrom lib plan owner i cursor (v :: l) = .ok last) :
    sequenceOf v = some (nextSequence cursor) ∧
      (∃ requester, Authorised lib plan owner requester v) ∧
      deliveredFrom lib plan owner (i + 1) (nextSequence cursor) l = .ok last := by
  obtain ⟨e, he, h⟩ := bind_eq_ok.mp h
  obtain ⟨sequence, hsequence, h⟩ := bind_eq_ok.mp h
  obtain ⟨_, howner, h⟩ := bind_eq_ok.mp h
  obtain ⟨writerId, hwriter, h⟩ := bind_eq_ok.mp h
  obtain ⟨r, hrequest, h⟩ := bind_eq_ok.mp h
  obtain ⟨_, -, hrest⟩ := bind_eq_ok.mp h
  obtain ⟨rfl, hnat⟩ := assertInteger_self hsequence
  obtain ⟨e', hobj, he⟩ := bind_eq_ok.mp he
  obtain ⟨_, -, he⟩ := bind_eq_ok.mp he
  obtain rfl := Except.ok.inj he
  obtain rfl := PodStore.plainObject_eq hobj
  obtain ⟨owner', requester, rfl, hasked⟩ := asked_of_validateDependencyRequest hplan hrequest
  have hown := str_of_isStr (require_eq.mp howner)
  have hown' := str_of_isStr hasked.owner_eq
  have hfield : field e' "owner" = .str owner.name := by rw [field, hown]; rfl
  have hsame : owner' = owner := by
    have hreq := field_request e' (show "owner" ∈ requestFields by decide)
    rw [hfield, field, hown'] at hreq
    exact name_injective (Json.str.inj hreq)
  subst hsame
  have hwriter : field e' "requester" = .str requester.name := by
    cases hfield : field e' "requester" with
    | str s =>
        rw [hfield] at hwriter
        exact congrArg Json.str (Except.ok.inj hwriter)
    | _ => rw [hfield] at hwriter; cases hwriter
  refine ⟨?_, ⟨requester, hasked.engineers, get_of_field hwriter nofun, hown, ?_, ?_, ?_⟩, hrest⟩
  · have hget := get_of_field (v := field e' "sequence") rfl fun hnull => by
      rw [hnull] at hnat
      cases hnat
    rw [sequenceOf, hget]
    exact hnat
  · obtain ⟨path, hpath, hrest⟩ := hasked.path
    rw [field_request e' (by decide)] at hpath
    exact ⟨path, get_of_field hpath nofun, hrest⟩
  · obtain ⟨reqs, accs, hreqs, haccs, hcovered⟩ := hasked.ids
    rw [field_request e' (by decide)] at hreqs haccs
    exact ⟨reqs, accs, get_of_field hreqs nofun, get_of_field haccs nofun, hcovered⟩
  · have hbrief := hasked.brief
    rw [field_request e' (by decide)] at hbrief
    exact get_of_field hbrief nofun

lemma nextSequence_eq {cursor : ℕ} (h : cursor ≤ 2 ^ 53) :
    nextSequence cursor = min (cursor + 1) (2 ^ 53) := by
  unfold nextSequence
  split_ifs <;> omega

/-- The numbering goes on as far as doubles tell integers apart, and stands still there. -/
lemma delivered_spec {owner : Slot} {entries : List Json} {i cursor last : ℕ}
    (hplan : Linked plan) (hcursor : cursor ≤ 2 ^ 53)
    (h : deliveredFrom lib plan owner i cursor entries = .ok last) :
    last = min (cursor + entries.length) (2 ^ 53) ∧ ∀ j v, entries[j]? = some v →
      sequenceOf v = some (min (cursor + j + 1) (2 ^ 53)) ∧
        ∃ requester, Authorised lib plan owner requester v := by
  induction entries generalizing i cursor with
  | nil =>
      obtain rfl := Except.ok.inj h
      exact ⟨by simpa using hcursor, fun j v hv => by simp at hv⟩
  | cons w l ih =>
      obtain ⟨hsequence, hauthorised, h⟩ := authorised_entry hplan h
      rw [nextSequence_eq hcursor] at hsequence h
      obtain ⟨hlast, hrest⟩ := ih (Nat.min_le_right _ _) h
      refine ⟨?_, fun j v hv => ?_⟩
      · rw [hlast, List.length_cons]
        omega
      · cases j with
        | zero =>
            obtain rfl := Option.some.inj hv
            exact ⟨hsequence, hauthorised⟩
        | succ j =>
            obtain ⟨hj, hj'⟩ := hrest j v hv
            refine ⟨hj.trans (congrArg some ?_), hj'⟩
            omega

/-- What is left of the claim on an inbox, where the numbers stand still. -/
lemma delivered_iff {owner : Slot} {entries : List Json} {p last : ℕ} (hplan : Linked plan)
    (hp : p ≤ maxSafeInteger) (h : validateDeliveredInbox lib plan owner p entries = .ok last) :
    last = min (p + entries.length) (2 ^ 53) ∧
      (Delivered lib plan owner p entries ↔ p + entries.length ≤ 2 ^ 53) := by
  have hp : p < 2 ^ 53 := Nat.lt_of_le_of_lt hp (by decide)
  obtain ⟨_, -, h⟩ := bind_eq_ok.mp h
  obtain ⟨hlast, hentries⟩ := delivered_spec hplan (Nat.le_of_lt hp) h
  refine ⟨hlast, fun hall => ?_, fun hle j v hv => ?_⟩
  · rcases List.eq_nil_or_concat entries with rfl | ⟨rest, v, rfl⟩
    · simpa using Nat.le_of_lt hp
    · have hget : (rest.concat v)[rest.length]? = some v := by simp
      have hnum := (hall _ v hget).1.symm.trans (hentries _ v hget).1
      have hnum := Option.some.inj hnum
      simp only [List.length_concat]
      omega
  · obtain ⟨hsequence, hauthorised⟩ := hentries j v hv
    have hj : j < entries.length := (List.getElem?_eq_some_iff.mp hv).1
    refine ⟨hsequence.trans (congrArg some ?_), hauthorised⟩
    omega

/-! ### What receipts answer for -/

section Receipts

variable {owner : Slot} {entries : List Json} {p : ℕ}

lemma delivered_of_writer {templateJson v : Json} {base : String} {r : WriterReceipt}
    (hplan : Linked plan)
    (h : validateWriterReceipt lib templateJson plan owner base entries p v = .ok r) :
    Delivered lib plan owner p entries ∧ r.inboxCursor = p + entries.length := by
  obtain ⟨_, -, h⟩ := bind_eq_ok.mp h
  obtain ⟨_, -, h⟩ := bind_eq_ok.mp h
  obtain ⟨_, hp, h⟩ := bind_eq_ok.mp h
  obtain ⟨l, -, h⟩ := bind_eq_ok.mp h
  obtain ⟨outcome, -, h⟩ := bind_eq_ok.mp h
  obtain ⟨baseSha, -, h⟩ := bind_eq_ok.mp h
  obtain ⟨_, -, h⟩ := bind_eq_ok.mp h
  obtain ⟨_, -, h⟩ := bind_eq_ok.mp h
  obtain ⟨why, -, h⟩ := bind_eq_ok.mp h
  obtain ⟨_, -, h⟩ := bind_eq_ok.mp h
  obtain ⟨_, -, h⟩ := bind_eq_ok.mp h
  obtain ⟨_, -, h⟩ := bind_eq_ok.mp h
  obtain ⟨expected, hinbox, h⟩ := bind_eq_ok.mp h
  obtain ⟨cursor, hcursor, h⟩ := bind_eq_ok.mp h
  obtain ⟨_, hexpected, h⟩ := bind_eq_ok.mp h
  have hr : r.inboxCursor = cursor := by
    have hend {request : Option Request} (h : (do
        receiptFits v "writer receipt"
        pure (WriterReceipt.mk outcome baseSha why cursor request l) :
          Except String WriterReceipt) = .ok r) : r.inboxCursor = cursor := by
      obtain ⟨_, -, h⟩ := bind_eq_ok.mp h
      obtain rfl := Except.ok.inj h
      rfl
    dsimp only at h
    split_ifs at h
    · obtain ⟨_, -, h⟩ := bind_eq_ok.mp h
      obtain ⟨request, -, h⟩ := bind_eq_ok.mp h
      exact hend h
    · obtain ⟨_, -, h⟩ := bind_eq_ok.mp h
      exact hend h
  obtain ⟨hlast, hiff⟩ := delivered_iff hplan (require_eq.mp hp) hinbox
  obtain rfl := require_eq.mp hexpected
  -- the receipt names the last number as a safe integer
  have hsafe : cursor ≤ maxSafeInteger := (assertInteger_eq hcursor).2
  have hle : p + entries.length ≤ 2 ^ 53 := by
    simp only [maxSafeInteger] at hsafe
    omega
  exact ⟨hiff.mpr hle, by omega⟩

lemma delivered_of_checker {base result diff : String} {v : Json} {r : CheckerReceipt}
    (hplan : Linked plan)
    (h : validateCheckerReceipt lib plan owner base result diff entries p v = .ok r) :
    Delivered lib plan owner p entries ↔ p + entries.length ≤ 2 ^ 53 := by
  obtain ⟨_, -, h⟩ := bind_eq_ok.mp h
  obtain ⟨_, -, h⟩ := bind_eq_ok.mp h
  obtain ⟨_, -, h⟩ := bind_eq_ok.mp h
  obtain ⟨_, hp, h⟩ := bind_eq_ok.mp h
  obtain ⟨last, hinbox, -⟩ := bind_eq_ok.mp h
  exact (delivered_iff hplan (require_eq.mp hp) hinbox).2

end Receipts

/-- **Delivered inboxes.** What a writer's receipt answers for is numbered from the one behind the
cursor on, as far as the cursor that the receipt names, and each entry is a request of the other
engineer that the plan covers. What a checker's receipt answers for is so too exactly where the
numbers stay among the integers that a double tells apart. -/
theorem delivered_inbox {v templateJson runBaseSha existingDirectories : Json}
    (h : validateAttemptPlan lib v templateJson runBaseSha existingDirectories = .ok plan)
    (slot : Slot) (entries : List Json) (p : ℕ) :
    (∀ templateJson base receipt r,
      validateWriterReceipt lib templateJson plan slot base entries p receipt = .ok r →
        Delivered lib plan slot p entries ∧ r.inboxCursor = p + entries.length) ∧
    ∀ base result diff receipt r,
      validateCheckerReceipt lib plan slot base result diff entries p receipt = .ok r →
        (Delivered lib plan slot p entries ↔ p + entries.length ≤ 2 ^ 53) :=
  ⟨fun _ _ _ _ hr => delivered_of_writer (linked_of_validateAttemptPlan h) hr,
    fun _ _ _ _ _ hr => delivered_of_checker (linked_of_validateAttemptPlan h) hr⟩

/-! ### Receipts on fixed entries -/

mutual

/-- The two values are written alike. -/
def same : Json → Json → Bool
  | .null, .null => true
  | .bool b, .bool c => b == c
  | .num s, .num t | .str s, .str t => s == t
  | .arr l, .arr m => sameList l m
  | .obj l, .obj m => sameFields l m
  | _, _ => false

def sameList : List Json → List Json → Bool
  | [], [] => true
  | v :: l, w :: m => same v w && sameList l m
  | _, _ => false

def sameFields : List (String × Json) → List (String × Json) → Bool
  | [], [] => true
  | (k, v) :: l, (k', w) :: m => k == k' && same v w && sameFields l m
  | _, _ => false

end

mutual

lemma eq_of_same : ∀ {v w : Json}, same v w = true → v = w
  | .null, .null, _ => rfl
  | .bool _, .bool _, h => by rw [beq_iff_eq.mp h]
  | .num _, .num _, h => by rw [beq_iff_eq.mp h]
  | .str _, .str _, h => by rw [beq_iff_eq.mp h]
  | .arr _, .arr _, h => by rw [eq_of_sameList h]
  | .obj _, .obj _, h => by rw [eq_of_sameFields h]

lemma eq_of_sameList : ∀ {l m : List Json}, sameList l m = true → l = m
  | [], [], _ => rfl
  | _ :: _, _ :: _, h => by
      obtain ⟨hv, hl⟩ := Bool.and_eq_true_iff.mp h
      rw [eq_of_same hv, eq_of_sameList hl]

lemma eq_of_sameFields : ∀ {l m : List (String × Json)}, sameFields l m = true → l = m
  | [], [], _ => rfl
  | (_, _) :: _, (_, _) :: _, h => by
      obtain ⟨hkv, hl⟩ := Bool.and_eq_true_iff.mp h
      obtain ⟨hk, hv⟩ := Bool.and_eq_true_iff.mp hkv
      rw [beq_iff_eq.mp hk, eq_of_same hv, eq_of_sameFields hl]

end

/-- The check of the delivered entries, where what is written alike is looked at first. -/
def quickSame (v w : Json) (message : String) : Except String Unit :=
  if same v w then .ok () else require (canonicalJson v = canonicalJson w) message

lemma require_canonicalJson (v w : Json) (message : String) :
    require (canonicalJson v = canonicalJson w) message = quickSame v w message := by
  unfold quickSame
  split_ifs with h
  · exact require_eq.mpr (congrArg canonicalJson (eq_of_same h))
  · rfl

/-! A plan with the digest of its briefs, and two entries at the end of the safe integers. -/

def briefDigest : String := "456e482ab0f50031da0c0e21545bc359f273a93cf155ae5286125f325068493e"

/-- The digest of "Do it.", which all three briefs are. -/
def briefLib : Lib where
  sha256 _ := briefDigest
  lowerUnicode := id

def sampleEntry (sequence : ℕ) : Json :=
  .obj [("sequence", Wire.ofNat sequence), ("requester", .str "engineering-b"),
    ("owner", .str "engineering-a"), ("path", .str "src/Core/a.js"),
    ("requirementIds", .arr [.str "R-1"]), ("acceptanceIds", .arr [.str "A-1"]),
    ("ownerBriefSha256", .str briefDigest), ("need", .str "A function."),
    ("why", .str "It is called."), ("requesterCheckpointSha", .str sampleSha)]

def checkerSample (entries : List Json) : Json :=
  .obj [("outcome", .str "passed"), ("baseSha", .str sampleSha), ("resultSha", .str sampleSha),
    ("diffSha256", .str briefDigest), ("what", .str "Checked."), ("why", .str "It works."),
    ("evidence", .arr [.str "Seen."]), ("requirementIds", .arr [.str "R-1"]),
    ("acceptanceIds", .arr [.str "A-1"]), ("files", .arr []), ("deliveredInbox", .arr entries)]

/-- The checker's receipt for entries behind `p` is accepted under the sample plan. -/
def checkerAccepts (p : ℕ) (entries : List Json) : Bool :=
  match validateAttemptPlan briefLib samplePlan sampleTemplate (.str sampleSha)
      sampleDirectories with
  | .ok plan => (validateCheckerReceipt briefLib plan .engineeringA sampleSha sampleSha briefDigest
      entries p (checkerSample entries)).toBool
  | .error _ => false

lemma exists_of_checkerAccepts {p : ℕ} {entries : List Json} (h : checkerAccepts p entries = true) :
    ∃ plan r, validateAttemptPlan briefLib samplePlan sampleTemplate (.str sampleSha)
        sampleDirectories = .ok plan ∧
      validateCheckerReceipt briefLib plan .engineeringA sampleSha sampleSha briefDigest entries p
        (checkerSample entries) = .ok r := by
  unfold checkerAccepts at h
  split at h
  · rename_i plan hplan
    cases hr : validateCheckerReceipt briefLib plan .engineeringA sampleSha sampleSha briefDigest
        entries p (checkerSample entries) with
    | ok r => exact ⟨plan, r, hplan, hr⟩
    | error e => rw [hr] at h; cases h
  · cases h

/-- Two entries behind the cursor 4. -/
theorem delivered_inbox_two : ∃ plan,
    Delivered briefLib plan .engineeringA 4 [sampleEntry 5, sampleEntry 6] := by
  obtain ⟨plan, r, hplan, hr⟩ := exists_of_checkerAccepts
    (show checkerAccepts 4 [sampleEntry 5, sampleEntry 6] = true by
      delta checkerAccepts validateCheckerReceipt
      simp only [require_canonicalJson]
      rw [receiptFits_eq_quickFits]
      decide +kernel)
  exact ⟨plan, ((delivered_inbox hplan .engineeringA _ 4).2 _ _ _ _ r hr).mpr (by decide)⟩

/-- Behind the last safe integer two entries have one number, and the checker's receipt for them
is accepted. -/
theorem repeated_sequence_accepted :
    ¬ ∀ (lib : Lib) (v templateJson runBaseSha existingDirectories : Json) (plan : Plan)
      (slot : Slot) (entries : List Json) (p : ℕ) (base result diff : String) (receipt : Json)
      (r : CheckerReceipt),
      validateAttemptPlan lib v templateJson runBaseSha existingDirectories = .ok plan →
      validateCheckerReceipt lib plan slot base result diff entries p receipt = .ok r →
        ∀ i w, entries[i]? = some w → sequenceOf w = some (p + i + 1) := by
  intro hall
  obtain ⟨plan, r, hplan, hr⟩ := exists_of_checkerAccepts (show checkerAccepts 9007199254740991
    [sampleEntry 9007199254740992, sampleEntry 9007199254740992] = true by
      delta checkerAccepts validateCheckerReceipt
      simp only [require_canonicalJson]
      rw [receiptFits_eq_quickFits]
      decide +kernel)
  have hsecond := hall _ _ _ _ _ plan _ _ _ _ _ _ _ r hplan hr 1 _ rfl
  revert hsecond
  decide +kernel

end Bimo.Contract
