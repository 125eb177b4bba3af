import Bimo.Controller
import Bimo.Sizes

/-!
Who owns what in a plan.

A plan that was accepted gives each slot directories of its own: no path lies in the directories
of two slots, even where letter case is not told apart. A commit that was accepted changes files
of its own slot only.
-/

namespace Bimo.Contract

open Wire (Json)
open PodStore (Fields require require_eq)

variable {lib : Lib}

/-! ### Directories -/

/-- The path lies in this directory, or is it. -/
def within (dir path : List Char) : Prop := path = dir ∨ dir ++ ['/'] <+: path

lemma within_of_isPrefix {a b : List Char} (h : a ++ ['/'] <+: b ++ ['/']) : within a b := by
  rcases Nat.lt_or_ge a.length b.length with hlen | hlen
  · refine .inr ?_
    have hb : b <+: b ++ ['/'] := List.prefix_append b ['/']
    exact List.prefix_of_prefix_length_le h hb (by simp only [List.length_append, List.length_singleton]; omega)
  · refine .inl ?_
    have hle := h.length_le
    simp only [List.length_append, List.length_singleton, add_le_add_iff_right] at hle
    have heq := h.eq_of_length (by simp; omega)
    exact (List.append_cancel_right heq).symm

/-- Two directories that have a path in common are one in the other. -/
lemma within_or_within {a b path : List Char} (ha : within a path) (hb : within b path) :
    within a b ∨ within b a := by
  rcases ha with rfl | ha
  · exact .inr hb
  · rcases hb with rfl | hb
    · exact .inl (.inr ha)
    · rcases List.prefix_or_prefix_of_prefix ha hb with h | h
      · exact .inl (within_of_isPrefix h)
      · exact .inr (within_of_isPrefix h)

/-- The path lies in the directory where letter case is not told apart. -/
def withinFolded (lib : Lib) (dir path : String) : Prop :=
  within (toLowerCase lib dir).toList (toLowerCase lib path).toList

lemma inside_iff (dir path : String) :
    inside dir path = true ↔ dir.toList ++ ['/'] <+: path.toList := by
  simp [inside]

lemma overlap_iff (left right : String) :
    directoriesOverlap lib left right = true ↔
      withinFolded lib left right ∨ withinFolded lib right left := by
  simp only [directoriesOverlap, Bool.or_eq_true, decide_eq_true_eq, inside_iff, withinFolded,
    within, String.toList_inj]
  constructor
  · rintro ((h | h) | h)
    · exact .inl (.inl h.symm)
    · exact .inr (.inr h)
    · exact .inl (.inr h)
  · rintro ((h | h) | (h | h))
    · exact .inl (.inl h.symm)
    · exact .inr h
    · exact .inl (.inl h)
    · exact .inl (.inr h)

/-- Directories that do not overlap have no path in common. -/
lemma not_both_within {left right path : String} (h : directoriesOverlap lib left right = false)
    (hl : withinFolded lib left path) (hr : withinFolded lib right path) : False := by
  have hov := (overlap_iff left right).mpr (within_or_within hl hr)
  rw [h] at hov
  cases hov

/-! ### The write paths of a plan -/

section Paths

variable {directories : List String} {root : String} {slot : Slot} {claimed : List (Slot × String)}

/-- What the paths of a writer are, beyond those that were there. -/
lemma writePathsFrom_spec {i : ℕ} {done ps : List String} {l : List Json}
    (h : writePathsFrom lib directories root slot claimed i done l = .ok ps) :
    ∀ p ∈ ps, p ∈ done ∨ (p ∈ directories ∧ directoryContains root p = true ∧
      (∃ v label, assertRepositoryDirectory v label = .ok p) ∧
      ∀ q ∈ claimed, directoriesOverlap lib q.2 p = false) := by
  induction l generalizing i done with
  | nil =>
      obtain rfl := Except.ok.inj h
      exact fun p hp => .inl hp
  | cons v l ih =>
      obtain ⟨path, hpath, h⟩ := bind_eq_ok.mp h
      obtain ⟨_, hdir, h⟩ := bind_eq_ok.mp h
      obtain ⟨_, hroot, h⟩ := bind_eq_ok.mp h
      obtain ⟨_, hfree, h⟩ := bind_eq_ok.mp h
      intro p hp
      rcases ih h p hp with hdone | hnew
      · rcases List.mem_append.mp hdone with hd | hd
        · exact .inl hd
        · obtain rfl := List.mem_singleton.mp hd
          refine .inr ⟨require_eq.mp hdir, require_eq.mp hroot, ⟨v, _, hpath⟩, fun q hq => ?_⟩
          have hno := List.find?_eq_none.mp (noneFound_eq.mp hfree) q (List.mem_append_left _ hq)
          simpa using hno
      · exact .inr hnew

end Paths

lemma linked_of_missing {criteria : List Criterion} {reqs accs : List String}
    (h : missing criteria reqs accs = none) :
    ∀ a ∈ accs, ∀ r ∈ linkedTo criteria a, r ∈ reqs := by
  intro a ha r hr
  have hno := List.find?_eq_none.mp h (a, r)
    (List.mem_flatMap.mpr ⟨a, ha, List.mem_map.mpr ⟨r, hr, rfl⟩⟩)
  simpa using hno

/-- What a writer of a plan has. -/
structure GoodWriter (lib : Lib) (directories : List String) (root : String)
    (criteria : List Criterion) (claimed : List (Slot × String)) (w : PlanWriter) : Prop where
  paths : ∀ p ∈ w.writePaths, p ∈ directories ∧ directoryContains root p = true ∧
    (∃ v label, assertRepositoryDirectory v label = .ok p) ∧
    ∀ q ∈ claimed, directoriesOverlap lib q.2 p = false
  linked : ∀ a ∈ w.acceptanceIds, ∀ r ∈ linkedTo criteria a, r ∈ w.requirementIds

lemma goodWriter {template : Template} {directories requirementIds : List String}
    {criteria : List Criterion} {l : Fields} {claimed : List (Slot × String)} {slot : Slot}
    {w : PlanWriter}
    (h : planWriter lib template directories requirementIds criteria l claimed slot = .ok w) :
    GoodWriter lib directories (template.writers slot).root criteria claimed w := by
  obtain ⟨_, -, h⟩ := bind_eq_ok.mp h
  obtain ⟨_, -, h⟩ := bind_eq_ok.mp h
  obtain ⟨reqs, -, h⟩ := bind_eq_ok.mp h
  obtain ⟨accs, -, h⟩ := bind_eq_ok.mp h
  obtain ⟨_, hmissing, h⟩ := bind_eq_ok.mp h
  obtain ⟨_, -, h⟩ := bind_eq_ok.mp h
  obtain ⟨_, -, h⟩ := bind_eq_ok.mp h
  obtain ⟨paths, hpaths, h⟩ := bind_eq_ok.mp h
  obtain rfl := Except.ok.inj h
  refine ⟨fun p hp => ?_, ?_⟩
  · rcases writePathsFrom_spec hpaths p hp with hnil | hspec
    · cases hnil
    · exact hspec
  · exact linked_of_missing (noneFound_eq.mp hmissing)

lemma GoodWriter.of_path {directories : List String} {root : String} {criteria : List Criterion}
    {claimed : List (Slot × String)} {w : PlanWriter}
    (h : GoodWriter lib directories root criteria claimed w) (p : String)
    (hp : p ∈ w.writePaths) : p ∈ directories ∧ directoryContains root p = true ∧
      ∃ v label, assertRepositoryDirectory v label = .ok p :=
  ⟨(h.paths p hp).1, (h.paths p hp).2.1, (h.paths p hp).2.2.1⟩

/-- A writer has no path of a writer whose paths were claimed before. -/
lemma GoodWriter.apart_of_claims {directories : List String} {root : String}
    {criteria : List Criterion} {claimed : List (Slot × String)} {w w' : PlanWriter} {s : Slot}
    (h : GoodWriter lib directories root criteria claimed w)
    (hclaims : ∀ q ∈ claims s w', q ∈ claimed) :
    ∀ p ∈ w'.writePaths, ∀ p' ∈ w.writePaths, directoriesOverlap lib p p' = false := by
  intro p hp p' hp'
  have hq := hclaims (s, p) (List.mem_map.mpr ⟨p, hp, rfl⟩)
  exact (h.paths p' hp').2.2.2 (s, p) hq

/-! ### The criteria of a plan -/

lemma nodup_criteriaFrom {requirementIds : List String} {i : ℕ} {done cs : List Criterion}
    {l : List Json} (hdone : (done.map (·.id)).Nodup)
    (h : criteriaFrom requirementIds i done l = .ok cs) : (cs.map (·.id)).Nodup := by
  induction l generalizing i done with
  | nil =>
      obtain rfl := Except.ok.inj h
      exact hdone
  | cons v l ih =>
      obtain ⟨_, -, h⟩ := bind_eq_ok.mp h
      obtain ⟨id, -, h⟩ := bind_eq_ok.mp h
      obtain ⟨_, hnew, h⟩ := bind_eq_ok.mp h
      obtain ⟨_, -, h⟩ := bind_eq_ok.mp h
      obtain ⟨_, -, h⟩ := bind_eq_ok.mp h
      refine ih ?_ h
      rw [List.map_append, List.nodup_append]
      refine ⟨hdone, List.nodup_singleton _, ?_⟩
      rintro a ha b hb rfl
      obtain rfl := List.mem_singleton.mp hb
      exact require_eq.mp hnew ha

lemma linkedTo_of_mem {cs : List Criterion} (hcs : (cs.map (·.id)).Nodup) {c : Criterion}
    (hc : c ∈ cs) : linkedTo cs c.id = c.requirementIds := by
  have hfind : cs.find? (·.id = c.id) = some c := by
    induction cs with
    | nil => cases hc
    | cons c' cs ih =>
        rw [List.map_cons, List.nodup_cons] at hcs
        rcases List.mem_cons.mp hc with rfl | hc
        · simp
        · have hne : c'.id ≠ c.id := by
            intro heq
            exact hcs.1 (heq ▸ List.mem_map_of_mem hc)
          rw [List.find?_cons_of_neg (by simpa using hne)]
          exact ih hcs.2 hc
  rw [linkedTo, hfind]
  rfl

lemma requirement_covered {criteria : List Criterion} {ws : List PlanWriter}
    {rs : List Requirement} (h : uncoveredRequirement criteria ws rs = .ok ()) :
    ∀ r ∈ rs, ∃ w ∈ ws, r.id ∈ w.requirementIds := by
  induction rs with
  | nil => exact fun r hr => (List.not_mem_nil hr).elim
  | cons r rs ih =>
      obtain ⟨_, -, h⟩ := bind_eq_ok.mp h
      obtain ⟨_, hw, h⟩ := bind_eq_ok.mp h
      intro r' hr'
      rcases List.mem_cons.mp hr' with rfl | hr'
      · simpa using require_eq.mp hw
      · exact ih h r' hr'

lemma criterion_covered {ws : List PlanWriter} {cs : List Criterion}
    (h : uncoveredCriterion ws cs = .ok ()) : ∀ c ∈ cs, ∃ w ∈ ws, c.id ∈ w.acceptanceIds := by
  induction cs with
  | nil => exact fun c hc => (List.not_mem_nil hc).elim
  | cons c cs ih =>
      obtain ⟨_, hw, h⟩ := bind_eq_ok.mp h
      intro c' hc'
      rcases List.mem_cons.mp hc' with rfl | hc'
      · simpa using require_eq.mp hw
      · exact ih h c' hc'

/-! ### Plans -/

/-- What an accepted plan is about: the template and the directories it was checked against. -/
structure Owns (lib : Lib) (template : Template) (directories : List String) (plan : Plan) :
    Prop where
  paths : ∀ slot, ∀ p ∈ (plan.writers slot).writePaths,
    p ∈ directories ∧ directoryContains (template.writers slot).root p = true ∧
      ∃ v label, assertRepositoryDirectory v label = .ok p
  apart : ∀ slot slot', slot ≠ slot' → ∀ p ∈ (plan.writers slot).writePaths,
    ∀ p' ∈ (plan.writers slot').writePaths, directoriesOverlap lib p p' = false
  requirements : ∀ r ∈ plan.requirements, ∃ slot, r.id ∈ (plan.writers slot).requirementIds
  criteria : ∀ c ∈ plan.acceptanceCriteria, ∃ slot, c.id ∈ (plan.writers slot).acceptanceIds
  linked : ∀ c ∈ plan.acceptanceCriteria, ∀ slot, c.id ∈ (plan.writers slot).acceptanceIds →
    ∀ r ∈ c.requirementIds, r ∈ (plan.writers slot).requirementIds

lemma directoriesOverlap_comm (left right : String) :
    directoriesOverlap lib left right = directoriesOverlap lib right left := by
  have h : directoriesOverlap lib left right = true ↔ directoriesOverlap lib right left = true := by
    rw [overlap_iff, overlap_iff, or_comm]
  exact Bool.eq_iff_iff.mpr h

lemma exists_slot {a b q w : PlanWriter} {id : String} {ids : PlanWriter → List String}
    (hw : w ∈ [a, b, q]) (h : id ∈ ids w) :
    ∃ slot : Slot, id ∈ ids (match slot with
      | .engineeringA => a
      | .engineeringB => b
      | .qaTests => q) := by
  simp only [List.mem_cons, List.not_mem_nil, or_false] at hw
  rcases hw with rfl | rfl | rfl
  · exact ⟨.engineeringA, h⟩
  · exact ⟨.engineeringB, h⟩
  · exact ⟨.qaTests, h⟩

lemma owns_of_validateAttemptPlan {v templateJson runBaseSha existingDirectories : Json}
    {plan : Plan}
    (h : validateAttemptPlan lib v templateJson runBaseSha existingDirectories = .ok plan) :
    ∃ template directories, validatePodTemplate lib templateJson = .ok template ∧
      validateExistingDirectories lib existingDirectories = .ok directories ∧
      Owns lib template directories plan := by
  obtain ⟨template, htemplate, h⟩ := bind_eq_ok.mp h
  obtain ⟨_, -, h⟩ := bind_eq_ok.mp h
  obtain ⟨directories, hdirs, h⟩ := bind_eq_ok.mp h
  obtain ⟨_, -, h⟩ := bind_eq_ok.mp h
  obtain ⟨_, -, h⟩ := bind_eq_ok.mp h
  obtain ⟨_, -, h⟩ := bind_eq_ok.mp h
  obtain ⟨_, -, h⟩ := bind_eq_ok.mp h
  obtain ⟨_, -, h⟩ := bind_eq_ok.mp h
  obtain ⟨_, -, h⟩ := bind_eq_ok.mp h
  obtain ⟨requirements, hreqs, h⟩ := bind_eq_ok.mp h
  obtain ⟨_, -, h⟩ := bind_eq_ok.mp h
  obtain ⟨criteria, hcrit, h⟩ := bind_eq_ok.mp h
  obtain ⟨_, -, h⟩ := bind_eq_ok.mp h
  obtain ⟨_, -, h⟩ := bind_eq_ok.mp h
  obtain ⟨a, ha, h⟩ := bind_eq_ok.mp h
  obtain ⟨b, hb, h⟩ := bind_eq_ok.mp h
  obtain ⟨q, hq, h⟩ := bind_eq_ok.mp h
  obtain ⟨_, hreq, h⟩ := bind_eq_ok.mp h
  obtain ⟨_, hacc, h⟩ := bind_eq_ok.mp h
  obtain rfl := Except.ok.inj h
  have hga := goodWriter ha
  have hgb := goodWriter hb
  have hgq := goodWriter hq
  have hnodup := nodup_criteriaFrom (by simp) hcrit
  refine ⟨template, directories, htemplate, hdirs, ?_, ?_, ?_, ?_, ?_⟩
  · intro slot p hp
    cases slot with
    | engineeringA => exact (hga.of_path p hp)
    | engineeringB => exact (hgb.of_path p hp)
    | qaTests => exact (hgq.of_path p hp)
  · -- each slot was checked against those before it
    have hab := hgb.apart_of_claims (fun q (hq : q ∈ claims .engineeringA a) => hq)
    have haq := hgq.apart_of_claims
      (fun q (hq : q ∈ claims .engineeringA a) => List.mem_append_left _ hq)
    have hbq := hgq.apart_of_claims
      (fun q (hq : q ∈ claims .engineeringB b) => List.mem_append_right _ hq)
    intro slot slot' hne p hp p' hp'
    cases slot <;> cases slot'
    · exact absurd rfl hne
    · exact hab p hp p' hp'
    · exact haq p hp p' hp'
    · exact (directoriesOverlap_comm p p').trans (hab p' hp' p hp)
    · exact absurd rfl hne
    · exact hbq p hp p' hp'
    · exact (directoriesOverlap_comm p p').trans (haq p' hp' p hp)
    · exact (directoriesOverlap_comm p p').trans (hbq p' hp' p hp)
    · exact absurd rfl hne
  · intro r hr
    obtain ⟨w, hw, hmem⟩ := requirement_covered hreq r hr
    exact exists_slot hw hmem
  · intro c hc
    obtain ⟨w, hw, hmem⟩ := criterion_covered hacc c hc
    exact exists_slot hw hmem
  · intro c hc slot hslot r hr
    rw [← linkedTo_of_mem hnodup hc] at hr
    cases slot with
    | engineeringA => exact hga.linked c.id hslot r hr
    | engineeringB => exact hgb.linked c.id hslot r hr
    | qaTests => exact hgq.linked c.id hslot r hr

/-! ### Portable paths -/

lemma mem_of_segments {cs : List Char} {P : Char → Prop} (h : ∀ w ∈ cs.splitOn '/', ∀ c ∈ w, P c) :
    ∀ c ∈ cs, c = '/' ∨ P c := by
  induction cs with
  | nil => exact fun c hc => (List.not_mem_nil hc).elim
  | cons x xs ih =>
      rw [List.splitOn_cons_eq_if_modifyHead] at h
      intro c hc
      by_cases hx : x = '/'
      · subst hx
        simp only [beq_self_eq_true, if_true, List.mem_cons] at h
        rcases List.mem_cons.mp hc with rfl | hc
        · exact .inl rfl
        · exact ih (fun w hw => h w (.inr hw)) c hc
      · obtain ⟨w, ws, hsplit⟩ := List.exists_cons_of_ne_nil (List.splitOn_ne_nil '/' xs)
        rw [if_neg (by simpa using hx), hsplit, List.modifyHead_cons] at h
        rcases List.mem_cons.mp hc with rfl | hc
        · exact .inr (h _ List.mem_cons_self c List.mem_cons_self)
        · refine ih (fun v hv c hc => ?_) c hc
          rw [hsplit] at hv
          rcases List.mem_cons.mp hv with rfl | hv
          · exact h _ List.mem_cons_self c (List.mem_cons_of_mem _ hc)
          · exact h v (List.mem_cons_of_mem _ hv) c hc

lemma ascii_of_isPortable {c : Char} (h : isPortable c = true) : c.toNat < 128 := by
  simp only [isPortable, Char.isAlphanum, Char.isAlpha, Char.isUpper, Char.isLower, Char.isDigit,
    Bool.or_eq_true, Bool.and_eq_true, decide_eq_true_eq, beq_iff_eq] at h
  rcases h with ((((⟨-, h⟩ | ⟨-, h⟩) | ⟨-, h⟩) | rfl) | rfl) | rfl
  all_goals first | decide | exact Nat.lt_of_le_of_lt h (by decide)

lemma isAscii_of_portable {s : String} (h : portable s = true) : isAscii s = true := by
  rw [portable, Bool.and_eq_true, List.all_eq_true] at h
  rw [isAscii, List.all_eq_true]
  intro c hc
  have hw : ∀ w ∈ s.toList.splitOn '/', ∀ c ∈ w, isPortable c = true := by
    intro w hw
    have hall := h.2 w hw
    rw [Bool.and_eq_true, List.all_eq_true] at hall
    exact hall.2
  rcases mem_of_segments hw c hc with rfl | hp
  · decide
  · exact decide_eq_true (ascii_of_isPortable hp)

/-- A path that is portable is in lower case letter by letter. -/
lemma toLowerCase_of_portable {s : String} (h : portable s = true) :
    (toLowerCase lib s).toList = s.toList.map Char.toLower := by
  rw [toLowerCase, if_pos (isAscii_of_portable h), String.toList_ofList]

lemma portable_of_assert {what label s : String} {v : Json}
    (h : assertRepositoryPath what v label = .ok s) : canonical s = true ∧ portable s = true := by
  obtain ⟨s', -, h⟩ := bind_eq_ok.mp h
  obtain ⟨_, hcanonical, h⟩ := bind_eq_ok.mp h
  obtain ⟨_, hportable, h⟩ := bind_eq_ok.mp h
  obtain ⟨_, -, h⟩ := bind_eq_ok.mp h
  obtain rfl := Except.ok.inj h
  exact ⟨require_eq.mp hcanonical, require_eq.mp hportable⟩

lemma str_of_assertText {label s : String} {maximum : ℕ} {v : Json}
    (h : assertText v label maximum = .ok s) : v = .str s := by
  cases v with
  | str t =>
      obtain ⟨_, -, h⟩ := bind_eq_ok.mp h
      obtain ⟨_, -, h⟩ := bind_eq_ok.mp h
      obtain rfl := Except.ok.inj h
      rfl
  | _ => cases h

lemma str_of_assertRepositoryPath {what label s : String} {v : Json}
    (h : assertRepositoryPath what v label = .ok s) : v = .str s := by
  obtain ⟨s', htext, h⟩ := bind_eq_ok.mp h
  obtain ⟨_, -, h⟩ := bind_eq_ok.mp h
  obtain ⟨_, -, h⟩ := bind_eq_ok.mp h
  obtain ⟨_, -, h⟩ := bind_eq_ok.mp h
  obtain rfl := Except.ok.inj h
  exact str_of_assertText htext

lemma arr_of_assertArray {v : Json} {minimum maximum : ℕ} {message : String} {l : List Json}
    (h : assertArray v minimum maximum message = .ok l) : v = .arr l := by
  cases v with
  | arr l' =>
      obtain ⟨_, -, h⟩ := bind_eq_ok.mp h
      obtain rfl := Except.ok.inj h
      rfl
  | _ => cases h

/-- A path does not end with the separator. -/
lemma getLast_of_canonical {s : String} (h : canonical s = true) :
    s.toList.getLast? ≠ some '/' := by
  intro hlast
  obtain ⟨xs, hxs⟩ := List.getLast?_eq_some_iff.mp hlast
  have hmem : [] ∈ segments s := by
    rw [segments, hxs, List.splitOn_append_cons_self]
    exact List.mem_append_right _ (by simp)
  simp only [canonical, Bool.and_eq_true, List.all_eq_true] at h
  simpa using h.2 [] hmem

lemma withinFolded_of_owned {path writePath : String} (hpath : portable path = true)
    (hcanonical : canonical writePath = true) (hwrite : portable writePath = true)
    (h : Controller.pathIsOwned path writePath = true) : withinFolded lib writePath path := by
  rw [withinFolded, toLowerCase_of_portable hwrite, toLowerCase_of_portable hpath]
  rw [Controller.pathIsOwned, if_neg (getLast_of_canonical hcanonical), Bool.or_eq_true,
    decide_eq_true_eq, inside_iff] at h
  rcases h with rfl | ⟨t, ht⟩
  · exact .inl rfl
  · refine .inr ⟨t.map Char.toLower, ?_⟩
    have hsep : Char.toLower '/' = '/' := by decide
    rw [← ht, List.map_append, List.map_append, List.map_singleton, hsep]

/-! ### Commits -/

section Commits

variable {template : Template} {plan : Plan} {slot : Slot}

/-- The paths of a commit are those that the source gave, each of them owned. -/
lemma changedPathsFrom_spec {writePaths : List String} {i : ℕ} {seen files : List String}
    {l : List Json} (h : Controller.changedPathsFrom lib writePaths i seen l = .ok files) :
    ∃ new, files = seen ++ new ∧ l = new.map .str ∧
      ∀ f ∈ new, portable f = true ∧ ∃ p ∈ writePaths, Controller.pathIsOwned f p = true := by
  induction l generalizing i seen with
  | nil =>
      obtain rfl := Except.ok.inj h
      exact ⟨[], by simp⟩
  | cons v l ih =>
      obtain ⟨path, hpath, h⟩ := bind_eq_ok.mp h
      obtain ⟨_, -, h⟩ := bind_eq_ok.mp h
      obtain ⟨_, howned, h⟩ := bind_eq_ok.mp h
      obtain ⟨new, rfl, rfl, hnew⟩ := ih h
      refine ⟨path :: new, by simp, ?_, ?_⟩
      · rw [List.map_cons, str_of_assertRepositoryPath hpath]
      · intro f hf
        rcases List.mem_cons.mp hf with rfl | hf
        · exact ⟨(portable_of_assert hpath).2, by simpa using require_eq.mp howned⟩
        · exact hnew f hf

/-- The paths that the source says it has committed. -/
def changedPaths (v : Json) : Json := (v.get "changedPaths").getD .null

lemma checkCommit_spec {base : String} {v : Json} {c : Controller.Commit}
    (h : Controller.checkCommit lib template plan slot base v = .ok c) :
    changedPaths v = Controller.strings c.files ∧ ∀ f ∈ c.files, portable f = true ∧
      ∃ p ∈ (plan.writers slot).writePaths, Controller.pathIsOwned f p = true := by
  obtain ⟨l, hobj, h⟩ := bind_eq_ok.mp h
  obtain ⟨_, -, h⟩ := bind_eq_ok.mp h
  obtain ⟨_, -, h⟩ := bind_eq_ok.mp h
  obtain ⟨paths, hpaths, h⟩ := bind_eq_ok.mp h
  obtain ⟨files, hfiles, h⟩ := bind_eq_ok.mp h
  obtain ⟨_, -, h⟩ := bind_eq_ok.mp h
  obtain ⟨_, -, h⟩ := bind_eq_ok.mp h
  obtain ⟨_, -, h⟩ := bind_eq_ok.mp h
  obtain ⟨_, -, h⟩ := bind_eq_ok.mp h
  obtain rfl := Except.ok.inj h
  obtain ⟨new, rfl, rfl, hnew⟩ := changedPathsFrom_spec hfiles
  obtain rfl := PodStore.plainObject_eq hobj
  exact ⟨arr_of_assertArray hpaths, hnew⟩

lemma run_ofExcept_mapError {σ α : Type} {answer : σ → (o : Controller.Call) → o.Ret}
    {next : σ → (o : Controller.Call) → o.Ret → σ} {s t : σ} {x : Except String α} {a : α}
    {f : String → Controller.Err}
    (h : (Prog.ofExcept (x.mapError f) : Controller.Io α).run answer next s = (.ok a, t)) :
    x = .ok a := by
  rw [run_ofExcept] at h
  cases x with
  | ok b => exact congrArg Except.ok (Except.ok.inj (Prod.mk.inj h).1)
  | error e => cases (Prod.mk.inj h).1

/-- The run of a commit that ended well: what the source answered was checked. -/
lemma commit_of_run {σ : Type} {answer : σ → (o : Controller.Call) → o.Ret}
    {next : σ → (o : Controller.Call) → o.Ret → σ} {s t : σ} {cfg : Controller.Config}
    {at' : Controller.Attempt} {workspace : Json} {receipt : WriterReceipt} {w : Controller.Work}
    (h : (Controller.commitWriterResult cfg at' slot workspace receipt).run answer next s =
      (.ok w, t)) :
    ∃ s' v c, answer s' (.validateAndCommit slot workspace) = .ok v ∧
      Controller.checkCommit cfg.lib cfg.template at'.plan slot receipt.baseSha v = .ok c ∧
      w = Controller.workOf slot receipt c := by
  obtain ⟨_, s₁, -, h⟩ := run_bind_eq_ok _ _ |>.mp h
  obtain ⟨r, s₂, hask, h⟩ := run_bind_eq_ok _ _ |>.mp h
  obtain ⟨v, s₃, hport, h⟩ := run_bind_eq_ok _ _ |>.mp h
  obtain ⟨c, s₄, hcheck, h⟩ := run_bind_eq_ok _ _ |>.mp h
  obtain ⟨_, s₅, -, h⟩ := run_bind_eq_ok _ _ |>.mp h
  have hr := Except.ok.inj (Prod.mk.inj hask).1
  have hv := run_ofExcept_mapError hport
  have hc := run_ofExcept_mapError hcheck
  exact ⟨s₁, v, c, hr.trans hv, hc, (Except.ok.inj (Prod.mk.inj h).1).symm⟩

end Commits

/-! ### Ownership -/

lemma Owns.of_owned {template : Template} {directories : List String} {plan : Plan}
    (h : Owns lib template directories plan) {slot : Slot} {f : String} (hf : portable f = true)
    (howned : ∃ p ∈ (plan.writers slot).writePaths, Controller.pathIsOwned f p = true) :
    ∃ p ∈ (plan.writers slot).writePaths, withinFolded lib p f := by
  obtain ⟨p, hp, hown⟩ := howned
  obtain ⟨-, -, v, label, hdir⟩ := h.paths slot p hp
  obtain ⟨hcanonical, hportable⟩ := portable_of_assert hdir
  exact ⟨p, hp, withinFolded_of_owned hf hcanonical hportable hown⟩

/-- No path lies in the directories of two slots. -/
lemma Owns.unique {template : Template} {directories : List String} {plan : Plan}
    (h : Owns lib template directories plan) {f : String} {slot slot' : Slot}
    (hs : ∃ p ∈ (plan.writers slot).writePaths, withinFolded lib p f)
    (hs' : ∃ p ∈ (plan.writers slot').writePaths, withinFolded lib p f) : slot = slot' := by
  obtain ⟨p, hp, hin⟩ := hs
  obtain ⟨p', hp', hin'⟩ := hs'
  by_contra hne
  exact not_both_within (h.apart slot slot' hne p hp p' hp') hin hin'

/-- Portable directories with a path in common overlap. -/
lemma overlap_of_within {left right : String} {path : List Char} (hl : portable left = true)
    (hr : portable right = true) (hpl : within left.toList path)
    (hpr : within right.toList path) : directoriesOverlap lib left right = true := by
  have hmap : ∀ {a b : List Char}, within a b → within (a.map Char.toLower) (b.map Char.toLower) := by
    rintro a b (rfl | ⟨t, rfl⟩)
    · exact .inl rfl
    · refine .inr ⟨t.map Char.toLower, ?_⟩
      have hsep : Char.toLower '/' = '/' := by decide
      rw [List.map_append, List.map_append, List.map_singleton, hsep]
  rw [overlap_iff, withinFolded, withinFolded, toLowerCase_of_portable hl,
    toLowerCase_of_portable hr]
  exact (within_or_within hpl hpr).imp hmap hmap

/-- **Exclusive ownership.** A plan that is accepted gives every writer directories of the base
tree under its own root, no path of a repository lies in the directories of two writers (with
letter case or without it), and every requirement and criterion has a writer that also has
what the criterion depends on. A commit that is taken changes files of its own writer, none of
which another writer owns. -/
theorem plan_ownership {v templateJson runBaseSha existingDirectories : Json} {plan : Plan}
    (h : validateAttemptPlan lib v templateJson runBaseSha existingDirectories = .ok plan) :
    (∃ template directories, validatePodTemplate lib templateJson = .ok template ∧
      validateExistingDirectories lib existingDirectories = .ok directories ∧
      ∀ slot, ∀ p ∈ (plan.writers slot).writePaths,
        p ∈ directories ∧ directoryContains (template.writers slot).root p = true) ∧
    (∀ f slot slot', (∃ p ∈ (plan.writers slot).writePaths, withinFolded lib p f) →
      (∃ p ∈ (plan.writers slot').writePaths, withinFolded lib p f) → slot = slot') ∧
    (∀ f : String, ∀ slot slot', (∃ p ∈ (plan.writers slot).writePaths, within p.toList f.toList) →
      (∃ p ∈ (plan.writers slot').writePaths, within p.toList f.toList) → slot = slot') ∧
    (∀ r ∈ plan.requirements, ∃ slot, r.id ∈ (plan.writers slot).requirementIds) ∧
    (∀ c ∈ plan.acceptanceCriteria, ∃ slot, c.id ∈ (plan.writers slot).acceptanceIds ∧
      ∀ r ∈ c.requirementIds, r ∈ (plan.writers slot).requirementIds) ∧
    ∀ (σ : Type) (answer : σ → (o : Controller.Call) → o.Ret)
      (next : σ → (o : Controller.Call) → o.Ret → σ) (s t : σ) (cfg : Controller.Config)
      (at' : Controller.Attempt) (slot : Slot) (workspace : Json) (receipt : WriterReceipt)
      (w : Controller.Work), cfg.lib = lib → at'.plan = plan →
      (Controller.commitWriterResult cfg at' slot workspace receipt).run answer next s =
        (.ok w, t) →
      ∃ s' committed files, answer s' (.validateAndCommit slot workspace) = .ok committed ∧
        changedPaths committed = Controller.strings files ∧
        ∀ f ∈ files,
          (∃ p ∈ (plan.writers slot).writePaths, Controller.pathIsOwned f p = true) ∧
          ∀ slot', slot' ≠ slot → ∀ p ∈ (plan.writers slot').writePaths,
            Controller.pathIsOwned f p = false ∧ ¬withinFolded lib p f := by
  obtain ⟨template, directories, htemplate, hdirs, howns⟩ := owns_of_validateAttemptPlan h
  refine ⟨⟨template, directories, htemplate, hdirs, fun slot p hp => ?_⟩, ?_, ?_,
    howns.requirements, ?_, ?_⟩
  · obtain ⟨hdir, hroot, -⟩ := howns.paths slot p hp
    exact ⟨hdir, hroot⟩
  · exact fun f slot slot' hs hs' => howns.unique hs hs'
  · rintro f slot slot' ⟨p, hp, hin⟩ ⟨p', hp', hin'⟩
    by_contra hne
    obtain ⟨-, -, v₁, label₁, hdir⟩ := howns.paths slot p hp
    obtain ⟨-, -, v₂, label₂, hdir'⟩ := howns.paths slot' p' hp'
    have hov : directoriesOverlap lib p p' = true := overlap_of_within (portable_of_assert hdir).2
      (portable_of_assert hdir').2 hin hin'
    rw [howns.apart slot slot' hne p hp p' hp'] at hov
    cases hov
  · intro c hc
    obtain ⟨slot, hslot⟩ := howns.criteria c hc
    exact ⟨slot, hslot, howns.linked c hc slot hslot⟩
  · intro σ answer next s t cfg at' slot workspace receipt w hlib hplan hrun
    obtain ⟨s', committed, c, hanswer, hcheck, -⟩ := commit_of_run hrun
    rw [hlib, hplan] at hcheck
    obtain ⟨hpaths, hfiles⟩ := checkCommit_spec hcheck
    refine ⟨s', committed, c.files, hanswer, hpaths, fun f hf => ?_⟩
    obtain ⟨hportable, howned⟩ := hfiles f hf
    refine ⟨howned, fun slot' hne p hp => ?_⟩
    have hmine := howns.of_owned hportable howned
    refine ⟨?_, fun hin => hne (howns.unique ⟨p, hp, hin⟩ hmine)⟩
    rw [Bool.eq_false_iff]
    exact fun hother => hne (howns.unique (howns.of_owned hportable ⟨p, hp, hother⟩) hmine)

/-- `receiptFits`, with a bound on the size looked at before the size. -/
def quickFits (v : Json) (label : String) : Except String Unit :=
  if Sizes.atMost 0 v ≤ maxReceiptBytes then .ok () else receiptFits v label

lemma receiptFits_eq_quickFits : receiptFits = quickFits := by
  funext v label
  rw [quickFits]
  split_ifs with h
  · exact PodStore.require_eq.mpr ((Sizes.bytes_text_le 0 v).trans h)
  · rfl

/-! A plan for a repository of three directories. -/

def plainLib : Lib where
  sha256 := id
  lowerUnicode := id

def sampleTemplate : Json :=
  let writer (slot : Slot) (root : String) : String × Json :=
    (slot.name, .obj [("prompt", .str "writer.md"), ("allowedWriteRoots", .arr [.str root])])
  .obj [("version", .num "1"), ("name", .str "pod"), ("maxAttempts", .num "2"),
    ("timeouts", .obj [("executionSeconds", .num "10"), ("attemptSeconds", .num "20"),
      ("workflowSeconds", .num "40")]),
    ("changes", .obj [("maxFiles", .num "10"), ("maxBytes", .num "4096")]),
    ("writers", .obj [writer .engineeringA "src", writer .engineeringB "web",
      writer .qaTests "test"]),
    ("prompts", .obj (promptIds.map fun id => (id, .str "prompt.md"))),
    ("verificationProfile", .str "bimo-repo-v1")]

def sampleSha : String := "0123456789012345678901234567890123456789"

def samplePlan : Json :=
  let writer (slot : Slot) (path : String) : String × Json :=
    (slot.name, .obj [("brief", .str "Do it."), ("requirementIds", .arr [.str "R-1"]),
      ("acceptanceIds", .arr [.str "A-1"]), ("writePaths", .arr [.str path])])
  .obj [("version", .num "1"), ("attempt", .num "1"), ("baseSha", .str sampleSha),
    ("requirements", .arr [.obj [("id", .str "R-1"), ("text", .str "It works.")]]),
    ("acceptanceCriteria", .arr [.obj [("id", .str "A-1"), ("requirementIds", .arr [.str "R-1"]),
      ("text", .str "It is seen to work.")]]),
    ("writers", .obj [writer .engineeringA "src/Core", writer .engineeringB "web",
      writer .qaTests "test"])]

def sampleDirectories : Json :=
  .arr [.str "src", .str "src/Core", .str "web", .str "test"]

lemma samplePlan_accepted : ∃ plan,
    validateAttemptPlan plainLib samplePlan sampleTemplate (.str sampleSha) sampleDirectories =
      .ok plan := by
  have hok : (match validateAttemptPlan plainLib samplePlan sampleTemplate (.str sampleSha)
      sampleDirectories with
      | .ok _ => true
      | .error _ => false) = true := by decide +kernel
  split at hok
  · rename_i plan hplan
    exact ⟨plan, hplan⟩
  · cases hok

/-- The ownership of the sample plan. -/
theorem plan_ownership_sample : ∃ plan,
    validateAttemptPlan plainLib samplePlan sampleTemplate (.str sampleSha) sampleDirectories =
      .ok plan ∧
    ∀ f slot slot', (∃ p ∈ (plan.writers slot).writePaths, withinFolded plainLib p f) →
      (∃ p ∈ (plan.writers slot').writePaths, withinFolded plainLib p f) → slot = slot' := by
  obtain ⟨plan, hplan⟩ := samplePlan_accepted
  exact ⟨plan, hplan, (plan_ownership hplan).2.1⟩

end Bimo.Contract
