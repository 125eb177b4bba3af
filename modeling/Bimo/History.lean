import Bimo.Closing
import Bimo.WorkflowLog

/-!
What a prompt shows of the past: the changelog of the run before and the receipts of this one.

A changelog that is too long keeps a piece of its front and one of its back. Of the receipts the
last ones are shown, as many as fit: a receipt more makes the text longer, so the first one that
does not fit ends the search for all. What a receipt takes over several lines is bounded by what
it takes on one.
-/

namespace Bimo.Flow

open Wire (Json len bytes text escapedLen)
open PodStore (Fields pretty put escapedLen_le require_eq)
open Sizes (prettyFieldBytes fieldBytes bytes_pretty_obj bytes_pretty_arr bytes_pretty_str
  bytes_text_obj bytes_text_arr bytes_text_str)
open Controller (bytes_toString)
open Docker (length_digits)

/-! ### A changelog that is cut -/

lemma prefix_utf8Prefix (n : ℕ) (cs : List Char) : utf8Prefix n cs <+: cs := by
  induction cs generalizing n with
  | nil => exact List.prefix_rfl
  | cons c cs ih =>
      simp only [utf8Prefix]
      split_ifs
      · exact (List.prefix_cons_inj c).mpr (ih _)
      · exact List.nil_prefix

/-- What is kept of a text of at most so many bytes: the text, or whole characters from its front
and from its back with the marker between them. -/
structure Kept (maximum : ℕ) (value kept : String) : Prop where
  bound : len kept ≤ maximum
  cut : kept = value ∨ ∃ front back, front <+: value.toList ∧ back <:+ value.toList ∧
    kept.toList = front ++ marker.toList ++ back

lemma kept_truncateHistory {maximum : ℕ} (hmax : len marker ≤ maximum) (value : String) :
    Kept maximum value (truncateHistory value maximum) := by
  refine ⟨len_truncateHistory hmax value, ?_⟩
  unfold truncateHistory
  split_ifs
  · exact .inl rfl
  · refine .inr ⟨_, _, prefix_utf8Prefix _ _, ?_, String.toList_ofList⟩
    have hsuffix := List.reverse_suffix.mpr (prefix_utf8Prefix
      (maximum - len marker - (maximum - len marker) / 4) value.toList.reverse)
    rwa [List.reverse_reverse] at hsuffix

/-! ### As many receipts as fit -/

def omittedText (omitted : ℕ) : String :=
  if omitted = 0 then "" else s!"Earlier approved handoffs omitted: {omitted}.\n"

/-- The receipts without the first ones, and how many these are. -/
def shownText (receipts : List Json) (omitted : ℕ) : String :=
  omittedText omitted ++ String.ofList (pretty 0 (.arr (receipts.drop omitted)))

/-- What is shown of the receipts: nothing where there are none, else the longest list of the last
ones that fits, which has the last one at least. -/
def Shows (receipts : List Json) (shown : String) : Prop :=
  (receipts = [] ∧ shown = "None.") ∨ ∃ omitted < receipts.length,
    shown = shownText receipts omitted ∧ len shown ≤ maxCurrentHistoryBytes ∧
      ∀ k < omitted, maxCurrentHistoryBytes < len (shownText receipts k)

/-- What the search comes to: the first list that does not fit ends it. -/
lemma history_eq (rev : List Json) : ∀ (included : List Json) (rendered : String),
    ∃ omitted ≤ rev.length,
      history rev included rendered =
        (if omitted = rev.length then rendered else shownText (rev.reverse ++ included) omitted) ∧
      (omitted < rev.length →
        len (shownText (rev.reverse ++ included) omitted) ≤ maxCurrentHistoryBytes) ∧
      (0 < omitted →
        maxCurrentHistoryBytes < len (shownText (rev.reverse ++ included) (omitted - 1))) := by
  induction rev with
  | nil => exact fun included rendered => ⟨0, le_rfl, rfl, nofun, nofun⟩
  | cons v earlier ih =>
      intro included rendered
      have hall : (v :: earlier).reverse ++ included = earlier.reverse ++ (v :: included) := by simp
      have hcandidate : (if earlier = [] then ""
            else s!"Earlier approved handoffs omitted: {earlier.length}.\n") ++
          String.ofList (pretty 0 (.arr (v :: included))) =
          shownText (earlier.reverse ++ (v :: included)) earlier.length := by
        have hdrop : (earlier.reverse ++ (v :: included)).drop earlier.length = v :: included := by
          rw [← List.length_reverse, List.drop_left]
        rw [shownText, hdrop, omittedText]
        cases earlier <;> rfl
      rw [hall]
      unfold history
      dsimp only
      rw [hcandidate]
      split_ifs with hlong
      · refine ⟨earlier.length + 1, le_rfl, (if_pos rfl).symm, ?_, fun _ => hlong⟩
        exact fun h => absurd h (lt_irrefl _)
      · obtain ⟨omitted, hle, heq, hfits, hnot⟩ :=
          ih (v :: included) (shownText (earlier.reverse ++ (v :: included)) earlier.length)
        have hshown : history earlier (v :: included)
            (shownText (earlier.reverse ++ (v :: included)) earlier.length) =
              shownText (earlier.reverse ++ (v :: included)) omitted := by
          rw [heq]
          split_ifs with h
          · rw [h]
          · rfl
        have hne : omitted ≠ (v :: earlier).length := Nat.ne_of_lt (Nat.lt_succ_of_le hle)
        refine ⟨omitted, Nat.le_succ_of_le hle, ?_, fun _ => ?_, hnot⟩
        · rw [hshown, if_neg hne]
        · rcases Nat.lt_or_eq_of_le hle with h | h
          · exact hfits h
          · rw [h]
            exact Nat.le_of_not_lt hlong

/-- A receipt that takes more than the line about those that are left out, and not too much. -/
def Sized (v : Json) : Prop := 35 ≤ bytes (pretty 2 v) ∧ bytes (pretty 2 v) ≤ 63000

lemma len_omittedText {k : ℕ} (h : k < 100) : len (omittedText k) ≤ 39 := by
  unfold omittedText
  split_ifs
  · decide
  · have hdigits : (toString k).length ≤ 2 := length_digits (by decide) (by omega)
    have hfront : bytes (toString "Earlier approved handoffs omitted: ").toList = 35 := by decide
    have hback : bytes (toString ".\n").toList = 2 := by decide
    have hsum : len s!"Earlier approved handoffs omitted: {k}.\n" =
        35 + (toString k).length + 2 := by
      rw [len, String.toList_append, String.toList_append, Wire.bytes_append, Wire.bytes_append,
        hfront, hback, bytes_toString]
    omega

lemma len_shownText (receipts : List Json) (k : ℕ) :
    len (shownText receipts k) =
      len (omittedText k) + bytes (pretty 0 (.arr (receipts.drop k))) := by
  rw [shownText, len, String.toList_append, Wire.bytes_append, String.toList_ofList, len]

section Shown

variable {receipts : List Json} (hsized : ∀ v ∈ receipts, Sized v) (hcount : receipts.length ≤ 20)

include hsized hcount

/-- A receipt more makes the text longer, whether or not it is the first of them. -/
lemma shownText_succ {k : ℕ} (hk : k + 1 < receipts.length) :
    len (shownText receipts (k + 1)) ≤ len (shownText receipts k) := by
  have hdrop : receipts.drop k = receipts[k] :: receipts.drop (k + 1) :=
    List.drop_eq_getElem_cons (by omega)
  have hrest : receipts.drop (k + 1) ≠ [] := by
    rw [Ne, List.drop_eq_nil_iff]
    omega
  have hfirst : 35 ≤ bytes (pretty (0 + 2) receipts[k]) := (hsized _ (List.getElem_mem _)).1
  have homitted := len_omittedText (k := k + 1) (by omega)
  rw [len_shownText, len_shownText, hdrop, bytes_pretty_arr 0 hrest,
    bytes_pretty_arr 0 (List.cons_ne_nil _ _), List.map_cons, List.sum_cons]
  omega

lemma shownText_antitone {k j : ℕ} (hkj : k ≤ j) (hj : j < receipts.length) :
    len (shownText receipts j) ≤ len (shownText receipts k) := by
  induction j, hkj using Nat.le_induction with
  | base => exact le_rfl
  | succ j _ ih => exact (shownText_succ hsized hcount hj).trans (ih (by omega))

/-- The last receipt always fits. -/
lemma shownText_last (hne : receipts ≠ []) :
    len (shownText receipts (receipts.length - 1)) ≤ maxCurrentHistoryBytes := by
  have hpos := List.length_pos_iff.mpr hne
  have hdrop : receipts.drop (receipts.length - 1) = [receipts.getLast hne] :=
    List.drop_length_sub_one hne
  have hlast : bytes (pretty (0 + 2) (receipts.getLast hne)) ≤ 63000 :=
    (hsized _ (List.getLast_mem hne)).2
  have homitted := len_omittedText (k := receipts.length - 1) (by omega)
  have hmax : maxCurrentHistoryBytes = 98304 := rfl
  rw [len_shownText, hdrop, bytes_pretty_arr 0 (List.cons_ne_nil _ _), List.map_singleton,
    List.sum_singleton]
  omega

lemma shows_history : Shows receipts (history receipts.reverse [] "None.") := by
  by_cases hne : receipts = []
  · subst hne
    exact .inl ⟨rfl, rfl⟩
  · obtain ⟨omitted, hle, heq, hfits, hnot⟩ := history_eq receipts.reverse [] "None."
    simp only [List.length_reverse, List.reverse_reverse, List.append_nil] at hle heq hfits hnot
    have hlt : omitted < receipts.length := by
      refine Nat.lt_of_le_of_ne hle fun h => ?_
      have hlast := shownText_last hsized hcount hne
      have hpos := List.length_pos_iff.mpr hne
      have hlong := hnot (by omega)
      rw [h] at hlong
      omega
    rw [if_neg (Nat.ne_of_lt hlt)] at heq
    refine .inr ⟨omitted, hlt, heq, heq ▸ hfits hlt, fun k hk => ?_⟩
    exact (hnot (by omega)).trans_le (shownText_antitone hsized hcount (by omega) (by omega))

end Shown

/-! ### What a receipt takes over several lines -/

/-- What a receipt that was checked holds. -/
structure Checked (receipt : Fields) where
  outcome : String
  what : String
  why : String
  evidence : List String
  files : List String
  outcome_eq : receipt.lookup "outcome" = some (.str outcome)
  what_eq : receipt.lookup "what" = some (.str what)
  why_eq : receipt.lookup "why" = some (.str why)
  evidence_eq : receipt.lookup "evidence" = some (.arr (evidence.map .str))
  files_eq : receipt.lookup "files" = some (.arr (files.map .str))
  evidence_length : evidence.length ≤ 20
  files_length : files.length ≤ 100
  size : bytes (text (.obj receipt)) ≤ maxReceiptBytes

lemma lookup_of_field {l : Fields} {key : String} {v : Json} (h : field l key = v)
    (hv : v ≠ .null) : l.lookup key = some v := by
  unfold field at h
  cases hl : l.lookup key with
  | none =>
      rw [hl] at h
      exact absurd h.symm hv
  | some v' =>
      rw [hl] at h
      exact congrArg some h

lemma strs_of_checkTexts {check : Json → String → Except String String} {label : String}
    (hcheck : ∀ v label s, check v label = .ok s → v = .str s) (l : List Json) :
    ∀ {i : ℕ} {texts : List String}, checkTexts check label i l = .ok texts →
      l = texts.map .str := by
  induction l with
  | nil =>
      intro i texts h
      obtain rfl := Except.ok.inj h
      rfl
  | cons v l ih =>
      intro i texts h
      obtain ⟨s, hs, h⟩ := bind_eq_ok.mp h
      obtain ⟨rest, hrest, h⟩ := bind_eq_ok.mp h
      obtain rfl := Except.ok.inj h
      rw [hcheck v _ s hs, ih hrest, List.map_cons]

lemma length_of_checkTexts {check : Json → String → Except String String} {label : String}
    (l : List Json) : ∀ {i : ℕ} {texts : List String}, checkTexts check label i l = .ok texts →
      texts.length = l.length := by
  induction l with
  | nil =>
      intro i texts h
      obtain rfl := Except.ok.inj h
      rfl
  | cons v l ih =>
      intro i texts h
      obtain ⟨s, -, h⟩ := bind_eq_ok.mp h
      obtain ⟨rest, hrest, h⟩ := bind_eq_ok.mp h
      obtain rfl := Except.ok.inj h
      rw [List.length_cons, List.length_cons, ih hrest]

lemma of_arrayOf {v : Json} {minimum maximum : ℕ} {message : String} {l : List Json}
    (h : arrayOf v minimum maximum message = .ok l) : v = .arr l ∧ l.length ≤ maximum := by
  cases v with
  | arr l' =>
      obtain ⟨_, hlength, h⟩ := bind_eq_ok.mp h
      obtain rfl := Except.ok.inj h
      exact ⟨rfl, (require_eq.mp hlength).2⟩
  | _ => cases h

lemma checked_of_validateReceipt {v : Json} {role : Role} {receipt : Fields}
    (h : validateReceipt v role = .ok receipt) : Nonempty (Checked receipt) := by
  obtain ⟨l, -, h⟩ := bind_eq_ok.mp h
  obtain ⟨_, -, h⟩ := bind_eq_ok.mp h
  obtain ⟨outcome, hout, h⟩ := bind_eq_ok.mp h
  obtain ⟨_, -, h⟩ := bind_eq_ok.mp h
  obtain ⟨what, hwhat, h⟩ := bind_eq_ok.mp h
  obtain ⟨why, hwhy, h⟩ := bind_eq_ok.mp h
  obtain ⟨evidence, hevidence, h⟩ := bind_eq_ok.mp h
  obtain ⟨raw, hraw, h⟩ := bind_eq_ok.mp h
  obtain ⟨files, hfiles, h⟩ := bind_eq_ok.mp h
  obtain ⟨_, -, h⟩ := bind_eq_ok.mp h
  obtain ⟨_, hsize, h⟩ := bind_eq_ok.mp h
  obtain rfl := Except.ok.inj h
  obtain ⟨items, hitems, htexts⟩ := bind_eq_ok.mp hevidence
  obtain ⟨hevidence, hcount⟩ := of_arrayOf hitems
  have hstrs : items = evidence.map .str :=
    strs_of_checkTexts (fun v _ s hs => Contract.str_of_assertText hs) items htexts
  have hout' : field l "outcome" = .str outcome := by
    unfold outcomeOf at hout
    split at hout
    · rename_i s hs
      rw [hs, Except.ok.inj hout]
    · cases hout
  have hother : ∀ {key : String} {x : Json}, key ≠ "files" → field l key = x → x ≠ .null →
      (put "files" (.arr (files.map .str)) l).lookup key = some x := by
    intro key x hkey hx hnull
    rw [PodStore.lookup_put, if_neg hkey]
    exact lookup_of_field hx hnull
  refine ⟨⟨outcome, what, why, evidence, files, hother (by decide) hout' nofun,
    hother (by decide) (Contract.str_of_assertText hwhat) nofun,
    hother (by decide) (Contract.str_of_assertText hwhy) nofun,
    hother (by decide) (hevidence.trans (congrArg _ hstrs)) nofun, ?_, ?_, ?_,
    require_eq.mp hsize⟩⟩
  · rw [PodStore.lookup_put, if_pos rfl]
  · rw [length_of_checkTexts items htexts]
    exact hcount
  · rw [length_of_checkTexts raw hfiles]
    exact (of_arrayOf hraw).2

/-- A list of texts takes a little more over several lines than on one. -/
lemma bytes_pretty_strs (l : List String) :
    bytes (pretty 4 (.arr (l.map .str))) ≤ bytes (text (.arr (l.map .str))) + 7 * l.length + 5 := by
  by_cases hne : l = []
  · subst hne
    decide
  · have hmap : l.map Json.str ≠ [] := by simpa using hne
    have hsum : ∀ l : List String,
        ((l.map Json.str).map fun v => 4 + 2 + bytes (pretty (4 + 2) v) + 2).sum =
          ((l.map Json.str).map fun v => bytes (text v) + 1).sum + 7 * l.length := by
      intro l
      induction l with
      | nil => rfl
      | cons s l ih =>
          simp only [List.map_cons, List.sum_cons, List.length_cons, bytes_pretty_str,
            bytes_text_str] at ih ⊢
          omega
    rw [bytes_pretty_arr 4 hmap, bytes_text_arr hmap, hsum]
    omega

/-- The fields of a receipt in the order in which they are named. -/
lemma perm_fields {l : Fields} {keys : List String} (hperm : (l.map Prod.fst).Perm keys)
    (hnodup : keys.Nodup) : l.Perm (keys.map fun key => (key, field l key)) := by
  have hl : l.map (fun p => (p.1, field l p.1)) = l := by
    have hkeys : (l.map Prod.fst).Nodup := hperm.nodup_iff.mpr hnodup
    have hlookup : ∀ p ∈ l, l.lookup p.1 = some p.2 := by
      intro p hp
      clear hperm hnodup
      induction l with
      | nil => cases hp
      | cons q l ih =>
          rw [List.map_cons, List.nodup_cons] at hkeys
          rw [PodStore.lookup_cons_eq]
          rcases List.mem_cons.mp hp with rfl | hp
          · rw [if_pos rfl]
          · have hne : p.1 ≠ q.1 := fun he => hkeys.1 (he ▸ List.mem_map_of_mem hp)
            rw [if_neg hne]
            exact ih hkeys.2 hp
    conv_rhs => rw [← List.map_id l]
    refine List.map_congr_left fun p hp => ?_
    rw [field, hlookup p hp]
    rfl
  have h := hperm.map fun key => (key, field l key)
  rw [List.map_map] at h
  exact (List.Perm.of_eq hl.symm).trans h

/-- The handoff of a role whose receipt was checked. -/
lemma sized_handoff {event receipt : Fields} {role : Role} {v : Json} {name : String} {step : ℕ}
    (hreceipt : validateReceipt v role = .ok receipt)
    (hfields : ∀ key ∈ receiptFields, event.lookup key = receipt.lookup key)
    (hrole : event.lookup "role" = some (.str name)) (hname : name.length ≤ 32)
    (hstep : event.lookup "step" = some (Wire.ofNat step)) (hsteps : step ≤ 20) :
    Sized (handoff event) := by
  obtain ⟨c⟩ := checked_of_validateReceipt hreceipt
  have hhandoff : handoff event = .obj [("role", .str name), ("step", Wire.ofNat step),
      ("outcome", .str c.outcome), ("what", .str c.what), ("why", .str c.why),
      ("evidence", .arr (c.evidence.map .str)), ("files", .arr (c.files.map .str))] := by
    simp only [handoff, List.filterMap_cons, List.filterMap_nil, hrole, hstep,
      hfields "outcome" (by decide), hfields "what" (by decide), hfields "why" (by decide),
      hfields "evidence" (by decide), hfields "files" (by decide), c.outcome_eq, c.what_eq,
      c.why_eq, c.evidence_eq, c.files_eq, Option.map_some]
  have hcompact : bytes (text (.obj receipt)) = 48 + (escapedLen c.outcome + 2) +
      (escapedLen c.what + 2) + (escapedLen c.why + 2) +
      bytes (text (.arr (c.evidence.map .str))) + bytes (text (.arr (c.files.map .str))) := by
    have hperm := perm_fields (keys_of_validateReceipt hreceipt) (by decide)
    have hne : receipt ≠ [] := by
      rintro rfl
      cases c.outcome_eq
    rw [bytes_text_obj hne, (hperm.map fieldBytes).sum_eq]
    have hkeys : escapedLen "outcome" = 7 ∧ escapedLen "what" = 4 ∧ escapedLen "why" = 3 ∧
        escapedLen "evidence" = 8 ∧ escapedLen "files" = 5 := by decide
    obtain ⟨h₁, h₂, h₃, h₄, h₅⟩ := hkeys
    simp only [receiptFields, field, c.outcome_eq, c.what_eq, c.why_eq, c.evidence_eq, c.files_eq,
      List.map_cons, List.map_nil, List.sum_cons, List.sum_nil, fieldBytes, Option.getD_some,
      bytes_text_str, h₁, h₂, h₃, h₄, h₅]
    omega
  have hpretty : bytes (pretty 2 (handoff event)) = 109 + (escapedLen name + 2) +
      (toString step).length + (escapedLen c.outcome + 2) + (escapedLen c.what + 2) +
      (escapedLen c.why + 2) + bytes (pretty 4 (.arr (c.evidence.map .str))) +
      bytes (pretty 4 (.arr (c.files.map .str))) := by
    have hkeys : escapedLen "role" = 4 ∧ escapedLen "step" = 4 ∧ escapedLen "outcome" = 7 ∧
        escapedLen "what" = 4 ∧ escapedLen "why" = 3 ∧ escapedLen "evidence" = 8 ∧
        escapedLen "files" = 5 := by decide
    obtain ⟨h₁, h₂, h₃, h₄, h₅, h₆, h₇⟩ := hkeys
    have hnum : bytes (pretty 4 (Wire.ofNat step)) = (toString step).length := bytes_toString step
    rw [hhandoff, bytes_pretty_obj 2 (List.cons_ne_nil _ _)]
    simp only [List.map_cons, List.map_nil, List.sum_cons, List.sum_nil, prettyFieldBytes,
      bytes_pretty_str, h₁, h₂, h₃, h₄, h₅, h₆, h₇, hnum, Nat.reduceAdd]
    omega
  have hnameLen := escapedLen_le name
  have hdigits : (toString step).length ≤ 2 := length_digits (by decide) (by omega)
  have hevidence := bytes_pretty_strs c.evidence
  have hfiles := bytes_pretty_strs c.files
  have hsize := c.size
  have hmax : maxReceiptBytes = 61440 := rfl
  have hcount := c.evidence_length
  have hcount' := c.files_length
  refine ⟨by omega, by omega⟩

end Bimo.Flow
