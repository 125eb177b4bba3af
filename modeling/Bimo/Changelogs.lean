import Bimo.Organizer
import Bimo.WorkflowLog

/-!
Changelogs: which of their lines a text can make.

Both controllers render their log as a document of headings, of lines with values they chose,
and of texts that agents wrote. A text that is quoted has four spaces in front of each of its
lines, which keeps it apart from the rest. The document is looked at as its reader takes it, as
the lines that start in column one.
-/

namespace Bimo.Changelog

open Contract (isBlank isUnsafe)
open Bimo.Flow (join)

/-! ### Lines that start in column one -/

def isBreak (c : Char) : Bool := c == '\n' || c == '\r'

def linesOf (doc : List Char) : List (List Char) := doc.splitOnP isBreak

def indent : List Char := [' ', ' ', ' ', ' ']

/-- A line with something on it that is not four spaces in. -/
def startsInColumnOne (line : List Char) : Bool := !line.all isBlank && !indent.isPrefixOf line

/-- The lines that start in column one, without the blanks they end in. -/
def columnOne (doc : List Char) : List (List Char) :=
  ((linesOf doc).filter startsInColumnOne).map (List.rdropWhile isBlank)

/-- A text all of whose lines are four spaces in, or blank. -/
def Indented (doc : List Char) : Prop := ∀ line ∈ linesOf doc, line.all isBlank ∨ indent <+: line

@[simp] lemma columnOne_nil : columnOne [] = [] := rfl

lemma columnOne_append_break (a b : List Char) {c : Char} (hc : isBreak c = true) :
    columnOne (a ++ c :: b) = columnOne a ++ columnOne b := by
  rw [columnOne, linesOf, List.splitOnP_append_cons a b hc, List.filter_append, List.map_append]
  rfl

lemma join_cons (l l' : List Char) (ls : List (List Char)) :
    join ['\n'] (l :: l' :: ls) = l ++ '\n' :: join ['\n'] (l' :: ls) := by
  simp [join]

/-- Joined lines are looked at one by one. -/
lemma columnOne_join (ls : List (List Char)) :
    columnOne (join ['\n'] ls) = ls.flatMap columnOne := by
  induction ls with
  | nil => rfl
  | cons l ls ih =>
      cases ls with
      | nil => simp [join]
      | cons l' ls =>
          rw [join_cons, columnOne_append_break _ _ (by decide), ih]
          rfl

lemma mem_of_mem_splitOnP {p : Char → Bool} {cs part : List Char} {c : Char}
    (hpart : part ∈ cs.splitOnP p) (hc : c ∈ part) : c ∈ cs ∧ p c = false := by
  induction cs generalizing part with
  | nil =>
      obtain rfl : part = [] := by simpa using hpart
      cases hc
  | cons d cs ih =>
      rw [List.splitOnP_cons_eq_if_modifyHead] at hpart
      split_ifs at hpart with hd
      · rcases List.mem_cons.mp hpart with rfl | hpart
        · cases hc
        · exact ⟨List.mem_cons_of_mem _ (ih hpart hc).1, (ih hpart hc).2⟩
      · obtain ⟨first, rest, hrest⟩ := List.exists_cons_of_ne_nil (List.splitOnP_ne_nil p cs)
        rw [hrest] at ih hpart
        rcases List.mem_cons.mp hpart with rfl | hpart
        · rcases List.mem_cons.mp hc with rfl | hc
          · exact ⟨List.mem_cons_self, by simpa using hd⟩
          · have h := ih List.mem_cons_self hc
            exact ⟨List.mem_cons_of_mem _ h.1, h.2⟩
        · have h := ih (List.mem_cons_of_mem _ hpart) hc
          exact ⟨List.mem_cons_of_mem _ h.1, h.2⟩

/-- Lines that were joined are found again. -/
lemma linesOf_join {ls : List (List Char)} (hne : ls ≠ [])
    (h : ∀ l ∈ ls, ∀ c ∈ l, isBreak c = false) : linesOf (join ['\n'] ls) = ls := by
  induction ls with
  | nil => exact absurd rfl hne
  | cons l ls ih =>
      have hl : linesOf l = [l] := List.splitOnP_eq_singleton (h l List.mem_cons_self)
      cases ls with
      | nil => exact hl
      | cons l' ls =>
          have hrest := ih (List.cons_ne_nil _ _) fun x hx => h x (List.mem_cons_of_mem _ hx)
          rw [join_cons, linesOf, List.splitOnP_append_cons _ _ (by decide), ← linesOf, ← linesOf,
            hl, hrest]
          rfl

lemma columnOne_eq_nil {doc : List Char} : columnOne doc = [] ↔ Indented doc := by
  rw [columnOne, List.map_eq_nil_iff, List.filter_eq_nil_iff]
  refine forall₂_congr fun line _ => ?_
  rw [startsInColumnOne, Bool.not_eq_true, Bool.and_eq_false_iff, Bool.not_eq_false',
    Bool.not_eq_false', List.isPrefixOf_iff_prefix]

/-! ### Blanks at the end -/

/-- A character that is not a break goes to the last line. -/
lemma linesOf_concat (doc : List Char) : ∃ init last, linesOf doc = init ++ [last] ∧
    ∀ c, isBreak c = false → linesOf (doc ++ [c]) = init ++ [last ++ [c]] := by
  induction doc with
  | nil =>
      refine ⟨[], [], rfl, fun c hc => ?_⟩
      simp [linesOf, List.splitOnP_cons_eq_if_modifyHead, hc]
  | cons d doc ih =>
      obtain ⟨init, last, hlines, hconcat⟩ := ih
      cases hd : isBreak d with
      | true =>
          refine ⟨[] :: init, last, ?_, fun c hc => ?_⟩
          · rw [linesOf, List.splitOnP_cons_eq_if_modifyHead, if_pos hd, ← linesOf, hlines]
            rfl
          · rw [linesOf, List.cons_append, List.splitOnP_cons_eq_if_modifyHead, if_pos hd,
              ← linesOf, hconcat c hc]
            rfl
      | false =>
          have hcons : ∀ l, linesOf (d :: l) = (linesOf l).modifyHead (d :: ·) := by
            intro l
            rw [linesOf, List.splitOnP_cons_eq_if_modifyHead, if_neg (by simp [hd])]
            rfl
          cases init with
          | nil =>
              refine ⟨[], d :: last, ?_, fun c hc => ?_⟩
              · rw [hcons, hlines]
                rfl
              · rw [List.cons_append, hcons, hconcat c hc]
                rfl
          | cons first init =>
              refine ⟨(d :: first) :: init, last, ?_, fun c hc => ?_⟩
              · rw [hcons, hlines]
                rfl
              · rw [List.cons_append, hcons, hconcat c hc]
                rfl

/-- A blank at the end of a line does not matter. -/
lemma startsInColumnOne_concat (line : List Char) {c : Char} (hc : isBlank c = true) :
    startsInColumnOne (line ++ [c]) = startsInColumnOne line := by
  rw [startsInColumnOne, startsInColumnOne, List.all_append]
  cases hall : line.all isBlank with
  | true => simp [hc]
  | false =>
      have hprefix : indent <+: line ++ [c] ↔ indent <+: line := by
        refine ⟨fun h => ?_, fun h => h.trans (List.prefix_append _ _)⟩
        rcases List.prefix_concat_iff.mp h with h | h
        · -- the line would be three spaces
          have hline : line = [' ', ' ', ' '] := by
            have hinit := congrArg List.dropLast h
            rw [List.dropLast_concat] at hinit
            exact hinit.symm
          rw [hline] at hall
          cases hall
        · exact h
      rw [Bool.false_and, Bool.not_false, Bool.true_and, Bool.true_and, Bool.eq_iff_iff,
        Bool.not_eq_true', Bool.not_eq_true', ← Bool.not_eq_true, ← Bool.not_eq_true,
        List.isPrefixOf_iff_prefix, List.isPrefixOf_iff_prefix, hprefix]

lemma columnOne_concat (doc : List Char) {c : Char} (hc : isBlank c = true) :
    columnOne (doc ++ [c]) = columnOne doc := by
  cases hbreak : isBreak c with
  | true => simpa using columnOne_append_break doc [] hbreak
  | false =>
      obtain ⟨init, last, hlines, hconcat⟩ := linesOf_concat doc
      rw [columnOne, columnOne, hlines, hconcat c hbreak, List.filter_append, List.filter_append,
        List.filter_singleton, List.filter_singleton, startsInColumnOne_concat last hc,
        List.map_append, List.map_append]
      cases startsInColumnOne last with
      | true => simp [List.rdropWhile_concat_pos _ _ _ hc]
      | false => rfl

lemma columnOne_append_blank (doc : List Char) {blanks : List Char}
    (h : ∀ c ∈ blanks, isBlank c = true) : columnOne (doc ++ blanks) = columnOne doc := by
  induction blanks using List.reverseRecOn with
  | nil => rw [List.append_nil]
  | append_singleton blanks c ih =>
      rw [← List.append_assoc, columnOne_concat _ (h c (by simp))]
      exact ih fun d hd => h d (List.mem_append_left _ hd)

/-- A document that starts with a heading is only trimmed at its end. -/
lemma columnOne_trim (doc : List Char) :
    columnOne (Organizer.trim ('#' :: doc) ++ ['\n']) = columnOne ('#' :: doc) := by
  have hfront : ('#' :: doc).dropWhile isBlank = '#' :: doc :=
    List.dropWhile_cons_of_neg (by decide)
  rw [columnOne_concat _ (by decide), Organizer.trim, hfront]
  have hback : ('#' :: doc).rdropWhile isBlank ++ ('#' :: doc).rtakeWhile isBlank = '#' :: doc :=
    List.rdropWhile_append_rtakeWhile
  calc columnOne (('#' :: doc).rdropWhile isBlank)
      = columnOne (('#' :: doc).rdropWhile isBlank ++ ('#' :: doc).rtakeWhile isBlank) :=
        (columnOne_append_blank _ fun c => List.mem_rtakeWhile_imp).symm
    _ = columnOne ('#' :: doc) := by rw [hback]

end Bimo.Changelog

/-! ### The changelog of a workflow -/

namespace Bimo.Flow

open Wire (Json)
open PodStore (Fields)
open Contract (isBlank isUnsafe printed)
open Organizer (trim)
open Changelog

/-- One kind of line break for all of them. -/
def normalizeBreaks : List Char → List Char
  | [] => []
  | '\r' :: '\n' :: cs => '\n' :: normalizeBreaks cs
  | c :: cs => (if c = '\r' then '\n' else c) :: normalizeBreaks cs

def markdownQuote (value : String) : List Char :=
  let text := trim (normalizeBreaks (value.toList.filter fun c => !isUnsafe c))
  join ['\n'] ((text.splitOn '\n').map (indent ++ ·))

/-- A value of an event as it is printed. -/
def shown (event : Fields) (key : String) : List Char :=
  ((event.lookup key).elim "undefined" printed).toList

def orUnknown (event : Option Fields) (key : String) : List Char :=
  match event.bind (List.lookup key) with
  | none | some .null => "unknown".toList
  | some v => (printed v).toList

def items : Json → List Json
  | .arr l => l
  | _ => []

def bullets (l : List Json) : String :=
  String.ofList (join ['\n'] (l.map fun item => "- ".toList ++ (printed item).toList))

def filesText (l : List Json) : String :=
  if l.isEmpty then "None (read-only role)" else bullets l

def statusOf (terminal : Option Fields) : String :=
  match terminal with
  | none => "running"
  | some event => if isType event "run.finished" then "completed" else "failed"

def heading (events : List Fields) : List (List Char) :=
  let started := events.find? (isType · "run.started")
  let terminal := events.reverse.find? isTerminal
  ["# Bimo run ".toList ++ orUnknown started "runId", [],
    "- Template: ".toList ++ orUnknown started "template",
    "- Status: ".toList ++ (statusOf terminal).toList,
    "- Started: ".toList ++ orUnknown started "timestamp", []]

/-- The lines about an event. -/
def linesAbout (event : Fields) : List (List Char) :=
  if isType event "role.finished" then
    ["## ".toList ++ shown event "role" ++ " · step ".toList ++ shown event "step" ++
        " · ".toList ++ shown event "outcome", [],
      "Agent-reported what:".toList, [], markdownQuote (String.ofList (shown event "what")), [],
      "Agent-reported why:".toList, [], markdownQuote (String.ofList (shown event "why")), [],
      "Agent-reported evidence:".toList, [],
      markdownQuote (bullets (items (field event "evidence"))), [],
      "Agent-reported files:".toList, [],
      markdownQuote (filesText (items (field event "files"))), []]
  else if isType event "verification.finished" then
    ["## Deterministic verification".toList, [], "Status: ".toList ++ shown event "status", [],
      "Evidence:".toList, [], markdownQuote (bullets (items (field event "evidence"))), []]
  else if isType event "publication.finished" then
    ["## Published output".toList, [], "URL:".toList, [],
      markdownQuote (String.ofList (shown event "url")), []]
  else if isType event "run.failed" then
    ["## Failure".toList, [], markdownQuote (String.ofList (shown event "reason")), []]
  else []

def renderChangelog (events : List Fields) : List Char :=
  trim (join ['\n'] (heading events ++ events.flatMap linesAbout)) ++ ['\n']

/-! ### Quoted texts -/

lemma mem_normalizeBreaks (cs : List Char) : '\r' ∉ normalizeBreaks cs := by
  fun_induction normalizeBreaks cs with
  | case1 => simp
  | case2 cs ih => simpa using ih
  | case3 c cs _ ih =>
      rw [List.mem_cons, not_or]
      refine ⟨?_, ih⟩
      split_ifs with hc
      · decide
      · exact fun h => hc h.symm

lemma mem_of_mem_trim {cs : List Char} {c : Char} (h : c ∈ trim cs) : c ∈ cs :=
  (List.dropWhile_suffix _).subset ((List.rdropWhile_prefix _ _).subset h)

/-- Every line of a quoted text is four spaces in. -/
lemma prefix_markdownQuote {value : String} {line : List Char}
    (h : line ∈ Changelog.linesOf (markdownQuote value)) : indent <+: line := by
  unfold markdownQuote at h
  dsimp only at h
  generalize hcs : trim (normalizeBreaks (value.toList.filter fun c => !isUnsafe c)) = cs at h
  have hreturn : '\r' ∉ cs := fun hmem => mem_normalizeBreaks _ (mem_of_mem_trim (hcs ▸ hmem))
  have hbreak : ∀ l ∈ (cs.splitOn '\n').map (indent ++ ·), ∀ c ∈ l, isBreak c = false := by
    rintro l hl c hc
    obtain ⟨part, hpart, rfl⟩ := List.mem_map.mp hl
    have hindent : ∀ c ∈ indent, isBreak c = false := by
      intro c hc
      obtain rfl : c = ' ' := by simpa [indent] using hc
      decide
    rcases List.mem_append.mp hc with hc | hc
    · exact hindent c hc
    · rw [List.splitOn_eq_splitOnP] at hpart
      obtain ⟨hmem, hnewline⟩ := mem_of_mem_splitOnP hpart hc
      have hne : c ≠ '\r' := fun he => hreturn (he ▸ hmem)
      simpa [isBreak, hne] using hnewline
  have hne : (cs.splitOn '\n').map (indent ++ ·) ≠ [] := by
    rw [List.splitOn_eq_splitOnP]
    simp [List.splitOnP_ne_nil]
  rw [linesOf_join hne hbreak] at h
  obtain ⟨part, -, rfl⟩ := List.mem_map.mp h
  exact List.prefix_append _ _

@[simp] lemma columnOne_markdownQuote (value : String) : columnOne (markdownQuote value) = [] :=
  columnOne_eq_nil.mpr fun _ h => .inr (prefix_markdownQuote h)

/-! ### What the texts do to a changelog of a workflow -/

def textKeys : List String := ["what", "why", "evidence", "files", "url", "reason"]

/-- The event without its texts. -/
def withoutTexts (event : Fields) : Fields :=
  event.map fun p => (p.1, if p.1 ∈ textKeys then .null else p.2)

lemma lookup_withoutTexts {key : String} (h : key ∉ textKeys) (event : Fields) :
    (withoutTexts event).lookup key = event.lookup key := by
  induction event with
  | nil => rfl
  | cons p event ih =>
      obtain ⟨k, v⟩ := p
      rw [withoutTexts, List.map_cons, PodStore.lookup_cons_eq, PodStore.lookup_cons_eq]
      by_cases hk : key = k
      · rw [if_pos hk, if_pos hk, if_neg (hk ▸ h)]
      · rw [if_neg hk, if_neg hk]
        exact ih

lemma isType_withoutTexts (event : Fields) (type : String) :
    isType (withoutTexts event) type = isType event type := by
  rw [isType, isType, field, field, lookup_withoutTexts (by decide)]

lemma shown_withoutTexts {key : String} (h : key ∉ textKeys) (event : Fields) :
    shown (withoutTexts event) key = shown event key := by
  rw [shown, shown, lookup_withoutTexts h]

lemma columnOne_linesAbout (event : Fields) :
    (linesAbout (withoutTexts event)).flatMap columnOne = (linesAbout event).flatMap columnOne := by
  unfold linesAbout
  simp only [isType_withoutTexts]
  split_ifs
  · have hrole : "role" ∉ textKeys := by decide
    rw [shown_withoutTexts hrole, shown_withoutTexts (by decide), shown_withoutTexts (by decide)]
    simp
  · rw [shown_withoutTexts (by decide)]
    simp
  · simp
  · simp
  · rfl

lemma find?_withoutTexts {p : Fields → Bool} (hp : ∀ event, p (withoutTexts event) = p event)
    (events : List Fields) :
    (events.map withoutTexts).find? p = (events.find? p).map withoutTexts := by
  rw [List.find?_map]
  congr 2
  exact funext hp

lemma heading_withoutTexts (events : List Fields) :
    heading (events.map withoutTexts) = heading events := by
  have hunknown : ∀ (event : Option Fields) (key : String), key ∉ textKeys →
      orUnknown (event.map withoutTexts) key = orUnknown event key := by
    intro event key h
    cases event with
    | none => rfl
    | some event =>
        unfold orUnknown
        simp only [Option.map_some, Option.bind_some, lookup_withoutTexts h]
  have hstatus : ∀ event : Option Fields,
      statusOf (event.map withoutTexts) = statusOf event := by
    intro event
    cases event with
    | none => rfl
    | some event => simp only [Option.map_some, statusOf, isType_withoutTexts]
  unfold heading
  dsimp only
  rw [find?_withoutTexts fun event => isType_withoutTexts event _, ← List.map_reverse,
    find?_withoutTexts fun event => ?_, hunknown _ _ (by decide), hunknown _ _ (by decide),
    hunknown _ _ (by decide), hstatus]
  rw [isTerminal, isTerminal, isType_withoutTexts, isType_withoutTexts]

lemma columnOne_renderChangelog (events : List Fields) :
    columnOne (renderChangelog events) =
      (heading events).flatMap columnOne ++
        events.flatMap fun event => (linesAbout event).flatMap columnOne := by
  have hhead : ∃ doc, join ['\n'] (heading events ++ events.flatMap linesAbout) = '#' :: doc :=
    ⟨_, rfl⟩
  obtain ⟨doc, hdoc⟩ := hhead
  rw [renderChangelog, hdoc, columnOne_trim, ← hdoc, columnOne_join, List.flatMap_append,
    List.flatMap_assoc]

/-- The texts of a workflow have no part in the lines that start in column one. -/
lemma columnOne_withoutTexts (events : List Fields) :
    columnOne (renderChangelog (events.map withoutTexts)) = columnOne (renderChangelog events) := by
  rw [columnOne_renderChangelog, columnOne_renderChangelog, heading_withoutTexts,
    List.flatMap_map]
  simp only [columnOne_linesAbout]

end Bimo.Flow

/-! ### The changelog of the organizer -/

namespace Bimo.Organizer.Controller

open Changelog

/-- The event without the reason of a failure. -/
def withoutReason (event : Event) : Event :=
  match event.details with
  | .failed _ => { event with details := .failed "" }
  | _ => event

/-- The reason in an event, if there is one, is four spaces in. -/
def Harmless (event : Event) : Prop :=
  match event.details with
  | .failed reason => Indented reason.toList
  | _ => True

lemma columnOne_changelog (events : List Event) :
    columnOne (changelog events) =
      ["# Organizer run".toList] ++ events.flatMap fun event =>
        (Controller.linesOf event).flatMap columnOne := by
  have hhead : ∃ doc, Flow.join ['\n'] (["# Organizer run".toList, []] ++
      events.flatMap Controller.linesOf) = '#' :: doc := by
    cases events.flatMap Controller.linesOf <;> exact ⟨_, rfl⟩
  obtain ⟨doc, hdoc⟩ := hhead
  rw [changelog, hdoc, columnOne_trim, ← hdoc, columnOne_join, List.flatMap_append,
    List.flatMap_assoc]
  rfl

/-- What the reason in an event adds to the lines that start in column one. -/
def addedBy (event : Event) : List (List Char) :=
  match event.details with
  | .failed reason => columnOne reason.toList
  | _ => []

lemma addedBy_eq_nil {event : Event} : addedBy event = [] ↔ Harmless event := by
  unfold addedBy Harmless
  cases event.details with
  | failed reason => exact columnOne_eq_nil
  | started | completed => exact iff_of_true rfl trivial

lemma columnOne_linesOf (event : Event) :
    (Controller.linesOf event).flatMap columnOne =
      (Controller.linesOf (withoutReason event)).flatMap columnOne ++ addedBy event := by
  unfold addedBy withoutReason Controller.linesOf
  cases h : event.details with
  | failed reason => simp
  | started | completed => simp [h]

/-- Of an organizer run the changelog is free of text in column one when the reasons in it are
four spaces in, and only then. -/
lemma columnOne_withoutReason (events : List Event) :
    columnOne (changelog (events.map withoutReason)) = columnOne (changelog events) ↔
      ∀ event ∈ events, Harmless event := by
  rw [columnOne_changelog, columnOne_changelog, List.flatMap_map]
  refine ⟨fun h => ?_, fun h => ?_⟩
  · have hlength : ∀ l : List Event,
        (l.flatMap fun event => (Controller.linesOf event).flatMap columnOne).length =
          (l.flatMap fun event => (Controller.linesOf (withoutReason event)).flatMap
            columnOne).length + (l.flatMap addedBy).length := by
      intro l
      induction l with
      | nil => rfl
      | cons event l ih =>
          rw [List.flatMap_cons, List.flatMap_cons, List.flatMap_cons, List.length_append,
            List.length_append, List.length_append, ih, columnOne_linesOf, List.length_append]
          omega
    have hadded : (events.flatMap addedBy).length = 0 := by
      have hsame := congrArg List.length (List.append_cancel_left h)
      have hsum := hlength events
      omega
    have hnil := List.length_eq_zero_iff.mp hadded
    exact fun event hevent => addedBy_eq_nil.mp (List.flatMap_eq_nil_iff.mp hnil event hevent)
  · congr 1
    refine List.flatMap_congr fun event hevent => ?_
    rw [columnOne_linesOf event, addedBy_eq_nil.mpr (h event hevent), List.append_nil]

end Bimo.Organizer.Controller

namespace Bimo.Changelog

open Wire (Json)
open Organizer.Controller (changelog withoutReason Harmless runOrganizerController)

/-- **What starts in column one.** Of a workflow, the lines of the changelog that start in column
one are the same whatever the texts of the events are, and each line of a quoted text is four
spaces in. Of the organizer they are the same as without the reasons of failures exactly when
each line of these reasons is four spaces in or blank. -/
theorem changelog_column_one (events : List Organizer.Controller.Event) :
    (columnOne (changelog (events.map withoutReason)) = columnOne (changelog events) ↔
      ∀ event ∈ events, Harmless event) ∧
    (∀ events, columnOne (Flow.renderChangelog (events.map Flow.withoutTexts)) =
      columnOne (Flow.renderChangelog events)) ∧
    ∀ value, ∀ line ∈ linesOf (Flow.markdownQuote value), indent <+: line :=
  ⟨Organizer.Controller.columnOne_withoutReason events, Flow.columnOne_withoutTexts,
    fun _ _ => Flow.prefix_markdownQuote⟩

/-! ### An agent that does not answer in time -/

def sampleCatalog : Json :=
  .arr [.obj [("template", .str "solo"), ("templateDigest", .str (String.ofList
      (List.replicate 64 'a'))), ("acceptedOptions", .arr []), ("kind", .str "workflow"),
    ("roles", .arr [.str "build"]), ("maxSteps", .num "2")]]

def sampleInput : Organizer.Controller.Input where
  prompt := .str "a page"
  agents := .num "1"
  catalog := sampleCatalog
  baseInstructions := "Choose."
  model := "m"
  agentRuntime := "a"
  runId := "r1"
  sha256 := id

/-- Everything goes well until the agent is asked. -/
def timedOut (_ : Trace Organizer.Controller.Call Organizer.Controller.Call.Ret) :
    (c : Organizer.Controller.Call) → c.Ret
  | .clock => .ok (some 0)
  | .now => .ok "2026-01-01T00:00:00.000Z"
  | .imageDigest => .ok "i"
  | .runAgents _ _ => .error "agent 1 timed out"
  | .interrupted => false
  | .prepare _ | .append _ | .changelog _ | .writeRun _ | .start | .cancel | .close => .ok ()
  | .removeWorkspaces => ()

/-- The changelog that is rendered next, where it is one. -/
def rendersNext : Organizer.Controller.Io Organizer.Plan → Option (List Organizer.Controller.Event)
  | .call (.changelog events) _ => some events
  | _ => none

lemma of_rendersNext {q : Organizer.Controller.Io Organizer.Plan}
    {P : List Organizer.Controller.Event → Bool}
    (h : (rendersNext q).any P = true) : ∃ events k, q = .call (.changelog events) k ∧
      P events = true := by
  unfold rendersNext at h
  split at h
  · rename_i events k
    exact ⟨events, k, rfl, h⟩
  · cases h

/-- That an agent was late stands in column one of the changelog, which it would not without the
reason of the failure. -/
theorem changelog_late_agent : ∃ events k t,
    Exec traced (runOrganizerController sampleInput) [] (.call (.changelog events) k) t ∧
      "agent 1 timed out".toList ∈ columnOne (changelog events) ∧
      "agent 1 timed out".toList ∉ columnOne (changelog (events.map withoutReason)) := by
  obtain ⟨⟨q, t⟩, hq, hr⟩ := (Option.any_eq_true _ _).mp
    (show (Bimo.follow (fun _ _ _ => True) (fun t c r => t ++ [⟨c, r⟩]) timedOut 15
      (runOrganizerController sampleInput) []).any (fun x => (rendersNext x.1).any fun events =>
        decide ("agent 1 timed out".toList ∈ columnOne (changelog events)) &&
          decide ("agent 1 timed out".toList ∉ columnOne (changelog (events.map withoutReason)))) =
      true from by decide +kernel)
  have hx := exec_of_follow (E := traced) (fun t c _ => traced_step t c _) hq
  obtain ⟨events, k, rfl, hP⟩ := of_rendersNext hr
  rw [Bool.and_eq_true, decide_eq_true_eq, decide_eq_true_eq] at hP
  exact ⟨events, k, t, hx, hP⟩

end Bimo.Changelog
