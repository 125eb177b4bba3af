import Bimo.Wire
import Mathlib.Data.List.Infix

/-!
What the braces and quotes of a compact JSON text say about where it may end.

`Scan` reads a text behind its first brace. Phase `out d` stands outside a string, `d` brackets
deep; `str` and `esc` stand inside one; `done` has read the closing brace of the whole text and
`dead` has read what no JSON text holds there. The scan is lenient: a text it follows to `done`
need not be JSON, but whatever is JSON it follows to `done`.
-/

namespace Bimo.Wire

inductive Scan
  | out (depth : ℕ) | str (depth : ℕ) | esc (depth : ℕ) | done | dead
  deriving DecidableEq, Repr

def isSpace (c : Char) : Bool := c = ' ' || c = '\t' || c = '\n' || c = '\r'

/-- The characters of literals, numbers, separators and white space. -/
def isToken (c : Char) : Bool :=
  "truefalsn".toList.contains c || c.isDigit || "+-.E:,".toList.contains c || isSpace c

namespace Scan

def step : Scan → Char → Scan
  | .out d, c =>
    if c = '"' then .str d
    else if c = '{' ∨ c = '[' then .out (d + 1)
    else if c = ']' then (match d with | 0 => .dead | d + 1 => .out d)
    else if c = '}' then (match d with | 0 => .done | d + 1 => .out d)
    else if isToken c then .out d else .dead
  | .str d, c => if c = '"' then .out d else if c = '\\' then .esc d else .str d
  | .esc d, _ => .str d
  | .done, c => if isSpace c then .done else .dead
  | .dead, _ => .dead

def run (s : Scan) (cs : List Char) : Scan := cs.foldl step s

@[simp] lemma run_nil (s : Scan) : run s [] = s := rfl

@[simp] lemma run_cons (s : Scan) (c : Char) (cs : List Char) :
    run s (c :: cs) = run (step s c) cs := rfl

lemma run_append (s : Scan) (a b : List Char) : run s (a ++ b) = run (run s a) b := by
  simp [run, List.foldl_append]

@[simp] lemma run_dead (cs : List Char) : run .dead cs = .dead := by
  induction cs with
  | nil => rfl
  | cons c cs ih => exact ih

/-- The text is not over. -/
def Open : Scan → Prop
  | .out _ | .str _ | .esc _ => True
  | .done | .dead => False

lemma Open.ne_done {s : Scan} (h : s.Open) : s ≠ .done := by rintro rfl; exact h

/-- From `s` the text leads to `t`, and it is not over at any place of it. -/
def Runs (s : Scan) (cs : List Char) (t : Scan) : Prop :=
  run s cs = t ∧ ∀ p, p <+: cs → (run s p).Open

namespace Runs

variable {s t u : Scan} {a b : List Char} {c : Char}

lemma nil (h : s.Open) : Runs s [] s :=
  ⟨rfl, fun p hp => by rw [List.prefix_nil.mp hp]; exact h⟩

lemma cons (ho : s.Open) (h : Runs (step s c) a t) : Runs s (c :: a) t := by
  refine ⟨h.1, fun p hp => ?_⟩
  rcases List.prefix_cons_iff.mp hp with rfl | ⟨q, rfl, hq⟩
  · exact ho
  · exact h.2 q hq

lemma append (ha : Runs s a t) (hb : Runs t b u) : Runs s (a ++ b) u := by
  refine ⟨by rw [run_append, ha.1, hb.1], fun p hp => ?_⟩
  obtain ⟨rest, hrest⟩ := hp
  rcases List.append_eq_append_iff.mp hrest with ⟨m, rfl, -⟩ | ⟨q, rfl, rfl⟩
  · exact ha.2 p (List.prefix_append _ _)
  · rw [run_append, ha.1]
    exact hb.2 q (List.prefix_append _ _)

end Runs

/-! ### What a value is scanned as -/

lemma runs_tokens {cs : List Char} (d : ℕ) (h : ∀ c ∈ cs, isToken c) :
    Runs (.out d) cs (.out d) := by
  induction cs with
  | nil => exact .nil trivial
  | cons c cs ih =>
    have hc := h c (by simp)
    have hstep : step (.out d) c = .out d := by
      have hne : ∀ b ∈ ['"', '{', '[', ']', '}'], c ≠ b := by
        rintro b hb rfl
        revert hc
        simp only [List.mem_cons, List.not_mem_nil, or_false] at hb
        rcases hb with rfl | rfl | rfl | rfl | rfl <;> decide
      simp only [List.mem_cons, List.not_mem_nil, or_false, forall_eq_or_imp, forall_eq] at hne
      simp [step, hne, hc]
    refine .cons trivial ?_
    rw [hstep]
    exact ih fun b hb => h b (by simp [hb])

/-- An escaped character neither ends a string nor leaves its end escaped. -/
lemma runs_escape (d : ℕ) (c : Char) : Runs (.str d) (escape c) (.str d) := by
  obtain ⟨e, -, heq⟩ | ⟨hc, ⟨hlow, heq⟩ | ⟨-, heq⟩⟩ := escape_cases c
  · rw [heq]
    exact .cons trivial (.cons trivial (.nil trivial))
  · have hdigit : ∀ n < 16, step (.str d) (hexDigit n) = .str d := by
      intro n hn
      have hall : ∀ n < 16, hexDigit n ≠ '"' ∧ hexDigit n ≠ '\\' := by decide
      simp [step, hall n hn]
    rw [heq]
    refine .cons trivial (.cons trivial (.cons trivial (.cons trivial ?_)))
    have hrun : Runs (.str d) [hexDigit (c.toNat / 16), hexDigit (c.toNat % 16)] (.str d) := by
      refine .cons trivial ?_
      rw [hdigit _ (by omega)]
      refine .cons trivial ?_
      rw [hdigit _ (by omega)]
      exact .nil trivial
    exact hrun
  · have hquote : c ≠ '"' := fun h => hc (by rw [h]; decide)
    have hslash : c ≠ '\\' := fun h => hc (by rw [h]; decide)
    have hstep : step (.str d) c = .str d := by simp [step, hquote, hslash]
    rw [heq]
    refine .cons trivial ?_
    rw [hstep]
    exact .nil trivial

lemma runs_quote (d : ℕ) (s : String) : Runs (.out d) (quote s) (.out d) := by
  have hbody : ∀ cs : List Char, Runs (.str d) (cs.flatMap escape) (.str d) := by
    intro cs
    induction cs with
    | nil => exact .nil trivial
    | cons c cs ih => exact (runs_escape d c).append ih
  exact .cons trivial ((hbody s.toList).append (.cons trivial (.nil trivial)))

end Scan

mutual

/-- The numbers of a value are written in the characters of numbers. -/
def Json.Plain : Json → Prop
  | .null | .bool _ | .str _ => True
  | .num t => ∀ c ∈ t.toList, isToken c ∧ 32 ≤ c.toNat
  | .arr l => plainList l
  | .obj l => plainFields l

def plainList : List Json → Prop
  | [] => True
  | v :: l => v.Plain ∧ plainList l

def plainFields : List (String × Json) → Prop
  | [] => True
  | (_, v) :: l => v.Plain ∧ plainFields l

end

@[simp] lemma plainFields_append (a b : List (String × Json)) :
    plainFields (a ++ b) ↔ plainFields a ∧ plainFields b := by
  induction a with
  | nil => simp [plainFields]
  | cons x a ih => simp [plainFields, ih, and_assoc]

lemma plainList_iff (l : List Json) : plainList l ↔ ∀ v ∈ l, v.Plain := by
  induction l with
  | nil => simp [plainList]
  | cons v l ih => simp [plainList, ih]

lemma isToken_of_isDigit {c : Char} (h : c.isDigit) : isToken c ∧ 32 ≤ c.toNat := by
  refine ⟨by simp [isToken, h], ?_⟩
  have hlow : '0' ≤ c := by
    simp only [Char.isDigit, Bool.and_eq_true, decide_eq_true_eq] at h
    exact h.1
  exact le_trans (by decide) (Char.le_def.mp hlow)

lemma isDigit_of_mem_toString {n : ℕ} {c : Char} (h : c ∈ (toString n).toList) : c.isDigit := by
  rw [Nat.toString_eq_repr, Nat.toList_repr] at h
  exact Nat.isDigit_of_mem_toDigits (by decide) (by decide) h

@[simp] lemma plain_ofNat (n : ℕ) : (ofNat n).Plain :=
  fun _ hc => isToken_of_isDigit (isDigit_of_mem_toString hc)

lemma isToken_of_mem_repr {z : ℤ} {c : Char} (hc : c ∈ z.repr.toList) :
    isToken c ∧ 32 ≤ c.toNat := by
  obtain n | n := z
  · exact isToken_of_isDigit (isDigit_of_mem_toString (n := n) hc)
  · have hs : (Int.negSucc n).repr.toList = '-' :: (toString (n + 1)).toList := by
      simp [toString, Int.repr]
    rw [hs, List.mem_cons] at hc
    rcases hc with rfl | hc
    · decide
    · exact isToken_of_isDigit (isDigit_of_mem_toString hc)

@[simp] lemma plain_ofOption (o : Option String) : (ofOption o).Plain := by cases o <;> trivial

namespace Scan

mutual

theorem runs_text (d : ℕ) : ∀ v : Json, v.Plain → Runs (.out d) (text v) (.out d)
  | .null, _ => runs_tokens d (List.all_eq_true.mp (by decide))
  | .bool b, _ => runs_tokens d (List.all_eq_true.mp (by cases b <;> decide))
  | .num t, h => runs_tokens d fun c hc => (h c hc).1
  | .str s, _ => runs_quote d s
  | .arr l, h =>
    .cons trivial ((runs_textList (d + 1) l h).append (.cons trivial (.nil trivial)))
  | .obj l, h =>
    .cons trivial ((runs_textFields (d + 1) l h).append (.cons trivial (.nil trivial)))

theorem runs_textList (d : ℕ) :
    ∀ l : List Json, plainList l → Runs (.out d) (textList l) (.out d)
  | [], _ => .nil trivial
  | [v], h => runs_text d v h.1
  | v :: w :: l, h =>
    (runs_text d v h.1).append (.cons trivial (runs_textList d (w :: l) h.2))

theorem runs_textFields (d : ℕ) :
    ∀ l : List (String × Json), plainFields l → Runs (.out d) (textFields l) (.out d)
  | [], _ => .nil trivial
  | [(k, v)], h => (runs_quote d k).append (.cons trivial (runs_text d v h.1))
  | (k, v) :: w :: l, h => by
    have hv := (runs_quote d k).append (Runs.cons (c := ':') trivial (runs_text d v h.1))
    have hl := Runs.cons (s := .out d) (c := ',') trivial (runs_textFields d (w :: l) h.2)
    exact hv.append hl

end

/-! ### Records -/

/-- A key that no text outside of a string holds: behind characters of a literal there is one
that is none. -/
def Foreign (k : String) : Prop :=
  ∃ a c b, k.toList.flatMap escape = a ++ c :: b ∧ (∀ x ∈ a, isToken x) ∧
    ∀ d, step (.out d) c = .dead

/-- An object whose first key is foreign. -/
def Record (v : Json) : Prop := v.Plain ∧ ∃ k x l, v = .obj ((k, x) :: l) ∧ Foreign k

/-- The text of a record behind its first brace. -/
def body (v : Json) : List Char := (text v).tail

lemma text_of_record {v : Json} (h : Record v) : text v = '{' :: body v := by
  obtain ⟨-, k, x, l, rfl, -⟩ := h
  rfl

lemma runs_fields {v : Json} (h : Record v) :
    ∃ fields, body v = fields ++ ['}'] ∧ Runs (.out 0) fields (.out 0) := by
  obtain ⟨hp, k, x, l, rfl, -⟩ := h
  exact ⟨_, rfl, runs_textFields 0 _ hp⟩

lemma run_body {v : Json} (h : Record v) : run (.out 0) (body v) = .done := by
  obtain ⟨fields, hb, hf⟩ := runs_fields h
  rw [hb, run_append, hf.1]
  rfl

/-- A record that is cut short is not over. -/
lemma open_of_prefix {v : Json} {p : List Char} (h : Record v) (hp : p <+: body v)
    (hne : p ≠ body v) : (run (.out 0) p).Open := by
  obtain ⟨fields, hb, hf⟩ := runs_fields h
  refine hf.2 p ?_
  rw [hb] at hp hne
  rcases List.prefix_concat_iff.mp hp with rfl | hp
  · exact absurd rfl hne
  · exact hp

/-- Inside a string a record's first quote closes the string, and its key is no text there. -/
lemma run_key_ne_done {d : ℕ} {k : String} {p tail : List Char} (hk : Foreign k)
    (hp : p <+: quote k ++ tail) : run (.str d) p ≠ .done := by
  obtain ⟨a, c, b, hkey, ha, hc⟩ := hk
  have hq : quote k ++ tail = '"' :: (a ++ c :: (b ++ '"' :: tail)) := by
    simp [quote, hkey]
  rw [hq] at hp
  rcases List.prefix_cons_iff.mp hp with rfl | ⟨q, rfl, hq⟩
  · exact Scan.noConfusion
  · have hstr : step (.str d) '"' = .out d := rfl
    rw [run_cons, hstr]
    have hruns := runs_tokens d ha
    obtain ⟨rest, hrest⟩ := hq
    rcases List.append_eq_append_iff.mp hrest with ⟨m, rfl, -⟩ | ⟨q', rfl, hq'⟩
    · exact (hruns.2 q (List.prefix_append _ _)).ne_done
    · rw [run_append, hruns.1]
      cases q' with
      | nil => exact Scan.noConfusion
      | cons x q' =>
        obtain ⟨rfl, -⟩ : c = x ∧ _ := by simpa using hq'
        rw [run_cons, hc, run_dead]
        exact Scan.noConfusion

/-- Wherever a text stands, a record that is begun behind it leaves it unfinished or spoiled,
however far the record comes. -/
theorem run_ne_done {v : Json} {p : List Char} (h : Record v) (s : Scan) (hne : p ≠ [])
    (hp : p <+: text v) : run s p ≠ .done := by
  cases s with
  | out d => exact ((runs_text d v h.1).2 p hp).ne_done
  | done =>
    rw [text_of_record h] at hp
    obtain rfl | ⟨q, rfl, -⟩ := List.prefix_cons_iff.mp hp
    · exact absurd rfl hne
    · have hdead : step .done '{' = .dead := rfl
      rw [run_cons, hdead, run_dead]
      exact Scan.noConfusion
  | dead => rw [run_dead]; exact Scan.noConfusion
  | str d | esc d =>
    obtain ⟨-, k, x, l, rfl, hk⟩ := h
    have htext : ∃ tail, text (.obj ((k, x) :: l)) = '{' :: (quote k ++ tail) := by
      cases l with
      | nil => exact ⟨':' :: (text x ++ ['}']), by simp [text, textFields]⟩
      | cons w l => exact ⟨':' :: (text x ++ ',' :: (textFields (w :: l) ++ ['}'])),
          by simp [text, textFields]⟩
    obtain ⟨tail, htail⟩ := htext
    rw [htail] at hp
    obtain rfl | ⟨q, rfl, hq⟩ := List.prefix_cons_iff.mp hp
    · exact absurd rfl hne
    · have hrun := run_key_ne_done (d := d) hk hq
      exact hrun

end Scan

/-! ### Characters -/

lemma le_toNat_of_mem_escape {b c : Char} (h : c ∈ escape b) : 32 ≤ c.toNat := by
  have hdigit : ∀ n < 16, 32 ≤ (hexDigit n).toNat := by decide
  obtain ⟨d, hd, heq⟩ | ⟨-, ⟨hlow, heq⟩ | ⟨hhigh, heq⟩⟩ := escape_cases b
  · have hall : ∀ p ∈ shortEscapes, 32 ≤ p.2.toNat := by decide
    rw [heq] at h
    rcases List.mem_cons.mp h with rfl | h
    · decide
    · obtain rfl := List.mem_singleton.mp h
      exact hall _ hd
  · rw [heq] at h
    simp only [List.mem_cons, List.not_mem_nil, or_false] at h
    rcases h with rfl | rfl | rfl | rfl | rfl | rfl
    · decide
    · decide
    · decide
    · decide
    · exact hdigit _ (by omega)
    · exact hdigit _ (by omega)
  · rw [heq] at h
    obtain rfl := List.mem_singleton.mp h
    exact hhigh

lemma le_toNat_of_mem_quote {s : String} {c : Char} (h : c ∈ quote s) : 32 ≤ c.toNat := by
  simp only [quote, List.mem_cons, List.mem_append, List.mem_flatMap, List.not_mem_nil,
    or_false] at h
  rcases h with rfl | ⟨b, -, hb⟩ | rfl
  · decide
  · exact le_toNat_of_mem_escape hb
  · decide

lemma le_toNat_of_all {cs : List Char} (h : cs.all (fun c => decide (32 ≤ c.toNat)) = true)
    {c : Char} (hc : c ∈ cs) : 32 ≤ c.toNat := of_decide_eq_true (List.all_eq_true.mp h c hc)

mutual

/-- A compact text has no control characters, so no line ends either. -/
theorem le_toNat_of_mem_text {c : Char} : ∀ v : Json, v.Plain → c ∈ text v → 32 ≤ c.toNat
  | .null, _, h => le_toNat_of_all (by decide : "null".toList.all _ = true) h
  | .bool true, _, h => le_toNat_of_all (by decide : "true".toList.all _ = true) h
  | .bool false, _, h => le_toNat_of_all (by decide : "false".toList.all _ = true) h
  | .num t, hp, h => (hp c h).2
  | .str s, _, h => le_toNat_of_mem_quote h
  | .arr l, hp, h => by
    simp only [text, List.mem_cons, List.mem_append, List.not_mem_nil, or_false] at h
    rcases h with rfl | h | rfl
    · decide
    · exact le_toNat_of_mem_textList l hp h
    · decide
  | .obj l, hp, h => by
    simp only [text, List.mem_cons, List.mem_append, List.not_mem_nil, or_false] at h
    rcases h with rfl | h | rfl
    · decide
    · exact le_toNat_of_mem_textFields l hp h
    · decide

theorem le_toNat_of_mem_textList {c : Char} :
    ∀ l : List Json, plainList l → c ∈ textList l → 32 ≤ c.toNat
  | [], _, h => absurd h List.not_mem_nil
  | [v], hp, h => le_toNat_of_mem_text v hp.1 h
  | v :: w :: l, hp, h => by
    simp only [textList, List.mem_append, List.mem_cons] at h
    rcases h with h | rfl | h
    · exact le_toNat_of_mem_text v hp.1 h
    · decide
    · exact le_toNat_of_mem_textList (w :: l) hp.2 h

theorem le_toNat_of_mem_textFields {c : Char} :
    ∀ l : List (String × Json), plainFields l → c ∈ textFields l → 32 ≤ c.toNat
  | [], _, h => absurd h List.not_mem_nil
  | [(k, v)], hp, h => by
    simp only [textFields, List.mem_append, List.mem_cons] at h
    rcases h with h | rfl | h
    · exact le_toNat_of_mem_quote h
    · decide
    · exact le_toNat_of_mem_text v hp.1 h
  | (k, v) :: w :: l, hp, h => by
    simp only [textFields, List.mem_append, List.mem_cons] at h
    rcases h with (h | rfl | h) | rfl | h
    · exact le_toNat_of_mem_quote h
    · decide
    · exact le_toNat_of_mem_text v hp.1 h
    · decide
    · exact le_toNat_of_mem_textFields (w :: l) hp.2 h

end

end Bimo.Wire
