import Bimo.SourceScan
import Mathlib.Data.List.Nodup

/-!
The scan is sound over the history.

What the scan reads of Git's answers is what Git keeps. From that each commit that is read is as the
checks of its entries say. A commit named in the base's tree cannot hide a blob: it is still in the
candidate's tree, whose entries were checked, or it is in the difference, which was.
-/

namespace Bimo.Git

open Utf8 Secrets

/-! ### Texts of ASCII -/

lemma lt_of_isHex {c : Char} (h : isHex c = true) : 0x30 ≤ c.toNat ∧ c.toNat < 128 := by
  simp only [isHex, Char.isDigit, Bool.or_eq_true, Bool.and_eq_true, decide_eq_true_eq,
    UInt32.le_iff_toNat_le] at h
  have ha : 'a'.toNat = 97 := rfl
  have hf : 'f'.toNat = 102 := rfl
  have h0 : '0'.val.toNat = 48 := rfl
  have h9 : '9'.val.toNat = 57 := rfl
  have hc : c.toNat = c.val.toNat := rfl
  omega

lemma isHex_of_mem {o : Oid} {c : Char} (h : c ∈ o.1) : isHex c = true := by
  have ho := o.2
  simp only [isSha, Bool.and_eq_true, decide_eq_true_eq, List.all_eq_true] at ho
  exact ho.2 c h

lemma length_oid (o : Oid) : o.1.length = 40 := by
  have ho := o.2
  simp only [isSha, Bool.and_eq_true, decide_eq_true_eq] at ho
  exact ho.1

lemma not_isSpace_of_isHex {c : Char} (h : isHex c = true) : isSpace c = false := by
  have hlt := lt_of_isHex h
  simp only [isSpace, Bool.or_eq_false_iff, beq_eq_false_iff_ne, Bool.and_eq_false_iff,
    decide_eq_false_iff_not]
  refine ⟨?_, by omega⟩
  rintro rfl
  exact absurd hlt.1 (by decide)

/-- ASCII is read back as it was written. -/
lemma map_encode_ascii {cs : Text} (h : ∀ c ∈ cs, c.toNat < 128) :
    (encode cs).map (fun u : UInt8 => Char.ofNat (u.toNat % 128)) = cs := by
  induction cs with
  | nil => rfl
  | cons c cs ih =>
      have hc := h c (by simp)
      rw [encode_cons, encodeChar_of_lt hc, List.map_append,
        ih fun d hd => h d (List.mem_cons_of_mem _ hd), List.map_singleton, toNat_ofNat_char hc,
        Nat.mod_eq_of_lt hc, Char.ofNat_toNat]
      rfl

lemma asciiTrim_encode {cs : Text} (h : ∀ c ∈ cs, c.toNat < 128)
    (hhead : ∀ c ∈ cs.head?, isSpace c = false) (hlast : ∀ c ∈ cs.getLast?, isSpace c = false) :
    asciiTrim (encode cs ++ [0x0A]) = cs := by
  have hmap : (encode cs ++ [0x0A]).map (fun u : UInt8 => Char.ofNat (u.toNat % 128)) =
      cs ++ ['\n'] := by
    rw [List.map_append, map_encode_ascii h]
    rfl
  rw [asciiTrim, hmap]
  cases cs with
  | nil => rfl
  | cons c cs =>
      have hc : isSpace c = false := hhead c rfl
      have hdrop : (c :: cs ++ ['\n']).dropWhile isSpace = c :: cs ++ ['\n'] :=
        List.dropWhile_cons_of_neg (by simp [hc])
      rw [hdrop, List.rdropWhile_concat_pos _ _ _ (by rfl), List.rdropWhile_eq_self_iff]
      intro hne
      rw [hlast _ (List.getLast_mem_getLast? hne)]
      exact Bool.false_ne_true

/-- A size is read as it was printed. -/
lemma number_size (n : ℕ) : number (asciiTrim (encode (Nat.toDigits 10 n) ++ [0x0A])) = some n := by
  have hisDigit : ∀ c ∈ Nat.toDigits 10 n, c.isDigit = true := fun c hc =>
    Nat.isDigit_of_mem_toDigits (b := 10) (by decide) (by decide) hc
  have hdigit : ∀ c ∈ Nat.toDigits 10 n, isHex c = true := fun c hc => by
    rw [isHex, hisDigit c hc, Bool.true_or]
  rw [asciiTrim_encode (fun c hc => (lt_of_isHex (hdigit c hc)).2)
    (fun c hc => not_isSpace_of_isHex (hdigit c (List.mem_of_mem_head? hc)))
    (fun c hc => not_isSpace_of_isHex (hdigit c (List.mem_of_mem_getLast? hc)))]
  unfold number
  rw [if_pos, Nat.ofDigitChars_ten_toDigits]
  exact ⟨Nat.toDigits_ne_nil, List.all_eq_true.mpr hisDigit⟩

/-! ### Revisions -/

lemma toOid_val (o : Oid) : toOid o.1 = some o := dif_pos o.2

lemma requireSha_val {label : String} {t : Text} {o : Oid} (h : requireSha label t = .ok o) :
    o.1 = t := by
  unfold requireSha toOid at h
  split_ifs at h
  obtain rfl := Except.ok.inj h
  rfl

lemma linesBytes_eq {l : List Oid} (h : l ≠ []) :
    linesBytes l = encode (['\n'].intercalate (l.map (·.1))) ++ [0x0A] := by
  induction l with
  | nil => exact absurd rfl h
  | cons r l ih =>
      cases l with
      | nil => simp [linesBytes]
      | cons r' l =>
          have ih := ih (by simp)
          rw [linesBytes, List.flatMap_cons, ← linesBytes, ih]
          simp only [List.map_cons, List.intercalate_cons_cons, encode_append, List.append_assoc]
          rfl

lemma ne_nil_oid (r : Oid) : r.1 ≠ [] := fun hr => absurd (length_oid r) (by simp [hr])

/-- Lines begin and end with hexadecimal digits, and have nothing else but line breaks. -/
lemma hex_intercalate {l : List Oid} {c : Char} :
    (c ∈ ['\n'].intercalate (l.map (·.1)) → c = '\n' ∨ isHex c = true) ∧
      (c ∈ (['\n'].intercalate (l.map (·.1))).head? → isHex c = true) ∧
      (c ∈ (['\n'].intercalate (l.map (·.1))).getLast? → isHex c = true) := by
  induction l with
  | nil => simp
  | cons r l ih =>
      cases l with
      | nil =>
          rw [List.map_singleton, List.intercalate_singleton]
          exact ⟨fun h => .inr (isHex_of_mem h), fun h => isHex_of_mem (List.mem_of_mem_head? h),
            fun h => isHex_of_mem (List.mem_of_mem_getLast? h)⟩
      | cons r' l =>
          obtain ⟨hmem, -, hlast⟩ := ih
          have hne : ['\n'].intercalate ((r' :: l).map (·.1)) ≠ [] := by
            cases l <;> simp [List.intercalate_cons_cons, ne_nil_oid]
          rw [List.map_cons, List.map_cons, List.intercalate_cons_cons]
          rw [List.map_cons] at hmem hlast hne
          refine ⟨fun h => ?_, fun h => ?_, fun h => ?_⟩
          · simp only [List.mem_append, List.mem_singleton] at h
            rcases h with (h | h) | h
            · exact .inr (isHex_of_mem h)
            · exact .inl h
            · exact hmem h
          · rw [List.append_assoc, List.head?_append_of_ne_nil _ (ne_nil_oid r)] at h
            exact isHex_of_mem (List.mem_of_mem_head? h)
          · rw [List.getLast?_append_of_ne_nil _ hne] at h
            exact hlast h

/-- **The revisions read are those listed.** -/
lemma readRevisions_lines {l revisions : List Oid}
    (h : readRevisions (linesBytes l) = .ok revisions) : revisions = l ∧ l ≠ [] := by
  by_cases hl : l = []
  · subst hl
    cases h
  refine ⟨?_, hl⟩
  have htrim : asciiTrim (linesBytes l) = ['\n'].intercalate (l.map (·.1)) := by
    rw [linesBytes_eq hl]
    refine asciiTrim_encode (fun c hc => ?_)
      (fun c hc => not_isSpace_of_isHex (hex_intercalate.2.1 hc))
      (fun c hc => not_isSpace_of_isHex (hex_intercalate.2.2 hc))
    rcases hex_intercalate.1 hc with rfl | hc
    · decide
    · exact (lt_of_isHex hc).2
  have hsplit : (['\n'].intercalate (l.map (·.1))).splitOn '\n' = l.map (·.1) := by
    refine List.splitOn_intercalate '\n' ?_ (mt List.map_eq_nil_iff.mp hl)
    intro t ht hmem
    obtain ⟨r, -, rfl⟩ := List.mem_map.mp ht
    exact absurd (isHex_of_mem hmem) (by decide)
  have hfilter : (l.map (·.1)).filter (· ≠ []) = l.map (·.1) := by
    refine List.filter_eq_self.mpr fun t ht => ?_
    obtain ⟨r, -, rfl⟩ := List.mem_map.mp ht
    exact decide_eq_true (ne_nil_oid r)
  unfold readRevisions at h
  simp only [htrim, hsplit, hfilter] at h
  obtain ⟨_, -, h⟩ := bind_eq_ok.mp h
  have hall := forall₂_of_mapM h
  rw [List.forall₂_map_left_iff] at hall
  have heq : List.Forall₂ Eq l revisions := hall.imp fun r o ho => by
    rw [requireSha, toOid_val] at ho
    exact Except.ok.inj ho
  rw [List.forall₂_eq_eq_eq] at heq
  exact heq.symm

/-! ### Trees -/

lemma taking_eq_some {n : ℕ} {p : Char → Bool} {t a b : Text} (h : taking n p t = some (a, b)) :
    t = a ++ b ∧ a.length = n := by
  unfold taking at h
  split_ifs at h with hn
  obtain ⟨rfl, rfl⟩ := Prod.mk.inj (Option.some.inj h)
  exact ⟨(List.take_append_drop n t).symm, List.length_take_of_le hn.1⟩

lemma takingWord_eq_some {w t a b : Text} (h : takingWord w t = some (a, b)) :
    t = a ++ b ∧ a = w := by
  unfold takingWord at h
  split_ifs at h with hw
  obtain ⟨rfl, rfl⟩ := Prod.mk.inj (Option.some.inj h)
  obtain ⟨c, rfl⟩ := List.isPrefixOf_iff_prefix.mp hw
  rw [List.drop_left]
  exact ⟨rfl, rfl⟩

lemma takingOid_eq_some {t b : Text} {o : Oid} (h : takingOid t = some (o, b)) :
    t = o.1 ++ b := by
  obtain ⟨o', ho, heq⟩ := Option.map_eq_some_iff.mp h
  obtain ⟨rfl, rfl⟩ := Prod.mk.inj heq
  unfold toOid at ho
  split_ifs at ho
  obtain rfl := Option.some.inj ho
  exact (List.take_append_drop 40 t).symm

/-- What a token is made of when it is accepted. -/
lemma parseEntry_eq_some {t : Text} {e : Entry} (h : parseEntry t = some e) :
    t = e.mode ++ ' ' :: (e.type ++ ' ' :: (e.objectId.1 ++ '\t' :: e.path)) ∧
      e.mode.length = 6 ∧ (e.type = "blob".toList ∨ e.type = "commit".toList) := by
  simp only [parseEntry, Option.bind_eq_bind, Option.bind_eq_some_iff, Prod.exists] at h
  obtain ⟨mode, t₁, h₁, _, t₂, h₂, type, t₃, h₃, _, t₄, h₄, o, t₅, h₅, _, t₆, h₆, h⟩ := h
  split_ifs at h
  obtain rfl := Option.some.inj h
  obtain ⟨rfl, hlength⟩ := taking_eq_some h₁
  obtain ⟨rfl, rfl⟩ := takingWord_eq_some h₂
  obtain ⟨rfl, rfl⟩ := takingWord_eq_some h₄
  obtain rfl := takingOid_eq_some h₅
  obtain ⟨rfl, rfl⟩ := takingWord_eq_some h₆
  have htype : t₂ = type ++ ([' '] ++ (o.1 ++ (['\t'] ++ t₆))) ∧
      (type = "blob".toList ∨ type = "commit".toList) := by
    rcases Option.or_eq_some_iff.mp h₃ with h₃ | ⟨-, h₃⟩
    · exact ⟨(takingWord_eq_some h₃).1, .inl (takingWord_eq_some h₃).2⟩
    · exact ⟨(takingWord_eq_some h₃).1, .inr (takingWord_eq_some h₃).2⟩
  obtain ⟨rfl, htype⟩ := htype
  exact ⟨by simp, hlength, htype⟩

/-- The entry that was read is the one that was printed. -/
structure Same (e : Entry) (t : TreeEntry) : Prop where
  mode : e.mode = t.mode.text
  type : e.type = t.mode.type
  objectId : e.objectId = t.objectId
  path : encode e.path = t.path

lemma type_cases (m : Mode) : m.type = "blob".toList ∨ m.type = "commit".toList := by
  cases m <;> decide

lemma same_of_parseEntry {token : Text} {e : Entry} {t : TreeEntry}
    (htoken : encode token = t.bytes) (h : parseEntry token = some e) : Same e t := by
  obtain ⟨htext, hlength, htype⟩ := parseEntry_eq_some h
  obtain ⟨path, hpath, hbytes⟩ := encode_of_append htoken.symm
  have heq : e.mode ++ ' ' :: (e.type ++ ' ' :: (e.objectId.1 ++ '\t' :: e.path)) =
      t.mode.text ++ ' ' :: (t.mode.type ++ ' ' :: (t.objectId.1 ++ '\t' :: path)) := by
    rw [← htext, hpath, TreeEntry.head]
    simp
  have hmode : t.mode.text.length = 6 := by cases t.mode <;> rfl
  obtain ⟨hm, heq⟩ := List.append_inj heq (hlength.trans hmode.symm)
  have heq := (List.cons.inj heq).2
  have hsame : e.type = t.mode.type := by
    rcases htype with h | h <;> rcases type_cases t.mode with h' | h' <;> rw [h, h'] at heq ⊢
    all_goals exact absurd (List.cons.inj heq).1 (by decide)
  rw [hsame] at heq
  have heq := (List.cons.inj (List.append_cancel_left heq)).2
  obtain ⟨ho, heq⟩ := List.append_inj heq ((length_oid _).trans (length_oid _).symm)
  obtain rfl := (List.cons.inj heq).2
  exact ⟨hm, hsame, Subtype.ext ho, hbytes.symm⟩

lemma le_of_mem_head {t : TreeEntry} {c : Char} (h : c ∈ t.head) : 9 ≤ c.toNat := by
  have hmode : ∀ m : Mode, (m.text ++ m.type).all (fun c => decide (9 ≤ c.toNat)) = true := by
    intro m
    cases m <;> rfl
  have hmode := List.all_eq_true.mp (hmode t.mode)
  simp only [decide_eq_true_eq, List.mem_append] at hmode
  simp only [TreeEntry.head, List.mem_append, List.mem_cons, List.not_mem_nil, or_false] at h
  rcases h with ((h | rfl | h) | rfl | h) | rfl
  · exact hmode c (.inl h)
  · decide
  · exact hmode c (.inr h)
  · decide
  · have := lt_of_isHex (isHex_of_mem h)
    omega
  · decide

lemma zero_not_mem_bytes {t : TreeEntry} (h : 0 ∉ t.path) : 0 ∉ t.bytes := by
  intro hmem
  rcases List.mem_append.mp hmem with hmem | hmem
  · obtain ⟨c, hc, hzero⟩ := mem_of_mem_encode (by decide) hmem
    have hle := le_of_mem_head hc
    rw [hzero] at hle
    exact absurd hle (by decide)
  · exact h hmem

lemma forall₂_of_common {α β γ : Type} {R : α → β → Prop} {S : α → γ → Prop} {T : β → γ → Prop}
    (h : ∀ a b c, R a b → S a c → T b c) {l : List α} {bs : List β} {cs : List γ}
    (hb : List.Forall₂ R l bs) (hc : List.Forall₂ S l cs) : List.Forall₂ T bs cs := by
  induction hb generalizing cs with
  | nil =>
      cases hc
      exact .nil
  | cons hR _ ih =>
      cases hc with
      | cons hS hc => exact .cons (h _ _ _ hR hS) (ih hc)

lemma forall₂_of_map_eq {α β γ : Type} {f : α → γ} {g : β → γ} {l : List α} {m : List β}
    (h : l.map f = m.map g) : List.Forall₂ (fun a b => f a = g b) l m := by
  rw [← List.forall₂_map_right_iff, ← List.forall₂_map_left_iff, List.forall₂_eq_eq_eq]
  exact h

/-- **A tree is read as it is.** -/
lemma readTree_bytes {lib : Lib} {t : Tree} {es : List Entry}
    (h : readTree lib t.bytes = .ok es) : List.Forall₂ Same es t.entries := by
  obtain ⟨tokens, htokens, h⟩ := bind_eq_ok.mp h
  obtain ⟨es', hread, h⟩ := bind_eq_ok.mp h
  obtain ⟨_, _, h⟩ := bind_eq_ok.mp h
  obtain rfl := Except.ok.inj h
  have hzero : ∀ b ∈ t.entries.map TreeEntry.bytes, 0 ∉ b := by
    intro b hb
    obtain ⟨e, he, rfl⟩ := List.mem_map.mp hb
    exact zero_not_mem_bytes (t.paths e he).2
  refine forall₂_of_common (fun token e t hread htoken => ?_) (forall₂_of_mapM hread)
    (forall₂_of_map_eq (splitNull_nulled hzero htokens))
  unfold readEntry at hread
  cases hparse : parseEntry token with
  | none =>
      rw [hparse] at hread
      cases hread
  | some e' =>
      rw [hparse] at hread
      obtain ⟨path, hpath, hread⟩ := bind_eq_ok.mp hread
      obtain rfl := Except.ok.inj hread
      obtain rfl := validateSnapshotPath_eq hpath
      exact same_of_parseEntry htoken hparse

lemma yields_treeEntries {R : Repo} {lib : Lib} {r : Oid} {es : List Entry}
    (h : Yields R.answers (treeEntries lib r) es) :
    ∃ c, R.commits r = some c ∧ List.Forall₂ Same es c.tree.entries := by
  unfold treeEntries at h
  simp only [yields_bind, yields_git, yields_ofExcept] at h
  obtain ⟨_, ⟨c, hc, rfl⟩, h⟩ := h
  exact ⟨c, hc, readTree_bytes h⟩

/-- The paths of a tree that was read are no two the same, so that the map of the entries by
their paths has all of them. -/
lemma byPath_of_same {es : List Entry} {t : Tree} (h : List.Forall₂ Same es t.entries) :
    (es.map (·.path)).Nodup ∧ byPath es = es := by
  have hnodup : (es.map (·.path)).Nodup := by
    have hpaths : (es.map (·.path)).map encode = t.entries.map (·.path) := by
      rw [List.map_map, ← List.forall₂_eq_eq_eq, List.forall₂_map_left_iff,
        List.forall₂_map_right_iff]
      exact h.imp fun _ _ hsame => hsame.path
    have hnd : ((es.map (·.path)).map encode).Nodup := hpaths ▸ t.nodup
    exact (List.pairwise_map.mp hnd).imp fun hne heq => hne (congrArg encode heq)
  refine ⟨hnodup, ?_⟩
  have hfold : ∀ l m : List Entry, ((m ++ l).map (·.path)).Nodup → l.foldl setEntry m = m ++ l := by
    intro l
    induction l with
    | nil => simp
    | cons e l ih =>
        intro m hnd
        have hnot : m.any (·.path = e.path) = false := by
          rw [List.any_eq_false]
          intro x hx
          rw [List.map_append, List.map_cons, List.nodup_append] at hnd
          exact fun heq => hnd.2.2 _ (List.mem_map_of_mem hx) _ (List.mem_cons_self ..)
            (of_decide_eq_true heq)
        rw [List.foldl_cons, setEntry, hnot, if_neg Bool.false_ne_true,
          ih (m ++ [e]) (by simpa using hnd), List.append_assoc]
        rfl
  exact hfold es [] (by simpa using hnodup)

/-! ### The history -/

/-- The object is a blob that is no larger than allowed and has no secret. -/
def Repo.Clean (R : Repo) (o : Oid) : Prop :=
  ∃ content, R.blobs o = some content ∧ content.length ≤ maxScanBlobBytes ∧
    hasSecret content = false

lemma clean_of_readBlob {R : Repo} {errors : BlobErrors} {o : Oid} {n : ℕ} {out : ℕ × Bytes}
    (h : Yields R.answers (readBlob errors o n) out) : R.Clean o := by
  unfold readBlob at h
  rw [yields_bind] at h
  obtain ⟨sizeText, hsize, h⟩ := h
  obtain ⟨content, hcontent, rfl⟩ := yields_git.mp hsize
  rw [number_size] at h
  by_cases hle : content.length ≤ min maxSafeInteger maxScanBlobBytes
  · rw [Option.filter_some, if_pos (by simpa using hle)] at h
    obtain ⟨-, h⟩ := yields_ite.mp h
    rw [yields_bind] at h
    obtain ⟨content', hread, h⟩ := h
    obtain ⟨-, h⟩ := yields_ite.mp h
    obtain ⟨hsecret, -⟩ := yields_ite.mp h
    obtain rfl := Option.some.inj (hcontent.symm.trans (yields_git.mp hread))
    exact ⟨content, hcontent, hle.trans (min_le_right _ _), by simpa using hsecret⟩
  · rw [Option.filter_some, if_neg (by simpa using hle)] at h
    exact h.elim

/-- What the checks of an entry leave. -/
structure EntryOk (lib : Lib) (base : List Entry) (e : Entry) : Prop where
  type : e.type = "blob".toList
  mode : e.mode = "100644".toList ∨ e.mode = "100755".toList
  control : isControlPath lib e.path = true →
    ∃ b ∈ base, b.path = e.path ∧ b.objectId = e.objectId ∧ b.mode = e.mode
  executable : e.mode = "100755".toList → ∃ b ∈ base, b.path = e.path ∧ b.mode = "100755".toList

lemma mem_of_entryAt {base : List Entry} {path : Text} {b : Entry}
    (h : entryAt base path = some b) : b ∈ base ∧ b.path = path := by
  have hpath := List.find?_some h
  exact ⟨List.mem_of_find?_eq_some h, of_decide_eq_true hpath⟩

lemma entryOk_of_checkEntry {lib : Lib} {base : List Entry} {e : Entry}
    (h : checkEntry lib base e = .ok ()) : EntryOk lib base e := by
  obtain ⟨_, htype, h⟩ := bind_eq_ok.mp h
  obtain ⟨_, hmode, h⟩ := bind_eq_ok.mp h
  obtain ⟨_, hcontrol, h⟩ := bind_eq_ok.mp h
  obtain ⟨_, hexec, -⟩ := bind_eq_ok.mp h
  refine ⟨(failUnless_eq.mp htype).1, failUnless_eq.mp hmode, fun hpath => ?_, fun hm => ?_⟩
  · have hany := failUnless_eq.mp hcontrol hpath
    obtain ⟨b, hb, hsame⟩ := (Option.any_eq_true _ _).mp hany
    obtain ⟨hmem, hb⟩ := mem_of_entryAt hb
    exact ⟨b, hmem, hb, of_decide_eq_true hsame⟩
  · have hany := failUnless_eq.mp hexec hm
    obtain ⟨b, hb, hsame⟩ := (Option.any_eq_true _ _).mp hany
    obtain ⟨hmem, hb⟩ := mem_of_entryAt hb
    exact ⟨b, hmem, hb, of_decide_eq_true hsame⟩

/-- The entry passed, and its blob is in the base or was looked through. -/
def Scanned (R : Repo) (lib : Lib) (base : List Entry) (e : Entry) : Prop :=
  EntryOk lib base e ∧ (e.objectId ∈ base.map (·.objectId) ∨ R.Clean e.objectId)

/-- All blobs that are skipped were looked through before. -/
def AllClean (R : Repo) (h : History) : Prop := ∀ o ∈ h.scannedObjects, R.Clean o

lemma scanned_of_scanEntry {R : Repo} {lib : Lib} {base : List Entry} {h h' : History} {e : Entry}
    (hclean : AllClean R h) (hy : Yields R.answers (scanEntry lib base h e) h') :
    Scanned R lib base e ∧ AllClean R h' := by
  unfold scanEntry at hy
  rw [yields_bind] at hy
  obtain ⟨_, hcheck, hy⟩ := hy
  have hok := entryOk_of_checkEntry ((yields_ofExcept _ _).mp hcheck)
  split_ifs at hy with hseen
  · obtain rfl : h = h' := hy
    exact ⟨⟨hok, hseen.imp_right (hclean _)⟩, hclean⟩
  · rw [yields_bind] at hy
    obtain ⟨⟨bytes, content⟩, hread, hy⟩ := hy
    have ho := clean_of_readBlob hread
    obtain rfl := (yields_pure _ _).mp hy
    exact ⟨⟨hok, .inr ho⟩, List.forall_mem_cons.mpr ⟨ho, hclean⟩⟩

/-- A commit that was read: its message and all of its entries passed, and no control path of
the base is missing. -/
structure RevisionOk (R : Repo) (lib : Lib) (base : List Entry) (c : Commit) : Prop where
  message : hasSecret c.message = false
  entries : ∃ es, List.Forall₂ Same es c.tree.entries ∧ (∀ e ∈ es, Scanned R lib base e) ∧
    ∀ b ∈ base, isControlPath lib b.path = true → b.path ∈ es.map (·.path)

lemma revisionOk_of_scanRevision {R : Repo} {lib : Lib} {base : List Entry} {h h' : History}
    {r : Oid} (hclean : AllClean R h) (hy : Yields R.answers (scanRevision lib base h r) h') :
    (∃ c, R.commits r = some c ∧ RevisionOk R lib base c) ∧ AllClean R h' := by
  unfold scanRevision at hy
  rw [yields_bind] at hy
  obtain ⟨message, hmessage, hy⟩ := hy
  obtain ⟨c, hc, rfl⟩ := yields_git.mp hmessage
  obtain ⟨hsecret, hy⟩ := yields_ite.mp hy
  rw [yields_bind] at hy
  obtain ⟨es, hes, hy⟩ := hy
  obtain ⟨c', hc', hsame⟩ := yields_treeEntries hes
  obtain rfl := Option.some.inj (hc.symm.trans hc')
  obtain ⟨-, hy⟩ := yields_ite.mp hy
  rw [yields_bind] at hy
  obtain ⟨h₂, hloop, hy⟩ := hy
  -- of the loop over the entries: those behind have passed
  have hinv := yields_foldlM (I := fun l h => (∀ e ∈ l, Scanned R lib base e) ∧ AllClean R h)
    (fun l e s t hI hstep => by
      obtain ⟨he, ht⟩ := scanned_of_scanEntry hI.2 hstep
      exact ⟨List.forall_mem_append.mpr ⟨hI.1, List.forall_mem_singleton.mpr he⟩, ht⟩)
    es [] _ h₂ (by exact ⟨by simp, hclean⟩) hloop
  rw [List.nil_append] at hinv
  cases hfind : (base.filter fun e => isControlPath lib e.path).find? fun e =>
      e.path ∉ es.map (·.path) with
  | some e =>
      rw [hfind] at hy
      exact hy.elim
  | none =>
      rw [hfind] at hy
      obtain rfl : h₂ = h' := hy
      refine ⟨⟨c, hc, hasSecret_newline (by simpa using hsecret), es, hsame, hinv.1, ?_⟩, hinv.2⟩
      intro b hb hpath
      have hnone := List.find?_eq_none.mp hfind b (List.mem_filter.mpr ⟨hb, hpath⟩)
      simpa using hnone

/-- **The scan of the history.** -/
lemma revisionOk_of_history {R : Repo} {lib : Lib} {b c : Oid} {receipt : HistoryReceipt}
    (h : Yields R.answers (scanReachableHistory lib b c) receipt) :
    ∃ base es, R.commits b = some base ∧ List.Forall₂ Same es base.tree.entries ∧
      ¬R.Reaches b c ∧ ∀ r, R.Reaches c r → ¬R.Reaches b r →
        ∃ commit, R.commits r = some commit ∧ RevisionOk R lib es commit := by
  unfold scanReachableHistory at h
  simp only [yields_bind] at h
  obtain ⟨es, hes, out, hout, revisions, hrevisions, h₂, hloop, -⟩ := h
  obtain ⟨base, hbase, hsame⟩ := yields_treeEntries hes
  obtain ⟨l, hl, rfl⟩ := yields_git.mp hout
  obtain ⟨rfl, hne⟩ := readRevisions_lines ((yields_ofExcept _ _).mp hrevisions)
  rw [(byPath_of_same hsame).2] at hloop
  have hinv := yields_foldlM
    (I := fun l h => (∀ r ∈ l, ∃ c, R.commits r = some c ∧ RevisionOk R lib es c) ∧ AllClean R h)
    (fun l r s t hI hstep => by
      obtain ⟨hr, ht⟩ := revisionOk_of_scanRevision hI.2 hstep
      exact ⟨List.forall_mem_append.mpr ⟨hI.1, List.forall_mem_singleton.mpr hr⟩, ht⟩)
    revisions [] _ h₂ (by exact ⟨by simp, by simp [AllClean]⟩) hloop
  refine ⟨base, es, hbase, hsame, fun hreach => ?_, fun r hr hnot => ?_⟩
  · -- a candidate that comes before the base would bring no commit at all
    obtain ⟨r, hr⟩ := List.exists_mem_of_ne_nil _ hne
    obtain ⟨hr, hnot⟩ := (hl r).mp hr
    exact hnot (hreach.trans hr)
  · exact hinv.1 r (by simpa using (hl r).mpr ⟨hr, hnot⟩)

/-! ### The difference -/

lemma takingWord_append (w t : Text) : takingWord w (w ++ t) = some (w, t) := by
  simp [takingWord]

lemma taking_append {n : ℕ} {p : Char → Bool} {a : Text} (ha : a.length = n) (hp : a.all p = true)
    (t : Text) : taking n p (a ++ t) = some (a, t) := by
  subst ha
  rw [taking, List.take_left, List.drop_left, if_pos ⟨by simp, hp⟩]

lemma takingOid_append {a : Text} (ha : isSha a = true) (t : Text) :
    takingOid (a ++ t) = some (⟨a, ha⟩, t) := by
  have hlength := length_oid ⟨a, ha⟩
  rw [takingOid, List.take_left' hlength, List.drop_left' hlength]
  simp [toOid, ha]

/-- What is read of the line of a change. -/
lemma parseChange_metaText {oldMode newMode oldObject newObject : Text} {status : Char}
    (hold : oldMode.length = 6 ∧ oldMode.all Char.isDigit = true)
    (hnew : newMode.length = 6 ∧ newMode.all Char.isDigit = true)
    (ho : isSha oldObject = true) (hn : isSha newObject = true) :
    parseChange (metaText oldMode newMode oldObject newObject status) =
      if status ∈ ['A', 'M', 'D'] then some ⟨oldMode, newMode, ⟨newObject, hn⟩, status⟩
      else none := by
  have htext : metaText oldMode newMode oldObject newObject status =
      [':'] ++ (oldMode ++ ([' '] ++ (newMode ++ ([' '] ++ (oldObject ++ ([' '] ++
        (newObject ++ ([' '] ++ [status])))))))) := by
    simp [metaText]
  rw [htext, parseChange]
  simp only [takingWord_append, taking_append hold.1 hold.2, taking_append hnew.1 hnew.2,
    takingOid_append ho, takingOid_append hn, Option.bind_eq_bind, Option.bind_some]

lemma mode_digits (m : Mode) : m.text.length = 6 ∧ m.text.all Char.isDigit = true := by
  cases m <;> decide

lemma isSha_noOid : isSha noOid = true := by decide

/-- A commit that is named in a tree does not pass, neither when it goes nor when something else
comes in its place. -/
lemma checkChange_gitlink {lib : Lib} {old : TreeEntry} (hold : old.mode = .gitlink)
    {c : Change} (hc : c = .deleted old ∨ ∃ new, c = .changed old new ∧ new.mode ≠ .gitlink)
    {path : Text} {out : RawChange × Text} : checkChange lib c.metadata path ≠ .ok out := by
  intro h
  unfold checkChange at h
  rcases hc with rfl | ⟨new, rfl, hnew⟩
  · rw [Change.metadata, parseChange_metaText (mode_digits _) (by decide) old.objectId.2
      isSha_noOid, if_pos (by simp)] at h
    obtain ⟨_, _, h⟩ := bind_eq_ok.mp h
    obtain ⟨_, hmode, h⟩ := bind_eq_ok.mp h
    rw [hold] at hmode
    obtain ⟨_, _, hmode⟩ := bind_eq_ok.mp ((if_neg (by decide)).symm.trans hmode)
    obtain ⟨_, hlink, _⟩ := bind_eq_ok.mp hmode
    exact failUnless_eq.mp hlink rfl
  · have hkind : old.mode.sameKind new.mode = false := by
      rw [hold]
      revert hnew
      cases new.mode <;> decide
    rw [Change.metadata, parseChange_metaText (mode_digits _) (mode_digits _) old.objectId.2
      new.objectId.2, hkind, if_neg (by simp)] at h
    cases h

/-- Every change that is listed was checked. -/
lemma checked_of_scanChanges {R : Repo} {lib : Lib} {l : List Change} {raw : List Text}
    (hraw : raw.map encode = l.flatMap fun c => [encode c.metadata, c.path]) {ps : List Text}
    {n : ℕ} {out : List Text × ℕ} (h : Yields R.answers (scanChanges lib ps n raw) out) :
    ∀ c ∈ l, ∃ path x, checkChange lib c.metadata path = .ok x := by
  induction l generalizing raw ps n with
  | nil => simp
  | cons c l ih =>
      obtain ⟨m, raw, rfl, hm, hrest⟩ := List.map_eq_cons_iff.mp hraw
      obtain ⟨path, raw, rfl, -, hrest⟩ := List.map_eq_cons_iff.mp hrest
      obtain rfl := encode_injective hm
      rw [scanChanges, yields_bind] at h
      obtain ⟨⟨change, path'⟩, hcheck, h⟩ := h
      have hthis := (yields_ofExcept _ _).mp hcheck
      refine List.forall_mem_cons.mpr ⟨⟨path, _, hthis⟩, ?_⟩
      dsimp only at h
      split_ifs at h
      · exact ih hrest h
      · rw [yields_bind] at h
        obtain ⟨_, _, h⟩ := h
        exact ih hrest h

lemma le_of_mem_metaText {oldMode newMode oldObject newObject : Text} {status c : Char}
    (hold : oldMode.all Char.isDigit = true) (hnew : newMode.all Char.isDigit = true)
    (ho : isSha oldObject = true) (hn : isSha newObject = true) (hs : 9 ≤ status.toNat)
    (h : c ∈ metaText oldMode newMode oldObject newObject status) : 9 ≤ c.toNat := by
  have hdigit : ∀ t : Text, t.all Char.isDigit = true → c ∈ t → 9 ≤ c.toNat := fun t ht hc => by
    have hhex : isHex c = true := by rw [isHex, List.all_eq_true.mp ht c hc, Bool.true_or]
    exact le_trans (by decide) (lt_of_isHex hhex).1
  have hsha : ∀ t : Text, isSha t = true → c ∈ t → 9 ≤ c.toNat := fun t ht hc =>
    le_trans (by decide) (lt_of_isHex (isHex_of_mem (o := ⟨t, ht⟩) hc)).1
  simp only [metaText, List.cons_append, List.mem_append, List.mem_cons, List.not_mem_nil,
    or_false] at h
  rcases h with rfl | (((h | rfl | h) | rfl | h) | rfl | h) | rfl | rfl
  · decide
  · exact hdigit _ hold h
  · decide
  · exact hdigit _ hnew h
  · decide
  · exact hsha _ ho h
  · decide
  · exact hsha _ hn h
  · decide
  · exact hs

lemma zero_not_mem_metadata (c : Change) : 0 ∉ encode c.metadata := by
  intro hmem
  obtain ⟨d, hd, hzero⟩ := mem_of_mem_encode (by decide) hmem
  have hle : 9 ≤ d.toNat := by
    cases c with
    | added e =>
        exact le_of_mem_metaText (by decide) (mode_digits _).2 isSha_noOid e.objectId.2
          (by decide) hd
    | deleted e =>
        exact le_of_mem_metaText (mode_digits _).2 (by decide) e.objectId.2 isSha_noOid
          (by decide) hd
    | changed old new =>
        refine le_of_mem_metaText (mode_digits _).2 (mode_digits _).2 old.objectId.2 new.objectId.2
          ?_ hd
        split_ifs <;> decide
  rw [hzero] at hle
  exact absurd hle (by decide)

lemma zero_not_mem_path {b c : Tree} {ch : Change} (h : Change.Between b c ch) : 0 ∉ ch.path := by
  cases ch with
  | added e => exact (c.paths e h.1).2
  | deleted e => exact (b.paths e h.1).2
  | changed old new => exact (c.paths new h.2.1).2

/-- **The scan of the difference.** No commit named in the base's tree goes missing. -/
lemma gitlink_stays {R : Repo} {lib : Lib} {b c : Tree} {l : List Change}
    (hl : ∀ ch, ch ∈ l ↔ Change.Between b c ch) {raw : List Text}
    (hsplit : splitNull "candidate raw diff" (changesBytes l) = .ok raw) {ps : List Text} {n : ℕ}
    {out : List Text × ℕ} (h : Yields R.answers (scanChanges lib ps n raw) out) {old : TreeEntry}
    (hold : old ∈ b.entries) (hmode : old.mode = .gitlink) :
    ∃ new ∈ c.entries, new.mode = .gitlink := by
  have hzero : ∀ t ∈ l.flatMap fun c => [encode c.metadata, c.path], 0 ∉ t := by
    intro t ht
    obtain ⟨ch, hch, ht⟩ := List.mem_flatMap.mp ht
    simp only [List.mem_cons, List.not_mem_nil, or_false] at ht
    rcases ht with rfl | rfl
    · exact zero_not_mem_metadata ch
    · exact zero_not_mem_path ((hl ch).mp hch)
  have hchecked := checked_of_scanChanges (splitNull_nulled hzero hsplit) h
  by_contra hlost
  have hnone : ∀ new ∈ c.entries, new.mode ≠ .gitlink := fun new hnew hm => hlost ⟨new, hnew, hm⟩
  by_cases hpath : ∃ new ∈ c.entries, new.path = old.path
  · obtain ⟨new, hnew, hpath⟩ := hpath
    have hne : old ≠ new := fun heq => hnone new hnew (heq ▸ hmode)
    obtain ⟨path, x, hx⟩ := hchecked (.changed old new)
      ((hl _).mpr ⟨hold, hnew, hpath.symm, hne⟩)
    exact checkChange_gitlink hmode (.inr ⟨new, rfl, hnone new hnew⟩) hx
  · obtain ⟨path, x, hx⟩ := hchecked (.deleted old)
      ((hl _).mpr ⟨hold, fun new hnew heq => hpath ⟨new, hnew, heq⟩⟩)
    exact checkChange_gitlink hmode (.inl rfl) hx

/-! ### The scan -/

/-- The entry names a blob. -/
def TreeEntry.isBlob (e : TreeEntry) : Prop := e.mode ≠ .gitlink

/-- The entry is one of repository control. -/
def TreeEntry.isControl (lib : Lib) (e : TreeEntry) : Prop :=
  isControlPath lib (lossy e.path) = true

/-- What may be published on a base: no secret in the message, and in the tree files alone, whose
blobs are the base's or hold no secret, which are executable where the base's are, and which leave
repository control as it is. -/
structure Repo.Harmless (R : Repo) (lib : Lib) (base : Tree) (c : Commit) : Prop where
  message : hasSecret c.message = false
  blobs : ∀ e ∈ c.tree.entries, e.isBlob →
    (∃ b ∈ base.entries, b.isBlob ∧ b.objectId = e.objectId) ∨ R.Clean e.objectId
  regular : ∀ e ∈ c.tree.entries, e.mode = .file ∨
    e.mode = .executable ∧ ∃ b ∈ base.entries, b.path = e.path ∧ b.mode = .executable
  control : ∀ e : TreeEntry, e.isControl lib → (e ∈ c.tree.entries ↔ e ∈ base.entries)

lemma exists_of_forall₂ {α β : Type} {R : α → β → Prop} {l : List α} {m : List β}
    (h : List.Forall₂ R l m) : (∀ a ∈ l, ∃ b ∈ m, R a b) ∧ ∀ b ∈ m, ∃ a ∈ l, R a b := by
  induction h with
  | nil => simp
  | cons hR _ ih =>
      refine ⟨List.forall_mem_cons.mpr ⟨⟨_, List.mem_cons_self .., hR⟩, fun a ha => ?_⟩,
        List.forall_mem_cons.mpr ⟨⟨_, List.mem_cons_self .., hR⟩, fun b hb => ?_⟩⟩
      · obtain ⟨b, hb, hab⟩ := ih.1 a ha
        exact ⟨b, List.mem_cons_of_mem _ hb, hab⟩
      · obtain ⟨a, ha, hab⟩ := ih.2 b hb
        exact ⟨a, List.mem_cons_of_mem _ ha, hab⟩

lemma mode_text_injective {m m' : Mode} (h : m.text = m'.text) : m = m' := by
  cases m <;> cases m' <;> first | rfl | exact absurd h (by decide)

/-- Entries that agree in what was read are one. -/
lemma Same.eq {e e' : Entry} {t t' : TreeEntry} (h : Same e t) (h' : Same e' t')
    (hpath : e.path = e'.path) (hobject : e.objectId = e'.objectId) (hmode : e.mode = e'.mode) :
    t = t' := by
  have hm : t.mode = t'.mode := mode_text_injective (h.mode.symm.trans (hmode.trans h'.mode))
  have ho : t.objectId = t'.objectId := h.objectId.symm.trans (hobject.trans h'.objectId)
  have hp : t.path = t'.path := h.path.symm.trans ((congrArg encode hpath).trans h'.path)
  cases t
  cases t'
  simp only [TreeEntry.mk.injEq]
  exact ⟨hm, ho, hp⟩

lemma isControl_iff {lib : Lib} {e : Entry} {t : TreeEntry} (h : Same e t) :
    t.isControl lib ↔ isControlPath lib e.path = true := by
  rw [TreeEntry.isControl, ← h.path, lossy_encode]

lemma mode_of_scanned {R : Repo} {lib : Lib} {base : List Entry} {e : Entry} {t : TreeEntry}
    (hs : Scanned R lib base e) (h : Same e t) : t.mode = .file ∨ t.mode = .executable := by
  rcases hs.1.mode with hm | hm
  · exact .inl (mode_text_injective (h.mode.symm.trans hm))
  · exact .inr (mode_text_injective (h.mode.symm.trans hm))

lemma harmless_of_revisionOk {R : Repo} {lib : Lib} {base : Tree} {es : List Entry} {c : Commit}
    (hes : List.Forall₂ Same es base.entries) (hlink : ∀ b ∈ base.entries, b.isBlob)
    (h : RevisionOk R lib es c) : R.Harmless lib base c := by
  obtain ⟨es', hes', hscanned, hcontrol⟩ := h.entries
  refine ⟨h.message, fun t ht _ => ?_, fun t ht => ?_, fun t hpath => ⟨fun ht => ?_, fun ht => ?_⟩⟩
  · obtain ⟨e, he, hsame⟩ := (exists_of_forall₂ hes').2 t ht
    rcases (hscanned e he).2 with hbase | hclean
    · obtain ⟨b, hb, hobject⟩ := List.mem_map.mp hbase
      obtain ⟨t', ht', hb⟩ := (exists_of_forall₂ hes).1 b hb
      exact .inl ⟨t', ht', hlink t' ht',
        hb.objectId.symm.trans (hobject.trans hsame.objectId)⟩
    · exact .inr (hsame.objectId ▸ hclean)
  · obtain ⟨e, he, hsame⟩ := (exists_of_forall₂ hes').2 t ht
    refine (mode_of_scanned (hscanned e he) hsame).imp_right fun hmode => ⟨hmode, ?_⟩
    obtain ⟨b, hb, hpath, hexec⟩ := (hscanned e he).1.executable
      (by rw [hsame.mode, hmode]; rfl)
    obtain ⟨t', ht', hb⟩ := (exists_of_forall₂ hes).1 b hb
    exact ⟨t', ht', hb.path.symm.trans ((congrArg encode hpath).trans hsame.path),
      mode_text_injective (hb.mode.symm.trans hexec)⟩
  · obtain ⟨e, he, hsame⟩ := (exists_of_forall₂ hes').2 t ht
    obtain ⟨b, hb, hp, ho, hm⟩ :=
      (hscanned e he).1.control ((isControl_iff hsame).mp hpath)
    obtain ⟨t', ht', hb⟩ := (exists_of_forall₂ hes).1 b hb
    exact hb.eq hsame hp ho hm ▸ ht'
  · obtain ⟨b, hb, hsame⟩ := (exists_of_forall₂ hes).2 t ht
    have hbpath := (isControl_iff hsame).mp hpath
    obtain ⟨e, he, hep⟩ := List.mem_map.mp (hcontrol b hb hbpath)
    obtain ⟨t', ht', hsame'⟩ := (exists_of_forall₂ hes').1 e he
    obtain ⟨b', hb', hp, ho, hm⟩ := (hscanned e he).1.control (hep ▸ hbpath)
    -- of one path the base has one entry
    obtain rfl := List.inj_on_of_nodup_map (byPath_of_same hes).1 hb' hb (hp.trans hep)
    exact hsame.eq hsame' hp ho hm ▸ ht'

/-- **A scan that passes is sound over the history.** Every commit that comes with the candidate
is harmless on the base. -/
theorem scan_sound {R : Repo} {lib : Lib} {runtime : Runtime} {base candidate : Text}
    {receipt : ScanReceipt} (h : Yields R.answers (scan lib runtime base candidate) receipt) :
    ∃ b c baseCommit, b.1 = base ∧ c.1 = candidate ∧ R.commits b = some baseCommit ∧
      ∀ r, R.Reaches c r → ¬R.Reaches b r →
        ∃ commit, R.commits r = some commit ∧ R.Harmless lib baseCommit.tree commit := by
  unfold scan at h
  simp only [yields_bind] at h
  simp only [yields_ofExcept] at h
  obtain ⟨_, -, b, hb, -, -, c, hc, -, -, -, -, -, -, history, hhistory, out, hout, raw, hraw, -, -,
    changed, hchanged, -⟩ := h
  obtain ⟨baseCommit, es, hbase, hes, hnot, hall⟩ := revisionOk_of_history hhistory
  obtain ⟨baseCommit', candidateCommit, l, hbase', hcandidate, hl, rfl⟩ := yields_git.mp hout
  obtain rfl := Option.some.inj (hbase.symm.trans hbase')
  -- the candidate itself is one of the commits that were read
  obtain ⟨_, hcommit, hok⟩ := hall c .refl hnot
  obtain rfl := Option.some.inj (hcandidate.symm.trans hcommit)
  have hlink : ∀ t ∈ baseCommit.tree.entries, t.isBlob := by
    intro t ht hmode
    obtain ⟨new, hnew, hnewMode⟩ := gitlink_stays hl hraw hchanged ht hmode
    obtain ⟨es', hes', hscanned, -⟩ := hok.entries
    obtain ⟨e, he, hsame⟩ := (exists_of_forall₂ hes').2 new hnew
    have := mode_of_scanned (hscanned e he) hsame
    simp [hnewMode] at this
  refine ⟨b, c, baseCommit, requireSha_val hb, requireSha_val hc, hbase, fun r hr hrnot => ?_⟩
  obtain ⟨commit, hr, hok⟩ := hall r hr hrnot
  exact ⟨commit, hr, harmless_of_revisionOk hes hlink hok⟩

/-! ### A candidate that passes -/

def oidOf (c : Char) (h : isSha (List.replicate 40 c) = true) : Oid := ⟨List.replicate 40 c, h⟩

def baseId : Oid := oidOf 'b' (by decide)

def candidateId : Oid := oidOf 'c' (by decide)

def oldFile : TreeEntry := ⟨.file, oidOf '1' (by decide), [0x61]⟩

def newFile : TreeEntry := ⟨.file, oidOf '2' (by decide), [0x62]⟩

def baseCommit : Commit := ⟨[], ⟨[oldFile], by decide, by decide⟩, [0x6D]⟩

def candidateCommit : Commit := ⟨[baseId], ⟨[oldFile, newFile], by decide, by decide⟩, [0x6E]⟩

/-- A repository of two commits, the second of which adds a file. -/
def twoCommits : Repo where
  commits r :=
    if r = baseId then some baseCommit else if r = candidateId then some candidateCommit else none
  blobs o :=
    if o = oldFile.objectId then some [0x78] else if o = newFile.objectId then some [0x79] else none

def unknown {α : Type} : Except String α := .error "Git command failed"

/-- Git's answers to what the scan asks. -/
def gitAnswer : (o : Call) → o.Ret
  | .inTime => true
  | .isAncestor b c => if b = baseId ∧ c = candidateId then .ok true else unknown
  | .out (.revList c b) =>
    if c = candidateId ∧ b = baseId then .ok (linesBytes [candidateId]) else unknown
  | .out (.message r) => if r = candidateId then .ok [0x6E, 0x0A] else unknown
  | .out (.lsTree r) =>
    if r = baseId then .ok baseCommit.tree.bytes
    else if r = candidateId then .ok candidateCommit.tree.bytes else unknown
  | .out (.size o) =>
    if o = newFile.objectId then .ok (encode (Nat.toDigits 10 1) ++ [0x0A]) else unknown
  | .out (.blob o) => if o = newFile.objectId then .ok [0x79] else unknown
  | .out (.diffRaw b c) =>
    if b = baseId ∧ c = candidateId then .ok (changesBytes [.added newFile]) else unknown
  | .out (.diffNames _ _ _) => .ok (nulled [[0x62]])
  | .out _ => .ok []
  | .guard _ => unknown
  | .readFile _ _ => unknown

def twoRuntime : Runtime := ⟨baseId, [candidateId]⟩

lemma reaches_base {r : Oid} : twoCommits.Reaches baseId r ↔ r = baseId := by
  constructor
  · intro h
    induction h with
    | refl => rfl
    | tail _ hstep ih =>
        subst ih
        obtain ⟨c, hc, hmem⟩ := hstep
        obtain rfl : baseCommit = c := Option.some.inj hc
        cases hmem
  · rintro rfl
    exact .refl

lemma reaches_candidate {r : Oid} :
    twoCommits.Reaches candidateId r ↔ r = candidateId ∨ r = baseId := by
  have hparent : twoCommits.Reaches candidateId baseId :=
    .single ⟨candidateCommit, rfl, List.mem_singleton_self _⟩
  constructor
  · intro h
    rcases Relation.ReflTransGen.cases_head h with rfl | ⟨p, ⟨c, hc, hmem⟩, h⟩
    · exact .inl rfl
    · obtain rfl : candidateCommit = c := Option.some.inj hc
      obtain rfl := List.mem_singleton.mp hmem
      exact .inr (reaches_base.mp h)
  · rintro (rfl | rfl)
    · exact .refl
    · exact hparent

lemma mem_changes {ch : Change} :
    ch ∈ [.added newFile] ↔ Change.Between baseCommit.tree candidateCommit.tree ch := by
  have hpath : oldFile.path ≠ newFile.path := by decide
  rw [List.mem_singleton]
  constructor
  · rintro rfl
    exact ⟨by decide, List.forall_mem_singleton.mpr hpath⟩
  · intro h
    cases ch with
    | added e =>
        rcases List.mem_pair.mp h.1 with rfl | rfl
        · exact absurd rfl (h.2 oldFile (List.mem_singleton_self _))
        · rfl
    | deleted e =>
        obtain rfl := List.mem_singleton.mp h.1
        exact absurd rfl (h.2 oldFile (List.mem_cons_self ..))
    | changed old new =>
        obtain ⟨hold, hnew, heq, hne⟩ := h
        obtain rfl := List.mem_singleton.mp hold
        rcases List.mem_pair.mp hnew with rfl | rfl
        · exact absurd rfl hne
        · exact absurd heq hpath

lemma gitAnswer_true : ∀ o, twoCommits.answers o (gitAnswer o)
  | .inTime => trivial
  | .isAncestor b c => by
      simp only [gitAnswer]
      split_ifs with h
      · obtain ⟨rfl, rfl⟩ := h
        exact ⟨fun _ => reaches_candidate.mpr (.inr rfl), fun _ => rfl⟩
      · trivial
  | .out (.revList c b) => by
      simp only [gitAnswer]
      split_ifs with h
      · obtain ⟨rfl, rfl⟩ := h
        refine ⟨[candidateId], fun r => ?_, rfl⟩
        rw [List.mem_singleton, reaches_candidate, reaches_base]
        refine ⟨?_, fun h => h.1.resolve_right h.2⟩
        rintro rfl
        exact ⟨.inl rfl, by decide⟩
      · trivial
  | .out (.message r) => by
      simp only [gitAnswer]
      split_ifs with h
      · exact ⟨candidateCommit, h ▸ rfl, rfl⟩
      · trivial
  | .out (.lsTree r) => by
      simp only [gitAnswer]
      split_ifs with h h'
      · exact ⟨baseCommit, h ▸ rfl, rfl⟩
      · exact ⟨candidateCommit, h' ▸ rfl, rfl⟩
      · trivial
  | .out (.size o) => by
      simp only [gitAnswer]
      split_ifs with h
      · exact ⟨[0x79], h ▸ rfl, rfl⟩
      · trivial
  | .out (.blob o) => by
      simp only [gitAnswer]
      split_ifs with h
      · exact h ▸ rfl
      · trivial
  | .out (.diffRaw b c) => by
      simp only [gitAnswer]
      split_ifs with h
      · obtain ⟨rfl, rfl⟩ := h
        exact ⟨baseCommit, candidateCommit, [.added newFile], rfl, rfl, fun ch => mem_changes, rfl⟩
      · trivial
  | .out (.diffPatch _ _ _) | .out (.diffNames _ _ _) | .out (.parents _) | .out (.treeOf _)
  | .out (.head _) | .out (.unmerged _) | .out (.trackedDiff _) | .out (.others _)
  | .out (.headEntry _ _) | .out (.add _ _) | .out (.stagedDiff _) | .out (.stagedEntry _ _)
  | .out (.commit _ _) | .out (.apply _ _) | .out (.writeTree _) | .out (.committedAt _)
  | .out (.commitTree _ _ _ _) | .out (.reset _ _) | .out (.readBranch _)
  | .out (.updateRef _ _ _) | .guard _ | .readFile _ _ => trivial

/-- The scan of a commit that adds a file passes, and the commit is harmless. -/
theorem scan_sound_added : ∃ receipt,
    Yields twoCommits.answers (scan plainLib twoRuntime baseId.1 candidateId.1) receipt ∧
      ∃ b c base, b.1 = baseId.1 ∧ c.1 = candidateId.1 ∧ twoCommits.commits b = some base ∧
        ∀ r, twoCommits.Reaches c r → ¬twoCommits.Reaches b r →
          ∃ commit, twoCommits.commits r = some commit ∧
            twoCommits.Harmless plainLib base.tree commit := by
  have hrun : ((scan plainLib twoRuntime baseId.1 candidateId.1).run (fun _ => gitAnswer)
      (fun s _ _ => s) ()).1.isOk = true := by decide +kernel
  obtain ⟨receipt, hreceipt⟩ := ok_of_isOk hrun
  have h := yields_of_run gitAnswer_true hreceipt
  exact ⟨receipt, h, scan_sound h⟩

end Bimo.Git
