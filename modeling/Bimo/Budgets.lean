import Bimo.Sizes
import Bimo.AgentExecution
import Bimo.ControllerRuns

/-!
What the size limits of a pod leave for a writer's work.

The record of a work result, the prompt of its checker and the prompt of the next planner each
have a limit of their own, and each embeds what was accepted under another: the record has the
receipt on one line, with the paths of the commit; the checker's prompt has the diff as a JSON
string; the planner's has all that the attempts before have left. What is left over of each limit
is counted here to the byte.
-/

namespace Bimo.Controller

open Wire (Json bytes text escapedLen escapedSize len)
open PodStore (Fields field pretty put spread lineSize serializeRecord require require_eq shallow
  shallowList shallowFields plainObject_eq maxRecordBytes maxJsonDepth)
open Contract
open Sizes

/-! ### Objects -/

lemma put_of_lookup {key : String} {v : Json} {l : Fields} (h : l.lookup key = some v) :
    put key v l = l := by
  induction l with
  | nil => cases h
  | cons p l ih =>
      obtain ⟨k, x⟩ := p
      rw [PodStore.lookup_cons_eq] at h
      unfold put
      by_cases hk : key = k
      · subst hk
        rw [if_pos rfl] at h
        rw [if_pos rfl, Option.some.inj h]
      · rw [if_neg hk] at h
        rw [if_neg (Ne.symm hk), ih h]

lemma put_of_new {key : String} {v : Json} {l : Fields} (h : key ∉ l.map Prod.fst) :
    put key v l = l ++ [(key, v)] := by
  induction l with
  | nil => rfl
  | cons p l ih =>
      obtain ⟨k, x⟩ := p
      simp only [List.map_cons, List.mem_cons, not_or] at h
      unfold put
      rw [if_neg (Ne.symm h.1), ih h.2, List.cons_append]

/-- Fields that the object does not have yet. -/
lemma spread_of_new {l l' : Fields} (hl' : (l'.map Prod.fst).Nodup)
    (h : ∀ key ∈ l'.map Prod.fst, key ∉ l.map Prod.fst) : spread l l' = l ++ l' := by
  induction l' generalizing l with
  | nil => simp [spread]
  | cons p l' ih =>
      rw [List.map_cons, List.nodup_cons] at hl'
      have hput : put p.1 p.2 l = l ++ [p] := put_of_new (h p.1 (by simp))
      have hrest : spread (l ++ [p]) l' = l ++ [p] ++ l' := by
        refine ih hl'.2 fun key hkey hmem => ?_
        rw [List.map_append, List.mem_append] at hmem
        rcases hmem with hmem | hmem
        · exact h key (by rw [List.map_cons]; exact List.mem_cons_of_mem _ hkey) hmem
        · have : key = p.1 := by simpa using hmem
          exact hl'.1 (this ▸ hkey)
      rw [List.append_assoc, List.singleton_append] at hrest
      rw [← hrest, ← hput]
      rfl

lemma keys_of_exactObject {v : Json} {allowed : List String} {label : String} {l : Fields}
    (h : exactObject v allowed label = .ok l) : v = .obj l ∧ ∀ p ∈ l, p.1 ∈ allowed := by
  obtain ⟨l', hobj, h⟩ := bind_eq_ok.mp h
  obtain ⟨_, hkeys, h⟩ := bind_eq_ok.mp h
  obtain rfl := Except.ok.inj h
  obtain ⟨_, hunknown, -⟩ := bind_eq_ok.mp hkeys
  refine ⟨plainObject_eq hobj, fun p hp => ?_⟩
  have := List.find?_eq_none.mp (noneFound_eq.mp hunknown) p hp
  simpa using this

mutual

/-- No object in the value has a key twice, as it is with the values of the language. -/
def keysOnce : Json → Bool
  | .arr l => keysOnceList l
  | .obj l => decide (l.map Prod.fst).Nodup && keysOnceFields l
  | _ => true

def keysOnceList : List Json → Bool
  | [] => true
  | v :: l => keysOnce v && keysOnceList l

def keysOnceFields : List (String × Json) → Bool
  | [] => true
  | (_, v) :: l => keysOnce v && keysOnceFields l

end

lemma lookup_of_mem {l : Fields} (h : (l.map Prod.fst).Nodup) {p : String × Json} (hp : p ∈ l) :
    l.lookup p.1 = some p.2 := by
  induction l with
  | nil => cases hp
  | cons q l ih =>
      rw [List.map_cons, List.nodup_cons] at h
      rw [PodStore.lookup_cons_eq]
      rcases List.mem_cons.mp hp with rfl | hp
      · rw [if_pos rfl]
      · have hne : p.1 ≠ q.1 := by
          intro heq
          exact h.1 (heq ▸ List.mem_map_of_mem hp)
        rw [if_neg hne, ih h.2 hp]

lemma keysOnce_of_mem {l : Fields} (h : keysOnceFields l = true) {p : String × Json}
    (hp : p ∈ l) : keysOnce p.2 = true := by
  induction l with
  | nil => cases hp
  | cons q l ih =>
      obtain ⟨k, v⟩ := q
      simp only [keysOnceFields, Bool.and_eq_true] at h
      rcases List.mem_cons.mp hp with rfl | hp
      · exact h.1
      · exact ih h.2 hp

lemma keysOnce_field {l : Fields} {key : String} (h : keysOnce (.obj l) = true) :
    keysOnce (field l key) = true := by
  simp only [keysOnce, Bool.and_eq_true] at h
  rw [PodStore.field]
  cases hlook : l.lookup key with
  | none => rfl
  | some v =>
      obtain ⟨l₁, l₂, hl, -⟩ := List.lookup_eq_some_iff.mp hlook
      refine keysOnce_of_mem h.2 (p := (key, v)) ?_
      rw [hl]
      exact List.mem_append_right _ List.mem_cons_self

/-! ### Depth -/

lemma shallowFields_iff {depth : ℕ} {l : Fields} :
    shallowFields depth l = true ↔ ∀ p ∈ l, shallow depth p.2 = true := by
  induction l with
  | nil => simp [shallowFields]
  | cons p l ih =>
      obtain ⟨k, v⟩ := p
      simp [shallowFields, ih]

lemma shallowList_iff {depth : ℕ} {l : List Json} :
    shallowList depth l = true ↔ ∀ v ∈ l, shallow depth v = true := by
  induction l with
  | nil => simp [shallowList]
  | cons v l ih => simp [shallowList, ih]

/-- A value with no part that has parts itself. -/
def Flat : Json → Prop
  | .arr l => ∀ v ∈ l, ∃ s, v = .str s
  | .obj _ => False
  | _ => True

lemma Flat.shallow {v : Json} (h : Flat v) {depth : ℕ} (hd : depth < maxJsonDepth) :
    PodStore.shallow depth v = true := by
  cases v with
  | arr l =>
      simp only [PodStore.shallow, Bool.and_eq_true, decide_eq_true_eq, shallowList_iff]
      refine ⟨hd, fun v hv => ?_⟩
      obtain ⟨s, rfl⟩ := h v hv
      exact decide_eq_true hd
  | obj l => exact h.elim
  | null | bool _ | num _ | str _ => exact decide_eq_true hd.le

/-- A value that is flat, or an object of flat values. -/
def Low (v : Json) : Prop := Flat v ∨ ∃ l, v = .obj l ∧ ∀ p ∈ l, Flat p.2

lemma Low.shallow {v : Json} (h : Low v) {depth : ℕ} (hd : depth + 1 < maxJsonDepth) :
    PodStore.shallow depth v = true := by
  rcases h with h | ⟨l, rfl, hl⟩
  · exact h.shallow (by omega)
  · simp only [PodStore.shallow, Bool.and_eq_true, decide_eq_true_eq, shallowFields_iff]
    exact ⟨by omega, fun p hp => (hl p hp).shallow hd⟩

/-! ### Receipts -/

section Receipts

variable {lib : Lib}

lemma flat_of_assertInteger {v : Json} {minimum maximum n : ℕ} {label : String}
    (h : assertInteger v minimum maximum label = .ok n) : Flat v := by
  cases v with
  | arr l | obj l => cases h
  | null | bool _ | num _ | str _ => exact trivial

lemma flat_of_stringsOf {v : Json} {l : List String} (h : stringsOf v = some l) : Flat v := by
  cases v with
  | arr vs =>
      intro v hv
      have hall : ∀ (vs : List Json) (l : List String), vs.mapM Json.asStr = some l →
          ∀ v ∈ vs, ∃ s, v = .str s := by
        intro vs
        induction vs with
        | nil => intro _ _ _ hv; cases hv
        | cons w vs ih =>
            intro l hl v hv
            rw [List.mapM_cons] at hl
            obtain ⟨s, hs, hl⟩ := Option.bind_eq_some_iff.mp hl
            obtain ⟨l', hl', -⟩ := Option.bind_eq_some_iff.mp hl
            rcases List.mem_cons.mp hv with rfl | hv
            · cases v with
              | str t => exact ⟨t, rfl⟩
              | _ => cases hs
            · exact ih l' hl' v hv
      exact hall vs l h v hv
  | obj l => cases h
  | null | bool _ | num _ | str _ => exact trivial

lemma flat_of_validateEvidence {v : Json} {label : String}
    (h : validateEvidence v label = .ok ()) : Flat v := by
  obtain ⟨l, harr, hfrom⟩ := bind_eq_ok.mp h
  obtain rfl := arr_of_assertArray harr
  have hall : ∀ (i : ℕ) (l : List Json), evidenceFrom label i l = .ok () →
      ∀ v ∈ l, ∃ s, v = .str s := by
    intro i l
    induction l generalizing i with
    | nil => intro _ _ hv; cases hv
    | cons w l ih =>
        intro h v hv
        obtain ⟨s, hs, h⟩ := bind_eq_ok.mp h
        rcases List.mem_cons.mp hv with rfl | hv
        · exact ⟨s, str_of_assertText hs⟩
        · exact ih _ h v hv
  exact hall 0 l hfrom

lemma flat_of_assertIdsCovered {v : Json} {requester owner ids : List String} {label : String}
    (h : assertIdsCovered v requester owner label = .ok ids) : Flat v := by
  have hall : ∀ (i : ℕ) (seen : List String) (l : List Json),
      coveredFrom requester owner label i seen l = .ok ids → ∀ v ∈ l, ∃ s, v = .str s := by
    intro i seen l
    induction l generalizing i seen with
    | nil => intro _ _ hv; cases hv
    | cons w l ih =>
        intro h v hv
        obtain ⟨s, hs, h⟩ := bind_eq_ok.mp h
        obtain ⟨_, -, h⟩ := bind_eq_ok.mp h
        obtain ⟨_, -, h⟩ := bind_eq_ok.mp h
        rcases List.mem_cons.mp hv with rfl | hv
        · exact ⟨s, (str_of_assertForm hs).1⟩
        · exact ih _ _ h v hv
  cases v with
  | arr l =>
      obtain ⟨_, -, h⟩ := bind_eq_ok.mp h
      exact hall 0 [] l h
  | _ => cases h

/-- The value that is read for a key is the one that stands there. -/
lemma field_of_mem {l : Fields} (h : (l.map Prod.fst).Nodup) {p : String × Json} (hp : p ∈ l) :
    field l p.1 = p.2 := by
  rw [PodStore.field, lookup_of_mem h hp, Option.getD_some]

lemma low_of_request {plan : Plan} {writerId : String} {v : Json} {r : Request}
    (h : validateDependencyRequest lib plan writerId v = .ok r) (hv : keysOnce v = true) :
    Low v := by
  obtain ⟨_, -, h⟩ := bind_eq_ok.mp h
  obtain ⟨l, hl, h⟩ := bind_eq_ok.mp h
  obtain ⟨_, howner, h⟩ := bind_eq_ok.mp h
  obtain ⟨_, -, h⟩ := bind_eq_ok.mp h
  obtain ⟨path, hpath, h⟩ := bind_eq_ok.mp h
  obtain ⟨_, -, h⟩ := bind_eq_ok.mp h
  obtain ⟨_, hreqs, h⟩ := bind_eq_ok.mp h
  obtain ⟨_, haccs, h⟩ := bind_eq_ok.mp h
  obtain ⟨_, -, h⟩ := bind_eq_ok.mp h
  obtain ⟨_, hdigest, h⟩ := bind_eq_ok.mp h
  obtain ⟨_, hneed, h⟩ := bind_eq_ok.mp h
  obtain ⟨_, hwhy, -⟩ := bind_eq_ok.mp h
  obtain ⟨rfl, hkeys⟩ := keys_of_exactObject hl
  simp only [keysOnce, Bool.and_eq_true, decide_eq_true_eq] at hv
  refine .inr ⟨l, rfl, fun p hp => ?_⟩
  have hfield := field_of_mem hv.1 hp
  have hkey := hkeys p hp
  simp only [requestFields, List.mem_cons, List.not_mem_nil, or_false] at hkey
  rw [← hfield]
  rcases hkey with hk | hk | hk | hk | hk | hk | hk <;> rw [hk]
  · have howner := require_eq.mp howner
    unfold PodStore.isStr at howner
    rw [PodStore.field]
    split at howner
    · rename_i hown
      rw [hown]
      exact trivial
    · cases howner
  · rw [str_of_assertRepositoryPath hpath]
    exact trivial
  · exact flat_of_assertIdsCovered hreqs
  · exact flat_of_assertIdsCovered haccs
  · rw [(str_of_assertForm hdigest).1]
    exact trivial
  · rw [str_of_assertText hneed]
    exact trivial
  · rw [str_of_assertText hwhy]
    exact trivial

/-- What is known of a receipt that was accepted. -/
structure GoodReceipt (v : Json) (receipt : WriterReceipt) : Prop where
  json : v = .obj receipt.json
  keys : ∀ p ∈ receipt.json, p.1 ∈ writerReceiptFields
  baseSha : receipt.json.lookup "baseSha" = some (.str receipt.baseSha)
  low : ∀ p ∈ receipt.json, Low p.2
  fits : bytes (text v) ≤ maxReceiptBytes

lemma goodReceipt {templateJson : Json} {plan : Plan} {slot : Slot} {executionBaseSha : String}
    {deliveredInbox : List Json} {previousInboxCursor : ℕ} {v : Json} {receipt : WriterReceipt}
    (h : validateWriterReceipt lib templateJson plan slot executionBaseSha deliveredInbox
      previousInboxCursor v = .ok receipt) (hv : keysOnce v = true) : GoodReceipt v receipt := by
  obtain ⟨_, -, h⟩ := bind_eq_ok.mp h
  obtain ⟨_, -, h⟩ := bind_eq_ok.mp h
  obtain ⟨_, -, h⟩ := bind_eq_ok.mp h
  obtain ⟨l, hl, h⟩ := bind_eq_ok.mp h
  obtain ⟨outcome, houtcome, h⟩ := bind_eq_ok.mp h
  obtain ⟨baseSha, hbase, h⟩ := bind_eq_ok.mp h
  obtain ⟨_, -, h⟩ := bind_eq_ok.mp h
  obtain ⟨_, hwhat, h⟩ := bind_eq_ok.mp h
  obtain ⟨why, hwhy, h⟩ := bind_eq_ok.mp h
  obtain ⟨_, hevidence, h⟩ := bind_eq_ok.mp h
  obtain ⟨_, hreqs, h⟩ := bind_eq_ok.mp h
  obtain ⟨_, haccs, h⟩ := bind_eq_ok.mp h
  obtain ⟨_, -, h⟩ := bind_eq_ok.mp h
  obtain ⟨cursor, hcursor, h⟩ := bind_eq_ok.mp h
  obtain ⟨_, -, h⟩ := bind_eq_ok.mp h
  have hrest : Low (field l "dependencyRequest") ∧ receiptFits v "writer receipt" = .ok () ∧
      receipt.json = l ∧ receipt.baseSha = baseSha := by
    have hend {request : Option Request} (h : (do
        receiptFits v "writer receipt"
        pure (WriterReceipt.mk outcome baseSha why cursor request l) :
          Except String WriterReceipt) = .ok receipt) :
        receiptFits v "writer receipt" = .ok () ∧ receipt.json = l ∧ receipt.baseSha = baseSha := by
      obtain ⟨_, hfits, h⟩ := bind_eq_ok.mp h
      obtain rfl := Except.ok.inj h
      exact ⟨hfits, rfl, rfl⟩
    dsimp only at h
    split_ifs at h
    · obtain ⟨_, hobject, h⟩ := bind_eq_ok.mp h
      obtain ⟨request, hrequest, h⟩ := bind_eq_ok.mp h
      refine ⟨low_of_request hrequest ?_, hend h⟩
      obtain ⟨rfl, -⟩ := keys_of_exactObject hl
      exact keysOnce_field hv
    · obtain ⟨_, hnull, h⟩ := bind_eq_ok.mp h
      refine ⟨?_, hend h⟩
      have hnull := require_eq.mp hnull
      unfold PodStore.isNull at hnull
      rw [PodStore.field]
      split at hnull
      · rename_i hnone
        rw [hnone]
        exact .inl trivial
      · cases hnull
  obtain ⟨hrequest, hfits, hjson, hsha⟩ := hrest
  have hobj := (keys_of_exactObject hl).1
  have hkeys := (keys_of_exactObject hl).2
  have hnodup : (l.map Prod.fst).Nodup := by
    rw [hobj] at hv
    simp only [keysOnce, Bool.and_eq_true, decide_eq_true_eq] at hv
    exact hv.1
  refine ⟨by rw [hjson, hobj], by rw [hjson]; exact hkeys, ?_, ?_, require_eq.mp hfits⟩
  · have hstr := (str_of_assertForm hbase).1
    rw [hjson, hsha]
    unfold PodStore.field at hstr
    cases hlook : l.lookup "baseSha" with
    | none =>
        rw [hlook] at hstr
        cases hstr
    | some v =>
        rw [hlook, Option.getD_some] at hstr
        rw [hstr]
  · rw [hjson]
    intro p hp
    have hkey := hkeys p hp
    simp only [writerReceiptFields, List.mem_cons, List.not_mem_nil, or_false] at hkey
    rw [← field_of_mem hnodup hp]
    rcases hkey with hk | hk | hk | hk | hk | hk | hk | hk | hk <;> rw [hk]
    · unfold writerOutcomeOf at houtcome
      left
      split at houtcome
      all_goals first
        | (rename_i hout; rw [hout]; exact trivial)
        | cases houtcome
    · rw [(str_of_assertForm hbase).1]
      exact .inl trivial
    · rw [str_of_assertText hwhat]
      exact .inl trivial
    · rw [str_of_assertText hwhy]
      exact .inl trivial
    · exact .inl (flat_of_validateEvidence hevidence)
    · exact .inl (flat_of_stringsOf (require_eq.mp hreqs))
    · exact .inl (flat_of_stringsOf (require_eq.mp haccs))
    · exact .inl (flat_of_assertInteger hcursor)
    · exact hrequest

end Receipts

/-! ### Work results -/

lemma escapedSize_of_isPortable {c : Char} (h : isPortable c = true) : escapedSize c = 1 := by
  have hascii := ascii_of_isPortable h
  have hall : ∀ n < 128, isPortable (Char.ofNat n) = true → escapedSize (Char.ofNat n) = 1 := by
    decide
  have := hall c.toNat hascii
  rw [Char.ofNat_toNat] at this
  exact this h

lemma isPortable_of_isHex {c : Char} (h : isHex c = true) : isPortable c = true := by
  have hall : ∀ n < 128, isHex (Char.ofNat n) = true → isPortable (Char.ofNat n) = true := by
    decide
  have hascii : c.toNat < 128 := by
    simp only [isHex, Char.isDigit, Bool.or_eq_true, Bool.and_eq_true, decide_eq_true_eq] at h
    rcases h with ⟨-, h⟩ | ⟨-, h⟩
    · exact Nat.lt_of_le_of_lt h (by decide)
    · exact Nat.lt_of_le_of_lt (show c.toNat ≤ 'f'.toNat from h) (by decide)
  have := hall c.toNat hascii
  rw [Char.ofNat_toNat] at this
  exact this h

/-- A text that needs no escapes. -/
lemma escapedLen_eq_length {s : String} (h : ∀ c ∈ s.toList, escapedSize c = 1) :
    escapedLen s = s.length := by
  rw [escapedLen, List.map_congr_left h, List.map_const', List.sum_replicate,
    String.length_toList, nsmul_eq_mul, mul_one, Nat.cast_id]

lemma escapedLen_of_portable {s : String} (h : portable s = true) : escapedLen s = s.length := by
  refine escapedLen_eq_length fun c hc => ?_
  rw [portable, Bool.and_eq_true, List.all_eq_true] at h
  have hw : ∀ w ∈ s.toList.splitOn '/', ∀ c ∈ w, isPortable c = true := by
    intro w hw
    have hall := h.2 w hw
    rw [Bool.and_eq_true, List.all_eq_true] at hall
    exact hall.2
  rcases mem_of_segments hw c hc with rfl | hp
  · decide
  · exact escapedSize_of_isPortable hp

lemma escapedLen_of_hex {s : String} (h : s.toList.all isHex = true) :
    escapedLen s = s.length :=
  escapedLen_eq_length fun c hc =>
    escapedSize_of_isPortable (isPortable_of_isHex (List.all_eq_true.mp h c hc))

lemma length_of_isGitSha {s : String} (h : isGitSha s = true) :
    escapedLen s = s.length ∧ s.length ≤ 64 := by
  simp only [isGitSha, Bool.and_eq_true, Bool.or_eq_true, beq_iff_eq] at h
  refine ⟨escapedLen_of_hex h.1, ?_⟩
  rcases h.2 with h | h <;> omega

lemma bytes_toString (n : ℕ) : bytes (toString n).toList = (toString n).length := by
  have hone : ∀ c ∈ (toString n).toList, c.utf8Size = 1 := by
    intro c hc
    have hdigit : c.isDigit = true := List.all_eq_true.mp (Docker.all_digits n) c hc
    have hall : ∀ m < 128, (Char.ofNat m).utf8Size = 1 := by decide
    have hlt : c.toNat < 128 := ascii_of_isPortable (by simp [isPortable, Char.isAlphanum, hdigit])
    have := hall c.toNat hlt
    rwa [Char.ofNat_toNat] at this
  rw [bytes, List.map_congr_left hone, List.map_const', List.sum_replicate, String.length_toList,
    nsmul_eq_mul, mul_one, Nat.cast_id]

/-- What is known of a commit that was taken. -/
structure GoodCommit (template : Template) (receipt : WriterReceipt) (c : Commit) : Prop where
  baseSha : c.baseSha = receipt.baseSha
  resultSha : isGitSha c.resultSha = true
  files : c.files ≠ [] ∧ ∀ f ∈ c.files, portable f = true
  changedBytes : c.changedBytes ≤ template.maxBytes
  diffSha256 : isSha256 c.diffSha256 = true

lemma goodCommit {lib : Lib} {template : Template} {plan : Plan} {slot : Slot}
    {receipt : WriterReceipt} {v : Json} {c : Commit}
    (h : checkCommit lib template plan slot receipt.baseSha v = .ok c) :
    GoodCommit template receipt c := by
  have hfiles := (checkCommit_spec h).2
  obtain ⟨l, -, h⟩ := bind_eq_ok.mp h
  obtain ⟨baseSha, -, h⟩ := bind_eq_ok.mp h
  obtain ⟨_, hbase, h⟩ := bind_eq_ok.mp h
  obtain ⟨paths, hpaths, h⟩ := bind_eq_ok.mp h
  obtain ⟨files, hfrom, h⟩ := bind_eq_ok.mp h
  obtain ⟨changedBytes, -, h⟩ := bind_eq_ok.mp h
  obtain ⟨_, hmax, h⟩ := bind_eq_ok.mp h
  obtain ⟨diffSha256, hdiff, h⟩ := bind_eq_ok.mp h
  obtain ⟨resultSha, hresult, h⟩ := bind_eq_ok.mp h
  obtain rfl := Except.ok.inj h
  refine ⟨require_eq.mp hbase, (str_of_assertForm hresult).2, ⟨?_, fun f hf => (hfiles f hf).1⟩,
    require_eq.mp hmax, (str_of_assertForm hdiff).2⟩
  obtain ⟨new, hnew, rfl, -⟩ := changedPathsFrom_spec hfrom
  rintro rfl
  obtain rfl : new = [] := by simpa using hnew.symm
  have hv := arr_of_assertArray hpaths
  rw [hv] at hpaths
  obtain ⟨_, hlength, -⟩ := bind_eq_ok.mp hpaths
  exact Nat.not_succ_le_zero 0 (require_eq.mp hlength).1

/-- The fields that a work result has in addition to those of its receipt. -/
def addedFields (slot : Slot) (c : Commit) : Fields :=
  [("workItemId", .str slot.name), ("ownerSlot", .str slot.name), ("resultSha", .str c.resultSha),
    ("files", strings c.files), ("changedBytes", Wire.ofNat c.changedBytes),
    ("diffSha256", .str c.diffSha256)]

/-- The bytes of a work result: the receipt, three more than its length for every path, and what
the rest takes. -/
def workBytes (slot : Slot) (receipt : WriterReceipt) (c : Commit) : ℕ :=
  bytes (text (.obj receipt.json)) + (c.files.map fun f => f.length + 3).sum +
    2 * slot.name.length + c.resultSha.length + (toString c.changedBytes).length + 153

section Work

variable {template : Template} {slot : Slot} {v : Json} {receipt : WriterReceipt} {c : Commit}

lemma workOf_json (hr : GoodReceipt v receipt) (hc : GoodCommit template receipt c) :
    (workOf slot receipt c).json = receipt.json ++ addedFields slot c := by
  have hnew {key : String} (hkey : key ∉ writerReceiptFields) : key ∉ receipt.json.map Prod.fst := by
    intro hmem
    obtain ⟨p, hp, rfl⟩ := List.mem_map.mp hmem
    exact hkey (hr.keys p hp)
  have hadded : spread receipt.json (addedFields slot c) = receipt.json ++ addedFields slot c := by
    refine spread_of_new (by simp [addedFields]) fun key hkey => hnew ?_
    simp only [addedFields, List.map_cons, List.map_nil, List.mem_cons, List.not_mem_nil,
      or_false] at hkey
    rcases hkey with rfl | rfl | rfl | rfl | rfl | rfl <;> decide
  -- the base is in the receipt already, with the same value
  have hbase : (spread receipt.json ((addedFields slot c).take 2)).lookup "baseSha" =
      some (.str c.baseSha) := by
    have htwo : spread receipt.json ((addedFields slot c).take 2) =
        receipt.json ++ (addedFields slot c).take 2 := by
      refine spread_of_new (by simp [addedFields]) fun key hkey => hnew ?_
      simp only [addedFields, List.take_succ_cons, List.take_zero, List.map_cons, List.map_nil,
        List.mem_cons, List.not_mem_nil, or_false] at hkey
      rcases hkey with rfl | rfl <;> decide
    rw [htwo, List.lookup_append, hr.baseSha, hc.baseSha]
    rfl
  calc (workOf slot receipt c).json
      = spread (put "baseSha" (.str c.baseSha)
          (spread receipt.json ((addedFields slot c).take 2))) ((addedFields slot c).drop 2) := rfl
    _ = spread (spread receipt.json ((addedFields slot c).take 2))
          ((addedFields slot c).drop 2) := by rw [put_of_lookup hbase]
    _ = spread receipt.json (addedFields slot c) := rfl
    _ = receipt.json ++ addedFields slot c := hadded

lemma lineSize_work (hr : GoodReceipt v receipt) (hc : GoodCommit template receipt c) :
    lineSize (.obj (workOf slot receipt c).json) = workBytes slot receipt c := by
  have hname : escapedLen slot.name = slot.name.length := by cases slot <;> decide
  have hdigest : escapedLen c.diffSha256 = 64 := by
    have h := hc.diffSha256
    simp only [isSha256, Bool.and_eq_true, beq_iff_eq] at h
    rw [escapedLen_of_hex h.1, h.2]
  have hfiles : bytes (text (strings c.files)) =
      (c.files.map fun f => f.length + 3).sum + 1 := by
    rw [strings, bytes_text_arr (by simpa using hc.files.1), List.map_map]
    congr 2
    refine List.map_congr_left fun f hf => ?_
    simp only [Function.comp_apply, bytes_text_str, escapedLen_of_portable (hc.files.2 f hf)]
  have hdigits : bytes (text (Wire.ofNat c.changedBytes)) = (toString c.changedBytes).length :=
    bytes_toString _
  have hnonempty : receipt.json ≠ [] := by
    intro hnil
    have := hr.baseSha
    rw [hnil] at this
    cases this
  have hadded : ((addedFields slot c).map fieldBytes).sum =
      (c.files.map fun f => f.length + 3).sum + 2 * slot.name.length + c.resultSha.length +
        (toString c.changedBytes).length + 152 := by
    have hkeys : escapedLen "workItemId" = 10 ∧ escapedLen "ownerSlot" = 9 ∧
        escapedLen "resultSha" = 9 ∧ escapedLen "files" = 5 ∧ escapedLen "changedBytes" = 12 ∧
        escapedLen "diffSha256" = 10 := by decide
    simp only [addedFields, List.map_cons, List.map_nil, List.sum_cons, List.sum_nil, fieldBytes,
      bytes_text_str, hname, hdigest, hfiles, hdigits, hkeys,
      (length_of_isGitSha hc.resultSha).1]
    omega
  rw [lineSize, workOf_json hr hc, bytes_text_obj (by simp [hnonempty]), List.map_append,
    List.sum_append, hadded, workBytes, bytes_text_obj hnonempty]
  omega

lemma shallow_work (hr : GoodReceipt v receipt) (hc : GoodCommit template receipt c) :
    shallow 0 (.obj (workOf slot receipt c).json) = true := by
  rw [workOf_json hr hc]
  simp only [PodStore.shallow, Bool.and_eq_true, decide_eq_true_eq, shallowFields_iff]
  refine ⟨by decide, fun p hp => ?_⟩
  rcases List.mem_append.mp hp with hp | hp
  · exact (hr.low p hp).shallow (by decide)
  · refine Flat.shallow ?_ (by decide)
    simp only [addedFields, List.mem_cons, List.not_mem_nil, or_false] at hp
    rcases hp with rfl | rfl | rfl | rfl | rfl | rfl
    · exact trivial
    · exact trivial
    · exact trivial
    · intro w hw
      obtain ⟨f, -, rfl⟩ := List.mem_map.mp hw
      exact ⟨f, rfl⟩
    · exact trivial
    · exact trivial

lemma workBytes_le (hr : GoodReceipt v receipt) (hc : GoodCommit template receipt c)
    (hbytes : template.maxBytes < 10 ^ 9) :
    workBytes slot receipt c ≤ maxReceiptBytes + (c.files.map fun f => f.length + 3).sum + 252 := by
  have hfits : bytes (text (.obj receipt.json)) ≤ maxReceiptBytes := hr.json ▸ hr.fits
  have hname : slot.name.length ≤ 13 := by cases slot <;> decide
  have hsha := (length_of_isGitSha hc.resultSha).2
  have hdigits : (toString c.changedBytes).length ≤ 9 :=
    Docker.length_digits (by decide) (Nat.lt_of_le_of_lt hc.changedBytes hbytes)
  unfold workBytes
  omega

end Work

/-! ### Prompts -/

/-- What stands before the details of a prompt. -/
def promptHeader (phase : String) : Fields :=
  [("version", Wire.ofNat 1), ("phase", .str phase),
    ("authority", .str "Return only the strict receipt for this bounded execution.")]

/-- The bytes of a prompt with these details. -/
def promptBytes (instructions phase : String) (details : Fields) : ℕ :=
  len instructions + len contextHeading +
    ((promptHeader phase ++ details).map (prettyFieldBytes 2)).sum + 2

/-- The outcome of a check of a size: it fails with the message where the limit is exceeded. -/
def Limited {α : Type} (x : Except String α) (size limit : ℕ) (message : String) : Prop :=
  (size ≤ limit → ∃ a, x = .ok a) ∧ (limit < size → x = .error message)

lemma limited_work {template : Template} {slot : Slot} {v : Json} {receipt : WriterReceipt}
    {c : Commit} (hr : GoodReceipt v receipt) (hc : GoodCommit template receipt c) :
    Limited (serializeRecord lineSize (.obj (workOf slot receipt c).json) "work result")
      (workBytes slot receipt c) 65536 "work result must serialize to at most 65536 bytes" := by
  have hvalid : PodStore.validateJson (.obj (workOf slot receipt c).json) "work result" =
      .ok () := require_eq.mpr (shallow_work hr hc)
  refine ⟨fun h => ⟨.obj (workOf slot receipt c).json, ?_⟩, fun h => ?_⟩
  · unfold serializeRecord
    rw [hvalid, require, if_pos (by rw [lineSize_work hr hc]; exact h)]
    rfl
  · unfold serializeRecord
    rw [hvalid, require, if_neg (by rw [lineSize_work hr hc]; exact not_le.mpr h)]
    rfl

lemma limited_buildPrompt {instructions phase : String} {details : Fields}
    (hkeys : (details.map Prod.fst).Nodup)
    (hnew : ∀ key ∈ details.map Prod.fst, key ∉ ["version", "phase", "authority"]) :
    Limited (buildPrompt instructions phase details) (promptBytes instructions phase details)
      258048 ("pod " ++ phase ++ " prompt exceeds 258048 bytes") := by
  have hspread : spread (promptHeader phase) details = promptHeader phase ++ details :=
    spread_of_new hkeys hnew
  have hsize : len instructions + len contextHeading +
      bytes (pretty 0 (.obj (spread (promptHeader phase) details))) =
      promptBytes instructions phase details := by
    rw [hspread, bytes_pretty_obj 0 (by simp [promptHeader]), promptBytes, Nat.zero_add]
    omega
  unfold buildPrompt
  refine ⟨fun h => ⟨_, if_neg ?_⟩, fun h => ?_⟩
  · rw [← hsize] at h
    exact not_lt.mpr h
  · rw [← hsize] at h
    exact if_pos h

section Prompts

variable (cfg : Config) (at' : Attempt)

/-- A string among the details. -/
lemma promptBytes_str (instructions phase key d : String) (before after : Fields) :
    promptBytes instructions phase (before ++ [(key, Json.str d)] ++ after) =
      promptBytes instructions phase (before ++ after) + escapedLen key + escapedLen d + 10 := by
  simp only [promptBytes, List.map_append, List.map_cons, List.map_nil, List.sum_append,
    List.sum_cons, List.sum_nil, prettyFieldBytes, bytes_pretty_str]
  omega

/-- The bytes of the prompt of a checker that is told of no diff. -/
def checkerBytes (slot : Slot) (w : Work) (deliveredInbox : List Json) : ℕ :=
  promptBytes (cfg.prompt .checker) "checker"
    (checkerDetails cfg at' slot { w with diff := none } deliveredInbox)

lemma limited_checker {slot : Slot} {w : Work} {d : String} (hd : w.diff = some (.str d))
    (deliveredInbox : List Json) :
    Limited (buildPrompt (cfg.prompt .checker) "checker"
        (checkerDetails cfg at' slot w deliveredInbox))
      (checkerBytes cfg at' slot w deliveredInbox + escapedLen d + 14) 258048
      "pod checker prompt exceeds 258048 bytes" := by
  have hkey : escapedLen "diff" = 4 := by decide
  have hsize : promptBytes (cfg.prompt .checker) "checker"
      (checkerDetails cfg at' slot w deliveredInbox) =
        checkerBytes cfg at' slot w deliveredInbox + escapedLen d + 14 := by
    unfold checkerBytes checkerDetails
    rw [hd]
    simp only [optional]
    rw [promptBytes_str, hkey, List.append_nil]
    omega
  rw [← hsize]
  refine limited_buildPrompt ?_ ?_
  · simp [checkerDetails, hd, optional]
  · intro key hkey
    simp only [checkerDetails, hd, optional, List.map_append, List.map_cons, List.map_nil,
      List.mem_append, List.mem_cons, List.not_mem_nil, or_false] at hkey
    rcases hkey with ((rfl | rfl | rfl | rfl | rfl | rfl | rfl | rfl) | rfl) | rfl <;> decide

/-- What the planner is told. -/
def plannerDetails (baseSha : String) (n : ℕ) (prior : List Evidence) : Fields :=
  [("assignment", cfg.assignment), ("attempt", Wire.ofNat n), ("baseSha", .str baseSha),
    ("priorAttempts", .arr (prior.map Evidence.json))]

/-- What the attempts before add to the prompt of a planner. -/
def priorBytes (prior : List Evidence) : ℕ :=
  if prior = [] then 0 else (prior.map fun e => bytes (pretty 4 e.json) + 6).sum + 2

lemma bytes_prior (prior : List Evidence) :
    bytes (pretty 2 (.arr (prior.map Evidence.json))) = 2 + priorBytes prior := by
  by_cases hnil : prior = []
  · rw [hnil]
    decide
  · have hmap : prior.map Evidence.json ≠ [] := by simpa using hnil
    have hsum : ((fun v => 2 + 2 + bytes (pretty (2 + 2) v) + 2) ∘ Evidence.json) =
        fun e => bytes (pretty 4 e.json) + 6 := by
      funext e
      simp only [Function.comp_apply, Nat.reduceAdd]
      generalize bytes (pretty 4 e.json) = n
      omega
    rw [bytes_pretty_arr 2 hmap, List.map_map, hsum, priorBytes, if_neg hnil]
    omega

lemma limited_planner (baseSha : String) (n : ℕ) (prior : List Evidence) :
    Limited (buildPrompt (cfg.prompt .planner) "planner" (plannerDetails cfg baseSha n prior))
      (promptBytes (cfg.prompt .planner) "planner" (plannerDetails cfg baseSha n []) +
        priorBytes prior) 258048 "pod planner prompt exceeds 258048 bytes" := by
  have hsize : promptBytes (cfg.prompt .planner) "planner" (plannerDetails cfg baseSha n prior) =
      promptBytes (cfg.prompt .planner) "planner" (plannerDetails cfg baseSha n []) +
        priorBytes prior := by
    have hempty : bytes (pretty 2 (.arr (List.map Evidence.json []))) = 2 := by decide
    simp only [promptBytes, plannerDetails, List.map_append, List.map_cons, List.map_nil,
      List.sum_append, List.sum_cons, List.sum_nil, prettyFieldBytes, bytes_prior]
    rw [List.map_nil] at hempty
    rw [hempty]
    omega
  rw [← hsize]
  refine limited_buildPrompt (by simp [plannerDetails]) fun key hkey => ?_
  simp only [plannerDetails, List.map_cons, List.map_nil, List.mem_cons, List.not_mem_nil,
    or_false] at hkey
  rcases hkey with rfl | rfl | rfl | rfl <;> decide

end Prompts

/-! ### Limits -/

lemma maxBytes_of_validatePodTemplate {lib : Lib} {v : Json} {t : Template}
    (h : validatePodTemplate lib v = .ok t) : t.maxBytes < 10 ^ 9 :=
  Nat.lt_of_le_of_lt (bounds_of_validatePodTemplate h).bytes.2 (by decide)

/-- **What the size limits leave for a writer's work.** A work result that was accepted so far is
taken by the store exactly if its receipt, its paths with three bytes more for each and the rest
come to at most 65536 bytes, so at any rate where the paths take no more than 3844. The prompt of
its checker is built exactly if the diff as a JSON string and all else come to at most 258048, and
that of a planner exactly if all that the attempts before have left does. Else the failure names
the limit. -/
theorem size_limits {cfg : Config} {at' : Attempt} {slot : Slot} {executionBaseSha : String}
    {deliveredInbox : List Json} {previousInboxCursor : ℕ} {v u : Json} {receipt : WriterReceipt}
    {c : Commit} (htemplate : validatePodTemplate cfg.lib cfg.templateJson = .ok cfg.template)
    (hv : keysOnce v = true)
    (hreceipt : validateWriterReceipt cfg.lib cfg.templateJson at'.plan slot executionBaseSha
      deliveredInbox previousInboxCursor v = .ok receipt)
    (hcommit : checkCommit cfg.lib cfg.template at'.plan slot receipt.baseSha u = .ok c) :
    Limited (serializeRecord lineSize (.obj (workOf slot receipt c).json) "work result")
      (workBytes slot receipt c) 65536 "work result must serialize to at most 65536 bytes" ∧
    ((c.files.map fun f => f.length + 3).sum ≤ 3844 → workBytes slot receipt c ≤ 65536) ∧
    (∀ d delivered, c.diff = some (.str d) →
      Limited (buildPrompt (cfg.prompt .checker) "checker"
          (checkerDetails cfg at' slot (workOf slot receipt c) delivered))
        (checkerBytes cfg at' slot (workOf slot receipt c) delivered + escapedLen d + 14) 258048
        "pod checker prompt exceeds 258048 bytes") ∧
    ∀ baseSha n prior,
      Limited (buildPrompt (cfg.prompt .planner) "planner" (plannerDetails cfg baseSha n prior))
        (promptBytes (cfg.prompt .planner) "planner" (plannerDetails cfg baseSha n []) +
          priorBytes prior) 258048 "pod planner prompt exceeds 258048 bytes" := by
  have hr := goodReceipt hreceipt hv
  have hc := goodCommit hcommit
  refine ⟨limited_work hr hc, fun hfiles => ?_, fun d delivered hd => ?_,
    fun baseSha n prior => ?_⟩
  · refine (workBytes_le hr hc (maxBytes_of_validatePodTemplate htemplate)).trans ?_
    unfold maxReceiptBytes
    omega
  · exact limited_checker cfg at' hd delivered
  · exact limited_planner cfg baseSha n prior

/-! ### Many long paths -/

/-- The name of the `i`th of the files; no two have the same letters. -/
def letters (i : ℕ) : List Char :=
  List.replicate (200 - i % 200) 'x' ++ List.replicate (i % 200) 'y' ++
    List.replicate (i / 200) 'z'

def widePath (i : ℕ) : String := "src/Core/" ++ String.ofList (letters i)

def widePaths (n : ℕ) : List String := (List.range n).map widePath

lemma mem_letters {i : ℕ} {c : Char} (h : c ∈ letters i) : c = 'x' ∨ c = 'y' ∨ c = 'z' := by
  simp only [letters, List.mem_append, List.mem_replicate] at h
  rcases h with (⟨-, rfl⟩ | ⟨-, rfl⟩) | ⟨-, rfl⟩ <;> simp

lemma length_letters (i : ℕ) : (letters i).length = 200 + i / 200 := by
  have := Nat.mod_lt i (show 0 < 200 by decide)
  simp only [letters, List.length_append, List.length_replicate]
  omega

lemma toList_widePath (i : ℕ) : (widePath i).toList =
    ['s', 'r', 'c', '/', 'C', 'o', 'r', 'e', '/'] ++ letters i := by
  have hroot : "src/Core/".toList = ['s', 'r', 'c', '/', 'C', 'o', 'r', 'e', '/'] := by decide
  rw [widePath, String.toList_append, hroot, String.toList_ofList]

lemma length_widePath (i : ℕ) : (widePath i).length = 209 + i / 200 := by
  rw [← String.length_toList, toList_widePath, List.length_append, length_letters]
  simp
  omega

lemma segments_widePath (i : ℕ) :
    segments (widePath i) = [['s', 'r', 'c'], ['C', 'o', 'r', 'e'], letters i] := by
  have hlast : '/' ∉ letters i := by
    intro h
    rcases mem_letters h with h | h | h <;> cases h
  have hsplit : (widePath i).toList =
      ['s', 'r', 'c'] ++ '/' :: (['C', 'o', 'r', 'e'] ++ '/' :: letters i) := toList_widePath i
  rw [segments, hsplit, List.splitOn_append_cons_self, List.splitOn_append_cons_self,
    List.splitOn_eq_singleton hlast]
  rfl

/-- What is true of the letters that occur is true of the path. -/
lemma all_widePath {p : Char → Bool} (i : ℕ)
    (h : ['s', 'r', 'c', '/', 'C', 'o', 'r', 'e', '/', 'x', 'y', 'z'].all p = true) :
    (widePath i).toList.all p = true := by
  rw [List.all_eq_true] at h ⊢
  intro c hc
  rw [toList_widePath, List.mem_append] at hc
  rcases hc with hc | hc
  · exact h c (List.mem_append_left ['x', 'y', 'z'] hc)
  · rcases mem_letters hc with rfl | rfl | rfl <;> exact h _ (by simp)

lemma len_widePath (i : ℕ) : len (widePath i) = 209 + i / 200 := by
  have hone : ∀ c ∈ (widePath i).toList, c.utf8Size = 1 := fun c hc => by
    have := List.all_eq_true.mp (all_widePath (p := fun c => c.utf8Size == 1) i (by decide)) c hc
    exact beq_iff_eq.mp this
  rw [len, bytes, List.map_congr_left hone, List.map_const', List.sum_replicate,
    String.length_toList, length_widePath, nsmul_eq_mul, mul_one, Nat.cast_id]

lemma letters_ne (i : ℕ) : letters i ≠ [] := by
  intro h
  have := length_letters i
  rw [h, List.length_nil] at this
  omega

/-- Each of the paths is one that a repository may have. -/
lemma assert_widePath {i : ℕ} (hi : i < 6000) (label : String) :
    assertRepositoryFile (.str (widePath i)) label = .ok (widePath i) := by
  have hblank : (widePath i).toList.all isBlank = false := by
    rw [toList_widePath]
    rfl
  have hunsafe : (widePath i).toList.any isUnsafe = false := by
    have := all_widePath (p := fun c => !isUnsafe c) i (by decide)
    simpa using this
  have hlen := len_widePath i
  have htext : assertText (.str (widePath i)) label 512 = .ok (widePath i) := by
    unfold assertText
    dsimp only
    rw [require, if_pos ⟨hblank, by omega⟩, require, if_pos hunsafe]
    rfl
  have hcanonical : canonical (widePath i) = true := by
    have hslash := all_widePath (p := (· != '\\')) i (by decide)
    have hlast : letters i ≠ ['.'] ∧ letters i ≠ ['.', '.'] := by
      constructor <;> intro h <;> have := length_letters i <;> rw [h] at this <;>
        simp at this <;> omega
    rw [canonical, hslash, segments_widePath, toList_widePath]
    simp only [Bool.true_and, List.all_cons, List.all_nil, Bool.and_true, letters_ne, hlast,
      bne_iff_ne, ne_eq, not_false_eq_true, Bool.and_eq_true]
    exact ⟨rfl, by decide, by decide, by decide⟩
  have hportable : portable (widePath i) = true := by
    have hlast : (letters i).all isPortable = true := by
      refine List.all_eq_true.mpr fun c hc => ?_
      rcases mem_letters hc with rfl | rfl | rfl <;> decide
    rw [portable, segments_widePath, Bool.and_eq_true, decide_eq_true_eq]
    refine ⟨by omega, ?_⟩
    simp only [List.all_cons, List.all_nil, hlast, Bool.and_true, bne_iff_ne, ne_eq, letters_ne,
      not_false_eq_true, Bool.and_eq_true]
    decide
  have hcontrol : controlPath (widePath i) = false := by
    have hlast : ∀ s : String, s.toList.length < 200 → (letters i).map Char.toLower ≠ s.toList := by
      intro s hs h
      have := congrArg List.length h
      rw [List.length_map, length_letters] at this
      omega
    rw [controlPath, segments_widePath]
    have hgit := hlast ".git" (by decide)
    have hhub := hlast ".github" (by decide)
    simp only [List.any_cons, List.any_nil, Bool.or_false, Bool.or_eq_false_iff,
      beq_eq_false_iff_ne, ne_eq]
    refine ⟨⟨?_, ?_⟩, ⟨?_, ?_⟩, hgit, hhub⟩ <;> decide
  unfold assertRepositoryFile assertRepositoryPath
  rw [htext]
  simp only [bind, Except.bind, require, hcanonical, hportable, hcontrol, if_true]
  rfl

/-- No two of the paths are the same, and no two differ in their capitals only. -/
lemma toLowerCase_widePath (i : ℕ) : toLowerCase plainLib (widePath i) =
    String.ofList (['s', 'r', 'c', '/', 'c', 'o', 'r', 'e', '/'] ++ letters i) := by
  have hascii : isAscii (widePath i) = true := all_widePath i (by decide)
  have hlower : (letters i).map Char.toLower = letters i := by
    refine (List.map_congr_left fun c hc => ?_).trans (List.map_id _)
    rcases mem_letters hc with rfl | rfl | rfl <;> decide
  rw [toLowerCase, if_pos hascii, toList_widePath, List.map_append, hlower]
  rfl

lemma widePath_inj {i j : ℕ}
    (h : toLowerCase plainLib (widePath i) = toLowerCase plainLib (widePath j)) : i = j := by
  rw [toLowerCase_widePath, toLowerCase_widePath] at h
  have hletters : letters i = letters j := List.append_cancel_left (String.ofList_injective h)
  have hy : i % 200 = j % 200 := by
    have := congrArg (List.count 'y') hletters
    simpa [letters, List.count_append, List.count_replicate] using this
  have hz : i / 200 = j / 200 := by
    have := congrArg (List.count 'z') hletters
    simpa [letters, List.count_append, List.count_replicate] using this
  omega

lemma owned_widePath (i : ℕ) : pathIsOwned (widePath i) "src/Core" = true := by
  have hinside : inside "src/Core" (widePath i) = true := by
    rw [inside, toList_widePath]
    rfl
  rw [pathIsOwned, Bool.or_eq_true]
  exact .inr hinside

lemma changedPaths_wide (n k i : ℕ) (hn : i + n ≤ 6000) {writePaths : List String}
    (hw : "src/Core" ∈ writePaths) :
    changedPathsFrom plainLib writePaths k ((List.range i).map widePath)
      ((List.range' i n).map fun j => .str (widePath j)) =
      .ok ((List.range (i + n)).map widePath) := by
  induction n generalizing i k with
  | zero => rfl
  | succ n ih =>
      have hnew : toLowerCase plainLib (widePath i) ∉
          ((List.range i).map widePath).map (toLowerCase plainLib) := by
        intro hmem
        rw [List.map_map, List.mem_map] at hmem
        obtain ⟨j, hj, h⟩ := hmem
        rw [Function.comp_apply] at h
        obtain rfl := widePath_inj h
        exact absurd (List.mem_range.mp hj) (lt_irrefl _)
      have howned : writePaths.any (pathIsOwned (widePath i)) = true :=
        List.any_eq_true.mpr ⟨_, hw, owned_widePath i⟩
      have hrange : (List.range i).map widePath ++ [widePath i] =
          (List.range (i + 1)).map widePath := by
        rw [List.range_succ, List.map_append, List.map_singleton]
      have hrest := ih (k + 1) (i + 1) (by omega)
      rw [List.range'_succ, List.map_cons, changedPathsFrom, assert_widePath (by omega)]
      simp only [bind, Except.bind, require, if_pos hnew, if_pos howned, hrange]
      rw [hrest, Nat.add_right_comm, Nat.add_assoc]

/-- A new file of one line of so many letters. -/
def fileDiff (n : ℕ) (path : String) : String :=
  "diff --git a/" ++ path ++ " b/" ++ path ++ "\nnew file mode 100644\n--- /dev/null\n+++ b/" ++
    path ++ "\n@@ -0,0 +1 @@\n+" ++ String.ofList (List.replicate n 'a') ++ "\n"

def filesDiff (k n : ℕ) : String := String.join ((widePaths k).map (fileDiff n))

/-- A commit of so many of these files. -/
def filesCommit (k n : ℕ) : Json :=
  .obj [("baseSha", .str sampleSha), ("changedPaths", strings (widePaths k)),
    ("changedBytes", Wire.ofNat (k * (n + 1))), ("diffSha256", .str digest),
    ("resultSha", .str resultSha), ("diff", .str (filesDiff k n))]

/-- What the controller makes of it. -/
def takenCommit (k n : ℕ) : Commit where
  baseSha := sampleSha
  resultSha := resultSha
  files := widePaths k
  changedBytes := k * (n + 1)
  diffSha256 := digest
  diff := some (.str (filesDiff k n))

lemma escapedLen_append (s t : String) : escapedLen (s ++ t) = escapedLen s + escapedLen t := by
  rw [escapedLen, String.toList_append, List.map_append, List.sum_append]
  rfl

lemma le_escapedLen_letters (s t : String) (n : ℕ) :
    n ≤ escapedLen (s ++ String.ofList (List.replicate n 'a') ++ t) := by
  have hsize : escapedSize 'a' = 1 := by decide
  have hletters : escapedLen (String.ofList (List.replicate n 'a')) = n := by
    rw [escapedLen, String.toList_ofList, List.map_replicate, List.sum_replicate, hsize,
      nsmul_eq_mul, mul_one, Nat.cast_id]
  rw [escapedLen_append, escapedLen_append, hletters]
  omega

lemma le_escapedLen_filesDiff (n : ℕ) : n ≤ escapedLen (filesDiff 1 n) := by
  have hone : filesDiff 1 n = fileDiff n (widePath 0) := by
    simp only [filesDiff, widePaths, List.range_one, List.map_singleton, String.join,
      List.foldl_cons, List.foldl_nil, String.empty_append]
  rw [hone]
  exact le_escapedLen_letters _ _ n

lemma checkCommit_files {template : Template} {plan : Plan} {slot : Slot} {k n : ℕ}
    (hk : 0 < k) (hfiles : k ≤ template.maxFiles) (hmax : template.maxFiles ≤ 5000)
    (hbytes : k * (n + 1) ≤ template.maxBytes)
    (hw : "src/Core" ∈ (plan.writers slot).writePaths) :
    checkCommit plainLib template plan slot sampleSha (filesCommit k n) =
      .ok (takenCommit k n) := by
  have hpaths := changedPaths_wide k 0 0 (by omega) hw
  have hlist : (widePaths k).map Json.str =
      (List.range' 0 k).map fun j => .str (widePath j) := by
    rw [widePaths, List.map_map, List.range_eq_range']
    rfl
  have hsha : assertSha (.str sampleSha) "writer baseSha" = .ok sampleSha := by
    decide +kernel
  have harr : assertArray (strings (widePaths k)) 1 template.maxFiles
      "commit changedPaths are outside the fixed writer scope" =
        .ok ((widePaths k).map .str) := by
    unfold assertArray strings
    dsimp only
    rw [require, if_pos (by simp only [widePaths, List.length_map, List.length_range]; omega)]
    rfl
  have hsize := natOf_ofNat (k * (n + 1))
  have hdigest : assertForm isSha256 (.str digest) "commit diffSha256 must be a SHA-256 digest" =
      .ok digest := by decide +kernel
  have hresult : assertSha (.str resultSha) "writer resultSha" = .ok resultSha := by
    decide +kernel
  rw [List.range_zero, List.map_nil, Nat.zero_add] at hpaths
  rw [checkCommit]
  simp only [filesCommit, PodStore.plainObject, bind, Except.bind, field, PodStore.lookup_cons_eq,
    String.reduceEq, if_false, if_true, Option.getD_some, hsha, harr, hsize, hdigest, hresult,
    hlist, hpaths, require, Option.elim, if_pos hbytes]
  rfl

/-! ### Limits that do not compose -/

lemma le_pretty_field {l : Fields} {p : String × Json} (indent : ℕ) (hp : p ∈ l) :
    bytes (pretty (indent + 2) p.2) ≤ bytes (pretty indent (.obj l)) := by
  rw [bytes_pretty_obj indent (List.ne_nil_of_mem hp)]
  have := List.le_sum_of_mem (List.mem_map_of_mem (f := prettyFieldBytes (indent + 2)) hp)
  unfold prettyFieldBytes at this
  unfold prettyFieldBytes
  omega

lemma le_pretty_elem {l : List Json} {v : Json} (indent : ℕ) (hv : v ∈ l) :
    bytes (pretty (indent + 2) v) ≤ bytes (pretty indent (.arr l)) := by
  rw [bytes_pretty_arr indent (List.ne_nil_of_mem hv)]
  have := List.le_sum_of_mem (List.mem_map_of_mem
    (f := fun v => indent + 2 + bytes (pretty (indent + 2) v) + 2) hv)
  omega

lemma sum_widePaths_le {n : ℕ} (hn : n ≤ 400) :
    ((widePaths n).map fun f => f.length + 3).sum ≤ n * 213 := by
  have hle := List.sum_le_card_nsmul ((widePaths n).map fun f => f.length + 3) 213 (by
    intro m hm
    obtain ⟨f, hf, rfl⟩ := List.mem_map.mp hm
    obtain ⟨i, hi, rfl⟩ := List.mem_map.mp hf
    have hi := List.mem_range.mp hi
    have := length_widePath i
    omega)
  simpa [widePaths] using hle

lemma le_sum_widePaths (n : ℕ) :
    n * 212 ≤ ((widePaths n).map fun f => f.length + 3).sum := by
  have hle := List.card_nsmul_le_sum ((widePaths n).map fun f => f.length + 3) 212 (by
    intro m hm
    obtain ⟨f, hf, rfl⟩ := List.mem_map.mp hm
    obtain ⟨i, hi, rfl⟩ := List.mem_map.mp hf
    have := length_widePath i
    omega)
  simpa [widePaths] using hle

lemma le_pretty_files (n indent : ℕ) :
    n * (indent + 215) ≤ bytes (pretty indent (strings (widePaths n))) := by
  by_cases hn : n = 0
  · simp [hn]
  have hne : (widePaths n).map Json.str ≠ [] := by simp [widePaths, hn]
  have hle := List.card_nsmul_le_sum
    (((widePaths n).map Json.str).map fun v => indent + 2 + bytes (pretty (indent + 2) v) + 2)
    (indent + 215) (by
      intro m hm
      obtain ⟨v, hv, rfl⟩ := List.mem_map.mp hm
      obtain ⟨f, hf, rfl⟩ := List.mem_map.mp hv
      obtain ⟨i, hi, rfl⟩ := List.mem_map.mp hf
      have hplain : escapedLen (widePath i) = (widePath i).length :=
        escapedLen_eq_length fun c hc => beq_iff_eq.mp (List.all_eq_true.mp
          (all_widePath (p := fun c => escapedSize c == 1) i (by decide)) c hc)
      have := length_widePath i
      rw [bytes_pretty_str, hplain]
      omega)
  rw [strings, bytes_pretty_arr indent hne]
  simp only [List.length_map, widePaths, List.length_range, smul_eq_mul] at hle ⊢
  omega

/-- A result of a writer that every check has taken. -/
structure GoodWork (cfg : Config) (plan : Plan) (slot : Slot) (deliveredInbox : List Json)
    (receipt : WriterReceipt) (c : Commit) : Prop where
  templateOk : validatePodTemplate cfg.lib cfg.templateJson = .ok cfg.template
  planOk : ∃ planJson baseSha directories,
    validateAttemptPlan cfg.lib planJson cfg.templateJson baseSha directories = .ok plan
  receiptOk : ∃ v executionBaseSha previousInboxCursor, keysOnce v = true ∧
    validateWriterReceipt cfg.lib cfg.templateJson plan slot executionBaseSha deliveredInbox
      previousInboxCursor v = .ok receipt
  commitOk : ∃ u, checkCommit cfg.lib cfg.template plan slot receipt.baseSha u = .ok c

/-- An attempt from this base of which all was accepted, and kept by the store as well. -/
def KeptAttempt (cfg : Config) (baseSha : String) (e : Evidence) : Prop :=
  ∃ plan, plan.attempt = e.attempt ∧ plan.baseSha = baseSha ∧ e.plan = some plan.json ∧
    ∀ w ∈ e.workResults, ∃ slot receipt c, GoodWork cfg plan slot [] receipt c ∧
      w = .obj (workOf slot receipt c).json ∧
      ∃ record, serializeRecord lineSize w "work result" = .ok record

/-- A template of ten attempts and four hundred files, with as many bytes as are shipped. -/
def largeTemplate : Json :=
  let writer (slot : Slot) (root : String) : String × Json :=
    (slot.name, .obj [("prompt", .str "writer.md"), ("allowedWriteRoots", .arr [.str root])])
  .obj [("version", .num "1"), ("name", .str "pod"), ("maxAttempts", .num "10"),
    ("timeouts", .obj [("executionSeconds", .num "10"), ("attemptSeconds", .num "20"),
      ("workflowSeconds", .num "40")]),
    ("changes", .obj [("maxFiles", .num "400"), ("maxBytes", .num "5242880")]),
    ("writers", .obj [writer .engineeringA "src", writer .engineeringB "web",
      writer .qaTests "test"]),
    ("prompts", .obj (promptIds.map fun id => (id, .str "prompt.md"))),
    ("verificationProfile", .str "bimo-repo-v1")]

/-- The plan of the attempt with this number. -/
def planAt (attempt : String) : Json :=
  match samplePlan with
  | .obj l => .obj (put "attempt" (.num attempt) l)
  | v => v

/-- All that is accepted before a commit. -/
structure SampleRun where
  template : Template
  plan : Plan
  receipt : WriterReceipt

def sampleAccepted (attempt : String) : Except String SampleRun := do
  let template ← validatePodTemplate plainLib largeTemplate
  let plan ← validateAttemptPlan plainLib (planAt attempt) largeTemplate (.str sampleSha)
    sampleDirectories
  let receipt ← validateWriterReceipt plainLib largeTemplate plan .engineeringA sampleSha [] 0
    (writerReceipt "completed" "As planned.")
  pure ⟨template, plan, receipt⟩

/-- What the accepted values are, as far as it matters. -/
structure SampleRun.Is (n : ℕ) (a : SampleRun) : Prop where
  attempts : a.template.maxAttempts = 10
  files : a.template.maxFiles = 400
  bytes : a.template.maxBytes = 5242880
  attempt : a.plan.attempt = n
  planBase : a.plan.baseSha = sampleSha
  root : "src/Core" ∈ (a.plan.writers .engineeringA).writePaths
  receiptBase : a.receipt.baseSha = sampleSha
  short : Wire.bytes (text (.obj a.receipt.json)) ≤ 1000

/-- The attempts are numbered from zero here. -/
lemma exists_sample (i : Fin 4) : ∃ a, sampleAccepted (["1", "2", "3", "4"].get i) = .ok a ∧
    a.Is ((i : ℕ) + 1) := by
  have hall : ∀ i : Fin 4, (sampleAccepted (["1", "2", "3", "4"].get i)).toOption.any (fun a =>
      decide (a.template.maxAttempts = 10 ∧ a.template.maxFiles = 400 ∧
        a.template.maxBytes = 5242880 ∧ a.plan.attempt = (i : ℕ) + 1 ∧ a.plan.baseSha = sampleSha ∧
        "src/Core" ∈ (a.plan.writers .engineeringA).writePaths ∧
        a.receipt.baseSha = sampleSha ∧ Wire.bytes (text (.obj a.receipt.json)) ≤ 1000)) = true := by
    decide +kernel
  replace hall := hall i
  cases hacc : sampleAccepted (["1", "2", "3", "4"].get i) with
  | error e =>
      rw [hacc] at hall
      cases hall
  | ok a =>
      rw [hacc] at hall
      obtain ⟨hattempts, hfiles, hbytes, hattempt, hplan, hroot, hreceipt, hshort⟩ :=
        of_decide_eq_true hall
      exact ⟨a, rfl, hattempts, hfiles, hbytes, hattempt, hplan, hroot, hreceipt, hshort⟩

def sampleConfig (template : Template) : Config where
  lib := plainLib
  templateJson := largeTemplate
  template := template
  prompt _ := "Work."
  assignment := .obj []
  branch := "bimo/run"
  deadlineAt := 0
  combines := true

section Samples

variable {attempt : String} {n k m : ℕ} {a : SampleRun}

lemma checkCommit_sample (h : a.Is n) (hk : 0 < k) (hmost : k ≤ 400)
    (hm : k * (m + 1) ≤ 5242880) :
    checkCommit plainLib a.template a.plan .engineeringA a.receipt.baseSha (filesCommit k m) =
      .ok (takenCommit k m) := by
  rw [h.receiptBase]
  exact checkCommit_files hk (by rw [h.files]; exact hmost) (by rw [h.files]; decide)
    (by rw [h.bytes]; exact hm) h.root

lemma goodWork_sample (ha : sampleAccepted attempt = .ok a) (h : a.Is n) (hk : 0 < k)
    (hmost : k ≤ 400) (hm : k * (m + 1) ≤ 5242880) :
    GoodWork (sampleConfig a.template) a.plan .engineeringA [] a.receipt (takenCommit k m) := by
  obtain ⟨template, htemplate, ha⟩ := bind_eq_ok.mp ha
  obtain ⟨plan, hplan, ha⟩ := bind_eq_ok.mp ha
  obtain ⟨receipt, hreceipt, ha⟩ := bind_eq_ok.mp ha
  obtain rfl := Except.ok.inj ha
  exact ⟨htemplate, ⟨_, _, _, hplan⟩, ⟨_, _, _, by decide, hreceipt⟩,
    ⟨_, checkCommit_sample h hk hmost hm⟩⟩

lemma GoodWork.parts {cfg : Config} {plan : Plan} {slot : Slot} {deliveredInbox : List Json}
    {receipt : WriterReceipt} {c : Commit} (h : GoodWork cfg plan slot deliveredInbox receipt c) :
    (∃ v, GoodReceipt v receipt) ∧ GoodCommit cfg.template receipt c := by
  obtain ⟨v, _, _, hv, hreceipt⟩ := h.receiptOk
  obtain ⟨u, hcommit⟩ := h.commitOk
  exact ⟨⟨v, goodReceipt hreceipt hv⟩, goodCommit hcommit⟩

/-- What is left of an attempt with a commit of three hundred files. -/
def sampleEvidence (n : ℕ) (a : SampleRun) : Evidence where
  attempt := n
  plan := some a.plan.json
  workResults := [.obj (workOf .engineeringA a.receipt (takenCommit 300 1)).json]
  gates := []
  reason := "The candidate is not verified."

lemma workBytes_sample (h : a.Is n) (hk : k ≤ 400) (hm : k * (m + 1) ≤ 5242880) :
    workBytes .engineeringA a.receipt (takenCommit k m) ≤ k * 213 + 1228 := by
  have hsum := sum_widePaths_le hk
  have hname : Slot.engineeringA.name.length = 13 := by decide
  have hsha : resultSha.length = 40 := by decide
  have hdigits : (toString (k * (m + 1))).length ≤ 9 :=
    Docker.length_digits (by decide) (Nat.lt_of_le_of_lt hm (by decide))
  have hshort := h.short
  unfold workBytes
  simp only [takenCommit, hname, hsha]
  omega

lemma keptAttempt_sample (ha : sampleAccepted attempt = .ok a) (h : a.Is n) :
    KeptAttempt (sampleConfig a.template) sampleSha (sampleEvidence n a) := by
  refine ⟨a.plan, h.attempt, h.planBase, rfl, fun w hw => ?_⟩
  obtain rfl := List.mem_singleton.mp hw
  have hacc := goodWork_sample ha h (k := 300) (m := 1) (by decide) (by decide) (by decide)
  obtain ⟨⟨v, hr⟩, hc⟩ := hacc.parts
  have hbytes := workBytes_sample h (k := 300) (m := 1) (by decide) (by decide)
  exact ⟨.engineeringA, a.receipt, _, hacc, rfl, (limited_work hr hc).1 (by omega)⟩

lemma le_evidence (ha : sampleAccepted attempt = .ok a) (h : a.Is n) :
    67500 ≤ bytes (pretty 4 (sampleEvidence n a).json) := by
  obtain ⟨⟨v, hr⟩, hc⟩ := (goodWork_sample ha h (k := 300) (m := 1) (by decide) (by decide)
    (by decide)).parts
  have hfiles : ("files", strings (widePaths 300)) ∈
      (workOf .engineeringA a.receipt (takenCommit 300 1)).json := by
    rw [workOf_json hr hc]
    exact List.mem_append_right _ (by simp [addedFields, takenCommit])
  calc 67500 ≤ bytes (pretty 10 (strings (widePaths 300))) := le_pretty_files 300 10
    _ ≤ bytes (pretty 8 (.obj (workOf .engineeringA a.receipt (takenCommit 300 1)).json)) :=
        le_pretty_field 8 (p := ("files", strings (widePaths 300))) hfiles
    _ ≤ bytes (pretty 6 (.arr (sampleEvidence n a).workResults)) :=
        le_pretty_elem 6 List.mem_cons_self
    _ ≤ bytes (pretty 4 (sampleEvidence n a).json) :=
        le_pretty_field 4 (p := ("workResults", .arr (sampleEvidence n a).workResults))
          (by simp)

end Samples

/-- The limits of a template do not bound what the records and the prompts embed: the diff may be
too long for the prompt of the checker, the work result for the store, and what the attempts
before have left for the prompt of the planner. -/
theorem sizes_do_not_compose :
    (¬ ∀ (cfg : Config) (at' : Attempt) (slot : Slot) (deliveredInbox : List Json)
      (receipt : WriterReceipt) (c : Commit),
      GoodWork cfg at'.plan slot deliveredInbox receipt c →
      ∃ prompt, buildPrompt (cfg.prompt .checker) "checker"
        (checkerDetails cfg at' slot (workOf slot receipt c) deliveredInbox) = .ok prompt) ∧
    (¬ ∀ (cfg : Config) (plan : Plan) (slot : Slot) (deliveredInbox : List Json)
      (receipt : WriterReceipt) (c : Commit), GoodWork cfg plan slot deliveredInbox receipt c →
      ∃ record, serializeRecord lineSize (.obj (workOf slot receipt c).json) "work result" =
        .ok record) ∧
    ¬ ∀ (cfg : Config) (baseSha : String) (n : ℕ) (prior : List Evidence),
      validatePodTemplate cfg.lib cfg.templateJson = .ok cfg.template →
      n ≤ cfg.template.maxAttempts → prior.map (·.attempt) = List.range' 1 (n - 1) →
      (∀ e ∈ prior, KeptAttempt cfg baseSha e) →
      ∃ prompt, buildPrompt (cfg.prompt .planner) "planner" (plannerDetails cfg baseSha n prior) =
        .ok prompt := by
  choose a ha his using exists_sample
  refine ⟨fun h => ?_, fun h => ?_, fun h => ?_⟩
  · -- one file of a single line
    have hacc := goodWork_sample (ha 0) (his 0) (k := 1) (m := 258048) (by decide) (by decide)
      (by decide)
    let at' : Attempt := ⟨1, sampleSha, 0, (a 0).plan⟩
    obtain ⟨prompt, hprompt⟩ := h _ at' _ _ _ _ hacc
    have hlimit : Limited (buildPrompt ((sampleConfig (a 0).template).prompt .checker) "checker"
        (checkerDetails (sampleConfig (a 0).template) at' .engineeringA
          (workOf .engineeringA (a 0).receipt (takenCommit 1 258048)) []))
        _ 258048 "pod checker prompt exceeds 258048 bytes" := limited_checker _ at' rfl []
    have hsize := le_escapedLen_filesDiff 258048
    rw [hlimit.2 (by omega)] at hprompt
    cases hprompt
  · -- four hundred files
    have hacc := goodWork_sample (ha 0) (his 0) (k := 400) (m := 1) (by decide) (by decide)
      (by decide)
    obtain ⟨⟨v, hr⟩, hc⟩ := hacc.parts
    obtain ⟨record, hrecord⟩ := h _ _ _ _ _ _ hacc
    have hsum := le_sum_widePaths 400
    rw [(limited_work hr hc).2 (by unfold workBytes; simp only [takenCommit]; omega)] at hrecord
    cases hrecord
  · -- four attempts of three hundred files each
    have hok (i : Fin 4) : validatePodTemplate plainLib largeTemplate = .ok (a i).template :=
      (goodWork_sample (ha i) (his i) (k := 1) (m := 1) (by decide) (by decide)
        (by decide)).templateOk
    have htemplate (i : Fin 4) : (a i).template = (a 0).template :=
      Except.ok.inj ((hok i).symm.trans (hok 0))
    let prior := List.ofFn fun i => sampleEvidence ((i : ℕ) + 1) (a i)
    obtain ⟨prompt, hprompt⟩ := h (sampleConfig (a 0).template) sampleSha 5 prior
      (hok 0) ((his 0).attempts ▸ (by decide : 5 ≤ 10))
      (by rw [List.map_ofFn]; rfl)
      (by
        intro e he
        obtain ⟨i, rfl⟩ := List.mem_ofFn.mp he
        rw [← htemplate i]
        exact keptAttempt_sample (ha i) (his i))
    have hsum := List.card_nsmul_le_sum (prior.map fun e => bytes (pretty 4 e.json) + 6) 67506 (by
      intro m hm
      obtain ⟨e, he, rfl⟩ := List.mem_map.mp hm
      obtain ⟨i, rfl⟩ := List.mem_ofFn.mp he
      exact Nat.add_le_add_right (le_evidence (ha i) (his i)) 6)
    have hprior : 270024 ≤ priorBytes prior := by
      rw [priorBytes, if_neg (by simp [prior])]
      simp only [List.length_map, prior, List.length_ofFn, smul_eq_mul] at hsum ⊢
      omega
    rw [(limited_planner (sampleConfig (a 0).template) sampleSha 5 prior).2 (by omega)] at hprompt
    cases hprompt

/-- A commit of one file is within the limit of its record. -/
theorem size_limits_sample : ∃ template plan receipt c,
    checkCommit plainLib template plan .engineeringA receipt.baseSha
      (filesCommit 1 258048) = .ok c ∧
      ∃ record, serializeRecord lineSize (.obj (workOf .engineeringA receipt c).json)
        "work result" = .ok record := by
  obtain ⟨a, ha, his⟩ := exists_sample 0
  have hcommit := checkCommit_sample his (k := 1) (m := 258048) (by decide) (by decide) (by decide)
  obtain ⟨template, htemplate, ha⟩ := bind_eq_ok.mp ha
  obtain ⟨plan, hplan, ha⟩ := bind_eq_ok.mp ha
  obtain ⟨receipt, hreceipt, ha⟩ := bind_eq_ok.mp ha
  obtain rfl := Except.ok.inj ha
  let at' : Attempt := ⟨1, sampleSha, 0, plan⟩
  have hcommit' : checkCommit (sampleConfig template).lib (sampleConfig template).template at'.plan
      .engineeringA receipt.baseSha (filesCommit 1 258048) = .ok (takenCommit 1 258048) := hcommit
  have hlimits := size_limits htemplate (by decide) hreceipt hcommit'
  have hshort := sum_widePaths_le (n := 1) (by decide)
  exact ⟨template, plan, receipt, _, hcommit, hlimits.1.1 (hlimits.2.1 (by
    simp only [takenCommit]
    omega))⟩

end Bimo.Controller
