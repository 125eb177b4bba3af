import Bimo.Fingerprint

/-!
Whether the files of a configuration directory can be told from what is hashed.

Two files or more never can: one file holds the same bytes. One file can, as long as its path is
a text and its content does not hold the zeros and the path of a file that may stand after it. The
paths of a directory are apart, and two paths that are apart are those of some directory.
-/

namespace Bimo.EngineSpec

open Wire (text)
open Utf8 (encode lossy replacement)

/-! ### The files of a directory -/

/-- Neither of the paths is the other, or below it. -/
def Apart (p q : Path) : Prop := ¬p <+: q ∧ ¬q <+: p

structure IsPath (p : Path) : Prop where
  ne_nil : p ≠ []
  names : ∀ n ∈ p, IsName n

/-- The files are below `dir`, under some of the names, and apart. -/
structure Below (dir : Path) (names : List Name) (files : List File) : Prop where
  under : ∀ f ∈ files, ∃ n p, n ∈ names ∧ (∀ m ∈ n :: p, IsName m) ∧ f.path = dir ++ n :: p
  apart : files.Pairwise fun f g => Apart f.path g.path

lemma apart_append (dir p q : Path) : Apart (dir ++ p) (dir ++ q) ↔ Apart p q := by
  unfold Apart
  rw [List.prefix_append_right_inj, List.prefix_append_right_inj]

lemma apart_cons {n m : Name} (h : n ≠ m) (p q : Path) : Apart (n :: p) (m :: q) :=
  ⟨fun hp => h (List.cons_prefix_cons.mp hp).1, fun hq => h (List.cons_prefix_cons.mp hq).1.symm⟩

/-- What is in an entry, and what is in the entries after it. -/
lemma below_append {dir : Path} {n : Name} {names : List Name} {here rest : List File}
    (hn : IsName n) (hnot : n ∉ names)
    (hhere : (∃ c, here = [⟨dir ++ [n], c⟩]) ∨ ∃ ms, Below (dir ++ [n]) ms here)
    (hrest : Below dir names rest) : Below dir (n :: names) (here ++ rest) := by
  have hunder : ∀ f ∈ here, ∃ p, (∀ m ∈ n :: p, IsName m) ∧ f.path = dir ++ n :: p := by
    intro f hf
    rcases hhere with ⟨c, rfl⟩ | ⟨ms, h⟩
    · obtain rfl := List.mem_singleton.mp hf
      exact ⟨[], fun m hm => List.mem_singleton.mp hm ▸ hn, rfl⟩
    · obtain ⟨m, p, -, hnames, hpath⟩ := h.under f hf
      refine ⟨m :: p, fun x hx => ?_, by rw [hpath, List.append_assoc]; rfl⟩
      rcases List.mem_cons.mp hx with rfl | hx
      · exact hn
      · exact hnames x hx
  refine ⟨fun f hf => ?_, List.pairwise_append.mpr ⟨?_, hrest.apart, fun f hf g hg => ?_⟩⟩
  · rcases List.mem_append.mp hf with hf | hf
    · obtain ⟨p, hnames, hpath⟩ := hunder f hf
      exact ⟨n, p, List.mem_cons_self, hnames, hpath⟩
    · obtain ⟨m, p, hm, hnames, hpath⟩ := hrest.under f hf
      exact ⟨m, p, List.mem_cons_of_mem _ hm, hnames, hpath⟩
  · rcases hhere with ⟨c, rfl⟩ | ⟨ms, h⟩
    · exact List.pairwise_singleton _ _
    · exact h.apart
  · obtain ⟨p, -, hp⟩ := hunder f hf
    obtain ⟨m, q, hm, -, hq⟩ := hrest.under g hg
    rw [hp, hq, apart_append]
    refine apart_cons ?_ p q
    rintro rfl
    exact hnot hm

mutual

lemma below_entry {root : String} {path : Path} {files : List File} : ∀ {e : Entry},
    e.WellFormed → collectEntry root path e = .ok files →
      (∃ c, files = [⟨path, c⟩]) ∨ ∃ names, Below path names files
  | .symlink, _, h => nomatch h
  | .other, _, h => by
    obtain rfl := Except.ok.inj h
    exact .inr ⟨[], nofun, .nil⟩
  | .file c, _, h => by
    obtain rfl := Except.ok.inj h
    exact .inl ⟨c, rfl⟩
  | .dir entries, he, h => .inr ⟨_, below_files he h⟩

lemma below_files {root : String} {dir : Path} {files : List File} :
    ∀ {entries : List (Name × Entry)}, wellFormedList entries →
      collectFiles root dir entries = .ok files → Below dir (entries.map Prod.fst) files
  | [], _, h => by
    obtain rfl := Except.ok.inj h
    exact ⟨nofun, .nil⟩
  | (n, e) :: es, he, h => by
    obtain ⟨hn, hnot, hentry, hlist⟩ := he
    obtain ⟨here, hhere, h⟩ := bind_eq_ok.mp h
    obtain ⟨rest, hrest, h⟩ := bind_eq_ok.mp h
    obtain rfl := Except.ok.inj h
    exact below_append hn hnot (below_entry hentry hhere) (below_files hlist hrest)

end

/-- Paths in their order, none with another one's. -/
structure Listed (files : List File) : Prop where
  paths : ∀ f ∈ files, IsPath f.path
  apart : files.Pairwise fun f g => Apart f.path g.path
  sorted : files.Pairwise fun f g => pathLe f.path g.path = true

lemma pathLe_total (p q : Path) : (pathLe p q || pathLe q p) = true := by
  unfold pathLe
  rcases le_total (p.map (·.map UInt8.toNat)) (q.map (·.map UInt8.toNat)) with h | h <;> simp [h]

lemma pathLe_trans {p q r : Path} (hpq : pathLe p q = true) (hqr : pathLe q r = true) :
    pathLe p r = true :=
  decide_eq_true ((of_decide_eq_true hpq).trans (of_decide_eq_true hqr))

lemma listed_filesOf {dir : Option ConfigDir} {files : List File} (h : filesOf dir = .ok files) :
    Listed files := by
  cases dir with
  | none =>
    obtain rfl := Except.ok.inj h
    exact ⟨nofun, .nil, .nil⟩
  | some d =>
    replace h : (collectFiles d.root [] d.entries).map sortFiles = .ok files := h
    cases hcollect : collectFiles d.root [] d.entries with
    | error e =>
      rw [hcollect] at h
      cases h
    | ok fs =>
      rw [hcollect] at h
      obtain rfl := Except.ok.inj h
      have hbelow := below_files d.wellFormed hcollect
      have hperm : (sortFiles fs).Perm fs := List.mergeSort_perm _ _
      refine ⟨fun f hf => ?_, ?_, ?_⟩
      · obtain ⟨n, p, -, hnames, hpath⟩ := hbelow.under f (hperm.mem_iff.mp hf)
        rw [List.nil_append] at hpath
        exact ⟨by rw [hpath]; exact List.cons_ne_nil _ _, by rwa [hpath]⟩
      · exact (hperm.pairwise_iff fun h => ⟨h.2, h.1⟩).mpr hbelow.apart
      · exact @List.pairwise_mergeSort _ (fun f g => pathLe f.path g.path)
          (fun _ _ _ => pathLe_trans) (fun f g => pathLe_total f.path g.path) fs

/-! ### A path as a text -/

lemma pathBytes_cons (n : Name) {p : Path} (hp : p ≠ []) :
    pathBytes (n :: p) = n ++ slash :: pathBytes p := by
  cases p with
  | nil => exact absurd rfl hp
  | cons m p => simp [pathBytes, List.intercalate]

lemma pathBytes_singleton (n : Name) : pathBytes [n] = n := by
  simp [pathBytes, List.intercalate]

lemma lossyPath_cons (n : Name) {p : Path} (hp : p ≠ []) :
    lossyPath (n :: p) = lossy n ++ '/' :: lossyPath p := by
  unfold lossyPath
  rw [pathBytes_cons n hp]
  exact Utf8.lossy_append_ascii (c := '/') (by decide) n _

lemma lossyPath_singleton (n : Name) : lossyPath [n] = lossy n := by
  unfold lossyPath
  rw [pathBytes_singleton]

lemma mem_pathBytes {p : Path} {b : UInt8} (h : b ∈ pathBytes p) : b = slash ∨ ∃ n ∈ p, b ∈ n := by
  induction p with
  | nil => cases h
  | cons n p ih =>
    by_cases hp : p = []
    · subst hp
      rw [pathBytes_singleton] at h
      exact .inr ⟨n, List.mem_cons_self, h⟩
    · rw [pathBytes_cons n hp] at h
      rcases List.mem_append.mp h with h | h
      · exact .inr ⟨n, List.mem_cons_self, h⟩
      · rcases List.mem_cons.mp h with h | h
        · exact .inl h
        · rcases ih h with h | ⟨m, hm, hb⟩
          · exact .inl h
          · exact .inr ⟨m, List.mem_cons_of_mem _ hm, hb⟩

/-- A path has no zero, so neither has its text. -/
lemma zero_not_mem_text {p : Path} (hp : IsPath p) : 0 ∉ encode (lossyPath p) := by
  intro h
  obtain ⟨c, hc, hzero⟩ := Utf8.mem_of_mem_encode (b := 0) (by decide) h
  have hlt : c.toNat < 128 := by
    rw [hzero]
    decide
  have hmem := Utf8.mem_of_mem_lossy hlt hc
  rw [hzero] at hmem
  rcases mem_pathBytes hmem with h | ⟨n, hn, h⟩
  · exact absurd h (by decide)
  · exact (hp.names n hn).zero h

/-- What comes before a separator, and what comes after it. -/
lemma append_cons_inj {α : Type} {x : α} {a b r s : List α} (ha : x ∉ a) (hb : x ∉ b)
    (h : a ++ x :: r = b ++ x :: s) : a = b ∧ r = s := by
  have key : ∀ {a b m r s : List α}, x ∉ b → b = a ++ m → x :: r = m ++ x :: s →
      a = b ∧ r = s := by
    intro a b m r s hb hbm hrs
    cases m with
    | nil =>
      rw [List.append_nil] at hbm
      exact ⟨hbm.symm, (List.cons.inj hrs).2⟩
    | cons y m =>
      obtain ⟨rfl, -⟩ := List.cons.inj hrs
      exact absurd (by simp [hbm]) hb
  obtain ⟨m, hm, hr⟩ | ⟨m, hm, hs⟩ := List.append_eq_append_iff.mp h
  · exact key hb hm hr
  · obtain ⟨hba, hsr⟩ := key ha hm hs
    exact ⟨hba.symm, hsr.symm⟩

lemma pathBytes_injective {p q : Path} (hp : IsPath p) (hq : IsPath q)
    (h : pathBytes p = pathBytes q) : p = q := by
  have hslash : ∀ {n m : Name} {r : Path}, IsName n → r ≠ [] → n ≠ pathBytes (m :: r) := by
    intro n m r hn hr heq
    rw [pathBytes_cons m hr] at heq
    exact hn.slash (by simp [heq])
  induction p generalizing q with
  | nil => exact absurd rfl hp.ne_nil
  | cons n p ih =>
    obtain ⟨hn, hps⟩ := List.forall_mem_cons.mp hp.names
    cases q with
    | nil => exact absurd rfl hq.ne_nil
    | cons m q =>
      obtain ⟨hm, hqs⟩ := List.forall_mem_cons.mp hq.names
      by_cases hpn : p = []
      · subst hpn
        rw [pathBytes_singleton] at h
        by_cases hqn : q = []
        · subst hqn
          rw [pathBytes_singleton] at h
          rw [h]
        · exact absurd h (hslash hn hqn)
      · by_cases hqn : q = []
        · subst hqn
          rw [pathBytes_singleton] at h
          exact absurd h.symm (hslash hm hpn)
        · rw [pathBytes_cons n hpn, pathBytes_cons m hqn] at h
          obtain ⟨rfl, hrest⟩ := append_cons_inj hn.slash hm.slash h
          rw [ih ⟨hpn, hps⟩ ⟨hqn, hqs⟩ hrest]

/-- A path whose text has no replacement is told by it. -/
lemma eq_of_lossyPath_eq {p q : Path} (hp : IsPath p) (hq : IsPath q)
    (hrep : replacement ∉ lossyPath p) (h : lossyPath q = lossyPath p) : q = p := by
  refine pathBytes_injective hq hp ?_
  have hrep' : replacement ∉ lossyPath q := by rwa [h]
  calc pathBytes q = encode (lossyPath q) := Utf8.eq_encode_of_lossy hrep'
    _ = encode (lossyPath p) := by rw [h]
    _ = pathBytes p := (Utf8.eq_encode_of_lossy hrep).symm

/-- Another name has the text of one that has a replacement. -/
lemma exists_name_eq {n : Name} (hn : IsName n) (h : replacement ∈ lossy n) :
    ∃ m, IsName m ∧ m ≠ n ∧ lossy m = lossy n := by
  obtain ⟨m, hne, heq, hlow⟩ := Utf8.exists_lossy_eq h
  rw [← heq] at h
  refine ⟨m, ⟨?_, fun hz => hn.zero (hlow _ hz (by decide)),
    fun hs => hn.slash (hlow _ hs (by decide)), ?_, ?_⟩, hne, heq⟩
  · rintro rfl
    cases h
  · rintro rfl
    exact absurd h (by decide +kernel)
  · rintro rfl
    exact absurd h (by decide +kernel)

/-- Another path has the text of one that has a replacement. -/
lemma exists_lossyPath_eq {p : Path} (hp : IsPath p) (h : replacement ∈ lossyPath p) :
    ∃ q, IsPath q ∧ q ≠ p ∧ lossyPath q = lossyPath p := by
  induction p with
  | nil => exact absurd rfl hp.ne_nil
  | cons n p ih =>
    obtain ⟨hn, hps⟩ := List.forall_mem_cons.mp hp.names
    by_cases hpn : p = []
    · subst hpn
      rw [lossyPath_singleton] at h
      obtain ⟨m, hm, hne, heq⟩ := exists_name_eq hn h
      refine ⟨[m], ⟨by simp, by simpa using hm⟩, by simpa using hne, ?_⟩
      rw [lossyPath_singleton, lossyPath_singleton, heq]
    · rw [lossyPath_cons n hpn] at h
      rcases List.mem_append.mp h with h | h
      · obtain ⟨m, hm, hne, heq⟩ := exists_name_eq hn h
        refine ⟨m :: p, ⟨by simp, List.forall_mem_cons.mpr ⟨hm, hps⟩⟩, by simpa using hne, ?_⟩
        rw [lossyPath_cons m hpn, lossyPath_cons n hpn, heq]
      · have hrep : replacement ∈ lossyPath p :=
          (List.mem_cons.mp h).resolve_left (by decide)
        obtain ⟨q, hq, hne, heq⟩ := ih ⟨hpn, hps⟩ hrep
        refine ⟨n :: q, ⟨by simp, List.forall_mem_cons.mpr ⟨hn, hq.names⟩⟩, by simpa using hne, ?_⟩
        rw [lossyPath_cons n hq.ne_nil, lossyPath_cons n hpn, heq]

/-! ### Directories of one file and of two -/

/-- The file, under its names. -/
def nest (n : Name) : Path → Bytes → Name × Entry
  | [], c => (n, .file c)
  | m :: p, c => (n, .dir [nest m p c])

/-- Two files, under the names they have in common. -/
def pairUp : Path → Bytes → Path → Bytes → List (Name × Entry)
  | n :: p, c, m :: q, d =>
    if n = m then [(n, .dir (pairUp p c q d))] else [nest n p c, nest m q d]
  | _, _, _, _ => []

@[simp] lemma nest_fst (n : Name) (p : Path) (c : Bytes) : (nest n p c).1 = n := by
  cases p <;> rfl

lemma collect_nest (root : String) (dir : Path) (n : Name) (p : Path) (c : Bytes) :
    collectEntry root (dir ++ [n]) (nest n p c).2 = .ok [⟨dir ++ n :: p, c⟩] := by
  induction p generalizing dir n with
  | nil => rfl
  | cons m p ih =>
    have hfiles : collectFiles root (dir ++ [n]) [nest m p c] =
        .ok [⟨(dir ++ [n]) ++ m :: p, c⟩] := by
      have := ih (dir ++ [n]) m
      rw [collectFiles, nest_fst, this]
      rfl
    rw [List.append_assoc] at hfiles
    exact hfiles

lemma collect_single (root : String) (dir : Path) (n : Name) (p : Path) (c : Bytes) :
    collectFiles root dir [nest n p c] = .ok [⟨dir ++ n :: p, c⟩] := by
  have hentry := collect_nest root dir n p c
  rw [collectFiles, nest_fst, hentry]
  rfl

lemma wellFormed_nest {n : Name} {p : Path} (h : ∀ m ∈ n :: p, IsName m) (c : Bytes) :
    (nest n p c).2.WellFormed := by
  induction p generalizing n with
  | nil => trivial
  | cons m p ih =>
    obtain ⟨-, hrest⟩ := List.forall_mem_cons.mp h
    obtain ⟨hm, -⟩ := List.forall_mem_cons.mp hrest
    refine ⟨by rwa [nest_fst], by simp, ih hrest, trivial⟩

lemma collect_pairUp (root : String) {dir p q : Path} (h : Apart p q) (c d : Bytes) :
    collectFiles root dir (pairUp p c q d) = .ok [⟨dir ++ p, c⟩, ⟨dir ++ q, d⟩] := by
  induction p generalizing dir q with
  | nil => exact absurd (List.nil_prefix) h.1
  | cons n p ih =>
    cases q with
    | nil => exact absurd (List.nil_prefix) h.2
    | cons m q =>
      unfold pairUp
      split_ifs with hnm
      · subst hnm
        have hrest : Apart p q := (apart_append [n] p q).mp h
        have := @ih (dir ++ [n]) q hrest
        rw [collectFiles, collectEntry, this]
        simp [collectFiles]
      · have hn := collect_nest root dir n p c
        have hm := collect_nest root dir m q d
        rw [collectFiles, collectFiles, nest_fst, nest_fst, hn, hm]
        rfl

lemma wellFormed_pairUp {p q : Path} (h : Apart p q) (hp : ∀ n ∈ p, IsName n)
    (hq : ∀ n ∈ q, IsName n) (c d : Bytes) : wellFormedList (pairUp p c q d) := by
  induction p generalizing q with
  | nil => exact absurd (List.nil_prefix) h.1
  | cons n p ih =>
    cases q with
    | nil => exact absurd (List.nil_prefix) h.2
    | cons m q =>
      obtain ⟨hn, hps⟩ := List.forall_mem_cons.mp hp
      obtain ⟨hm, hqs⟩ := List.forall_mem_cons.mp hq
      unfold pairUp
      split_ifs with hnm
      · subst hnm
        exact ⟨hn, by simp, ih ((apart_append [n] p q).mp h) hps hqs, trivial⟩
      · exact ⟨by rwa [nest_fst], by simpa using hnm, wellFormed_nest hp c, by rwa [nest_fst],
          by simp, wellFormed_nest hq d, trivial⟩

/-- Files that are collected in their order are not moved. -/
lemma filesOf_of_collect {d : ConfigDir} {files : List File}
    (h : collectFiles d.root [] d.entries = .ok files)
    (hs : files.Pairwise fun f g => pathLe f.path g.path = true) :
    filesOf (some d) = .ok files := by
  show (collectFiles d.root [] d.entries).map sortFiles = _
  rw [h]
  exact congrArg Except.ok (List.mergeSort_of_pairwise hs)

lemma exists_one {p : Path} (hp : IsPath p) (c : Bytes) :
    ∃ dir, filesOf dir = .ok [⟨p, c⟩] := by
  obtain ⟨hne, hnames⟩ := hp
  cases p with
  | nil => exact absurd rfl hne
  | cons n p =>
    refine ⟨some ⟨"config", [nest n p c], ?_⟩, filesOf_of_collect ?_ (List.pairwise_singleton _ _)⟩
    · exact ⟨by simpa using hnames n List.mem_cons_self, by simp, wellFormed_nest hnames c, trivial⟩
    · exact collect_single "config" [] n p c

lemma exists_two {p q : Path} (hp : IsPath p) (hq : IsPath q) (h : Apart p q)
    (hle : pathLe p q = true) (c d : Bytes) : ∃ dir, filesOf dir = .ok [⟨p, c⟩, ⟨q, d⟩] :=
  ⟨some ⟨"config", pairUp p c q d, wellFormed_pairUp h hp.names hq.names c d⟩,
    filesOf_of_collect (collect_pairUp "config" h c d) (by simpa using hle)⟩

/-! ### When the files can be told -/

/-- The same paths with the same contents. -/
def SameFiles (files files' : List File) : Prop := ∀ f, f ∈ files ↔ f ∈ files'

/-- The content has the record of a file in it that may stand after this one. -/
def Splits (p : Path) (c : Bytes) : Prop :=
  ∃ q d e, IsPath q ∧ Apart p q ∧ pathLe p q = true ∧
    c = d ++ 0 :: (encode (lossyPath q) ++ 0 :: e)

/-- No file, or one whose path is a text and whose content is no two files. -/
def Told : List File → Prop
  | [] => True
  | [f] => replacement ∉ lossyPath f.path ∧ ¬Splits f.path f.content
  | _ => False

lemma record_cancel {f g : File} (hf : IsPath f.path) (hg : IsPath g.path) {r s : Bytes}
    (h : record f ++ r = record g ++ s) : lossyPath f.path = lossyPath g.path ∧
      f.content ++ 0 :: r = g.content ++ 0 :: s := by
  have hzero : encode (lossyPath f.path) ++ 0 :: (f.content ++ 0 :: r) =
      encode (lossyPath g.path) ++ 0 :: (g.content ++ 0 :: s) := by
    simpa [record] using h
  obtain ⟨htext, hrest⟩ :=
    append_cons_inj (zero_not_mem_text hf) (zero_not_mem_text hg) hzero
  refine ⟨?_, hrest⟩
  rw [← Utf8.lossy_encode (lossyPath f.path), htext, Utf8.lossy_encode]

lemma record_ne_nil (f : File) : record f ≠ [] := by simp [record]

/-- The files of one record or more end with a zero. -/
lemma records_eq (f : File) (files : List File) :
    ∃ e, (f :: files).flatMap record = encode (lossyPath f.path) ++ 0 :: (e ++ [0]) := by
  induction files generalizing f with
  | nil => exact ⟨f.content, by simp [record]⟩
  | cons g files ih =>
    obtain ⟨e, he⟩ := ih g
    refine ⟨f.content ++ 0 :: (encode (lossyPath g.path) ++ 0 :: e), ?_⟩
    rw [List.flatMap_cons, he]
    simp [record]

lemma append_zero_inj {a b : Bytes} (h : a ++ [0] = b ++ [0]) : a = b :=
  (List.append_inj' h rfl).1

/-- What is told has no other files with its records. -/
lemma eq_of_told {files files' : List File} (hl : Listed files) (hl' : Listed files')
    (ht : Told files) (h : files'.flatMap record = files.flatMap record) : files' = files := by
  match files, files' with
  | [], [] => rfl
  | [], f' :: rest =>
    obtain ⟨hrecord, -⟩ := List.append_eq_nil_iff.mp ((List.flatMap_cons).symm.trans h)
    exact absurd hrecord (record_ne_nil f')
  | [f], [] =>
    obtain ⟨hrecord, -⟩ := List.append_eq_nil_iff.mp ((List.flatMap_cons).symm.trans h.symm)
    exact absurd hrecord (record_ne_nil f)
  | [f], f' :: rest =>
    obtain ⟨hrep, hsplit⟩ := ht
    have hf := hl.paths f List.mem_cons_self
    have hf' := hl'.paths f' List.mem_cons_self
    rw [List.flatMap_cons, List.flatMap_cons] at h
    obtain ⟨htext, hcontent⟩ := record_cancel hf' hf h
    have hpath := eq_of_lossyPath_eq hf hf' hrep htext
    cases rest with
    | nil =>
      have hsame : f'.content = f.content := append_zero_inj hcontent
      cases f
      cases f'
      simp_all
    | cons g rest =>
      obtain ⟨e, he⟩ := records_eq g rest
      rw [he] at hcontent
      refine absurd ⟨g.path, f'.content, e, hl'.paths g (by simp), ?_, ?_, ?_⟩ hsplit
      · rw [← hpath]
        exact (List.pairwise_cons.mp hl'.apart).1 g List.mem_cons_self
      · rw [← hpath]
        exact (List.pairwise_cons.mp hl'.sorted).1 g List.mem_cons_self
      · exact append_zero_inj (by simpa using hcontent.symm)
  | _ :: _ :: _, _ => exact ht.elim

lemma eq_of_sameFiles_pair {f g h : File} {files : List File}
    (hs : SameFiles [h] (f :: g :: files)) : f = g := by
  have hf := List.mem_singleton.mp ((hs f).mpr (by simp))
  have hg := List.mem_singleton.mp ((hs g).mpr (by simp))
  rw [hf, hg]

/-- What is not told has. -/
lemma exists_of_not_told {files : List File} (hl : Listed files) (ht : ¬Told files) :
    ∃ dir files', filesOf dir = .ok files' ∧ files'.flatMap record = files.flatMap record ∧
      ¬SameFiles files' files := by
  match files with
  | [] => exact absurd trivial ht
  | [f] =>
    have hf := hl.paths f List.mem_cons_self
    by_cases hrep : replacement ∈ lossyPath f.path
    · obtain ⟨q, hq, hne, htext⟩ := exists_lossyPath_eq hf hrep
      obtain ⟨dir, hdir⟩ := exists_one hq f.content
      refine ⟨dir, _, hdir, by simp [record, htext], fun hs => hne ?_⟩
      have hmem := List.mem_singleton.mp ((hs _).mp List.mem_cons_self)
      exact congrArg File.path hmem
    · have hsplit : Splits f.path f.content := by
        by_contra hno
        exact ht ⟨hrep, hno⟩
      obtain ⟨q, d, e, hq, hapart, hle, hc⟩ := hsplit
      obtain ⟨dir, hdir⟩ := exists_two hf hq hapart hle d e
      refine ⟨dir, _, hdir, by simp [record, hc], fun hs => hapart.1 ?_⟩
      have hfg := eq_of_sameFiles_pair fun x => (hs x).symm
      have hpath : f.path = q := congrArg File.path hfg
      rw [hpath]
  | f :: g :: files =>
    have hf := hl.paths f List.mem_cons_self
    obtain ⟨e, he⟩ := records_eq g files
    obtain ⟨dir, hdir⟩ :=
      exists_one hf (f.content ++ 0 :: (encode (lossyPath g.path) ++ 0 :: e))
    refine ⟨dir, _, hdir, ?_, fun hs => ?_⟩
    · have hrecords : (f :: g :: files).flatMap record = record f ++ (g :: files).flatMap record :=
        List.flatMap_cons
      rw [hrecords, he]
      simp [record]
    · have hapart := (List.pairwise_cons.mp hl.apart).1 g List.mem_cons_self
      rw [eq_of_sameFiles_pair hs] at hapart
      exact hapart.1 List.prefix_rfl

/-- **When a fingerprint tells its inputs.** The spec and the files of a directory are the only
ones with the bytes that are hashed exactly when the directory has no file, or has one whose path
is a text and whose content does not hold another record. -/
theorem fingerprint_tells_iff {spec : AgentSpec} {dir : Option ConfigDir} {files : List File}
    (h : filesOf dir = .ok files) :
    (∀ spec' dir' files', filesOf dir' = .ok files' →
      fingerprintBytes spec' dir' = fingerprintBytes spec dir →
        spec' = spec ∧ SameFiles files' files) ↔ Told files := by
  have hbytes : ∀ {spec : AgentSpec} {dir : Option ConfigDir} {files : List File},
      filesOf dir = .ok files → fingerprintBytes spec dir =
        .ok (encode (text (specJson spec)) ++ files.flatMap record) := by
    intro spec dir files h
    rw [fingerprintBytes, h]
    rfl
  constructor
  · intro htells
    by_contra hnot
    obtain ⟨dir', files', hdir, hrecords, hdiffer⟩ := exists_of_not_told (listed_filesOf h) hnot
    refine hdiffer (htells spec dir' files' hdir ?_).2
    rw [hbytes h, hbytes hdir, hrecords]
  · intro htold spec' dir' files' hdir heq
    rw [hbytes h, hbytes hdir] at heq
    obtain ⟨rfl, hrecords⟩ := spec_cancel (Except.ok.inj heq)
    obtain rfl := eq_of_told (listed_filesOf h) (listed_filesOf hdir) htold hrecords
    exact ⟨rfl, fun _ => Iff.rfl⟩

/-- The directory with the file `a`, which holds `x`. -/
def plainDir : ConfigDir where
  root := "config"
  entries := [([0x61], .file [0x78])]
  wellFormed := ⟨⟨by decide, by decide, by decide, by decide, by decide⟩, nofun, trivial, trivial⟩

theorem fingerprint_tells_plain : Told [⟨[[0x61]], [0x78]⟩] ∧
    ∀ spec spec' dir' files', filesOf dir' = .ok files' →
      fingerprintBytes spec' dir' = fingerprintBytes spec (some plainDir) →
        spec' = spec ∧ SameFiles files' [⟨[[0x61]], [0x78]⟩] := by
  have htold : Told [⟨[[0x61]], [0x78]⟩] := by
    refine ⟨by decide +kernel, ?_⟩
    rintro ⟨q, d, e, -, -, -, hc⟩
    replace hc : [0x78] = d ++ 0 :: (encode (lossyPath q) ++ 0 :: e) := hc
    have hzero : (0 : UInt8) ∈ [0x78] := by
      rw [hc]
      simp
    exact absurd hzero (by decide)
  have hfiles : filesOf (some plainDir) = .ok [⟨[[0x61]], [0x78]⟩] :=
    filesOf_of_collect rfl (List.pairwise_singleton _ _)
  exact ⟨htold, fun spec => (fingerprint_tells_iff hfiles).mpr htold⟩

/-- The directory with the files `a` and `b`, which hold `x` and `y`. -/
def twoFiles : ConfigDir where
  root := "config"
  entries := [([0x61], .file [0x78]), ([0x62], .file [0x79])]
  wellFormed := ⟨⟨by decide, by decide, by decide, by decide, by decide⟩, by decide, trivial,
    ⟨by decide, by decide, by decide, by decide, by decide⟩, nofun, trivial, trivial⟩

/-- The directory with the file `a`, which holds `x`, a zero, `b`, a zero and `y`. -/
def oneFile : ConfigDir where
  root := "config"
  entries := [([0x61], .file [0x78, 0, 0x62, 0, 0x79])]
  wellFormed := ⟨⟨by decide, by decide, by decide, by decide, by decide⟩, nofun, trivial, trivial⟩

/-- Two directories with different files have one fingerprint, for every spec. -/
theorem two_directories_meet : ∃ files files', filesOf (some twoFiles) = .ok files ∧
    filesOf (some oneFile) = .ok files' ∧ ¬SameFiles files files' ∧
      ∀ spec, fingerprintBytes spec (some twoFiles) = fingerprintBytes spec (some oneFile) := by
  have htwo : filesOf (some twoFiles) = .ok [⟨[[0x61]], [0x78]⟩, ⟨[[0x62]], [0x79]⟩] :=
    filesOf_of_collect rfl (by decide)
  have hone : filesOf (some oneFile) = .ok [⟨[[0x61]], [0x78, 0, 0x62, 0, 0x79]⟩] :=
    filesOf_of_collect rfl (List.pairwise_singleton _ _)
  refine ⟨_, _, htwo, hone, fun hs => ?_, fun spec => ?_⟩
  · exact absurd ((hs ⟨[[0x62]], [0x79]⟩).mp (by decide)) (by decide)
  · rw [fingerprintBytes, fingerprintBytes, htwo, hone]
    have hrecords : ([⟨[[0x61]], [0x78]⟩, ⟨[[0x62]], [0x79]⟩] : List File).flatMap record =
        [⟨[[0x61]], [0x78, 0, 0x62, 0, 0x79]⟩].flatMap record := by decide +kernel
    exact congrArg (fun r => Except.ok (encode (text (specJson spec)) ++ r)) hrecords

end Bimo.EngineSpec
