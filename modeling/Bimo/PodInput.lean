import Mathlib.Data.List.Infix
import Bimo.Js

/-!
The inputs of a pod that are checked more than once: the repository, the target branch and the
id of the run.

The command line checks them first. The source runtime and the publisher check them again, each
with patterns of its own, and a later check that fails does so after the run has done its work.
The parser of URLs comes with the language's platform. It is a parameter here, with what is
documented of it for a plain address on GitHub.
-/

namespace Bimo.PodInput

open Js

def require (p : Bool) (message : String) : Except String Unit :=
  if p then .ok () else .error message

lemma require_eq {p : Bool} {message : String} : require p message = .ok () ↔ p = true := by
  unfold require
  split_ifs with h <;> simp [h]

/-! ### The command line -/

def isRunId (s : Text) : Bool :=
  headed isAlphanum (fun u => isAlphanum u || isOneOf "._-" u) 79 s

def isOwner (s : Text) : Bool := framed isAlphanum (isOneOf "-") 39 s

/-- The units of the name of a repository. -/
def isNameUnit (u : UInt16) : Bool := isAlphanum u || isOneOf "._-" u

def isRepositoryName (s : Text) : Bool := consists isNameUnit 1 100 s

/-- The string without `.git` at its end. -/
def withoutGit (s : Text) : Text := if endsWith s ".git" then s.take (s.length - 4) else s

/-- A name, and `.git` after it or not. -/
def isPodSegment (s : Text) : Bool :=
  isRepositoryName s || (endsWith s ".git" && isRepositoryName (s.take (s.length - 4)))

def isPodRepositoryUrl (s : Text) : Bool :=
  match splitOnSlash s with
  | [scheme, blank, host, owner, name] =>
    scheme == lit "https:" && blank.isEmpty && host == lit "github.com" && isOwner owner &&
      isPodSegment name
  | _ => false

def isDots (s : Text) : Bool := s == lit "." || s == lit ".."

def validPodRepository (s : Text) : Bool :=
  isPodRepositoryUrl s && !isDots ((splitOnSlash (withoutGit s)).getLastD [])

/-- A unit that no name of a branch may have. -/
def isForbidden (u : UInt16) : Bool := decide (u.toNat ≤ 32) || isOneOf "~^:?*[\\" u

def validTargetBranch (s : Text) : Bool :=
  decide (1 ≤ s.length ∧ s.length ≤ 128) && !startsWith s "/" && !endsWith s "/" &&
    !endsWith s "." && !startsWith s "-" && !includes s "//" && !includes s ".." &&
    !includes s "@\x7b" && s != lit "@" && !endsWith s ".lock" && !s.any isForbidden

/-! ### Branches -/

def isBranchUnit (u : UInt16) : Bool := isAlphanum u || isOneOf "._/-" u

def isSafeBranch (s : Text) : Bool := headed isAlphanum isBranchUnit 254 s

/-- What the three later checks have in common. -/
def branchRules (s : Text) : Bool :=
  s != lit "HEAD" && !startsWith s "refs/" && !includes s ".." && !includes s "//" &&
    !includes s "@\x7b" && !endsWith s "/" && !endsWith s "." &&
    !(splitOnSlash s).any fun c => c.isEmpty || startsWith c "." || endsWith c ".lock"

/-- The check of the source runtime. -/
def requireBranch (s : Text) (label : String) : Except String Unit :=
  require (isSafeBranch s && branchRules s) s!"invalid {label}"

/-- The check of the publication of a run. -/
def safeBranch (s : Text) (label : String) : Except String Unit :=
  require (isSafeBranch s && branchRules s) s!"invalid {label}"

def maxBranchBytes : ℕ := 255

/-- The check of the publisher. -/
def validateBranch (s : Text) (label : String) : Except String Unit :=
  require (!s.isEmpty && decide (byteLength s ≤ maxBranchBytes) &&
    headed isAlphanum isBranchUnit s.length s && branchRules s) s!"invalid {label}"

def headBranch (runId : Text) : Text := lit "bimo/" ++ runId

/-! ### Repositories -/

structure Url where
  protocol : Text
  hostname : Text
  port : Text
  username : Text
  password : Text
  search : Text
  hash : Text
  pathname : Text

section Repositories

variable (newUrl : Text → Option Url)

/-- What both later checks of a repository ask of its URL. -/
def plainUrl (url : Url) (hostname : Text) : Bool :=
  url.protocol == lit "https:" && hostname == lit "github.com" && url.port.isEmpty &&
    url.username.isEmpty && url.password.isEmpty && url.search.isEmpty && url.hash.isEmpty &&
    !includes url.pathname "%"

def parsed (repository : Text) : Except String Url := do
  require (!repository.isEmpty && decide (repository.length ≤ 512) && repository == trim repository)
    "invalid GitHub repository"
  match newUrl repository with
  | some url => .ok url
  | none => .error "invalid GitHub repository"

/-- The check of the source runtime. It gives back the address it works with. -/
def canonicalRepository (repository : Text) : Except String Text := do
  let url ← parsed newUrl repository
  require (plainUrl url (toLowerCase url.hostname)) "invalid GitHub repository"
  match splitOnSlash url.pathname with
  | [blank, owner, segment] => do
    require (blank.isEmpty && isOwner owner && isRepositoryName segment) "invalid GitHub repository"
    let name := withoutGit segment
    require (!name.isEmpty && !isDots name) "invalid GitHub repository"
    pure (lit "https://github.com/" ++ toLowerCase owner ++ lit "/" ++ toLowerCase name ++
      lit ".git")
  | _ => .error "invalid GitHub repository"

/-- The check of the publisher. It gives back the owner and the name. -/
def parseGitHubRepository (repository : Text) : Except String (Text × Text) := do
  let url ← parsed newUrl repository
  require (plainUrl url url.hostname) "invalid GitHub repository"
  match splitOnSlash url.pathname with
  | [blank, owner, segment] => do
    require (blank.isEmpty && !owner.isEmpty && !segment.isEmpty) "invalid GitHub repository"
    let repo := withoutGit segment
    require (isOwner owner && isRepositoryName repo && !isDots repo) "invalid GitHub repository"
    pure (owner, repo)
  | _ => .error "invalid GitHub repository"

end Repositories

/-! ### Addresses -/

/-- The address of a repository on GitHub. -/
def address (owner segment : Text) : Text :=
  lit "https://github.com/" ++ owner ++ lit "/" ++ segment

/-- What the parser of URLs gives for a plain address. -/
def addressUrl (owner segment : Text) : Url where
  protocol := lit "https:"
  hostname := lit "github.com"
  port := []
  username := []
  password := []
  search := []
  hash := []
  pathname := lit "/" ++ owner ++ lit "/" ++ segment

/-- A part of a path that is kept as it is: it has no unit that is escaped or that ends it, and
it does not stand for a directory above. -/
def PlainPart (s : Text) : Prop := s ≠ [] ∧ s.all isNameUnit = true ∧ isDots s = false

/-- What is documented of the parser: the parts of a plain address. -/
def Documented (newUrl : Text → Option Url) : Prop :=
  ∀ owner segment, PlainPart owner → PlainPart segment →
    newUrl (address owner segment) = some (addressUrl owner segment)

lemma lit_slash : lit "/" = [47] := by decide

lemma slash_notMem {s : Text} (h : s.all isNameUnit = true) : (47 : UInt16) ∉ s := by
  intro hmem
  exact absurd (List.all_eq_true.mp h _ hmem) (by decide)

/-- A suffix without a slash is one of what stands behind the slash. -/
lemma suffix_iff {l p s : Text} (h : (47 : UInt16) ∉ l) : l <:+ p ++ 47 :: s ↔ l <:+ s := by
  constructor
  · rintro ⟨u, hu⟩
    rcases List.append_eq_append_iff.mp hu with ⟨a, -, rfl⟩ | ⟨c, -, hc⟩
    · exact absurd (by simp) h
    · cases c with
      | nil =>
          have hl : 47 :: s = l := hc
          exact absurd (hl ▸ List.mem_cons_self) h
      | cons v c => exact ⟨c, (List.cons.inj hc).2.symm⟩
  · intro hs
    exact hs.trans ((List.suffix_cons 47 s).trans (List.suffix_append p _))

lemma endsWith_append {p s : Text} {t : String} (h : (47 : UInt16) ∉ lit t) :
    endsWith (p ++ 47 :: s) t = endsWith s t := by
  rw [Bool.eq_iff_iff, endsWith, endsWith, List.isSuffixOf_iff_suffix, List.isSuffixOf_iff_suffix]
  exact suffix_iff h

/-- Only the part behind the last slash is looked at. -/
lemma withoutGit_append (p s : Text) : withoutGit (p ++ 47 :: s) = p ++ 47 :: withoutGit s := by
  have hgit : (47 : UInt16) ∉ lit ".git" := by decide
  unfold withoutGit
  rw [endsWith_append hgit]
  split_ifs with h
  · have hlen : (lit ".git").length ≤ s.length :=
      (List.isSuffixOf_iff_suffix.mp h).length_le
    have hfour : (lit ".git").length = 4 := by decide
    rw [hfour] at hlen
    rw [List.length_append, List.length_cons, List.take_append,
      List.take_of_length_le (by omega : p.length ≤ p.length + (s.length + 1) - 4),
      show p.length + (s.length + 1) - 4 - p.length = s.length - 4 + 1 by omega, List.take_succ_cons]
  · rfl

/-- The string is what is left and `.git`. -/
lemma withoutGit_of_endsWith {s : Text} (h : endsWith s ".git" = true) :
    withoutGit s ++ lit ".git" = s := by
  obtain ⟨u, rfl⟩ := List.isSuffixOf_iff_suffix.mp h
  have hfour : (lit ".git").length = 4 := by decide
  rw [withoutGit, if_pos h, List.length_append, hfour, Nat.add_sub_cancel, List.take_left]

lemma withoutGit_git (s : Text) : withoutGit (s ++ lit ".git") = s := by
  have h : endsWith (s ++ lit ".git") ".git" = true :=
    List.isSuffixOf_iff_suffix.mpr (List.suffix_append s _)
  have hfour : (lit ".git").length = 4 := by decide
  rw [withoutGit, if_pos h, List.length_append, hfour, Nat.add_sub_cancel, List.take_left]

/-- What is left is shorter by four units at most. -/
lemma length_withoutGit (s : Text) :
    (withoutGit s).length ≤ s.length ∧ s.length ≤ (withoutGit s).length + 4 := by
  unfold withoutGit
  split_ifs
  · rw [List.length_take]
    omega
  · omega

lemma all_withoutGit {s : Text} {p : UInt16 → Bool} (h : s.all p = true) :
    (withoutGit s).all p = true := by
  unfold withoutGit
  split_ifs
  · exact List.all_eq_true.mpr fun u hu => List.all_eq_true.mp h u (List.mem_of_mem_take hu)
  · exact h

lemma address_eq (owner segment : Text) :
    address owner segment = (lit "https://github.com/" ++ owner) ++ 47 :: segment := by
  rw [address, lit_slash, List.append_assoc (lit "https://github.com/" ++ owner)]
  rfl

/-- The parts of an address. -/
lemma splitOnSlash_address {owner segment : Text} (ho : (47 : UInt16) ∉ owner)
    (hs : (47 : UInt16) ∉ segment) :
    splitOnSlash (address owner segment) =
      [lit "https:", [], lit "github.com", owner, segment] := by
  have hlit : lit "https://github.com/" = lit "https:" ++ 47 :: ([] ++ 47 ::
      (lit "github.com" ++ [47])) := by decide
  have happ : address owner segment = lit "https:" ++ 47 :: ([] ++ 47 ::
      (lit "github.com" ++ 47 :: (owner ++ 47 :: segment))) := by
    rw [address_eq, hlit]
    simp only [List.append_assoc, List.cons_append, List.nil_append]
  rw [splitOnSlash, happ, List.splitOn_append_cons_self, List.splitOn_append_cons_self,
    List.splitOn_append_cons_self, List.splitOn_append_cons_self, List.splitOn_eq_singleton ho,
    List.splitOn_eq_singleton hs, List.splitOn_eq_singleton (by decide),
    List.splitOn_eq_singleton (by decide), List.splitOn_eq_singleton (by decide)]
  rfl

/-- The name of a repository, as the command line reads it off its address. -/
def nameOf (repository : Text) : Text := (splitOnSlash (withoutGit repository)).getLastD []

lemma nameOf_address {owner segment : Text} (ho : (47 : UInt16) ∉ owner)
    (hs : segment.all isNameUnit = true) : nameOf (address owner segment) = withoutGit segment := by
  rw [nameOf, address_eq, withoutGit_append, ← address_eq, splitOnSlash_address ho
    (slash_notMem (all_withoutGit hs))]
  rfl

lemma all_of_isOwner {owner : Text} (h : isOwner owner = true) :
    owner ≠ [] ∧ owner.all (fun u => isAlphanum u || isOneOf "-" u) = true ∧
      owner.length ≤ 39 := by
  simp only [isOwner, framed, Bool.and_eq_true, decide_eq_true_eq] at h
  refine ⟨?_, h.1.2, h.2⟩
  rintro rfl
  cases h.1.1.1

lemma isNameUnit_of_owner {u : UInt16} (h : (isAlphanum u || isOneOf "-" u) = true) :
    isNameUnit u = true := by
  rw [Bool.or_eq_true] at h
  rw [isNameUnit, Bool.or_eq_true]
  refine h.imp id fun hu => ?_
  have hdash : u = 45 := by simpa [isOneOf, lit, units] using hu
  rw [hdash]
  decide

/-- The owner of a repository is a plain part of a path. -/
lemma plainPart_of_isOwner {owner : Text} (h : isOwner owner = true) : PlainPart owner := by
  obtain ⟨hne, hall, -⟩ := all_of_isOwner h
  refine ⟨hne, List.all_eq_true.mpr fun u hu => ?_, ?_⟩
  · exact isNameUnit_of_owner (List.all_eq_true.mp hall u hu)
  · cases hd : isDots owner with
    | false => rfl
    | true =>
        rw [isDots, Bool.or_eq_true, beq_iff_eq, beq_iff_eq] at hd
        rcases hd with rfl | rfl
        · exact absurd hall (by decide)
        · exact absurd hall (by decide)

lemma consists_iff {p : UInt16 → Bool} {a b : ℕ} {s : Text} :
    consists p a b s = true ↔ a ≤ s.length ∧ s.length ≤ b ∧ s.all p = true := by
  rw [consists, Bool.and_eq_true, decide_eq_true_eq, and_assoc]

/-- What stands for a repository in an address: units of a name, not too many of them. -/
lemma of_isPodSegment {segment : Text} (h : isPodSegment segment = true) :
    segment ≠ [] ∧ segment.all isNameUnit = true ∧ segment.length ≤ 104 := by
  rw [isPodSegment, Bool.or_eq_true, Bool.and_eq_true] at h
  rcases h with h | ⟨hgit, h⟩
  · obtain ⟨hpos, hlen, hall⟩ := consists_iff.mp h
    refine ⟨?_, hall, by omega⟩
    rintro rfl
    exact absurd hpos (by decide)
  · obtain ⟨hpos, hlen, hall⟩ := consists_iff.mp h
    have hwithout : withoutGit segment = segment.take (segment.length - 4) := by
      rw [withoutGit, if_pos hgit]
    rw [← hwithout] at hpos hlen hall
    have hseg := withoutGit_of_endsWith hgit
    refine ⟨?_, ?_, ?_⟩
    · rintro rfl
      exact absurd hgit (by decide)
    · rw [← hseg, List.all_append, hall, Bool.true_and]
      decide
    · have := length_withoutGit segment
      omega

/-- A part that is not dots without `.git` is not dots with it. -/
lemma isDots_of_withoutGit {s : Text} (h : isDots (withoutGit s) = false) : isDots s = false := by
  cases hd : isDots s with
  | false => rfl
  | true =>
      rw [isDots, Bool.or_eq_true, beq_iff_eq, beq_iff_eq] at hd
      rcases hd with rfl | rfl
      · exact absurd h (by decide)
      · exact absurd h (by decide)

/-- What the command line accepts is an address. -/
lemma of_validPodRepository {r : Text} (h : validPodRepository r = true) :
    ∃ owner segment, r = address owner segment ∧ isOwner owner = true ∧
      isPodSegment segment = true ∧ nameOf r = withoutGit segment ∧
      isDots (withoutGit segment) = false := by
  rw [validPodRepository, Bool.and_eq_true, Bool.not_eq_true'] at h
  obtain ⟨hurl, hdots⟩ := h
  unfold isPodRepositoryUrl at hurl
  split at hurl
  · rename_i scheme blank host owner segment hsplit
    simp only [Bool.and_eq_true, beq_iff_eq, List.isEmpty_iff] at hurl
    obtain ⟨⟨⟨⟨rfl, rfl⟩, rfl⟩, howner⟩, hsegment⟩ := hurl
    obtain ⟨-, hall, -⟩ := of_isPodSegment hsegment
    have hslash := slash_notMem (plainPart_of_isOwner howner).2.1
    have hr : r = address owner segment := by
      have hsplit' := splitOnSlash_address hslash (slash_notMem hall)
      rw [← hsplit] at hsplit'
      have hcongr := congrArg (List.intercalate [47]) hsplit'
      rw [splitOnSlash, splitOnSlash, List.intercalate_splitOn, List.intercalate_splitOn] at hcongr
      exact hcongr.symm
    subst hr
    have hname := nameOf_address hslash hall
    exact ⟨owner, segment, rfl, howner, hsegment, hname, hname ▸ hdots⟩
  · cases hurl

/-! ### What the later checks make of an address -/

lemma dropWhile_eq {p : UInt16 → Bool} {s : Text} (h : s.head?.all (fun u => !p u) = true) :
    s.dropWhile p = s := by
  cases s with
  | nil => rfl
  | cons u s => rw [List.dropWhile_cons_of_neg (by simpa using h)]

/-- There is nothing to trim. -/
lemma trim_eq {s : Text} (hhead : s.head?.all (fun u => !isSpace u) = true)
    (hlast : s.getLast?.all (fun u => !isSpace u) = true) : trim s = s := by
  rw [trim, dropWhile_eq hhead, dropWhile_eq (by rwa [List.head?_reverse]), List.reverse_reverse]

/-- A string does not stand in another that lacks one of its units. -/
lemma includes_false {s : Text} {t : String} {u : UInt16} (hu : u ∈ lit t) (h : u ∉ s) :
    includes s t = false := by
  rw [includes, List.any_eq_false]
  intro r hr hprefix
  have hmem : u ∈ r := (List.isPrefixOf_iff_prefix.mp hprefix).subset hu
  exact h (((List.mem_tails _ _).mp hr).subset hmem)

/-- The units of a name are letters, digits and three marks. -/
lemma toNat_of_isNameUnit {u : UInt16} (h : isNameUnit u = true) :
    45 ≤ u.toNat ∧ u.toNat ≤ 122 := by
  rw [isNameUnit, Bool.or_eq_true] at h
  rcases h with h | h
  · simp only [isAlphanum, isLetter, isUpper, isLower, isDigit, Bool.or_eq_true,
      decide_eq_true_eq] at h
    omega
  · have hmem : u ∈ lit "._-" := by simpa [isOneOf] using h
    have hlit : lit "._-" = [46, 95, 45] := by decide
    rw [hlit] at hmem
    simp only [List.mem_cons, List.not_mem_nil, or_false] at hmem
    rcases hmem with rfl | rfl | rfl <;> decide

lemma isSpace_of_isNameUnit {u : UInt16} (h : isNameUnit u = true) : isSpace u = false := by
  have hrange := toNat_of_isNameUnit h
  rw [isSpace, Bool.or_eq_false_iff, decide_eq_false_iff_not, decide_eq_false_iff_not]
  simp only [List.mem_cons, List.not_mem_nil, or_false]
  omega

section Later

variable {newUrl : Text → Option Url} {owner segment : Text}

lemma parsed_address (hurl : Documented newUrl) (ho : isOwner owner = true)
    (hs : PlainPart segment) (hlen : segment.length ≤ 104) :
    parsed newUrl (address owner segment) = .ok (addressUrl owner segment) := by
  obtain ⟨-, -, holen⟩ := all_of_isOwner ho
  have hnotEmpty : (address owner segment).isEmpty = false := rfl
  have hlength : (address owner segment).length ≤ 512 := by
    have hpre : (lit "https://github.com/").length = 19 := by decide
    rw [address_eq, List.length_append, List.length_append, List.length_cons, hpre]
    omega
  have htrim : trim (address owner segment) = address owner segment := by
    refine trim_eq rfl ?_
    have hu := List.getLast?_eq_some_getLast hs.1
    have hmem := List.getLast_mem hs.1
    rw [address, List.getLast?_append, hu, Option.some_or, Option.all_some,
      isSpace_of_isNameUnit (List.all_eq_true.mp hs.2.1 _ hmem)]
    rfl
  unfold parsed
  rw [hurl owner segment (plainPart_of_isOwner ho) hs, htrim, hnotEmpty, decide_eq_true hlength,
    beq_self_eq_true]
  rfl

lemma plainUrl_address (ho : owner.all isNameUnit = true) (hs : segment.all isNameUnit = true) :
    plainUrl (addressUrl owner segment) (lit "github.com") = true := by
  have hpath : includes (addressUrl owner segment).pathname "%" = false := by
    refine includes_false (u := 37) (by decide) fun hmem => ?_
    rw [addressUrl, lit_slash, List.append_assoc, List.append_assoc, List.mem_append,
      List.mem_append, List.mem_append] at hmem
    rcases hmem with h | h | h | h
    · exact absurd h (by decide)
    · exact absurd (List.all_eq_true.mp ho _ h) (by decide)
    · exact absurd h (by decide)
    · exact absurd (List.all_eq_true.mp hs _ h) (by decide)
  rw [plainUrl, hpath]
  rfl

lemma splitOnSlash_pathname (ho : (47 : UInt16) ∉ owner) (hs : (47 : UInt16) ∉ segment) :
    splitOnSlash (addressUrl owner segment).pathname = [[], owner, segment] := by
  have hpath : (addressUrl owner segment).pathname = [] ++ 47 :: (owner ++ 47 :: segment) := by
    rw [addressUrl, lit_slash]
    simp only [List.append_assoc, List.cons_append, List.nil_append]
  rw [splitOnSlash, hpath, List.splitOn_append_cons_self, List.splitOn_append_cons_self,
    List.splitOn_eq_singleton ho, List.splitOn_eq_singleton hs, List.splitOn_nil]
  rfl

/-- The address that the source runtime works with. -/
def canonicalOf (owner name : Text) : Text :=
  address (toLowerCase owner) (toLowerCase name ++ lit ".git")

lemma canonicalRepository_address (hurl : Documented newUrl) (ho : isOwner owner = true)
    (hs : PlainPart segment) (hlen : segment.length ≤ 104) :
    canonicalRepository newUrl (address owner segment) =
      if isRepositoryName segment && !(withoutGit segment).isEmpty &&
          !isDots (withoutGit segment) then
        .ok (canonicalOf owner (withoutGit segment))
      else .error "invalid GitHub repository" := by
  have hplain := plainPart_of_isOwner ho
  have hlower : toLowerCase (addressUrl owner segment).hostname = lit "github.com" := by
    change toLowerCase (lit "github.com") = lit "github.com"
    decide
  unfold canonicalRepository
  rw [parsed_address hurl ho hs hlen]
  change (require (plainUrl _ _) _ >>= fun _ => _) = _
  rw [hlower, plainUrl_address hplain.2.1 hs.2.1]
  change (match splitOnSlash _ with | [_, _, _] => _ | _ => _) = _
  rw [splitOnSlash_pathname (slash_notMem hplain.2.1) (slash_notMem hs.2.1)]
  dsimp only
  rw [ho]
  have hout : lit "https://github.com/" ++ toLowerCase owner ++ lit "/" ++
      toLowerCase (withoutGit segment) ++ lit ".git" = canonicalOf owner (withoutGit segment) :=
    List.append_assoc ..
  rw [hout]
  cases isRepositoryName segment with
  | false => rfl
  | true =>
      cases (withoutGit segment).isEmpty with
      | true => rfl
      | false => cases isDots (withoutGit segment) <;> rfl

lemma parseGitHubRepository_address (hurl : Documented newUrl) (ho : isOwner owner = true)
    (hs : PlainPart segment) (hlen : segment.length ≤ 104) :
    parseGitHubRepository newUrl (address owner segment) =
      if isRepositoryName (withoutGit segment) && !isDots (withoutGit segment) then
        .ok (owner, withoutGit segment)
      else .error "invalid GitHub repository" := by
  have hplain := plainPart_of_isOwner ho
  unfold parseGitHubRepository
  rw [parsed_address hurl ho hs hlen]
  change (require (plainUrl _ (lit "github.com")) _ >>= fun _ => _) = _
  rw [plainUrl_address hplain.2.1 hs.2.1]
  change (match splitOnSlash _ with | [_, _, _] => _ | _ => _) = _
  rw [splitOnSlash_pathname (slash_notMem hplain.2.1) (slash_notMem hs.2.1)]
  dsimp only
  rw [ho, List.isEmpty_eq_false_iff.mpr hplain.1, List.isEmpty_eq_false_iff.mpr hs.1]
  cases isRepositoryName (withoutGit segment) with
  | false => rfl
  | true => cases isDots (withoutGit segment) <;> rfl

end Later

/-! ### Lower case -/

lemma isOneOf_iff {t : String} {u : UInt16} :
    isOneOf t u = true ↔ u.toNat ∈ (lit t).map UInt16.toNat := by
  rw [isOneOf, List.contains_iff_mem, List.mem_map]
  refine ⟨fun h => ⟨u, h, rfl⟩, ?_⟩
  rintro ⟨v, hv, he⟩
  rwa [← UInt16.toNat_inj.mp he]

lemma isAlphanum_iff {u : UInt16} : isAlphanum u = true ↔
    (48 ≤ u.toNat ∧ u.toNat ≤ 57) ∨ (65 ≤ u.toNat ∧ u.toNat ≤ 90) ∨
      (97 ≤ u.toNat ∧ u.toNat ≤ 122) := by
  simp only [isAlphanum, isLetter, isUpper, isLower, isDigit, Bool.or_eq_true, decide_eq_true_eq]
  omega

def lowerUnit (u : UInt16) : UInt16 := if isUpper u then u + 32 else u

/-- Either a unit is its own lower case, or both are letters. -/
lemma lowerUnit_cases (u : UInt16) : (isUpper u = false ∧ lowerUnit u = u) ∨
    (65 ≤ u.toNat ∧ u.toNat ≤ 90 ∧ (lowerUnit u).toNat = u.toNat + 32) := by
  cases h : isUpper u with
  | false => exact .inl ⟨rfl, by rw [lowerUnit, h]; rfl⟩
  | true =>
      have hrange : 65 ≤ u.toNat ∧ u.toNat ≤ 90 := of_decide_eq_true h
      refine .inr ⟨hrange.1, hrange.2, ?_⟩
      have h32 : (32 : UInt16).toNat = 32 := rfl
      rw [lowerUnit, h, if_pos rfl, UInt16.toNat_add, h32]
      omega

lemma isUpper_lowerUnit (u : UInt16) : isUpper (lowerUnit u) = false := by
  rcases lowerUnit_cases u with ⟨h, he⟩ | ⟨_, _, he⟩
  · rw [he, h]
  · rw [isUpper, he, decide_eq_false_iff_not]
    omega

lemma isAlphanum_lowerUnit (u : UInt16) : isAlphanum (lowerUnit u) = isAlphanum u := by
  rcases lowerUnit_cases u with ⟨-, he⟩ | ⟨_, _, he⟩
  · rw [he]
  · rw [Bool.eq_iff_iff, isAlphanum_iff, isAlphanum_iff, he]
    omega

/-- Marks have no case. -/
lemma isOneOf_lowerUnit {t : String} (ht : ∀ n ∈ (lit t).map UInt16.toNat, n < 65 ∨ n = 95)
    (u : UInt16) : isOneOf t (lowerUnit u) = isOneOf t u := by
  rcases lowerUnit_cases u with ⟨-, he⟩ | ⟨_, _, he⟩
  · rw [he]
  · rw [Bool.eq_iff_iff, isOneOf_iff, isOneOf_iff, he]
    refine ⟨fun h => ?_, fun h => ?_⟩
    · have := ht _ h
      omega
    · have := ht _ h
      omega

lemma isNameUnit_lowerUnit (u : UInt16) : isNameUnit (lowerUnit u) = isNameUnit u := by
  rw [isNameUnit, isNameUnit, isAlphanum_lowerUnit, isOneOf_lowerUnit (by decide)]

lemma toLowerCase_eq (s : Text) : toLowerCase s = s.map lowerUnit := rfl

lemma toLowerCase_idem (s : Text) : toLowerCase (toLowerCase s) = toLowerCase s := by
  rw [toLowerCase_eq, toLowerCase_eq, List.map_map]
  refine List.map_congr_left fun u _ => ?_
  change lowerUnit (lowerUnit u) = lowerUnit u
  rw [lowerUnit, isUpper_lowerUnit]
  rfl

lemma all_toLowerCase (s : Text) : (toLowerCase s).all isNameUnit = s.all isNameUnit := by
  have hcomp : isNameUnit ∘ lowerUnit = isNameUnit := funext isNameUnit_lowerUnit
  rw [toLowerCase_eq, List.all_map, hcomp]

lemma isOwner_toLowerCase (s : Text) : isOwner (toLowerCase s) = isOwner s := by
  have hedge : ∀ o : Option UInt16, (o.map lowerUnit).any isAlphanum = o.any isAlphanum := by
    rintro (- | u)
    · rfl
    · exact isAlphanum_lowerUnit u
  have hall : (s.map lowerUnit).all (fun u => isAlphanum u || isOneOf "-" u) =
      s.all (fun u => isAlphanum u || isOneOf "-" u) := by
    rw [List.all_map]
    refine congrArg (fun p => s.all p) (funext fun u => ?_)
    change (isAlphanum (lowerUnit u) || isOneOf "-" (lowerUnit u)) = _
    rw [isAlphanum_lowerUnit, isOneOf_lowerUnit (by decide)]
  rw [isOwner, isOwner, framed, framed, toLowerCase_eq, List.head?_map, List.getLast?_map, hedge,
    hedge, hall, List.length_map]

lemma eq_dot_of_lowerUnit {u : UInt16} (h : lowerUnit u = 46) : u = 46 := by
  rcases lowerUnit_cases u with ⟨-, he⟩ | ⟨hlow, -, he⟩
  · exact he ▸ h
  · rw [h] at he
    have hdot : (46 : UInt16).toNat = 46 := rfl
    omega

/-- Dots have no case. -/
lemma isDots_toLowerCase {s : Text} (h : isDots s = false) : isDots (toLowerCase s) = false := by
  cases hd : isDots (toLowerCase s) with
  | false => rfl
  | true =>
      have hone : lit "." = [46] := by decide
      have htwo : lit ".." = [46, 46] := by decide
      rw [isDots, Bool.or_eq_true, beq_iff_eq, beq_iff_eq, hone, htwo, toLowerCase_eq] at hd
      rcases hd with hd | hd
      · obtain ⟨u, rfl, hu⟩ := List.map_eq_singleton_iff.mp hd
        rw [eq_dot_of_lowerUnit hu] at h
        exact absurd h (by decide)
      · obtain ⟨u, l, rfl, hu, hl⟩ := List.map_eq_cons_iff.mp hd
        obtain ⟨v, rfl, hv⟩ := List.map_eq_singleton_iff.mp hl
        rw [eq_dot_of_lowerUnit hu, eq_dot_of_lowerUnit hv] at h
        exact absurd h (by decide)

/-! ### Repositories -/

/-- The later checks accept the repository and name the same one, and the address that the source
runtime works with is its own. -/
def RepositoryAgrees (newUrl : Text → Option Url) (repository : Text) : Prop :=
  ∃ owner name, parseGitHubRepository newUrl repository = .ok (owner, name) ∧
    canonicalRepository newUrl repository = .ok (canonicalOf owner name) ∧
    canonicalRepository newUrl (canonicalOf owner name) = .ok (canonicalOf owner name)

/-- The name is there, and there is room for `.git` behind it. -/
def FittingName (repository : Text) : Prop :=
  1 ≤ (nameOf repository).length ∧ (nameOf repository).length ≤ 96

lemma isRepositoryName_iff {s : Text} (h : s.all isNameUnit = true) :
    isRepositoryName s = true ↔ 1 ≤ s.length ∧ s.length ≤ 100 := by
  rw [isRepositoryName, consists_iff, h, and_iff_left rfl]

/-- The address that the source runtime works with is accepted if its name fits. -/
lemma canonicalRepository_canonicalOf {newUrl : Text → Option Url} (hurl : Documented newUrl)
    {owner name : Text} (ho : isOwner owner = true) (hall : name.all isNameUnit = true)
    (hdots : isDots name = false) (hpos : 1 ≤ name.length) (hlen : name.length ≤ 100) :
    canonicalRepository newUrl (canonicalOf owner name) = .ok (canonicalOf owner name) ↔
      name.length ≤ 96 := by
  have hfour : (lit ".git").length = 4 := by decide
  have hlength : (toLowerCase name ++ lit ".git").length = name.length + 4 := by
    rw [List.length_append, toLowerCase_eq, List.length_map, hfour]
  have hsegment : (toLowerCase name ++ lit ".git").all isNameUnit = true := by
    rw [List.all_append, all_toLowerCase, hall, Bool.true_and]
    decide
  have hlower := isDots_toLowerCase hdots
  have hplain : PlainPart (toLowerCase name ++ lit ".git") := by
    refine ⟨fun h => ?_, hsegment, isDots_of_withoutGit (by rwa [withoutGit_git])⟩
    rw [h] at hlength
    cases hlength
  have hnotEmpty : (toLowerCase name).isEmpty = false := by
    rw [List.isEmpty_eq_false_iff, toLowerCase_eq]
    rintro h
    rw [List.map_eq_nil_iff] at h
    subst h
    exact absurd hpos (by decide)
  have hsame : canonicalOf (toLowerCase owner) (toLowerCase name) = canonicalOf owner name := by
    rw [canonicalOf, toLowerCase_idem, toLowerCase_idem, canonicalOf]
  rw [canonicalOf, canonicalRepository_address hurl ((isOwner_toLowerCase owner).trans ho) hplain
    (by omega), withoutGit_git, hnotEmpty, hlower, hsame]
  cases hname : isRepositoryName (toLowerCase name ++ lit ".git") with
  | false =>
      refine ⟨nofun, fun h => ?_⟩
      rw [(isRepositoryName_iff hsegment).mpr (by omega)] at hname
      cases hname
  | true =>
      have := (isRepositoryName_iff hsegment).mp hname
      exact ⟨fun _ => by omega, fun _ => rfl⟩

/-- Which repositories the later checks agree on. -/
lemma repositoryAgrees_iff {newUrl : Text → Option Url} (hurl : Documented newUrl) {r : Text}
    (h : validPodRepository r = true) : RepositoryAgrees newUrl r ↔ FittingName r := by
  obtain ⟨owner, segment, rfl, ho, hs, hname, hdots⟩ := of_validPodRepository h
  obtain ⟨hne, hall, hlen⟩ := of_isPodSegment hs
  have hplain : PlainPart segment := ⟨hne, hall, isDots_of_withoutGit hdots⟩
  have hwithout := all_withoutGit hall
  have hlengths := length_withoutGit segment
  rw [FittingName, hname]
  constructor
  · rintro ⟨owner', name, hparse, hcanonical, hfixed⟩
    rw [parseGitHubRepository_address hurl ho hplain hlen] at hparse
    split_ifs at hparse with hok
    obtain ⟨rfl, rfl⟩ := Prod.mk.inj (Except.ok.inj hparse)
    rw [Bool.and_eq_true, isRepositoryName_iff hwithout] at hok
    obtain ⟨⟨hpos, hle⟩, -⟩ := hok
    exact ⟨hpos, (canonicalRepository_canonicalOf hurl ho hwithout hdots hpos hle).mp hfixed⟩
  · rintro ⟨hpos, hle⟩
    refine ⟨owner, withoutGit segment, ?_, ?_, ?_⟩
    · rw [parseGitHubRepository_address hurl ho hplain hlen, hdots,
        (isRepositoryName_iff hwithout).mpr (by omega)]
      rfl
    · rw [canonicalRepository_address hurl ho hplain hlen, hdots,
        (isRepositoryName_iff hall).mpr (by omega), List.isEmpty_eq_false_iff.mpr]
      · rfl
      · rintro hnil
        rw [hnil] at hpos
        cases hpos
    · exact (canonicalRepository_canonicalOf hurl ho hwithout hdots hpos (by omega)).mpr hle

/-! ### Branches -/

/-- The later checks accept the branch. -/
def BranchAgrees (s : Text) : Prop :=
  ∀ label, requireBranch s label = .ok () ∧ safeBranch s label = .ok () ∧
    validateBranch s label = .ok ()

lemma codePoints_ascii {s : Text} (h : ∀ u ∈ s, u.toNat < 128) :
    codePoints s = s.map UInt16.toNat := by
  fun_induction codePoints s with
  | case1 => rfl
  | case2 u => rfl
  | case3 u v l hpair ih =>
      have hu := h u List.mem_cons_self
      simp only [isHigh, Bool.and_eq_true, decide_eq_true_eq] at hpair
      omega
  | case4 u v l hpair ih => rw [List.map_cons, ih fun w hw => h w (List.mem_cons_of_mem u hw)]

/-- A string of ASCII has as many bytes as units. -/
lemma byteLength_ascii {s : Text} (h : ∀ u ∈ s, u.toNat < 128) : byteLength s = s.length := by
  rw [byteLength, codePoints_ascii h, List.map_map]
  induction s with
  | nil => rfl
  | cons u s ih =>
      have hu := h u List.mem_cons_self
      rw [List.map_cons, List.sum_cons, ih fun w hw => h w (List.mem_cons_of_mem u hw),
        Function.comp_apply, if_pos hu, List.length_cons, Nat.add_comm]

lemma isBranchUnit_of_isAlphanum {u : UInt16} (h : isAlphanum u = true) : isBranchUnit u = true := by
  rw [isBranchUnit, h, Bool.true_or]

lemma isBranchUnit_of_isNameUnit {u : UInt16} (h : isNameUnit u = true) : isBranchUnit u = true := by
  have hsub : ∀ n ∈ (lit "._-").map UInt16.toNat, n ∈ (lit "._/-").map UInt16.toNat := by decide
  rw [isNameUnit, Bool.or_eq_true, isOneOf_iff] at h
  rw [isBranchUnit, Bool.or_eq_true, isOneOf_iff]
  exact h.imp id (hsub _)

lemma toNat_of_isBranchUnit {u : UInt16} (h : isBranchUnit u = true) : u.toNat < 128 := by
  rw [isBranchUnit, Bool.or_eq_true, isAlphanum_iff, isOneOf_iff] at h
  have hlit : (lit "._/-").map UInt16.toNat = [46, 95, 47, 45] := by decide
  rw [hlit] at h
  simp only [List.mem_cons, List.not_mem_nil, or_false] at h
  omega

lemma headed_iff {first rest : UInt16 → Bool} (hsub : ∀ u, first u = true → rest u = true) {n : ℕ}
    {s : Text} : headed first rest n s = true ↔
      s.head?.any first = true ∧ s.all rest = true ∧ s.length ≤ n + 1 := by
  cases s with
  | nil => simp [headed]
  | cons u s =>
      rw [headed, Bool.and_eq_true, consists_iff, List.head?_cons, Option.any_some, List.all_cons,
        Bool.and_eq_true, List.length_cons]
      refine ⟨fun h => ⟨h.1, ⟨hsub u h.1, h.2.2.2⟩, by omega⟩, ?_⟩
      exact fun h => ⟨h.1, Nat.zero_le _, by omega, h.2.1.2⟩

/-- What the three later checks ask of a branch that is not too long. -/
lemma branchAgrees_iff {s : Text} (hlen : s.length ≤ 255) :
    BranchAgrees s ↔
      s.head?.any isAlphanum = true ∧ s.all isBranchUnit = true ∧ branchRules s = true := by
  have hsub := fun u => isBranchUnit_of_isAlphanum (u := u)
  constructor
  · intro h
    obtain ⟨hreq, -, -⟩ := h "branch"
    have hboth := require_eq.mp hreq
    rw [Bool.and_eq_true, isSafeBranch, headed_iff hsub] at hboth
    exact ⟨hboth.1.1, hboth.1.2.1, hboth.2⟩
  · rintro ⟨hhead, hall, hrules⟩ label
    have hsafe : isSafeBranch s = true := (headed_iff hsub).mpr ⟨hhead, hall, by omega⟩
    have hascii : ∀ u ∈ s, u.toNat < 128 := fun u hu =>
      toNat_of_isBranchUnit (List.all_eq_true.mp hall u hu)
    have hne : s.isEmpty = false := by
      cases s with
      | nil => cases hhead
      | cons u s => rfl
    refine ⟨require_eq.mpr ?_, require_eq.mpr ?_, require_eq.mpr ?_⟩
    · rw [hsafe, hrules, Bool.true_and]
    · rw [hsafe, hrules, Bool.true_and]
    · rw [hne, hrules, (headed_iff hsub).mpr ⟨hhead, hall, Nat.le_succ _⟩, byteLength_ascii hascii,
        decide_eq_true (show s.length ≤ maxBranchBytes from hlen)]
      rfl

/-- A branch as the later checks want it: letters, digits and four marks, a letter or a digit
first, not `HEAD`, no full name of a reference, and no part that is empty, begins with a dot or
ends with `.lock`. -/
def PlainBranch (s : Text) : Prop :=
  s.all isBranchUnit = true ∧ s.head?.any isAlphanum = true ∧ s ≠ lit "HEAD" ∧
    startsWith s "refs/" = false ∧
    ∀ c ∈ splitOnSlash s, c ≠ [] ∧ startsWith c "." = false ∧ endsWith c ".lock" = false

/-- Which target branches the later checks accept. -/
lemma targetBranch_iff {s : Text} (h : validTargetBranch s = true) :
    BranchAgrees s ↔ PlainBranch s := by
  simp only [validTargetBranch, Bool.and_eq_true, decide_eq_true_eq, Bool.not_eq_true'] at h
  obtain ⟨⟨⟨⟨⟨⟨⟨⟨⟨⟨hlen, -⟩, hslash⟩, hdot⟩, -⟩, hslashes⟩, hdots⟩, hat⟩, -⟩, -⟩, -⟩ := h
  rw [branchAgrees_iff (by omega), PlainBranch, branchRules, hslash, hdot, hslashes, hdots, hat]
  simp only [Bool.and_eq_true, bne_iff_ne, ne_eq, Bool.not_eq_true', Bool.not_false, and_true,
    List.any_eq_false, Bool.or_eq_true, not_or, List.isEmpty_iff, Bool.not_eq_true]
  constructor
  · rintro ⟨hhead, hall, ⟨hne, hrefs⟩, hparts⟩
    exact ⟨hall, hhead, hne, hrefs, fun c hc => ⟨(hparts c hc).1.1, (hparts c hc).1.2,
      (hparts c hc).2⟩⟩
  · rintro ⟨hall, hhead, hne, hrefs, hparts⟩
    exact ⟨hhead, hall, ⟨hne, hrefs⟩, fun c hc => ⟨⟨(hparts c hc).1, (hparts c hc).2.1⟩,
      (hparts c hc).2.2⟩⟩

/-- A run id that a branch can end with. -/
def PlainRunId (s : Text) : Prop :=
  includes s ".." = false ∧ endsWith s "." = false ∧ endsWith s ".lock" = false

/-- A string ends with a slash only if its last unit is one. -/
lemma endsWith_slash {p s : Text} (hne : s ≠ []) (h : (47 : UInt16) ∉ s) :
    endsWith (p ++ s) "/" = false := by
  cases he : endsWith (p ++ s) "/" with
  | false => rfl
  | true =>
      obtain ⟨u, hu⟩ := List.isSuffixOf_iff_suffix.mp he
      have hlast := congrArg List.getLast? hu
      rw [lit_slash, List.getLast?_append, List.getLast?_append,
        List.getLast?_eq_some_getLast hne, Option.some_or] at hlast
      have hmem := List.getLast_mem hne
      rw [← Option.some.inj hlast] at hmem
      exact absurd hmem h

lemma of_isRunId {s : Text} (h : isRunId s = true) :
    s ≠ [] ∧ s.head?.any isAlphanum = true ∧ s.all isNameUnit = true ∧ s.length ≤ 80 := by
  have hsub : ∀ u, isAlphanum u = true → (isAlphanum u || isOneOf "._-" u) = true :=
    fun u hu => by rw [hu, Bool.true_or]
  obtain ⟨hhead, hall, hlen⟩ := (headed_iff hsub).mp h
  refine ⟨?_, hhead, hall, hlen⟩
  rintro rfl
  cases hhead

/-- What the rules for branches come to for a head branch. -/
lemma branchRules_headBranch {s : Text} (hne : s ≠ []) (hhead : s.head?.any isAlphanum = true)
    (hall : s.all isNameUnit = true) :
    branchRules (headBranch s) =
      (!includes s ".." && !endsWith s "." && !endsWith s ".lock") := by
  obtain ⟨u, s, rfl⟩ := List.exists_cons_of_ne_nil hne
  have hslash := slash_notMem hall
  have hbimo : lit "bimo/" = [98, 105, 109, 111, 47] := by decide
  have hhead' : headBranch (u :: s) = lit "bimo" ++ 47 :: u :: s := by
    rw [headBranch, hbimo]
    rfl
  have hfirst : u ≠ 47 := fun he => hslash (he ▸ List.mem_cons_self)
  have hletter : startsWith (u :: s) "." = false := by
    cases hs : startsWith (u :: s) "." with
    | false => rfl
    | true =>
        obtain ⟨r, hr⟩ := List.isPrefixOf_iff_prefix.mp hs
        have hdot : (46 : UInt16) = u := (List.cons.inj hr).1
        have hletter : isAlphanum u = true := hhead
        rw [← hdot] at hletter
        exact absurd hletter (by decide)
  have hsplit : splitOnSlash (headBranch (u :: s)) = [lit "bimo", u :: s] := by
    rw [splitOnSlash, hhead', List.splitOn_append_cons_self, List.splitOn_eq_singleton hslash,
      List.splitOn_eq_singleton (by decide)]
    rfl
  have hincludes : ∀ t, includes (headBranch (u :: s)) t =
      ((lit t).isPrefixOf (headBranch (u :: s)) || ((lit t).isPrefixOf (105 :: 109 :: 111 :: 47 ::
        u :: s) || ((lit t).isPrefixOf (109 :: 111 :: 47 :: u :: s) ||
        ((lit t).isPrefixOf (111 :: 47 :: u :: s) || ((lit t).isPrefixOf (47 :: u :: s) ||
        includes (u :: s) t))))) := by
    intro t
    rw [headBranch, hbimo]
    rfl
  have hslashes : includes (headBranch (u :: s)) "//" = false := by
    have hpre : (lit "//").isPrefixOf (47 :: u :: s) = false := by
      cases hp : (lit "//").isPrefixOf (47 :: u :: s) with
      | false => rfl
      | true =>
          obtain ⟨r, hr⟩ := List.isPrefixOf_iff_prefix.mp hp
          exact absurd (List.cons.inj (List.cons.inj hr).2).1.symm hfirst
    rw [hincludes, hpre, includes_false (u := 47) (by decide) hslash, headBranch, hbimo]
    rfl
  have hdots : includes (headBranch (u :: s)) ".." = includes (u :: s) ".." := by
    rw [hincludes, headBranch, hbimo]
    rfl
  have hat : includes (headBranch (u :: s)) "@\x7b" = false := by
    refine includes_false (u := 64) (by decide) fun hmem => ?_
    rw [headBranch, List.mem_append] at hmem
    rcases hmem with hmem | hmem
    · exact absurd hmem (by decide)
    · exact absurd (List.all_eq_true.mp hall _ hmem) (by decide)
  have hend : endsWith (headBranch (u :: s)) "/" = false := endsWith_slash hne hslash
  have hdot : endsWith (headBranch (u :: s)) "." = endsWith (u :: s) "." := by
    rw [hhead', endsWith_append (by decide)]
  have hname : (headBranch (u :: s) != lit "HEAD") = true := by
    rw [headBranch, hbimo]
    rfl
  have hrefs : startsWith (headBranch (u :: s)) "refs/" = false := by
    rw [headBranch, hbimo]
    rfl
  have hbimoOk : ((lit "bimo").isEmpty || startsWith (lit "bimo") "." ||
      endsWith (lit "bimo") ".lock") = false := by decide
  rw [branchRules, hname, hrefs, hdots, hslashes, hat, hend, hdot, hsplit, List.any_cons,
    List.any_cons, hbimoOk, hletter]
  simp

/-- Which head branches the later checks accept. -/
lemma headBranch_iff {s : Text} (h : isRunId s = true) :
    BranchAgrees (headBranch s) ↔ PlainRunId s := by
  obtain ⟨hne, hhead, hall, hlen⟩ := of_isRunId h
  have hfive : (lit "bimo/").length = 5 := by decide
  have hlength : (headBranch s).length ≤ 255 := by
    rw [headBranch, List.length_append, hfive]
    omega
  have hunits : (headBranch s).all isBranchUnit = true := by
    rw [headBranch, List.all_append, Bool.and_eq_true]
    refine ⟨by decide, List.all_eq_true.mpr fun u hu => ?_⟩
    exact isBranchUnit_of_isNameUnit (List.all_eq_true.mp hall u hu)
  rw [branchAgrees_iff hlength, branchRules_headBranch hne hhead hall, hunits, PlainRunId]
  simp only [Bool.and_eq_true, Bool.not_eq_true', true_and, and_assoc]
  exact and_iff_right rfl

/-! ### All three -/

/-- **Which inputs get through to the end.** Of the repositories, target branches and run ids that
the command line accepts, the source runtime and the publisher accept, and read alike, those
whose repository has a name of 1 to 96 units, whose branch is a plain one, and whose run id has no
two dots in a row and ends neither with a dot nor with `.lock`. -/
theorem inputs_agree_iff {newUrl : Text → Option Url} (hurl : Documented newUrl)
    {repository branch runId : Text} (hrepository : validPodRepository repository = true)
    (hbranch : validTargetBranch branch = true) (hrunId : isRunId runId = true) :
    (RepositoryAgrees newUrl repository ∧ BranchAgrees branch ∧ BranchAgrees (headBranch runId)) ↔
      FittingName repository ∧ PlainBranch branch ∧ PlainRunId runId := by
  rw [repositoryAgrees_iff hurl hrepository, targetBranch_iff hbranch, headBranch_iff hrunId]

/-- A parser of plain addresses. -/
def plainNewUrl (s : Text) : Option Url :=
  match splitOnSlash s with
  | [scheme, blank, host, owner, segment] =>
    if scheme = lit "https:" ∧ blank = [] ∧ host = lit "github.com" then
      some (addressUrl owner segment)
    else none
  | _ => none

lemma documented_plainNewUrl : Documented plainNewUrl := by
  intro owner segment ho hs
  rw [plainNewUrl, splitOnSlash_address (slash_notMem ho.2.1) (slash_notMem hs.2.1)]
  exact if_pos ⟨rfl, rfl, rfl⟩

/-- The default repository and branch, and a run id as the command line makes it. -/
theorem default_inputs_agree :
    RepositoryAgrees plainNewUrl (lit "https://github.com/zaycruz/bimo.git") ∧
      BranchAgrees (lit "main") ∧ BranchAgrees (headBranch (lit "20260101000000-5e21aa01")) := by
  refine (inputs_agree_iff documented_plainNewUrl (by decide +kernel) (by decide +kernel)
    (by decide +kernel)).mpr ⟨?_, ?_, ?_⟩
  · exact ⟨by decide +kernel, by decide +kernel⟩
  · exact ⟨by decide +kernel, by decide +kernel, by decide +kernel, by decide +kernel,
      by decide +kernel⟩
  · exact ⟨by decide +kernel, by decide +kernel, by decide +kernel⟩

/-- A repository without a name, a branch with a plus sign and a run id with two dots are accepted
by the command line and refused later. -/
theorem inputs_disagree :
    (∃ repository, validPodRepository repository = true ∧
      ¬ RepositoryAgrees plainNewUrl repository) ∧
    (∃ branch, validTargetBranch branch = true ∧ ¬ BranchAgrees branch) ∧
    ∃ runId, isRunId runId = true ∧ ¬ BranchAgrees (headBranch runId) := by
  have hbranch : ∀ s, requireBranch s "branch" ≠ .ok () → ¬ BranchAgrees s :=
    fun s hs h => hs (h "branch").1
  refine ⟨⟨lit "https://github.com/zaycruz/.git", by decide +kernel, ?_⟩,
    ⟨lit "feature+x", by decide +kernel, hbranch _ (by decide +kernel)⟩,
    lit "a..b", by decide +kernel, hbranch _ (by decide +kernel)⟩
  rintro ⟨owner, name, hparse, -⟩
  have hnone : (parseGitHubRepository plainNewUrl
      (lit "https://github.com/zaycruz/.git")).toOption.isNone = true := by decide +kernel
  rw [hparse] at hnone
  cases hnone

end Bimo.PodInput
