import Bimo.GitHubPublisher

/-!
What a publication may ask of the server, whatever the server and the clock answer.

The trace holds every request with its answer. There is one place where a pull request is asked
for, and all three readings come before it. The second look only reads.
-/

namespace Bimo.GitHub

open Js
open PodInput (Url)

/-! ### Traces -/

abbrev Trace := Bimo.Trace Call Call.Ret

def isPost : (c : Call) × c.Ret → Bool
  | ⟨.fetch r, _⟩ => r.method = .post
  | _ => false

section

variable (newUrl : Text → Option Url) (decode : List UInt8 → Option Value)

/-- A request was answered, in time and as a whole, and this is what the answer says. -/
def Told (t : Trace) (request : Request) (status : ℤ) (v : Value) : Prop :=
  ∃ answer : Fetched, (⟨.fetch request, answer⟩ : (c : Call) × c.Ret) ∈ t ∧
    operation decode status answer = .ok v

/-- What the server says of a branch. -/
def IsRef (v : Value) (branch sha : Text) : Prop :=
  v.get "ref" = some (.str (lit "refs/heads/" ++ branch)) ∧
    (v.get "object").bind (·.get "sha") = some (.str sha)

/-- The answer is one to this input: the publisher's own repository and target branch, and the
branch and commits of the input. -/
structure Requested (p : Publisher) (input : Value) (c : Context) : Prop where
  owner : c.owner = p.owner
  repo : c.repo = p.repo
  target : c.targetBranch = p.targetBranch
  headBranch : input.get "headBranch" = some (.str c.headBranch)
  headSha : input.get "headSha" = some (.str c.headSha)
  baseSha : input.get "baseSha" = some (.str c.baseSha)

/-- All that is read before a pull request is asked for. -/
structure Prepared (c : Context) (t : Trace) : Prop where
  target : ∃ v, Told decode t (c.refRequest c.targetBranch) 200 v ∧ IsRef v c.targetBranch c.baseSha
  head : ∃ v, Told decode t (c.refRequest c.headBranch) 200 v ∧ IsRef v c.headBranch c.headSha
  none : Told decode t c.listRequest 200 (.arr [])

/-- The names are those of the same repository, for which case does not matter. -/
def SameRepository (v : Option Value) (c : Context) : Prop :=
  ∃ fullName, v = some (.str fullName) ∧ toLowerCase fullName = toLowerCase c.repository

/-- An open draft in the repository, from the commit asked for to the commit asked for. -/
structure IsDraft (c : Context) (v : Value) (number : ℤ) (url : Text) : Prop where
  number : v.get "number" = some (.num (.finite number))
  url : v.get "html_url" = some (.str url)
  isOpen : v.get "state" = some (.str (lit "open"))
  draft : v.get "draft" = some (.bool true)
  headRef : (v.get "head").bind (·.get "ref") = some (.str c.headBranch)
  headSha : (v.get "head").bind (·.get "sha") = some (.str c.headSha)
  headRepo : SameRepository ((v.get "head").bind fun h => (h.get "repo").bind (·.get "full_name")) c
  baseRef : (v.get "base").bind (·.get "ref") = some (.str c.targetBranch)
  baseSha : (v.get "base").bind (·.get "sha") = some (.str c.baseSha)
  baseRepo : SameRepository ((v.get "base").bind fun h => (h.get "repo").bind (·.get "full_name")) c

/-- The receipt is that of a pull request the server told of, as the one that was made or as the
only one of the head. -/
structure Backed (c : Context) (t : Trace) (receipt : Receipt) : Prop where
  told : ∃ v, IsDraft c v receipt.number receipt.url ∧
    (Told decode t c.listRequest 200 (.arr [v]) ∨
      ∃ title body, Told decode t (c.createRequest title body) 201 v)
  headBranch : receipt.headBranch = c.headBranch
  headSha : receipt.headSha = c.headSha
  targetBranch : receipt.targetBranch = c.targetBranch
  baseSha : receipt.baseSha = c.baseSha
  draft : receipt.draft = true

end

/-! ### What the checks say of an answer -/

lemma string_eq {v : Option Value} {s : Text} (h : string v = some s) : v = some (.str s) := by
  unfold string at h
  split at h
  · rw [Option.some.inj h]
  · cases h

lemma boolean_eq {v : Option Value} {b : Bool} (h : boolean v = some b) : v = some (.bool b) := by
  unfold boolean at h
  split at h
  · rw [Option.some.inj h]
  · cases h

lemma safeInteger_eq {v : Option Value} {n : ℤ} (h : safeInteger v = some n) :
    v = some (.num (.finite n)) := by
  have hn : integer v = some n := (Option.filter_eq_some_iff.mp h).1
  unfold integer at hn
  split at hn
  · rename_i q
    split_ifs at hn with hden
    obtain rfl := Option.some.inj hn
    rw [(Rat.den_eq_one_iff q).mp hden]
  · cases hn

lemma guard_bind {α : Type} {p : Prop} [Decidable p] {x : Option α} {a : α}
    (h : (guard p >>= fun _ => x) = some a) : p ∧ x = some a := by
  by_cases hp : p
  · exact ⟨hp, by simpa [guard, hp] using h⟩
  · simp [guard, hp] at h

lemma sideOf_eq {v : Option Value} {s : Side} (h : sideOf v = some s) :
    v.bind (·.get "ref") = some (.str s.ref) ∧ v.bind (·.get "sha") = some (.str s.sha) ∧
      (v.bind fun x => (x.get "repo").bind (·.get "full_name")) = some (.str s.fullName) := by
  unfold sideOf at h
  obtain ⟨x, rfl, h⟩ := Option.bind_eq_some_iff.mp h
  obtain ⟨-, h⟩ := guard_bind h
  obtain ⟨ref, href, h⟩ := Option.bind_eq_some_iff.mp h
  obtain ⟨sha, hsha, h⟩ := Option.bind_eq_some_iff.mp h
  obtain ⟨-, h⟩ := guard_bind h
  obtain ⟨repo, hrepo, h⟩ := Option.bind_eq_some_iff.mp h
  obtain ⟨-, h⟩ := guard_bind h
  obtain ⟨fullName, hname, h⟩ := Option.bind_eq_some_iff.mp h
  obtain rfl := Option.some.inj h
  refine ⟨string_eq href, string_eq hsha, ?_⟩
  rw [Option.bind_some, hrepo, Option.bind_some, string_eq hname]

section Answers

variable {newUrl : Text → Option Url} {decode : List UInt8 → Option Value} {c : Context}

/-- A pull request that meets the contract. -/
lemma isDraft_of {v : Value} {pull : Pull} (h : validatePull newUrl c v = .ok pull)
    (hm : pullMatchesContract pull c = true) : IsDraft c v pull.number pull.htmlUrl := by
  have hpull : pullOf newUrl c v = some pull := by
    unfold validatePull at h
    split at h
    · rename_i p hp
      rw [hp, Except.ok.inj h]
    · cases h
  unfold pullOf at hpull
  obtain ⟨-, h⟩ := guard_bind hpull
  obtain ⟨number, hnumber, h⟩ := Option.bind_eq_some_iff.mp h
  obtain ⟨-, h⟩ := guard_bind h
  obtain ⟨state, hstate, h⟩ := Option.bind_eq_some_iff.mp h
  obtain ⟨-, h⟩ := guard_bind h
  obtain ⟨draft, hdraft, h⟩ := Option.bind_eq_some_iff.mp h
  obtain ⟨htmlUrl, hurl, h⟩ := Option.bind_eq_some_iff.mp h
  obtain ⟨-, h⟩ := guard_bind h
  obtain ⟨head, hhead, h⟩ := Option.bind_eq_some_iff.mp h
  obtain ⟨href, h⟩ := guard_bind h
  obtain ⟨base, hbase, h⟩ := Option.bind_eq_some_iff.mp h
  obtain rfl := Option.some.inj h
  obtain ⟨hheadRef, hheadSha, hheadName⟩ := sideOf_eq hhead
  obtain ⟨hbaseRef, hbaseSha, hbaseName⟩ := sideOf_eq hbase
  simp only [pullMatchesContract, repositoryMatches, Bool.and_eq_true, beq_iff_eq] at hm
  obtain ⟨⟨⟨⟨⟨⟨rfl, rfl⟩, hsha⟩, hname⟩, hbref⟩, hbsha⟩, hbname⟩ := hm
  exact
    { number := safeInteger_eq hnumber
      url := string_eq hurl
      isOpen := string_eq hstate
      draft := boolean_eq hdraft
      headRef := href ▸ hheadRef
      headSha := hsha ▸ hheadSha
      headRepo := ⟨_, hheadName, hname⟩
      baseRef := hbref ▸ hbaseRef
      baseSha := hbsha ▸ hbaseSha
      baseRepo := ⟨_, hbaseName, hbname⟩ }

lemma isRef_of {branch sha : Text} {v : Value} (h : refOf branch v = .ok sha) :
    IsRef v branch sha := by
  unfold refOf at h
  split at h
  · cases h
  · rename_i object hobject
    split at h
    · cases h
    · rename_i sha' hsha
      obtain ⟨_, hreq, h⟩ := bind_eq_ok.mp h
      obtain rfl := Except.ok.inj h
      have hreq := require_eq.mp hreq
      simp only [Bool.and_eq_true, beq_iff_eq] at hreq
      refine ⟨string_eq hreq.1.1.1.2, ?_⟩
      rw [hobject, Option.bind_some, string_eq hsha]

lemma mapM_nil {α β : Type} {f : α → Except Err β} {l : List α} (h : l.mapM f = .ok []) :
    l = [] := by
  cases l with
  | nil => rfl
  | cons a l =>
      rw [List.mapM_cons] at h
      obtain ⟨_, -, h⟩ := bind_eq_ok.mp h
      obtain ⟨_, -, h⟩ := bind_eq_ok.mp h
      cases h

lemma mapM_singleton {α β : Type} {f : α → Except Err β} {l : List α} {b : β}
    (h : l.mapM f = .ok [b]) : ∃ a, l = [a] ∧ f a = .ok b := by
  cases l with
  | nil => cases h
  | cons a l =>
      rw [List.mapM_cons] at h
      obtain ⟨b', hb, h⟩ := bind_eq_ok.mp h
      obtain ⟨l', hl, h⟩ := bind_eq_ok.mp h
      obtain ⟨rfl, rfl⟩ := List.cons.inj (Except.ok.inj h)
      exact ⟨a, by rw [mapM_nil hl], hb⟩

/-- There is no pull request of the head, or one that is an open draft as it should be. -/
lemma of_existingOf {v : Value} {found : Option Pull} (h : existingOf newUrl c v = .ok found) :
    (found = none ∧ v = .arr []) ∨
      ∃ x pull, found = some pull ∧ v = .arr [x] ∧ IsDraft c x pull.number pull.htmlUrl := by
  cases v with
  | arr l =>
      unfold existingOf at h
      obtain ⟨_, -, h⟩ := bind_eq_ok.mp h
      obtain ⟨pulls, hpulls, h⟩ := bind_eq_ok.mp h
      match pulls with
      | [] =>
        obtain rfl := Except.ok.inj h
        exact .inl ⟨rfl, by rw [mapM_nil hpulls]⟩
      | [pull] =>
        obtain ⟨_, hm, h⟩ := bind_eq_ok.mp h
        obtain rfl := Except.ok.inj h
        obtain ⟨x, rfl, hx⟩ := mapM_singleton hpulls
        exact .inr ⟨x, pull, rfl, rfl, isDraft_of hx (require_eq.mp hm)⟩
      | _ :: _ :: _ => cases h
  | null | bool b | num n | str s | obj l => cases h

lemma requested_of {p : Publisher} {input : Value} {o : Order}
    (h : checkInput p input = .ok o) : Requested p input o.context := by
  have hbranch {v : Option Value} {label : String} {s : Text}
      (h : validateBranch v label = .ok s) : v = some (.str s) := by
    unfold validateBranch at h
    split at h
    · cases h
    · rename_i s' hs
      split at h
      · rw [string_eq hs, Except.ok.inj h]
      · cases h
  have hsha {v : Option Value} {label : String} {s : Text}
      (h : validateSha v label = .ok s) : v = some (.str s) := by
    unfold validateSha at h
    split at h
    · cases h
    · rename_i s' hs
      obtain ⟨_, -, h⟩ := bind_eq_ok.mp h
      rw [string_eq hs, Except.ok.inj h]
  unfold checkInput at h
  obtain ⟨_, -, h⟩ := bind_eq_ok.mp h
  obtain ⟨headBranch, hhead, h⟩ := bind_eq_ok.mp h
  obtain ⟨_, -, h⟩ := bind_eq_ok.mp h
  obtain ⟨headSha, hheadSha, h⟩ := bind_eq_ok.mp h
  obtain ⟨baseSha, hbaseSha, h⟩ := bind_eq_ok.mp h
  obtain ⟨_, -, h⟩ := bind_eq_ok.mp h
  obtain ⟨_, -, h⟩ := bind_eq_ok.mp h
  obtain ⟨_, -, h⟩ := bind_eq_ok.mp h
  obtain rfl := Except.ok.inj h
  exact ⟨rfl, rfl, rfl, hbranch hhead, hsha hheadSha, hsha hbaseSha⟩

end Answers

/-! ### Runs -/

section Runs

variable {newUrl : Text → Option Url} {decode : List UInt8 → Option Value} {p : Publisher}
  {input : Value} {c : Context} {t : Trace}

lemma Told.append {request : Request} {status : ℤ} {v : Value} (h : Told decode t request status v)
    (new : Trace) : Told decode (t ++ new) request status v := by
  obtain ⟨answer, hmem, hop⟩ := h
  exact ⟨answer, List.mem_append_left new hmem, hop⟩

lemma Told.after {request : Request} {status : ℤ} {v : Value} {new : Trace}
    (h : Told decode new request status v) (t : Trace) :
    Told decode (t ++ new) request status v := by
  obtain ⟨answer, hmem, hop⟩ := h
  exact ⟨answer, List.mem_append_right t hmem, hop⟩

/-- When a call may be made. -/
def Allowed (decode : List UInt8 → Option Value) (p : Publisher) (input : Value) (t : Trace) :
    Call → Prop
  | .clock => True
  | .fetch r => r.method = .post →
      t.countP isPost = 0 ∧ ∃ c, Requested p input c ∧ Prepared decode c t

lemma safe_clock {α : Type} {f : ℤ → Io α} {Q : Except Err α → Trace → Prop}
    (h : ∀ now : ℤ, Safe traced (Allowed decode p input) (f now) (t ++ [⟨.clock, now⟩]) Q) :
    Safe traced (Allowed decode p input) (clock >>= f) t Q :=
  safe_traced trivial h

lemma safe_fetch {α : Type} {request : Request} {f : Fetched → Io α}
    {Q : Except Err α → Trace → Prop} (hpre : Allowed decode p input t (.fetch request))
    (h : ∀ answer : Fetched,
      Safe traced (Allowed decode p input) (f answer) (t ++ [⟨.fetch request, answer⟩]) Q) :
    Safe traced (Allowed decode p input) (fetch request >>= f) t Q :=
  safe_traced hpre h

/-- What a request adds to the trace: it is not sent more than once, and what is returned was
told. -/
lemma safe_requestJson {deadlineAt status : ℤ} {request : Request}
    {Q : Except Err Value → Trace → Prop}
    (hpre : ∀ new : Trace, new.countP isPost = 0 →
      Allowed decode p input (t ++ new) (.fetch request))
    (herr : ∀ e (new : Trace), (request.method = .get → new.countP isPost = 0) →
      Q (.error e) (t ++ new))
    (hok : ∀ v (new : Trace), (request.method = .get → new.countP isPost = 0) →
      Told decode new request status v → Q (.ok v) (t ++ new)) :
    Safe traced (Allowed decode p input) (requestJson decode deadlineAt request status) t Q := by
  unfold requestJson
  refine safe_clock fun now => ?_
  split_ifs
  · exact herr _ _ fun _ => rfl
  refine safe_clock fun scheduled => ?_
  refine safe_fetch ?_ fun answer => ?_
  · rw [List.append_assoc]
    exact hpre _ rfl
  have hcount (new : Trace) (hnew : new.countP isPost = 0) (hget : request.method = .get) :
      List.countP isPost ([⟨.clock, now⟩] ++ ([⟨.clock, scheduled⟩] ++
        ([⟨.fetch request, answer⟩] ++ new))) = 0 := by
    simp [isPost, hget, hnew]
  rw [List.append_assoc, List.append_assoc]
  split_ifs
  · exact herr _ _ (hcount [] rfl)
  split
  · exact herr _ _ (hcount [] rfl)
  · refine safe_clock fun now' => ?_
    simp only [List.append_assoc]
    split_ifs
    · exact herr _ _ (hcount [_] rfl)
    · exact herr _ _ (hcount [_] rfl)
  · rename_i v hop
    refine safe_clock fun now' => ?_
    simp only [List.append_assoc]
    split_ifs
    · exact herr _ _ (hcount [_] rfl)
    · exact hok v _ (hcount [_] rfl) ⟨answer, by simp, hop⟩

/-- A reading adds no request for a pull request. -/
lemma safe_read {α : Type} {deadlineAt : ℤ} {request : Request} {check : Value → Except Err α}
    {Q : Except Err α → Trace → Prop} (hget : request.method = .get)
    (herr : ∀ e (new : Trace), new.countP isPost = 0 → Q (.error e) (t ++ new))
    (hok : ∀ v a (new : Trace), new.countP isPost = 0 → Told decode new request 200 v →
      check v = .ok a → Q (.ok a) (t ++ new)) :
    Safe traced (Allowed decode p input)
      (requestJson decode deadlineAt request 200 >>= fun v => .ofExcept (check v)) t Q := by
  rw [safe_bind]
  refine safe_requestJson (fun new _ hpost => ?_) (fun e new hnew => herr e new (hnew hget))
    fun v new hnew htold => ?_
  · rw [hget] at hpost
    cases hpost
  · dsimp only
    rw [safe_ofExcept]
    cases hv : check v with
    | error e => exact herr e new (hnew hget)
    | ok a => exact hok v a new (hnew hget) htold hv

lemma safe_readRemoteRef {branch : Text} {deadlineAt : ℤ} {Q : Except Err Text → Trace → Prop}
    (herr : ∀ e (new : Trace), new.countP isPost = 0 → Q (.error e) (t ++ new))
    (hok : ∀ v sha (new : Trace), new.countP isPost = 0 →
      Told decode new (c.refRequest branch) 200 v → IsRef v branch sha → Q (.ok sha) (t ++ new)) :
    Safe traced (Allowed decode p input) (readRemoteRef decode c branch deadlineAt) t Q :=
  safe_read rfl herr fun v sha new hnew htold href => hok v sha new hnew htold (isRef_of href)

lemma safe_findExistingPull {deadlineAt : ℤ} {Q : Except Err (Option Pull) → Trace → Prop}
    (herr : ∀ e (new : Trace), new.countP isPost = 0 → Q (.error e) (t ++ new))
    (hnone : ∀ new : Trace, new.countP isPost = 0 → Told decode new c.listRequest 200 (.arr []) →
      Q (.ok none) (t ++ new))
    (hsome : ∀ v pull (new : Trace), new.countP isPost = 0 →
      Told decode new c.listRequest 200 (.arr [v]) → IsDraft c v pull.number pull.htmlUrl →
      Q (.ok (some pull)) (t ++ new)) :
    Safe traced (Allowed decode p input) (findExistingPull newUrl decode c deadlineAt) t Q := by
  refine safe_read rfl herr fun v found new hnew htold hfound => ?_
  rcases of_existingOf hfound with ⟨rfl, rfl⟩ | ⟨x, pull, rfl, rfl, hx⟩
  · exact hnone new hnew htold
  · exact hsome x pull new hnew htold hx

lemma safe_require_bind {α : Type} {b : Bool} {e : Err} {f : Unit → Io α}
    {Q : Except Err α → Trace → Prop} (herr : Q (.error e) t)
    (hok : b = true → Safe traced (Allowed decode p input) (f ()) t Q) :
    Safe traced (Allowed decode p input) (.ofExcept (require b e) >>= f) t Q := by
  rw [safe_bind, safe_ofExcept]
  by_cases hb : b = true
  · rw [require, if_pos hb]
    exact hok hb
  · rw [require, if_neg hb]
    exact herr

/-- The receipt of a pull request that was told of. -/
lemma backed_of {v : Value} {pull : Pull} {created reconciled : Bool}
    (hv : IsDraft c v pull.number pull.htmlUrl)
    (htold : Told decode t c.listRequest 200 (.arr [v]) ∨
      ∃ title body, Told decode t (c.createRequest title body) 201 v) :
    Backed decode c t (normalizePull pull c created reconciled) :=
  ⟨⟨v, hv, htold⟩, rfl, rfl, rfl, rfl, rfl⟩

lemma safe_create {o : Order} {deadlineAt : ℤ}
    (hpre : ∀ new : Trace, new.countP isPost = 0 →
      Allowed decode p input (t ++ new) (.fetch (o.context.createRequest o.title o.body))) :
    Safe traced (Allowed decode p input) (create newUrl decode o deadlineAt) t fun r t' =>
      ∀ receipt, r = .ok receipt → Backed decode o.context t' receipt := by
  unfold create
  rw [safe_bind]
  refine safe_requestJson hpre (fun _ _ _ => nofun) fun v new _ htold => ?_
  dsimp only
  rw [safe_bind, safe_ofExcept]
  cases hv : validatePull newUrl o.context v with
  | error e => exact nofun
  | ok pull =>
      refine safe_require_bind nofun fun hm => ?_
      intro receipt hreceipt
      obtain rfl := Except.ok.inj hreceipt
      exact backed_of (isDraft_of hv hm) (.inr ⟨_, _, htold.after t⟩)

lemma safe_reconcile {deadlineAt : ℤ} :
    Safe traced (Allowed decode p input) (reconcile newUrl decode c deadlineAt) t fun r t' =>
      ∀ receipt, r = .ok (some receipt) → Backed decode c t' receipt := by
  unfold reconcile
  rw [safe_bind]
  refine safe_readRemoteRef (fun _ _ _ => nofun) fun _ _ new _ _ _ => ?_
  refine safe_require_bind nofun fun _ => ?_
  rw [safe_bind]
  refine safe_findExistingPull (fun _ _ _ => nofun) (fun _ _ _ => nofun)
    fun v pull new' _ htold hv => ?_
  intro receipt hreceipt
  obtain rfl := Option.some.inj (Except.ok.inj hreceipt)
  exact backed_of hv (.inl (htold.after _))

/-- The second look is only taken at what is there. -/
lemma safe_publishOrder {o : Order} {deadlineAt : ℤ} (ho : Requested p input o.context)
    (ht : t.countP isPost = 0) :
    Safe traced (Allowed decode p input) (publishOrder newUrl decode o deadlineAt) t fun r t' =>
      ∀ receipt, r = .ok receipt → Backed decode o.context t' receipt := by
  unfold publishOrder
  rw [safe_bind]
  refine safe_readRemoteRef (fun _ _ _ => nofun) fun base sha new₁ hnew₁ hbase href => ?_
  refine safe_require_bind nofun fun hsha => ?_
  obtain rfl := eq_of_beq hsha
  rw [safe_bind]
  refine safe_readRemoteRef (fun _ _ _ => nofun) fun head sha' new₂ hnew₂ hhead href' => ?_
  refine safe_require_bind nofun fun hsha' => ?_
  obtain rfl := eq_of_beq hsha'
  rw [safe_bind]
  refine safe_findExistingPull (fun _ _ _ => nofun) (fun new₃ hnew₃ hnone => ?_)
    fun v pull new₃ _ htold hv => ?_
  · -- No pull request yet: this is the one place where one is asked for.
    change Safe traced _ ((create newUrl decode o deadlineAt).attempt >>= _) _ _
    rw [safe_bind, safe_attempt]
    refine (safe_create fun new hnew _ => ⟨?_, o.context, ho, ?_⟩).mono fun r t' hr => ?_
    · simp only [List.countP_append, ht, hnew₁, hnew₂, hnew₃, hnew]
    · exact
        { target := ⟨base, (((hbase.after t).append _).append _).append _, href⟩
          head := ⟨head, ((hhead.after _).append _).append _, href'⟩
          none := (hnone.after _).append _ }
    · cases r with
      | ok receipt => exact hr
      | error e =>
          refine safe_clock fun now => ?_
          rw [safe_bind, safe_attempt]
          refine safe_reconcile.mono fun r t' hr => ?_
          match r with
          | .ok (some receipt) =>
            intro receipt' h
            obtain rfl := Except.ok.inj h
            exact hr receipt rfl
          | .ok none => exact nofun
          | .error e => exact nofun
  · intro receipt hreceipt
    obtain rfl := Except.ok.inj hreceipt
    exact backed_of hv (.inl (htold.after _))

lemma safe_publish (newUrl : Text → Option Url) (decode : List UInt8 → Option Value)
    (p : Publisher) (input : Value) :
    Safe traced (Allowed decode p input) (publish newUrl decode p input) [] fun r t =>
      ∀ receipt, r = .ok receipt → ∃ c, Requested p input c ∧ Backed decode c t receipt := by
  unfold publish
  rw [safe_bind, safe_ofExcept]
  cases ho : checkInput p input with
  | error e => exact nofun
  | ok o =>
      have hreq := requested_of ho
      change Safe traced _ (validateDeadline _ >>= _) _ _
      unfold validateDeadline
      rw [safe_bind]
      split
      · exact nofun
      · refine safe_clock fun now => ?_
        split_ifs
        · exact nofun
        · refine (safe_publishOrder hreq rfl).mono fun r t hr receipt h => ?_
          exact ⟨_, hreq, hr receipt h⟩

/-- What holds of the requests of a trace, wherever the publication is stopped. -/
def Sound (decode : List UInt8 → Option Value) (p : Publisher) (input : Value) (t : Trace) :
    Prop :=
  t.countP isPost ≤ 1 ∧ ∀ before e after, t = before ++ e :: after → isPost e = true →
    ∃ c, Requested p input c ∧ Prepared decode c before

lemma sound_step {o : Call} {r : o.Ret} (hpre : Allowed decode p input t o)
    (h : Sound decode p input t) : Sound decode p input (t ++ [⟨o, r⟩]) := by
  refine ⟨?_, fun before e after heq he => ?_⟩
  · rw [List.countP_append]
    by_cases hpost : isPost ⟨o, r⟩ = true
    · have hzero : t.countP isPost = 0 := by
        cases o with
        | clock => cases hpost
        | fetch request => exact (hpre (of_decide_eq_true hpost)).1
      simp [hzero, hpost]
    · simpa [hpost] using h.1
  · rcases List.append_eq_append_iff.mp heq with ⟨a, rfl, ha⟩ | ⟨a, rfl, ha⟩
    · cases a with
      | nil =>
          obtain ⟨rfl, -⟩ := List.cons.inj ha
          rw [List.append_nil]
          cases o with
          | clock => cases he
          | fetch request => exact (hpre (of_decide_eq_true he)).2
      | cons x a => simp at ha
    · cases a with
      | nil =>
          obtain ⟨rfl, -⟩ := List.cons.inj ha
          rw [List.append_nil] at hpre
          cases o with
          | clock => cases he
          | fetch request => exact (hpre (of_decide_eq_true he)).2
      | cons x a =>
          obtain ⟨rfl, -⟩ := List.cons.inj ha
          exact h.2 before e a rfl he

end Runs

/-- **One pull request for a publication.** Whatever the server and the clock answer, and however
far a publication gets: at most one `POST` is sent, only after the target branch was read at the
base, the head branch at the head and the list of the head's pull requests as empty; and a
receipt is that of a single open draft of the repository with the head and base asked for. -/
theorem publish_once (newUrl : Text → Option Url) (decode : List UInt8 → Option Value)
    (p : Publisher) (input : Value) {q : Io Receipt} {t : Trace}
    (h : Exec traced (publish newUrl decode p input) [] q t) :
    t.countP isPost ≤ 1 ∧
      (∀ before e after, t = before ++ e :: after → isPost e = true →
        ∃ c, Requested p input c ∧ Prepared decode c before) ∧
      ∀ receipt, q = .ret receipt → ∃ c, Requested p input c ∧ Backed decode c t receipt := by
  have hsafe := safe_publish newUrl decode p input
  have hsound : Sound decode p input t := by
    refine hsafe.inv (fun s o r s' hpre hstep hs => ?_) ⟨Nat.zero_le 1, ?_⟩ h
    · obtain ⟨-, rfl⟩ := hstep
      exact sound_step hpre hs
    · intro before e after heq
      simp at heq
  refine ⟨hsound.1, hsound.2, ?_⟩
  rintro receipt rfl
  exact hsafe.exec h receipt rfl

/-! ### A publication that gets through -/

def samplePublisher : Publisher := ⟨lit "o", lit "r", lit "main", lit "k"⟩

def sha (c : Char) : String := String.ofList (List.replicate 40 c)

def sampleContext : Context where
  owner := lit "o"
  repo := lit "r"
  headBranch := lit "b"
  headSha := lit (sha 'a')
  targetBranch := lit "main"
  baseSha := lit (sha 'c')

def samplePublication : Value :=
  .obj [(lit "headBranch", .str (lit "b")), (lit "headSha", .str (lit (sha 'a'))),
    (lit "baseSha", .str (lit (sha 'c'))), (lit "draft", .bool true),
    (lit "title", .str (lit "T")), (lit "body", .str []), (lit "deadlineAt", .num (.finite 9000))]

/-- A text that has no character to escape, as it stands in a JSON text. -/
def quoted (s : String) : String := "\"" ++ s ++ "\""

def field (key value : String) : String := quoted key ++ ":" ++ value

def object (fields : List String) : String := "\x7b" ++ ",".intercalate fields ++ "\x7d"

def refText (branch sha : String) : String :=
  object [field "ref" (quoted ("refs/heads/" ++ branch)),
    field "object" (object [field "type" (quoted "commit"), field "sha" (quoted sha)])]

def refValue (branch sha : String) : Value :=
  .obj [(lit "ref", .str (lit ("refs/heads/" ++ branch))),
    (lit "object", .obj [(lit "type", .str (lit "commit")), (lit "sha", .str (lit sha))])]

def sideText (branch sha : String) : String :=
  object [field "ref" (quoted branch), field "sha" (quoted sha),
    field "repo" (object [field "full_name" (quoted "o/r")])]

def sideValue (branch sha : String) : Value :=
  .obj [(lit "ref", .str (lit branch)), (lit "sha", .str (lit sha)),
    (lit "repo", .obj [(lit "full_name", .str (lit "o/r"))])]

def pullText : String :=
  object [field "number" "1", field "state" (quoted "open"), field "draft" "true",
    field "html_url" (quoted "https://github.com/o/r/pull/1"),
    field "head" (sideText "b" (sha 'a')), field "base" (sideText "main" (sha 'c'))]

def pullValue : Value :=
  .obj [(lit "number", .num (.finite 1)), (lit "state", .str (lit "open")),
    (lit "draft", .bool true), (lit "html_url", .str (lit "https://github.com/o/r/pull/1")),
    (lit "head", sideValue "b" (sha 'a')), (lit "base", sideValue "main" (sha 'c'))]

def bytes (s : String) : List UInt8 := s.toList.map fun c => c.toNat.toUInt8

/-- The decoder, on the texts of the sample. -/
def sampleDecode (b : List UInt8) : Option Value :=
  if b = bytes (refText "main" (sha 'c')) then some (refValue "main" (sha 'c'))
  else if b = bytes (refText "b" (sha 'a')) then some (refValue "b" (sha 'a'))
  else if b = bytes "[]" then some (.arr [])
  else if b = bytes pullText then some pullValue
  else none

/-- The parser of URLs, on the one of the sample. -/
def sampleUrl (s : Text) : Option Url :=
  if s = lit "https://github.com/o/r/pull/1" then
    some ⟨lit "https:", lit "github.com", [], [], [], [], [], lit "/o/r/pull/1"⟩
  else none

def response (status : ℤ) (text : String) : Fetched :=
  .answered (some
    { status := some (.num (.finite status))
      redirected := some (.bool false)
      headers := some fun name =>
        if name = "content-type" then some (lit "application/json") else none
      body := some ⟨[.chunk (bytes text), .done], true⟩ })

/-- A server that has both branches, no pull request yet, and makes the one that is asked for. -/
def sampleServer (_ : Trace) : (c : Call) → c.Ret
  | .clock => (0 : ℤ)
  | .fetch r =>
    if r.method = .post then response 201 pullText
    else if r.path = (sampleContext.refRequest (lit "main")).path then
      response 200 (refText "main" (sha 'c'))
    else if r.path = (sampleContext.refRequest (lit "b")).path then
      response 200 (refText "b" (sha 'a'))
    else response 200 "[]"

/-! The characters of the texts above, from those of their parts. -/

lemma toList_quoted (s : String) : (quoted s).toList = '"' :: (s.toList ++ ['"']) := by
  simp [quoted]

lemma toList_field (key value : String) :
    (field key value).toList = (quoted key).toList ++ ':' :: value.toList := by
  simp [field]

lemma toList_object (fields : List String) : (object fields).toList =
    '\x7b' :: (",".toList.intercalate (fields.map String.toList) ++ ['\x7d']) := by
  simp [object]

lemma toList_sha (c : Char) : (sha c).toList = List.replicate 40 c := String.toList_ofList

lemma exec_sample (n : ℕ) (h : (follow (fun _ _ _ => True) (fun t c r => t ++ [⟨c, r⟩]) sampleServer
      n (publish sampleUrl sampleDecode samplePublisher samplePublication) []).any
        (·.1.isRet) = true) :
    ∃ receipt t, Exec traced (publish sampleUrl sampleDecode samplePublisher samplePublication) []
      (.ret receipt) t := by
  obtain ⟨receipt, hx⟩ := exec_reach_ret (E := traced) (fun t c _ => traced_step t c _) h
  exact ⟨receipt, _, hx⟩

/-- A publication in which the server does its work comes to a receipt. -/
theorem publish_once_sample : ∃ receipt t,
    Exec traced (publish sampleUrl sampleDecode samplePublisher samplePublication) []
      (.ret receipt) t ∧ t.countP isPost ≤ 1 ∧
      ∃ c, Requested samplePublisher samplePublication c ∧ Backed sampleDecode c t receipt := by
  obtain ⟨receipt, t, hx⟩ : ∃ receipt t,
      Exec traced (publish sampleUrl sampleDecode samplePublisher samplePublication) []
        (.ret receipt) t := by
    apply exec_sample 17
    delta sampleServer sampleDecode response samplePublication sampleContext
    delta bytes pullText refText sideText pullValue refValue sideValue lit
    simp only [toList_object, toList_field, toList_quoted, toList_sha, String.toList_append,
      List.map_cons, List.map_nil]
    decide +kernel
  have h := publish_once _ _ _ _ hx
  exact ⟨receipt, t, hx, h.1, h.2.2 receipt rfl⟩

end Bimo.GitHub
