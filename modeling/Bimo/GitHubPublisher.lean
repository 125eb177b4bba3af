import Bimo.Trace
import Bimo.PodInput

/-!
The publisher of pull requests, over a server and a clock that answer anything.

A publication reads the two branches and the pull requests of the head, and asks for a new one
where there is none. What came of that request may be unknown, so the pull requests are then
read once more, with a deadline of their own. Every request is made through `requestJson`, which
looks at one answer in full or not at all.

The parser of URLs and the decoder of JSON texts come with the platform and are parameters.
-/

namespace Bimo.GitHub

open Js
open PodInput (Url)

/-! ### Errors -/

inductive Err
  | typeError (message : String)
  /-- An error of the publisher's own, which `requestJson` hands on as it is. -/
  | publisher (message : String)
  | error (message : String)
  deriving DecidableEq

def deadlineExceeded : Err := .publisher "GitHub publisher deadline exceeded"

def requestFailed : Err := .publisher "GitHub request failed"

def redirectRejected : Err := .publisher "GitHub redirect response rejected"

def responseTooLarge : Err := .publisher "GitHub response too large"

def unexpectedResponse : Err := .publisher "unexpected GitHub response"

def unexpectedStatus (status : ℤ) : Err :=
  .publisher s!"GitHub request returned unexpected status {status}"

def existingPullConflict : Err :=
  .publisher "existing pull request conflicts with publication contract"

def require (p : Bool) (e : Err) : Except Err Unit := if p then .ok () else .error e

lemma require_eq {p : Bool} {e : Err} : require p e = .ok () ↔ p = true := by
  unfold require
  split_ifs with h <;> simp [h]

/-! ### Values -/

def maxSafeInteger : ℤ := 2 ^ 53 - 1

def isPlainObject : Value → Bool
  | .obj _ => true
  | _ => false

/-- The number, if it is an integer. -/
def integer : Option Value → Option ℤ
  | some (.num (.finite q)) => if q.den = 1 then some q.num else none
  | _ => none

def safeInteger (v : Option Value) : Option ℤ :=
  (integer v).filter fun n => decide (-maxSafeInteger ≤ n ∧ n ≤ maxSafeInteger)

def string : Option Value → Option Text
  | some (.str s) => some s
  | _ => none

def boolean : Option Value → Option Bool
  | some (.bool b) => some b
  | _ => none

def isSha (s : Text) : Bool :=
  consists (fun u => isDigit u || decide (97 ≤ u.toNat ∧ u.toNat ≤ 102)) 40 40 s

/-- The one string stands somewhere in the other. -/
def contains (s t : Text) : Bool := s.tails.any fun r => t.isPrefixOf r

/-- The lower case of a string, as far as it is compared with one of ASCII: apart from the
letters, the Kelvin sign is the only character whose lower case is made of ASCII alone. -/
def toLowerCase (s : Text) : Text :=
  s.map fun u => if isUpper u then u + 32 else if u = 0x212A then 107 else u

/-! ### The checks of an input -/

def maxTokenBytes : ℕ := 4096

def maxTitleBytes : ℕ := 256

def maxBodyBytes : ℕ := 65536

def validateBranch (v : Option Value) (label : String) : Except Err Text :=
  match string v with
  | none => .error (.typeError s!"invalid {label}")
  | some s =>
    match PodInput.validateBranch s label with
    | .ok _ => .ok s
    | .error e => .error (.typeError e)

def validateToken (v : Option Value) : Except Err Text :=
  match string v with
  | none => .error (.typeError "invalid token")
  | some s => do
    require (!s.isEmpty && decide (byteLength s ≤ maxTokenBytes) &&
      s.all fun u => decide (0x21 ≤ u.toNat ∧ u.toNat ≤ 0x7e)) (.typeError "invalid token")
    pure s

def validateSha (v : Option Value) (label : String) : Except Err Text :=
  match string v with
  | none => .error (.typeError s!"invalid {label}")
  | some s => do
    require (isSha s) (.typeError s!"invalid {label}")
    pure s

def validateTitle (v : Option Value) (token : Text) : Except Err Text :=
  match string v with
  | none => .error (.typeError "invalid title")
  | some s => do
    require (!(trim s).isEmpty && decide (byteLength s ≤ maxTitleBytes) && !s.any isControl &&
      !contains s token) (.typeError "invalid title")
    pure s

/-- A control that no body may have: all but tabs and ends of lines. -/
def isBodyControl (u : UInt16) : Bool := isControl u && !decide (u.toNat ∈ [9, 10, 13])

def validateBody (v : Option Value) (token : Text) : Except Err Text :=
  match string v with
  | none => .error (.typeError "invalid body")
  | some s => do
    require (decide (byteLength s ≤ maxBodyBytes) && !s.any isBodyControl && !contains s token)
      (.typeError "invalid body")
    pure s

/-! ### Requests -/

inductive Method
  | get
  | post
  deriving DecidableEq

structure Request where
  method : Method
  path : Text
  body : Option Value

def hexDigit (n : ℕ) : UInt16 := (if n < 10 then 48 + n else 55 + n).toUInt16

/-- A unit of ASCII as a percent sign and its two digits. -/
def percent (u : UInt16) : Text := [37, hexDigit (u.toNat / 16), hexDigit (u.toNat % 16)]

/-- A string of ASCII as a part of a path. -/
def encodeURIComponent (s : Text) : Text :=
  s.flatMap fun u => if isAlphanum u || isOneOf "-_.!~*'()" u then [u] else percent u

/-- A string of ASCII as a value in a query. -/
def encodeQuery (s : Text) : Text :=
  s.flatMap fun u => if isAlphanum u || isOneOf "*-._" u then [u] else if u = 32 then [43]
    else percent u

/-- What a publication is about. -/
structure Context where
  owner : Text
  repo : Text
  headBranch : Text
  headSha : Text
  targetBranch : Text
  baseSha : Text

def Context.repository (c : Context) : Text := c.owner ++ lit "/" ++ c.repo

def Context.repositoryPath (c : Context) : Text :=
  lit "/repos/" ++ encodeURIComponent c.owner ++ lit "/" ++ encodeURIComponent c.repo

/-- The request that reads a branch. -/
def Context.refRequest (c : Context) (branch : Text) : Request where
  method := .get
  path := c.repositoryPath ++ lit "/git/ref/heads/" ++ encodeURIComponent branch
  body := none

/-- The request that lists the pull requests of the head. -/
def Context.listRequest (c : Context) : Request where
  method := .get
  path := c.repositoryPath ++ lit "/pulls?state=all&head=" ++
    encodeQuery (c.owner ++ lit ":" ++ c.headBranch) ++ lit "&per_page=100"
  body := none

/-- The request that makes a pull request. -/
def Context.createRequest (c : Context) (title body : Text) : Request where
  method := .post
  path := c.repositoryPath ++ lit "/pulls"
  body := some (.obj [(lit "title", .str title), (lit "body", .str body),
    (lit "head", .str c.headBranch), (lit "base", .str c.targetBranch),
    (lit "draft", .bool true)])

/-! ### Answers -/

/-- What a reader of a body gives, one time after the other. -/
inductive Read
  | chunk (bytes : List UInt8)
  /-- Neither a chunk nor the end. -/
  | malformed
  | rejected
  | done

/-- A body that can be read. Where the list of what it gives ends, nothing more comes before the
deadline. -/
structure Body where
  reads : List Read
  /-- Cancelling it comes to an end before the deadline. -/
  cancels : Bool

structure Response where
  status : Option Value
  redirected : Option Value
  /-- How a header is read; `none` stands for headers that cannot be read. -/
  headers : Option (String → Option Text)
  /-- `none` stands for what is no body that can be read. -/
  body : Option Body

inductive Fetched
  /-- The deadline comes first. -/
  | expired
  | rejected
  /-- `none` stands for what is no object. -/
  | answered (r : Option Response)

/-- Why an operation gives no result. -/
inductive Stop
  | expired
  | raised (e : Err)

def maxResponseBytes : ℕ := 256 * 1024

/-- Cancelling may fail, which does not matter, or last too long. -/
def cancelled (cancels : Bool) (e : Err) : Stop := if cancels then .raised e else .expired

def raise {α : Type} : Except Err α → Except Stop α
  | .ok a => .ok a
  | .error e => .error (.raised e)

def requireResponseShape : Option Response → Except Err (Response × ℤ × (String → Option Text))
  | none => .error unexpectedResponse
  | some r =>
    match integer r.status, r.headers with
    | some status, some get => do
      require (decide (100 ≤ status ∧ status ≤ 599)) unexpectedResponse
      require (r.redirected.isNone || (boolean r.redirected).isSome) unexpectedResponse
      pure (r, status, get)
    | _, _ => .error unexpectedResponse

/-- The number that a string of digits stands for. -/
def decimal (s : Text) : ℕ := s.foldl (fun n u => 10 * n + (u.toNat - 48)) 0

def declaredResponseLength (get : String → Option Text) : Except Err (Option ℕ) :=
  match get "content-length" with
  | none => .ok none
  | some value => do
    require (consists isDigit 1 value.length value) unexpectedResponse
    require (decide (decimal value ≤ maxSafeInteger)) unexpectedResponse
    pure (some (decimal value))

/-- The loop over a body, with the bytes it has given so far. -/
def readChunks (cancels : Bool) : List Read → ℕ → Except Stop (List UInt8)
  | [], _ => .error .expired
  | .malformed :: _, _ => .error (cancelled cancels unexpectedResponse)
  | .rejected :: _, _ => .error (.raised requestFailed)
  | .done :: _, _ => .ok []
  | .chunk bytes :: l, total =>
    if maxResponseBytes < total + bytes.length then .error (cancelled cancels responseTooLarge)
    else (readChunks cancels l (total + bytes.length)).map (bytes ++ ·)

def readBoundedResponse (get : String → Option Text) (body : Body) : Except Stop (List UInt8) := do
  let declaredLength ← raise (declaredResponseLength get)
  if declaredLength.any fun n => maxResponseBytes < n then
    .error (cancelled body.cancels responseTooLarge)
  else readChunks body.cancels body.reads 0

def hasJsonContentType (get : String → Option Text) : Bool :=
  match get "content-type" with
  | none => false
  | some value =>
    let mediaType := toLowerCase (trim (value.takeWhile (· ≠ 59)))
    mediaType == lit "application/json" || mediaType == lit "application/vnd.github+json"

section Platform

variable (newUrl : Text → Option Url) (decode : List UInt8 → Option Value)

/-- What a request does with its answer. Whatever is no error of the publisher's own becomes
`requestFailed`. -/
def operation (expectedStatus : ℤ) : Fetched → Except Stop Value
  | .expired => .error .expired
  | .rejected => .error (.raised requestFailed)
  | .answered response => do
    let (r, status, get) ← raise (requireResponseShape response)
    raise (require (boolean r.redirected != some true && !decide (300 ≤ status ∧ status < 400))
      redirectRejected)
    match r.body with
    | none => .error (.raised unexpectedResponse)
    | some body => do
      let bytes ← readBoundedResponse get body
      raise (require (status == expectedStatus) (unexpectedStatus status))
      raise (require (hasJsonContentType get) unexpectedResponse)
      match decode bytes with
      | some v => .ok v
      | none => .error (.raised unexpectedResponse)

/-! ### Pull requests -/

/-- The origin of a URL: scheme, host and port, or that of the URL inside a `blob:`. -/
def origin (u : Url) : Text :=
  let tuple (u : Url) : Text :=
    u.protocol ++ lit "//" ++ u.hostname ++ if u.port.isEmpty then [] else lit ":" ++ u.port
  if u.protocol ∈ ["http:", "https:", "ws:", "wss:", "ftp:"].map lit then tuple u
  else if u.protocol = lit "blob:" then
    match newUrl u.pathname with
    | some inner => if inner.protocol ∈ ["http:", "https:"].map lit then tuple inner else lit "null"
    | none => lit "null"
  else lit "null"

def validatePullUrl (value : Text) (c : Context) (number : ℤ) : Bool :=
  !includes value "%" &&
    match newUrl value with
    | none => false
    | some url =>
      origin newUrl url == lit "https://github.com" && url.username.isEmpty &&
        url.password.isEmpty && url.search.isEmpty && url.hash.isEmpty &&
        toLowerCase url.pathname ==
          toLowerCase (lit "/" ++ c.repository ++ lit "/pull/" ++ lit (toString number))

/-- One side of a pull request. -/
structure Side where
  ref : Text
  sha : Text
  fullName : Text

/-- What is read of a pull request. -/
structure Pull where
  number : ℤ
  state : Text
  draft : Bool
  htmlUrl : Text
  head : Side
  base : Side

def sideOf (v : Option Value) : Option Side := do
  let v ← v
  guard (isPlainObject v)
  let ref ← string (v.get "ref")
  let sha ← string (v.get "sha")
  guard (isSha sha)
  let repo ← v.get "repo"
  guard (isPlainObject repo)
  let fullName ← string (repo.get "full_name")
  pure ⟨ref, sha, fullName⟩

def pullOf (c : Context) (payload : Value) : Option Pull := do
  guard (isPlainObject payload)
  let number ← safeInteger (payload.get "number")
  guard (0 < number)
  let state ← string (payload.get "state")
  guard (state ∈ ["open", "closed"].map lit)
  let draft ← boolean (payload.get "draft")
  let htmlUrl ← string (payload.get "html_url")
  guard (validatePullUrl newUrl htmlUrl c number)
  let head ← sideOf (payload.get "head")
  guard (head.ref = c.headBranch)
  let base ← sideOf (payload.get "base")
  pure ⟨number, state, draft, htmlUrl, head, base⟩

def validatePull (c : Context) (payload : Value) : Except Err Pull :=
  match pullOf newUrl c payload with
  | some pull => .ok pull
  | none => .error unexpectedResponse

def repositoryMatches (fullName : Text) (c : Context) : Bool :=
  toLowerCase fullName == toLowerCase c.repository

def pullMatchesContract (pull : Pull) (c : Context) : Bool :=
  pull.state == lit "open" && pull.draft && pull.head.sha == c.headSha &&
    repositoryMatches pull.head.fullName c && pull.base.ref == c.targetBranch &&
    pull.base.sha == c.baseSha && repositoryMatches pull.base.fullName c

structure Receipt where
  number : ℤ
  url : Text
  headBranch : Text
  headSha : Text
  targetBranch : Text
  baseSha : Text
  draft : Bool
  created : Bool
  reconciled : Bool

def normalizePull (pull : Pull) (c : Context) (created reconciled : Bool) : Receipt where
  number := pull.number
  url := pull.htmlUrl
  headBranch := c.headBranch
  headSha := c.headSha
  targetBranch := c.targetBranch
  baseSha := c.baseSha
  draft := true
  created := created
  reconciled := reconciled

/-- The commit of a branch, as the server tells it. -/
def refOf (branch : Text) (payload : Value) : Except Err Text :=
  match payload.get "object" with
  | none => .error unexpectedResponse
  | some object =>
    match string (object.get "sha") with
    | none => .error unexpectedResponse
    | some sha => do
      require (isPlainObject payload &&
        string (payload.get "ref") == some (lit "refs/heads/" ++ branch) && isPlainObject object &&
        isText (object.get "type") "commit" && isSha sha) unexpectedResponse
      pure sha

/-- The pull request of the head, if there is just one and it is as it should be. -/
def existingOf (c : Context) : Value → Except Err (Option Pull)
  | .arr l => do
    require (decide (l.length ≤ 100)) unexpectedResponse
    match ← l.mapM (validatePull newUrl c) with
    | [] => pure none
    | [pull] => do
      require (pullMatchesContract pull c) existingPullConflict
      pure (some pull)
    | _ => .error existingPullConflict
  | _ => .error unexpectedResponse

/-! ### Programs -/

inductive Call
  | clock
  | fetch (r : Request)

def Call.Ret : Call → Type
  | .clock => ℤ
  | .fetch _ => Fetched

abbrev Io (α : Type) := Prog Call Call.Ret Err α

def clock : Io ℤ := Prog.ask Call.clock

def fetch (r : Request) : Io Fetched := Prog.ask (Call.fetch r)

/-- A request that is given up at the deadline. It is also made where the deadline passes between
the first two readings of the clock. -/
def requestJson (deadlineAt : ℤ) (request : Request) (expectedStatus : ℤ) : Io Value := do
  let now ← clock
  if deadlineAt ≤ now then .fail deadlineExceeded
  else
    let scheduled ← clock
    let answer ← fetch request
    if deadlineAt ≤ scheduled then .fail deadlineExceeded
    else
      match operation decode expectedStatus answer with
      | .error .expired => .fail deadlineExceeded
      | .error (.raised e) => do
        let now ← clock
        if deadlineAt ≤ now then .fail deadlineExceeded else .fail e
      | .ok v => do
        let now ← clock
        if deadlineAt ≤ now then .fail deadlineExceeded else pure v

def readRemoteRef (c : Context) (branch : Text) (deadlineAt : ℤ) : Io Text := do
  let payload ← requestJson decode deadlineAt (c.refRequest branch) 200
  .ofExcept (refOf branch payload)

def findExistingPull (c : Context) (deadlineAt : ℤ) : Io (Option Pull) := do
  let payload ← requestJson decode deadlineAt c.listRequest 200
  .ofExcept (existingOf newUrl c payload)

structure Publisher where
  owner : Text
  repo : Text
  targetBranch : Text
  credential : Text

def createGitHubPublisher (repository targetBranch token : Value) : Except Err Publisher := do
  match repository with
  | .str s =>
    match PodInput.parseGitHubRepository newUrl s with
    | .error e => .error (.typeError e)
    | .ok (owner, repo) => do
      let allowedTargetBranch ← validateBranch (some targetBranch) "targetBranch"
      let credential ← validateToken (some token)
      pure ⟨owner, repo, allowedTargetBranch, credential⟩
  | _ => .error (.typeError "invalid GitHub repository")

/-- What a publication asks for, once its input was accepted. -/
structure Order where
  context : Context
  title : Text
  body : Text

/-- The checks of an input, all but that of its deadline. -/
def checkInput (p : Publisher) (input : Value) : Except Err Order := do
  require (isPlainObject input) (.typeError "publish input must be an object")
  let headBranch ← validateBranch (input.get "headBranch") "headBranch"
  require (headBranch != p.targetBranch) (.typeError "headBranch must differ from targetBranch")
  let headSha ← validateSha (input.get "headSha") "headSha"
  let baseSha ← validateSha (input.get "baseSha") "baseSha"
  require (boolean (input.get "draft") == some true) (.typeError "draft must be true")
  let title ← validateTitle (input.get "title") p.credential
  let body ← validateBody (input.get "body") p.credential
  pure ⟨⟨p.owner, p.repo, headBranch, headSha, p.targetBranch, baseSha⟩, title, body⟩

def validateDeadline (v : Option Value) : Io ℤ := do
  match safeInteger v with
  | none => .fail (.typeError "deadlineAt must be a future safe integer")
  | some deadlineAt => do
    let now ← clock
    if deadlineAt ≤ now then .fail (.typeError "deadlineAt must be a future safe integer")
    else pure deadlineAt

def reconciliationWindowMs : ℤ := 2000

/-- The request for a new pull request. -/
def create (o : Order) (deadlineAt : ℤ) : Io Receipt := do
  let payload ← requestJson decode deadlineAt (o.context.createRequest o.title o.body) 201
  let created ← .ofExcept (validatePull newUrl o.context payload)
  .ofExcept (require (pullMatchesContract created o.context) unexpectedResponse)
  pure (normalizePull created o.context true false)

/-- The second look, after a request whose outcome is not known. -/
def reconcile (c : Context) (deadlineAt : ℤ) : Io (Option Receipt) := do
  let base ← readRemoteRef decode c c.targetBranch deadlineAt
  .ofExcept (require (base == c.baseSha) (.error "remote base changed during reconciliation"))
  let found ← findExistingPull newUrl decode c deadlineAt
  pure (found.map fun pull => normalizePull pull c true true)

/-- A publication whose input was accepted. -/
def publishOrder (o : Order) (deadlineAt : ℤ) : Io Receipt := do
  let c := o.context
  let remoteBase ← readRemoteRef decode c c.targetBranch deadlineAt
  .ofExcept (require (remoteBase == c.baseSha) (.error "remote base does not match baseSha"))
  let remoteHead ← readRemoteRef decode c c.headBranch deadlineAt
  .ofExcept (require (remoteHead == c.headSha) (.error "remote head does not match headSha"))
  match ← findExistingPull newUrl decode c deadlineAt with
  | some existing => pure (normalizePull existing c false false)
  | none =>
    match ← (create newUrl decode o deadlineAt).attempt with
    | .ok receipt => pure receipt
    | .error _ => do
      let now ← clock
      match ← (reconcile newUrl decode c (now + reconciliationWindowMs)).attempt with
      | .ok (some receipt) => pure receipt
      | _ => .fail (.error "GitHub pull request creation failed")

def publish (p : Publisher) (input : Value) : Io Receipt := do
  let o ← .ofExcept (checkInput p input)
  let deadlineAt ← validateDeadline (input.get "deadlineAt")
  publishOrder newUrl decode o deadlineAt

end Platform

end Bimo.GitHub
