import Bimo.Threads
import Bimo.Local
import Mathlib.Data.List.AList

/-!
The tenant proxy supervisor: one iron-proxy per route behind one front listener.

Every request is a thread. The map `ROUTES` is only touched under its lock, so each such
section is one call; stopping a route and restarting it are sections under the route's own
lock. Creating, launching, probing and registering a route are separate calls, in the order
the handlers make them. A `Route` is an object of the supervisor: its fields that never change,
and `ref` for its identity.

A listening socket belongs to the route whose process bound it first. Binding and dying are
what the processes do by themselves.
-/

namespace Bimo.Supervisor

open Local (ProxyPorts)

abbrev RouteId := String

/-- A JSON value as Python reads it; nothing looks into a float. -/
inductive Json
  | null
  | bool (b : Bool)
  | int (n : ℤ)
  | float
  | str (s : String)
  | arr (l : List Json)
  | obj (l : List (String × Json))

/-- `d.get(key)` -/
def field (d : List (String × Json)) (key : String) : Json :=
  ((d.find? (·.1 == key)).map Prod.snd).getD .null

/-! ### What a request is checked for -/

/-- A pattern that ends in `$`: a newline may follow. -/
def dollar (p : List Char → Bool) (s : String) : Bool :=
  p s.toList || (s.toList.getLast? == some '\n' && p s.toList.dropLast)

def hexChar (c : Char) : Bool := c.isDigit || ('a' ≤ c && c ≤ 'f')

def isSha256 : String → Bool := dollar fun cs => cs.length == 64 && cs.all hexChar

def routeChar (c : Char) : Bool := c.isLower || c.isDigit || c == '-'

/-- `ROUTE_ID` -/
def isRouteId : String → Bool :=
  dollar fun cs => cs.length ≤ 63 && cs.all routeChar &&
    cs.head?.any fun c => c.isLower || c.isDigit

def envNameChar (c : Char) : Bool := c.isAlphanum || c == '_'

/-- `secrets/<ENV>.secret` -/
def isSecretFile (cs : List Char) : Bool :=
  let env := (cs.drop 8).take (cs.length - 15)
  cs == "secrets/".toList ++ env ++ ".secret".toList && env.length ≤ 128 &&
    env.all envNameChar && env.head?.any fun c => !c.isDigit

/-- `FILE_NAME` -/
def isFileName : String → Bool :=
  dollar fun cs => cs == "ca.crt".toList || cs == "ca.key".toList ||
    cs == "management.key".toList || isSecretFile cs

def portNames : List String := ["tunnel", "http", "https", "management", "metrics"]

def port (ports : List (String × Json)) (name : String) : Option ℕ :=
  match field ports name with
  | .int n => if 1024 ≤ n ∧ n ≤ 65535 then some n.toNat else none
  | _ => none

def parsePorts : Json → Option ProxyPorts
  | .obj l =>
    if (l.map Prod.fst).isPerm portNames then do
      let tunnel ← port l "tunnel"
      let http ← port l "http"
      let https ← port l "https"
      let management ← port l "management"
      let metrics ← port l "metrics"
      return { tunnel, http, https, management, metrics }
    else none
  | _ => none

def wanted (ports : ProxyPorts) : List ℕ :=
  [ports.tunnel, ports.http, ports.https, ports.management, ports.metrics]

/-- The files of a body, when each has an allowed name and is text. -/
def parseFiles (allowed : String → Bool) : Json → Option (List (String × String))
  | .obj l => l.mapM fun x =>
    match x.2 with
    | .str text => if allowed x.1 then some (x.1, text) else none
    | _ => none
  | _ => none

structure Put where
  tokenSha256 : String
  source : Option String
  ports : ProxyPorts
  config : String
  files : List (String × String)

/-- The checks of `do_PUT` on its body. -/
def Put.parse (body : List (String × Json)) : Except String Put := do
  let tokenSha256 ← match field body "token_sha256" with
    | .str s => if isSha256 s then pure s else throw "token_sha256 must be a hex SHA-256"
    | _ => throw "token_sha256 must be a hex SHA-256"
  let source ← match field body "source" with
    | .null => pure none
    | .str s => pure (some s)
    | _ => throw "source must be an address or null"
  let ports ← match parsePorts (field body "ports") with
    | some p => pure p
    | none => throw ("ports must name tunnel, http, https, management, metrics, " ++
        "each 1024-65535")
  let (config, files) ← match field body "config", parseFiles isFileName (field body "files") with
    | .str config, some files => pure (config, files)
    | _, _ => throw "config must be text and files must map allowed names to text"
  for name in ["ca.crt", "ca.key", "management.key"] do
    if !files.any (·.1 == name) then throw ("files must include " ++ name)
  return { tokenSha256, source, ports, config, files }

/-- The check of `do_POST` on its body. -/
def parseSecrets (body : List (String × Json)) : Except String (List (String × String)) :=
  match parseFiles (fun name => "secrets/".toList.isPrefixOf name.toList && isFileName name)
      (field body "files") with
  | some (x :: l) => .ok (x :: l)
  | _ => .error "files must map secrets/<ENV>.secret to the new values"

inductive Verb
  | put
  | delete
  | post
  deriving DecidableEq, Repr

structure Request where
  verb : Verb
  path : String
  /-- The `Authorization` header, or nothing. -/
  authorization : String
  /-- `Content-Length`, as far as it is a number. -/
  length : Option ℤ
  /-- What the body reads as. -/
  body : Option Json

structure Setup where
  controlPort : ℕ
  frontPort : ℕ
  controlSha256 : String
  digest : String → String

def authorized (S : Setup) (q : Request) : Bool :=
  let token := if "Bearer ".toList.isPrefixOf q.authorization.toList
    then String.ofList (q.authorization.toList.drop 7) else ""
  token != "" && S.controlSha256 != "" && S.digest token == S.controlSha256

/-- The route and the action a path names. -/
def routePath (path : String) : Option (RouteId × String) :=
  match (path.toList.splitOn '/').map String.ofList with
  | [_, routes, id] => if routes == "routes" && isRouteId id then some (id, "") else none
  | [_, routes, id, action] =>
    if routes == "routes" && isRouteId id then some (id, action) else none
  | _ => none

def body (q : Request) : Except String (List (String × Json)) :=
  let length := q.length.getD (-1)
  if length ≤ 0 ∨ length > 1024 * 1024 then .error "a JSON body up to 1 MiB is required"
  else match q.body with
    | none => .error "body is not JSON"
    | some (.obj l) => .ok l
    | some _ => .error "body must be a JSON object"

/-- The action of the endpoint that serves a verb. -/
def Verb.action : Verb → String
  | .put | .delete => ""
  | .post => "secrets"

/-- The route a request is let through to. -/
def target (S : Setup) (q : Request) : Option RouteId :=
  if authorized S q then
    match routePath q.path with
    | some (id, action) => if action == q.verb.action then some id else none
    | none => none
  else none

/-! ### Calls -/

structure Route where
  ref : ℕ
  id : RouteId
  tokenSha256 : String
  source : Option String
  ports : ProxyPorts
  deriving DecidableEq, Repr

inductive Fault
  /-- An `OSError`. -/
  | os (text : String)
  /-- Any other exception: no handler catches it. -/
  | other
  deriving DecidableEq, Repr

inductive Reply
  | error (text : String)
  | deleted (found : Bool)
  | done

inductive Call
  | request
  | reply (q : Request) (code : ℕ) (body : Reply)
  /-- `do_PUT`'s section: the route that had the id, and every port of the others. -/
  | popTaken (id : RouteId)
  | pop (id : RouteId)
  | get (id : RouteId)
  | values
  | register (id : RouteId) (route : Route)
  /-- `Route.stop`, which waits for the process. -/
  | stop (route : Route)
  /-- `shutil.rmtree`, which ignores what it could not remove. -/
  | rmtree (dir : RouteId)
  | portFree (port : ℕ)
  | newRoute (id : RouteId) (tokenSha256 : String) (source : Option String) (ports : ProxyPorts)
  | makedirs (dir : RouteId)
  | writePrivate (dir : RouteId) (name text : String)
  | launch (route : Route)
  /-- How often the probe is made before the deadline. -/
  | probes (seconds : ℕ)
  /-- Whether the route's process has exited. -/
  | poll (route : Route)
  | createConnection (port : ℕ)
  | readKey (dir : RouteId)
  | reload (port : ℕ) (key : String)
  /-- The watcher's section for one route: was it launched again? -/
  | restart (route : Route)
  /-- A front connection: the credential in its head, and where it comes from. -/
  | head
  /-- The connection a client is spliced to, made for a route. -/
  | splice (route : Route)

def Call.Ret : Call → Type
  | .request => Request
  | .reply _ _ _ | .register _ _ | .stop _ => Unit
  | .popTaken _ => Option Route × List ℕ
  | .pop _ | .get _ => Option Route
  | .values => List Route
  -- the files it left
  | .rmtree _ => List String
  | .portFree _ | .poll _ | .createConnection _ | .restart _ | .splice _ => Bool
  | .newRoute _ _ _ _ => Route
  | .makedirs _ | .writePrivate _ _ _ | .launch _ => Except Fault Unit
  | .probes _ => ℕ
  | .readKey _ => Except Fault String
  | .reload _ _ => Except Fault ℕ
  | .head => Option (Option (String × String) × String)

abbrev Handler (α : Type) := Prog Call Call.Ret Fault α

def ask (c : Call) : Handler c.Ret := Prog.ask c

/-- A call that may raise. -/
def tryCall {α : Type} (c : Call) (h : c.Ret = Except Fault α) : Handler α := do
  let x ← ask c
  .ofExcept (h ▸ x)

/-! ### The handlers -/

def reply (q : Request) (code : ℕ) (b : Reply) : Handler Unit := ask (.reply q code b)

def doDelete (S : Setup) (q : Request) : Handler Unit :=
  if !authorized S q then reply q 401 (.error "unauthorized")
  else match routePath q.path with
    | some (id, "") => do
      let route : Option Route ← ask (.pop id)
      if let some route := route then
        let () ← ask (.stop route)
        let _left : List String ← ask (.rmtree route.id)
      reply q 200 (.deleted route.isSome)
    | _ => reply q 404 (.error "unknown endpoint")

/-- `all(port_free(p) for p in wanted)` -/
def allFree : List ℕ → Handler Bool
  | [] => pure true
  | p :: l => do
    let free : Bool ← ask (.portFree p)
    if free then allFree l else pure false

/-- The part of `do_PUT`'s check that its section decides. -/
def clear (S : Setup) (ports : ProxyPorts) (taken : List ℕ) : Bool :=
  decide (wanted ports).Nodup && !(wanted ports).any (fun p => taken.contains p) &&
    !(wanted ports).any fun p => p == S.frontPort || p == S.controlPort

/-- What `do_PUT` does under `try`. -/
def start (route : Route) (put : Put) : Handler Unit := do
  tryCall (.makedirs route.id) rfl
  tryCall (.writePrivate route.id "iron-proxy.yaml" put.config) rfl
  Prog.each (fun x => tryCall (.writePrivate route.id x.1 x.2) rfl) put.files
  tryCall (.launch route) rfl

/-- `Route.wait_listening`: is anything listening on the tunnel port? -/
def waitListening (route : Route) : ℕ → Handler Bool
  | 0 => pure false
  | n + 1 => do
    let exited : Bool ← ask (.poll route)
    if exited then pure false
    else
      let connected : Bool ← ask (.createConnection route.ports.tunnel)
      if connected then pure true else waitListening route n

/-- `do_PUT` once its ports are free. -/
def putRoute (q : Request) (id : RouteId) (put : Put) : Handler Unit := do
  let route : Route ← ask (.newRoute id put.tokenSha256 put.source put.ports)
  let started ← (start route put).attempt
  match started with
  | .error (.os error) =>
    let _left : List String ← ask (.rmtree route.id)
    reply q 500 (.error ("could not start the route: " ++ error))
  | .error .other => .fail .other
  | .ok () =>
    let n : ℕ ← ask (.probes 15)
    let listening ← waitListening route n
    if !listening then
      let () ← ask (.stop route)
      let _left : List String ← ask (.rmtree route.id)
      reply q 500 (.error "iron-proxy did not start for this route")
    else
      let () ← ask (.register id route)
      reply q 200 .done

/-- `do_PUT` once the old route is gone. -/
def putPorts (S : Setup) (q : Request) (id : RouteId) (put : Put) (taken : List ℕ) :
    Handler Unit :=
  if !clear S put.ports taken then reply q 409 (.error "ports in use; pick others")
  else do
    let free ← allFree (wanted put.ports)
    if !free then reply q 409 (.error "ports in use; pick others")
    else putRoute q id put

def doPut (S : Setup) (q : Request) : Handler Unit :=
  if !authorized S q then reply q 401 (.error "unauthorized")
  else match routePath q.path with
    | some (id, "") =>
      match (body q).bind Put.parse with
      | .error text => reply q 400 (.error text)
      | .ok put => do
        let (old, taken) : Option Route × List ℕ ← ask (.popTaken id)
        if let some old := old then
          let () ← ask (.stop old)
          let _left : List String ← ask (.rmtree old.id)
        putPorts S q id put taken
    | _ => reply q 404 (.error "unknown endpoint")

/-- `do_POST` once iron-proxy was asked to reload. -/
def reloaded (q : Request) : Except Fault ℕ → Handler Unit
  | .error (.os error) => reply q 502 (.error ("reload failed: " ++ error))
  | .error .other => .fail .other
  | .ok status =>
    if status ≠ 200 then
      reply q 502 (.error ("iron-proxy reload answered HTTP " ++ toString status))
    else reply q 200 .done

def doPost (S : Setup) (q : Request) : Handler Unit :=
  if !authorized S q then reply q 401 (.error "unauthorized")
  else match routePath q.path with
    | some (id, "secrets") =>
      match (body q).bind parseSecrets with
      | .error text => reply q 400 (.error text)
      | .ok files => do
        let route : Option Route ← ask (.get id)
        match route with
        | none => reply q 404 (.error "no such route")
        | some route =>
          Prog.each (fun x => tryCall (.writePrivate route.id x.1 x.2) rfl) files
          let key : String ← tryCall (.readKey route.id) rfl
          let status : Except Fault ℕ ← ask (.reload route.ports.management key)
          reloaded q status
    | _ => reply q 404 (.error "unknown endpoint")

/-- A control connection: one request. -/
def control (S : Setup) : Handler Unit := do
  let q : Request ← ask .request
  match q.verb with
  | .put => doPut S q
  | .delete => doDelete S q
  | .post => doPost S q

/-- A front connection: refused, or spliced to the route its credential names. -/
def handleFront (S : Setup) : Handler Unit := do
  let head : Option (Option (String × String) × String) ← ask .head
  match head with
  | some (some (id, token), peer) =>
    let route : Option Route ← ask (.get id)
    match route with
    | none => pure ()
    | some route =>
      if S.digest token != route.tokenSha256 then pure ()
      else if route.source.any fun a => a != "" && a != peer then pure ()
      else
        let _connected : Bool ← ask (.splice route)
  | _ => pure ()

/-- One round of the watcher. -/
def watch : Handler Unit := do
  let routes : List Route ← ask .values
  Prog.each (fun route => do let _launched : Bool ← ask (.restart route)) routes

/-! ### The supervisor's state -/

inductive Process
  | none
  | running
  | exited
  deriving DecidableEq, Repr

def Process.ended : Process → Process
  | .none => .none
  | .running | .exited => .exited

@[simp] lemma Process.ended_ne_running (p : Process) : p.ended ≠ .running := by
  cases p <;> simp [ended]

@[simp] lemma Process.ended_eq_none (p : Process) : p.ended = .none ↔ p = .none := by
  cases p <;> simp [ended]

structure State where
  routes : AList fun _ : RouteId => Route
  /-- How many routes have been created. -/
  made : ℕ
  proc : Route → Process
  stopping : Route → Bool
  /-- Whose process listens on a loopback port. -/
  listener : ℕ → Option Route
  dirs : RouteId → Bool
  /-- What is under a route's directory. -/
  files : RouteId → List (String × String)
  /-- For each connection spliced: the route it was authenticated for, and the route whose
  process took it. -/
  spliced : List (RouteId × RouteId)
  /-- The routes whose deletion was answered, with no `PUT` since. -/
  deleted : RouteId → Bool

def State.empty : State where
  routes := ∅
  made := 0
  proc _ := .none
  stopping _ := false
  listener _ := none
  dirs _ := false
  files _ := []
  spliced := []
  deleted _ := false

namespace State

def values (s : State) : List Route := s.routes.entries.map Sigma.snd

/-- `{p for r in ROUTES.values() for p in r.ports.values()}` once `id` is gone. -/
def taken (s : State) (id : RouteId) : List ℕ :=
  ((s.routes.erase id).entries.map Sigma.snd).flatMap fun r => wanted r.ports

/-- A route that has been launched and not been stopped. -/
def Held (s : State) (r : Route) : Prop := s.proc r ≠ .none ∧ s.stopping r = false

/-- A process that ends lets go of its ports. -/
def exit (s : State) (r : Route) : State :=
  { s with
    proc := Function.update s.proc r (s.proc r).ended
    listener := fun p => if s.listener p = some r then none else s.listener p }

@[simp] lemma exit_stopping (s : State) (r : Route) : (s.exit r).stopping = s.stopping := rfl

def stop (s : State) (r : Route) : State :=
  { s.exit r with stopping := Function.update s.stopping r true }

def write (s : State) (dir : RouteId) (name text : String) : State :=
  { s with
    dirs := Function.update s.dirs dir true
    files := Function.update s.files dir ((name, text) :: (s.files dir).filter (·.1 != name)) }

/-- What a `rmtree` leaves. -/
def remove (s : State) (dir : RouteId) (left : List String) : State :=
  { s with
    dirs := Function.update s.dirs dir (s.dirs dir && left != [])
    files := Function.update s.files dir ((s.files dir).filter fun x => left.contains x.1) }

/-- A connection for `route` reaches whoever listens on its port. -/
def join (s : State) (route : Route) : State :=
  { s with
    spliced := ((s.listener route.ports.tunnel).map fun r => (route.id, r.id)).toList ++
      s.spliced }

/-- A `PUT` begins. -/
def began (S : Setup) (s : State) (q : Request) : State :=
  { s with
    deleted := fun id => s.deleted id && !(q.verb == .put && target S q == some id) }

/-- A deletion is answered. -/
def answered (S : Setup) (s : State) (q : Request) (code : ℕ) : State :=
  { s with
    deleted := fun id =>
      s.deleted id || (q.verb == .delete && target S q == some id && code == 200) }

def hasKey (s : State) (dir : RouteId) : Bool := (s.files dir).any (·.1 == "management.key")

end State

/-- The answers a call may get. -/
def can (s : State) : (c : Call) → c.Ret → Prop
  | .popTaken id, r => r = (s.routes.lookup id, s.taken id)
  | .pop id, r => r = s.routes.lookup id
  | .get id, r => r = s.routes.lookup id
  | .values, r => r = s.values
  | .newRoute id tokenSha256 source ports, r =>
    r = { ref := s.made, id, tokenSha256, source, ports }
  | .portFree p, r => r = true → s.listener p = none
  | .makedirs dir, r => r = .ok () → s.dirs dir = false
  | .launch route, r => r = .ok () → s.hasKey route.id = true
  | .poll route, r => r = decide (s.proc route ≠ .running)
  | .createConnection p, r => r = true → s.listener p ≠ none
  | .restart route, r =>
    r = true → s.stopping route = false ∧ s.proc route = .exited ∧ s.hasKey route.id = true
  | .splice route, r => r = true → s.listener route.ports.tunnel ≠ none
  | .request, _ | .reply _ _ _, _ | .register _ _, _ | .stop _, _ | .rmtree _, _
  | .writePrivate _ _ _, _ | .probes _, _ | .readKey _, _ | .reload _ _, _ | .head, _ => True

def next (S : Setup) (s : State) : (c : Call) → c.Ret → State
  | .request, q => s.began S q
  | .reply q code _, _ => s.answered S q code
  | .popTaken id, _ | .pop id, _ => { s with routes := s.routes.erase id }
  | .register id route, _ => { s with routes := s.routes.insert id route }
  | .stop route, _ => s.stop route
  | .rmtree dir, left => s.remove dir left
  | .newRoute _ _ _ _, _ => { s with made := s.made + 1 }
  | .makedirs dir, .ok () => { s with dirs := Function.update s.dirs dir true }
  | .writePrivate dir name text, .ok () => s.write dir name text
  -- a write that fails leaves its partial file
  | .writePrivate dir name _, .error _ => s.write dir (name ++ ".tmp") ""
  | .launch route, .ok () => { s with proc := Function.update s.proc route .running }
  | .restart route, true => { s with proc := Function.update s.proc route .running }
  | .splice route, true => s.join route
  | .makedirs _, .error _ | .launch _, .error _ | .restart _, false | .splice _, false
  | .get _, _ | .values, _ | .portFree _, _ | .probes _, _ | .poll _, _
  | .createConnection _, _ | .readKey _, _ | .reload _ _, _ | .head, _ => s

/-- What the processes do by themselves. -/
inductive Move
  | bind (route : Route) (port : ℕ)
  | die (route : Route)

def tick : Move → State → Option State
  | .bind r p, s =>
    if s.proc r = .running ∧ p ∈ wanted r.ports ∧ s.listener p = none then
      some { s with listener := Function.update s.listener p (some r) }
    else none
  | .die r, s => if s.proc r = .running then some (s.exit r) else none

/-! ### Threads and their notes -/

/-- What a thread is doing. -/
structure Doing where
  asked : Option (Verb × RouteId) := none
  /-- A `PUT` that read its body. -/
  put : Option Put := none
  /-- A `PUT` or `DELETE` past its section. -/
  popped : Bool := false
  /-- The ports of a `PUT` whose section found them clear, until it is answered. -/
  wants : Option ProxyPorts := none
  /-- The route taken out of `ROUTES` and not stopped. -/
  victim : Option Route := none
  /-- The route created and not registered. -/
  own : Option Route := none
  launched : Bool := false
  /-- There may be files that no registered route has. -/
  dirty : Bool := false
  /-- The route looked up. -/
  found : Option Route := none

def Doing.removed (g : Doing) (left : List String) : Doing :=
  { g with dirty := g.dirty && left != [] }

def Doing.stopped (g : Doing) (route : Route) : Doing :=
  { g with
    victim := if g.victim = some route then none else g.victim
    own := if g.own = some route then none else g.own }

def note (S : Setup) (g : Doing) : (c : Call) → c.Ret → Doing
  | .request, q =>
    { asked := (target S q).map (q.verb, ·)
      put := if q.verb = .put then ((body q).bind Put.parse).toOption else none }
  | .reply _ _ _, _ => {}
  | .popTaken _, r =>
    { g with
      popped := true
      victim := r.1
      dirty := r.1.isSome
      wants := (g.put.map Put.ports).filter (clear S · r.2) }
  | .pop _, r => { g with popped := true, victim := r, dirty := r.isSome }
  | .get _, r => { g with found := r }
  | .register _ _, _ =>
    { g with popped := false, wants := none, own := none, launched := false, dirty := false }
  | .stop route, _ => g.stopped route
  | .rmtree _, left => g.removed left
  | .newRoute _ _ _ _, r => { g with own := some r, launched := false }
  | .makedirs _, .ok () => { g with dirty := true }
  | .writePrivate _ _ _, _ => { g with dirty := g.dirty || g.popped }
  | .launch _, .ok () => { g with launched := true }
  | .splice _, _ => { g with found := none }
  | .makedirs _, .error _ | .launch _, .error _ | .values, _ | .portFree _, _ | .probes _, _
  | .poll _, _ | .createConnection _, _ | .readKey _, _ | .reload _ _, _ | .restart _, _
  | .head, _ => g

/-- The supervisor: control connections, front connections and the watcher. -/
def supervisor (S : Setup) : Threads Call Call.Ret Fault Unit State Doing where
  env := .of can (next S)
  idle s t := ∃ m, tick m s = some t
  begins g p := g = {} ∧ (p = control S ∨ p = handleFront S ∨ p = watch)
  note := note S
  leaves p := ∀ c k, p ≠ .call c k

end Bimo.Supervisor
