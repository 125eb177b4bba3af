import Bimo.Factory
import Bimo.Store

/-!
What a factory manifest has to meet before it is applied. Every check that fails adds its line
to the errors, so a manifest passes when there are none.
-/

namespace Bimo.Factory

open Wire (len)
open Store (isSpace isBlank)

/-- A manifest as it is parsed. -/
structure FactoryManifest where
  name : String
  stateDir : Option String := none
  trustedExecutableRoots : List String := []
  pods : List PodManifest

def trim (s : String) : String :=
  String.ofList ((s.toList.dropWhile isSpace).reverse.dropWhile isSpace).reverse

def isSafeName (p : PodManifest) : Bool :=
  let name := (trim p.name).toList
  name ≠ [] && name ≠ ['.'] && name ≠ ['.', '.'] && '/' ∉ name && '\\' ∉ name

def splitOnSlash : List Char → List Char → List (List Char)
  | [], part => [part.reverse]
  | c :: cs, part => if c = '/' then part.reverse :: splitOnSlash cs [] else splitOnSlash cs (c :: part)

def isAbsolute (path : String) : Bool := path.toList.head? = some '/'

/-- The components of a path: no empty ones, and a dot only at the head of a relative path. -/
def components (path : String) : List (List Char) :=
  let parts := splitOnSlash path.toList []
  let body := parts.filter fun c => c ≠ [] && c ≠ ['.']
  if isAbsolute path then ['/'] :: body
  else if parts.head? = some ['.'] then ['.'] :: body
  else body

def startsWith (path root : String) : Bool := (components root).isPrefixOf (components path)

def allowedCapabilities : List String := ["pod.send_message", "factory.read_state"]

def commandErrors (roots : List String) (n : String) (command : List String) : List String :=
  match command with
  | [] => ["pod command argv must not be empty: " ++ n]
  | executable :: _ =>
    if command.any (· = "") then ["pod command argv must not be empty: " ++ n]
    else
      (if !isAbsolute executable then ["pod executable must be absolute: " ++ n] else []) ++
      (if roots ≠ [] && !roots.any (startsWith executable) then
        ["pod executable is outside trusted roots: " ++ n] else [])

def isEnvName (env : String) : Bool :=
  env ≠ "" && env.toList.all fun c => c == '_' || c.isUpper || c.isDigit

/-- The checks of one pod that look at no other. -/
def podErrors (m : FactoryManifest) (p : PodManifest) : List String :=
  let n := trim p.name
  (if p.role.any isBlank then ["pod role must not be empty: " ++ n] else []) ++
  (if isBlank p.engine then ["pod engine must not be empty: " ++ n] else []) ++
  (if p.protocol ≠ "agent-worker/v1" then
    ["unsupported protocol for pod " ++ n ++ ": " ++ p.protocol] else []) ++
  commandErrors m.trustedExecutableRoots n p.command ++
  (if p.maxFrameBytes = 0 ∨ p.maxFrameBytes > 65536 then
    ["invalid max_frame_bytes for pod " ++ n] else []) ++
  (if p.requestTimeoutMs = 0 ∨ p.heartbeatTimeoutMs = 0 then
    ["worker deadlines must be positive: " ++ n] else []) ++
  (p.capabilities.filter (· ∉ allowedCapabilities)).map
    (fun cap => "unsupported capability for pod " ++ n ++ ": " ++ cap) ++
  (p.destinations.filter (· ∉ m.pods.map (·.name))).map
    (fun dest => "undeclared destination for pod " ++ n ++ ": " ++ dest) ++
  (p.allowedEnv.filter (!isEnvName ·)).map
    (fun env => "invalid allowed environment name for pod " ++ n ++ ": " ++ env) ++
  (if len p.config > 65536 then ["worker config too large: " ++ n] else [])

/-- The pods' errors, given the names seen before. -/
def podsErrors (m : FactoryManifest) : List PodManifest → List String → List String
  | [], _ => []
  | p :: l, seen =>
    let n := trim p.name
    if n = "" then "pod name must not be empty" :: podErrors m p ++ podsErrors m l seen
    else if !isSafeName p then
      ("pod name must be a safe path component: " ++ n) :: podErrors m p ++ podsErrors m l seen
    else if n ∈ seen then
      ("duplicate pod name: " ++ n) :: podErrors m p ++ podsErrors m l seen
    else podErrors m p ++ podsErrors m l (n :: seen)

def errors (m : FactoryManifest) : List String :=
  (if isBlank m.name then ["factory name must not be empty"] else []) ++
  (if m.stateDir.any isBlank then ["state directory must not be empty"] else []) ++
  (if m.pods = [] then ["factory must contain at least one pod"] else []) ++
  podsErrors m m.pods []

def validate (m : FactoryManifest) : Except (List String) Unit :=
  if errors m = [] then .ok () else .error (errors m)

/-! ### What passing means -/

variable {m : FactoryManifest}

lemma podsErrors_of_validate (h : validate m = .ok ()) : podsErrors m m.pods [] = [] := by
  unfold validate at h
  split_ifs at h with he
  exact (List.append_eq_nil_iff.mp he).2

/-- The pods after the first pass given one more name. -/
lemma podsErrors_cons {p : PodManifest} {l : List PodManifest} {seen : List String}
    (h : podsErrors m (p :: l) seen = []) :
    trim p.name ∉ seen ∧ podErrors m p = [] ∧ podsErrors m l (trim p.name :: seen) = [] := by
  unfold podsErrors at h
  dsimp only at h
  split_ifs at h with hempty hsafe hseen
  · exact absurd h (by simp)
  · exact absurd h (by simp)
  · exact absurd h (by simp)
  · obtain ⟨hp, hl⟩ := List.append_eq_nil_iff.mp h
    exact ⟨hseen, hp, hl⟩

lemma nodup_of_podsErrors {l : List PodManifest} {seen : List String}
    (h : podsErrors m l seen = []) :
    (l.map (·.name)).Nodup ∧ ∀ p ∈ l, trim p.name ∉ seen := by
  induction l generalizing seen with
  | nil => simp
  | cons q l ih =>
      obtain ⟨hq, -, hl⟩ := podsErrors_cons h
      obtain ⟨hnodup, hnew⟩ := ih hl
      refine ⟨List.nodup_cons.mpr ⟨fun hmem => ?_, hnodup⟩, fun p hp => ?_⟩
      · obtain ⟨p, hp, hname⟩ := List.mem_map.mp hmem
        exact hnew p hp (by simp [hname])
      · rcases List.mem_cons.mp hp with rfl | hp
        · exact hq
        · exact fun hseen => hnew p hp (List.mem_cons_of_mem _ hseen)

/-- **A validated manifest** can be applied: no two pods share a name. -/
def FactoryManifest.checked (m : FactoryManifest) (h : validate m = .ok ()) : Manifest where
  name := m.name
  pods := m.pods
  distinct := (nodup_of_podsErrors (podsErrors_of_validate h)).1

end Bimo.Factory
