import Bimo.EngineSpec
import Bimo.Wire

/-!
The configuration of an agent's proxy.

`render` writes the allowlist of the spec as domains and addresses, and a rule for every host
of every secret. A rule admits destinations: a name admits itself, `*.s` every name that ends in
`.s`, and an address admits itself. The main result says that a secret only goes where the
allowlist lets the agent go.
-/

namespace Bimo.EngineSpec

/-! ### The text -/

def quote (value : String) : String := String.ofList (Wire.quote value)

def list (items : List String) : String := "[" ++ ", ".intercalate (items.map quote) ++ "]"

structure ProxyPorts where
  tunnel : ℕ
  http : ℕ
  https : ℕ
  management : ℕ
  metrics : ℕ

/-- What the configuration is made from. -/
structure ProxyPlan where
  spec : AgentSpec
  /-- The placeholder of each variable. -/
  placeholders : String → Option String
  upstreamDenyCidrs : Option (List String)

/-- A plain name below a directory. -/
def joinPath (dir name : String) : String :=
  if dir = "" ∨ dir.toList.getLast? = some '/' then dir ++ name else dir ++ "/" ++ name

def secretFile (proxyDir env : String) : String :=
  joinPath (joinPath proxyDir "secrets") (env ++ ".secret")

def domains (allow : List String) : List String := allow.filter fun entry => !isIpv4 entry

def cidrs (allow : List String) : List String := (allow.filter isIpv4).map (· ++ "/32")

/-- A rule for the hosts of a secret. -/
inductive Rule
  | host (pattern : String)
  | cidr (cidr : String)
  deriving DecidableEq, Repr

def ruleOf (host : String) : Rule := if isIpv4 host then .cidr (host ++ "/32") else .host host

def Rule.line : Rule → String
  | .cidr c => "            - cidr: " ++ quote c ++ "\n"
  | .host h => "            - host: " ++ quote h ++ "\n"

def secretRules (secret : SecretRef) : List Rule := secret.hosts.map ruleOf

def renderSecret (plan : ProxyPlan) (dir : String) (secret : SecretRef) : String :=
  "        - source: \x7btype: file, path: " ++ quote (secretFile dir secret.env) ++ "\x7d\n" ++
  "          replace:\n" ++
  "            proxy_value: " ++ quote ((plan.placeholders secret.env).getD "") ++ "\n" ++
  "            match_headers: []\n" ++
  "          rules:\n" ++
  String.join ((secretRules secret).map Rule.line)

def render (plan : ProxyPlan) (dir bindHost : String) (ports : ProxyPorts)
    (deny : Option (List String)) : String :=
  let listen (port : ℕ) : String := quote (bindHost ++ ":" ++ toString port)
  "# Generated by Monolith for one agent generation. Do not edit.\n" ++
  "dns:\n  enabled: false\n" ++
  "proxy:\n" ++
  "  http_listen: " ++ listen ports.http ++ "\n" ++
  "  https_listen: " ++ listen ports.https ++ "\n" ++
  "  tunnel_listen: " ++ listen ports.tunnel ++ "\n" ++
  (match deny.or plan.upstreamDenyCidrs with
    | some cidrs => "  upstream_deny_cidrs: " ++ list cidrs ++ "\n"
    | none => "") ++
  "tls:\n" ++
  "  ca_cert: " ++ quote (joinPath dir "ca.crt") ++ "\n" ++
  "  ca_key: " ++ quote (joinPath dir "ca.key") ++ "\n" ++
  "transforms:\n" ++
  "  - name: allowlist\n    config:\n" ++
  "      domains: " ++ list (domains plan.spec.egress.allow) ++ "\n" ++
  "      cidrs: " ++ list (cidrs plan.spec.egress.allow) ++ "\n" ++
  (if plan.spec.secrets = [] then ""
    else "  - name: secrets\n    config:\n      secrets:\n" ++
      String.join (plan.spec.secrets.map (renderSecret plan dir))) ++
  "management:\n" ++
  "  listen: " ++ listen ports.management ++ "\n  api_key_env: IRON_MANAGEMENT_API_KEY\n" ++
  "metrics:\n" ++
  "  listen: " ++ listen ports.metrics ++ "\n" ++
  "log:\n  level: info\n"

/-! ### Where a rule lets a request go -/

/-- The destinations of a name or a pattern. -/
def PatternAdmits (pattern destination : String) : Prop :=
  match stripStar pattern with
  | some s => '.' :: s.toList <:+ destination.toList
  | none => destination = pattern

/-- The destination of an address with all its bits. -/
def CidrAdmits (cidr destination : String) : Prop :=
  ∃ ip, cidr = ip ++ "/32" ∧ isIpv4 ip = true ∧ parseIpv4 destination = parseIpv4 ip

def Rule.Admits : Rule → String → Prop
  | .host p => PatternAdmits p
  | .cidr c => CidrAdmits c

/-- The allowlist as it is written. -/
def AllowlistAdmits (allow : List String) (destination : String) : Prop :=
  (∃ pattern ∈ domains allow, PatternAdmits pattern destination) ∨
    ∃ cidr ∈ cidrs allow, CidrAdmits cidr destination

lemma patternAdmits_of_stripStar {pattern s destination : String}
    (h : stripStar pattern = some s) :
    PatternAdmits pattern destination ↔ '.' :: s.toList <:+ destination.toList := by
  rw [PatternAdmits, h]

lemma isIpv4_of_stripStar {pattern s : String} (h : stripStar pattern = some s) :
    isIpv4 pattern = false := by
  rw [isIpv4, parseIpv4_of_stripStar h]
  rfl

/-- An address is the one destination of its rule. -/
lemma cidrAdmits_iff {ip destination : String} (h : isIpv4 ip = true) :
    CidrAdmits (ip ++ "/32") destination ↔ destination = ip := by
  constructor
  · rintro ⟨ip', heq, -, hd⟩
    obtain rfl : ip = ip' := by
      have := congrArg String.toList heq
      rw [String.toList_append, String.toList_append] at this
      exact String.toList_inj.mp (List.append_cancel_right this)
    obtain ⟨a, ha⟩ := Option.isSome_iff_exists.mp h
    exact parseIpv4_injective (hd.trans ha) ha
  · rintro rfl
    exact ⟨_, rfl, h, rfl⟩

/-- The rule of an entry is one of the rules of the allowlist. -/
lemma allowlistAdmits_of_ruleOf {allow : List String} {entry destination : String}
    (hentry : entry ∈ allow) (h : (ruleOf entry).Admits destination) :
    AllowlistAdmits allow destination := by
  unfold ruleOf at h
  split_ifs at h with hip
  · exact .inr ⟨_, List.mem_map.mpr ⟨entry, List.mem_filter.mpr ⟨hentry, hip⟩, rfl⟩, h⟩
  · exact .inl ⟨entry, List.mem_filter.mpr ⟨hentry, by simpa using hip⟩, h⟩

/-- A host that ends like the names of a pattern has destinations of the pattern alone. -/
lemma patternAdmits_of_suffix {entry t host destination : String}
    (hentry : stripStar entry = some t) (hsuffix : '.' :: t.toList <:+ host.toList)
    (h : (ruleOf host).Admits destination) : PatternAdmits entry destination := by
  rw [patternAdmits_of_stripStar hentry]
  unfold ruleOf at h
  split_ifs at h with hip
  · obtain rfl := (cidrAdmits_iff hip).mp h
    exact hsuffix
  · change PatternAdmits host destination at h
    cases hs : stripStar host with
    | none =>
      rw [PatternAdmits, hs] at h
      rwa [h]
    | some s =>
      -- The host is a pattern itself: the entry's suffix cannot reach into the star.
      rw [patternAdmits_of_stripStar hs] at h
      rw [stripStar_eq_some.mp hs, List.suffix_cons_iff] at hsuffix
      obtain heq | hsuffix := hsuffix
      · cases heq
      · exact hsuffix.trans h

lemma allowlistAdmits_of_hostAllowed {allow : List String} {host destination : String}
    (hlow : toAsciiLowercase host = host) (hallowed : hostAllowed host allow = true)
    (h : (ruleOf host).Admits destination) : AllowlistAdmits allow destination := by
  unfold hostAllowed at hallowed
  simp only [hlow, List.any_eq_true] at hallowed
  obtain ⟨entry, hentry, hmatch⟩ := hallowed
  cases hs : stripStar entry with
  | none =>
    rw [hs] at hmatch
    obtain rfl : entry = host := by simpa using hmatch
    exact allowlistAdmits_of_ruleOf hentry h
  | some t =>
    rw [hs] at hmatch
    have hsuffix : '.' :: t.toList <:+ host.toList := by simpa using hmatch
    refine allowlistAdmits_of_ruleOf hentry ?_
    have hrule : ruleOf entry = .host entry := by simp [ruleOf, isIpv4_of_stripStar hs]
    rw [hrule]
    exact patternAdmits_of_suffix hs hsuffix h

/-- **Secrets only go to allowlisted hosts.** Where an accepted spec's rule for a secret lets the
real value go, the allowlist lets the agent go. -/
theorem secrets_within_allowlist {host : Host} {text path base : String} {loaded : LoadedSpec}
    (h : parseAndValidate host text path base = .ok loaded) :
    ∀ secret ∈ loaded.spec.secrets, ∀ rule ∈ secretRules secret, ∀ destination,
      rule.Admits destination → AllowlistAdmits loaded.spec.egress.allow destination := by
  intro secret hsecret rule hrule destination hadmits
  obtain ⟨⟨hosts, hlow⟩, hallowed⟩ := (hostsChecked_of_parse h).secrets secret hsecret
  obtain ⟨name, hname, rfl⟩ := List.mem_map.mp hrule
  refine allowlistAdmits_of_hostAllowed ?_ (hallowed name hname) hadmits
  rw [hlow] at hname
  obtain ⟨raw, -, rfl⟩ := List.mem_map.mp hname
  exact toAsciiLowercase_idem raw

/-! A spec with one secret. -/

def sampleText : String :=
  "schema_version = 1\nname = \"worker\"\ntenant_id = \"acme\"\nruntime = \"hermes\"\n" ++
  "[source]\nkind = \"config\"\npath = \"hermes\"\n" ++
  "[[secrets]]\nenv = \"API_KEY\"\nhandle = \"acme/api\"\nhosts = [\"API.example.com\"]\n" ++
  "[egress]\nallow = [\"*.example.com\", \"10.0.0.1\"]\n[placement]\nsubstrate = \"local\"\n"

def sampleRaw : RawSpec where
  schemaVersion := some 1
  name := some "worker"
  tenantId := some "acme"
  runtime := some "hermes"
  source := some [("kind", .string "config"), ("path", .string "hermes")]
  secrets := some [[("env", .string "API_KEY"), ("handle", .string "acme/api"),
    ("hosts", .array [.string "API.example.com"])]]
  egress := some [("allow", .array [.string "*.example.com", .string "10.0.0.1"])]
  placement := some [("substrate", .string "local")]

def sampleHost : Host where
  fromStr text := if text = sampleText then .ok sampleRaw else .error "unexpected end of input"
  secretSource _ := .ok fun _ => .ok "value"
  join base relative := base ++ "/" ++ relative
  canonicalDir dir := some dir
  fingerprint _ _ := .ok "digest"

lemma sample_accepted : ∃ loaded,
    parseAndValidate sampleHost sampleText "spec.toml" "." = .ok loaded :=
  ok_of_isOk (by decide +kernel)

/-- The spec's secret and its allowlist. -/
theorem secrets_within_allowlist_sample : ∃ loaded,
    parseAndValidate sampleHost sampleText "spec.toml" "." = .ok loaded ∧
      ∀ secret ∈ loaded.spec.secrets, ∀ rule ∈ secretRules secret, ∀ destination,
        rule.Admits destination → AllowlistAdmits loaded.spec.egress.allow destination := by
  obtain ⟨loaded, h⟩ := sample_accepted
  exact ⟨loaded, h, secrets_within_allowlist h⟩

end Bimo.EngineSpec
