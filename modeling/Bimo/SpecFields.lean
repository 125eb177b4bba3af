import Bimo.ProxyConfig

/-!
What a spec without problems has.

Each reader of a field either reports a problem or gives the field back, so a check that reports
nothing has met every field: the fields that are expected after it are there. The secrets are
read one from each of their tables, in the order of the document.
-/

namespace Bimo.EngineSpec

/-! ### Reading an entry -/

lemma lookup_remove {table : Table} {key other : String} (h : other ≠ key) :
    (remove table key).2.lookup other = table.lookup other := by
  unfold remove
  induction table with
  | nil => rfl
  | cons entry table ih =>
    obtain ⟨k, value⟩ := entry
    have hrest : (List.filter (fun e : String × Toml => decide (e.1 ≠ key)) table).lookup other =
        table.lookup other := ih
    by_cases hk : k = key
    · have hko : (other == k) = false := by simpa [hk] using h
      simp only [List.filter_cons, hk, ne_eq, not_true_eq_false, decide_false,
        Bool.false_eq_true, if_false, List.lookup_cons]
      rw [hk] at hko
      rw [hko]
      exact hrest
    · simp only [List.filter_cons, ne_eq, hk, not_false_eq_true, decide_true, if_true,
        List.lookup_cons]
      cases other == k with
      | true => rfl
      | false => exact hrest

lemma string_of_asText {value : Toml} {s : String} (h : asText value = some s) :
    value = .string s := by
  unfold asText at h
  split at h
  · split_ifs at h
    rw [Option.some.inj h]
  · cases h

lemma strings_of_mapM {values : List Toml} {out : List String}
    (h : values.mapM asText = some out) : values = out.map .string := by
  induction values generalizing out with
  | nil =>
    obtain rfl : [] = out := by simpa using h
    rfl
  | cons value values ih =>
    simp only [List.mapM_cons, Option.bind_eq_bind, Option.bind_eq_some_iff] at h
    obtain ⟨s, hs, rest, hrest, hout⟩ := h
    obtain rfl := Option.some.inj hout
    rw [string_of_asText hs, ih hrest, List.map_cons]

/-- A string that is read without a problem is the entry of its key. -/
lemma some_of_takeString {table : Table} {field key : String}
    (h : (takeString table field key).errors = []) :
    ∃ s, (takeString table field key).value = (some s, (remove table key).2) ∧
      table.lookup key = some (.string s) := by
  have hlookup : (remove table key).1 = table.lookup key := rfl
  unfold takeString at h ⊢
  generalize remove table key = taken at h hlookup ⊢
  obtain ⟨- | value, rest⟩ := taken
  · simp at h
  · dsimp only at h hlookup ⊢
    cases htext : asText value with
    | none => simp [htext] at h
    | some s => exact ⟨s, rfl, by rw [← hlookup, string_of_asText htext]⟩

lemma some_of_takeStringList {table : Table} {field key : String} {required : Bool}
    (h : (takeStringList table field key required).errors = []) :
    ∃ out, (takeStringList table field key required).value = (some out, (remove table key).2) ∧
      (required = true → table.lookup key = some (.array (out.map .string))) := by
  have hlookup : (remove table key).1 = table.lookup key := rfl
  unfold takeStringList at h ⊢
  generalize remove table key = taken at h hlookup ⊢
  obtain ⟨- | value, rest⟩ := taken
  · cases required with
    | true => simp at h
    | false => exact ⟨[], rfl, fun hr => by cases hr⟩
  · cases value with
    | array values =>
      dsimp only at h hlookup ⊢
      cases hvalues : values.mapM asText with
      | none => simp [hvalues] at h
      | some out => exact ⟨out, rfl, fun _ => by rw [← hlookup, strings_of_mapM hvalues]⟩
    | _ => simp at h

/-! ### The fields -/

lemma some_of_requiredIdentifier {field : String} {raw : Option String}
    (h : (requiredIdentifier field raw).errors = []) :
    ((requiredIdentifier field raw).value).isSome := by
  unfold requiredIdentifier at h ⊢
  rcases raw with - | value
  · simp at h
  · dsimp only at h ⊢
    split_ifs at h ⊢
    · rfl
    · simp at h

lemma some_of_checkRuntime {raw : Option String} (h : (checkRuntime raw).errors = []) :
    ((checkRuntime raw).value).isSome := by
  unfold checkRuntime at h ⊢
  rcases raw with - | value
  · simp at h
  · dsimp only at h ⊢
    cases hadapter : lookup value with
    | none => simp [hadapter] at h
    | some adapter => rfl

lemma some_of_parseSource {raw : Option Table} (h : (parseSource raw).errors = []) :
    ((parseSource raw).value).isSome := by
  rcases raw with - | table
  · simp [parseSource] at h
  unfold parseSource at h ⊢
  dsimp only at h ⊢
  rw [Checked.errors_bind] at h
  rw [Checked.value_bind]
  obtain ⟨kind, hkind, -⟩ := some_of_takeString h.1
  rw [hkind] at h ⊢
  obtain ⟨-, h⟩ := h
  dsimp only at h ⊢
  split at h
  · obtain rfl := Option.some.inj ‹_›
    rw [Checked.errors_bind] at h
    obtain ⟨path, hpath, -⟩ := some_of_takeString h.1
    simp [hpath]
  · obtain rfl := Option.some.inj ‹_›
    simp only [Checked.errors_bind] at h
    obtain ⟨hrepo, hrev, -⟩ := h
    obtain ⟨repo, hrepo, -⟩ := some_of_takeString hrepo
    rw [hrepo] at hrev
    obtain ⟨rev, hrev, -⟩ := some_of_takeString hrev
    simp [hrepo, hrev]
  · simp at h
  · cases ‹some kind = none›

lemma some_of_parseEgress {raw : Option Table} (h : (parseEgress raw).errors = []) :
    ((parseEgress raw).value).isSome := by
  unfold parseEgress at h ⊢
  rw [Checked.errors_bind] at h
  obtain ⟨allow, hallow, -⟩ := some_of_takeStringList h.1
  rw [Checked.value_bind, hallow]
  rfl

lemma some_of_parsePlacement {raw : Option Table} (h : (parsePlacement raw).errors = []) :
    ((parsePlacement raw).value).isSome := by
  rcases raw with - | table
  · simp [parsePlacement] at h
  unfold parsePlacement at h ⊢
  dsimp only at h ⊢
  rw [Checked.errors_bind] at h
  obtain ⟨substrate, hsubstrate, -⟩ := some_of_takeString h.1
  rw [Checked.value_bind, hsubstrate]
  rfl

/-! ### The secrets -/

/-- The secret is what the table says. -/
structure Tells (table : Table) (secret : SecretRef) : Prop where
  env : table.lookup "env" = some (.string secret.env)
  handle : table.lookup "handle" = some (.string secret.handle)
  hosts : ∃ hosts : List String, table.lookup "hosts" = some (.array (hosts.map .string)) ∧
    secret.hosts = hosts.map toAsciiLowercase

lemma some_of_parseSecret {index : ℕ} {table : Table}
    (h : (parseSecret index table).errors = []) :
    ∃ secret, (parseSecret index table).value = some secret ∧ Tells table secret := by
  unfold parseSecret at h ⊢
  simp only [Checked.errors_bind, Checked.value_bind] at h ⊢
  obtain ⟨henv, hhandle, hhosts, -⟩ := h
  obtain ⟨env, henv, hlookenv⟩ := some_of_takeString henv
  rw [henv] at hhandle hhosts ⊢
  obtain ⟨handle, hhandle, hlookhandle⟩ := some_of_takeString hhandle
  rw [hhandle] at hhosts ⊢
  obtain ⟨hosts, hhosts, hlookhosts⟩ := some_of_takeStringList hhosts
  rw [hhosts]
  rw [lookup_remove (by decide)] at hlookhandle
  replace hlookhosts := hlookhosts rfl
  rw [lookup_remove (by decide), lookup_remove (by decide)] at hlookhosts
  exact ⟨_, rfl, hlookenv, hlookhandle, hosts, hlookhosts, rfl⟩

lemma tells_parseSecrets {index : ℕ} {raw : List Table}
    (h : (parseSecrets index raw).errors = []) :
    List.Forall₂ Tells raw (parseSecrets index raw).value := by
  induction raw generalizing index with
  | nil => exact .nil
  | cons table raw ih =>
    unfold parseSecrets at h ⊢
    simp only [Checked.errors_bind, Checked.errors_pure, and_true] at h
    obtain ⟨hfirst, hrest⟩ := h
    obtain ⟨secret, hvalue, htells⟩ := some_of_parseSecret hfirst
    rw [Checked.value_bind, hvalue]
    exact .cons htells (ih hrest)

lemma nodup_of_checkSecrets {allow : List String} {tenantId : Option String}
    {source : Option SecretSource} {seenEnv : List String} {index : ℕ} {secrets : List SecretRef}
    (h : (checkSecrets allow tenantId source seenEnv index secrets).errors = []) :
    (secrets.map (·.env)).Nodup ∧ ∀ secret ∈ secrets, secret.env ∉ seenEnv := by
  induction secrets generalizing seenEnv index with
  | nil => simp
  | cons secret secrets ih =>
    obtain ⟨hfirst, hrest⟩ := (Checked.errors_bind _ _).mp h
    obtain ⟨hnodup, hnew⟩ := ih hrest
    refine ⟨List.nodup_cons.mpr ⟨fun hmem => ?_, hnodup⟩, ?_⟩
    · obtain ⟨other, hother, heq⟩ := List.mem_map.mp hmem
      exact hnew other hother (heq ▸ List.mem_cons_self)
    · rintro s (- | ⟨_, hs⟩)
      · exact (errors_checkSecret hfirst).1
      · exact fun hin => hnew s hs (List.mem_cons_of_mem _ hin)

/-! ### The whole spec -/

/-- Every field that a spec is made of could be read. -/
structure Fields.Complete (f : Fields) : Prop where
  name : f.name.isSome
  tenantId : f.tenantId.isSome
  runtime : f.runtime.isSome
  source : f.source.isSome
  egress : f.egress.isSome
  placement : f.placement.isSome

lemma complete_of_checkFields {host : Host} {base : String} {raw : RawSpec}
    (h : (checkFields host base raw).errors = []) : (checkFields host base raw).value.Complete := by
  unfold checkFields at h
  simp only [Checked.errors_bind, Checked.errors_pure, and_true] at h
  obtain ⟨-, -, hname, htenant, hruntime, hsource, -, -, hegress, hplacement, -⟩ := h
  exact ⟨some_of_requiredIdentifier hname, some_of_requiredIdentifier htenant,
    some_of_checkRuntime hruntime, some_of_parseSource hsource, some_of_parseEgress hegress,
    some_of_parsePlacement hplacement⟩

lemma secrets_of_checkFields {host : Host} {base : String} {raw : RawSpec}
    (h : (checkFields host base raw).errors = []) :
    List.Forall₂ Tells (raw.secrets.getD []) (checkFields host base raw).value.secrets ∧
      ((checkFields host base raw).value.secrets.map (·.env)).Nodup := by
  unfold checkFields at h
  simp only [Checked.errors_bind, Checked.errors_pure, and_true] at h
  obtain ⟨-, -, -, -, -, -, -, -, -, -, hsecrets, -, hchecked⟩ := h
  exact ⟨tells_parseSecrets hsecrets, (nodup_of_checkSecrets hchecked).1⟩

lemma spec_of_complete {f : Fields} (h : f.Complete) : ∃ spec, f.spec = .ok spec := by
  obtain ⟨name, tenantId, runtime, source, sourceDir, egress, placement, secrets⟩ := f
  obtain ⟨hname, htenant, hruntime, hsource, hegress, hplacement⟩ := h
  obtain ⟨name, rfl⟩ := Option.isSome_iff_exists.mp hname
  obtain ⟨tenantId, rfl⟩ := Option.isSome_iff_exists.mp htenant
  obtain ⟨runtime, rfl⟩ := Option.isSome_iff_exists.mp hruntime
  obtain ⟨source, rfl⟩ := Option.isSome_iff_exists.mp hsource
  obtain ⟨egress, rfl⟩ := Option.isSome_iff_exists.mp hegress
  obtain ⟨placement, rfl⟩ := Option.isSome_iff_exists.mp hplacement
  exact ⟨_, rfl⟩

lemma checked_of_parse {host : Host} {text path base : String} {loaded : LoadedSpec}
    (h : parseAndValidate host text path base = .ok loaded) :
    ∃ raw, host.fromStr text = .ok raw ∧ (checkFields host base raw).errors = [] ∧
      (checkFields host base raw).value.secrets = loaded.spec.secrets := by
  unfold parseAndValidate at h
  obtain ⟨raw, hraw, h⟩ := bind_eq_ok.mp h
  dsimp only at h
  split_ifs at h with herrors
  obtain ⟨spec, hspec, h⟩ := bind_eq_ok.mp h
  obtain ⟨fingerprint, -, h⟩ := bind_eq_ok.mp h
  obtain rfl := Except.ok.inj h
  refine ⟨raw, ?_, not_not.mp herrors, (spec_of_fields hspec).2⟩
  cases htext : host.fromStr text with
  | error e => simp [htext, Except.mapError] at hraw
  | ok found => simpa [htext, Except.mapError] using hraw

/-- **Validation never meets a missing field.** A document without problems has every field its
spec is made of, so validation ends with a spec or with its problems. An accepted spec has one
secret for each table of secrets in the document, in their order, and no two of them have one
environment variable. -/
theorem fields_complete (host : Host) (text path base : String) :
    (∀ raw, host.fromStr text = .ok raw → (checkFields host base raw).errors = [] →
      (checkFields host base raw).value.Complete) ∧
    parseAndValidate host text path base ≠ .error .panicked ∧
    ∀ raw loaded, host.fromStr text = .ok raw →
      parseAndValidate host text path base = .ok loaded →
      List.Forall₂ Tells (raw.secrets.getD []) loaded.spec.secrets ∧
        (loaded.spec.secrets.map (·.env)).Nodup := by
  refine ⟨fun raw _ h => complete_of_checkFields h, fun h => ?_, fun raw loaded hraw h => ?_⟩
  · unfold parseAndValidate at h
    cases hraw : host.fromStr text with
    | error e => simp [hraw, Except.mapError, bind, Except.bind] at h
    | ok raw =>
      simp only [hraw, Except.mapError, bind, Except.bind] at h
      split_ifs at h with herrors
      · cases h
      · obtain ⟨spec, hspec⟩ := spec_of_complete (complete_of_checkFields (not_not.mp herrors))
        rw [hspec] at h
        dsimp only at h
        cases hprint : host.fingerprint spec (checkFields host base raw).value.sourceDir with
        | error e => simp [hprint] at h
        | ok fingerprint => simp [hprint, pure, Except.pure] at h
  · obtain ⟨found, hfound, herrors, hsecrets⟩ := checked_of_parse h
    obtain rfl := Except.ok.inj (hraw.symm.trans hfound)
    rw [← hsecrets]
    exact secrets_of_checkFields herrors

/-- A spec of one secret. -/
theorem fields_complete_sample :
    (checkFields sampleHost "." sampleRaw).value.Complete ∧ ∃ loaded,
      parseAndValidate sampleHost sampleText "spec.toml" "." = .ok loaded ∧
        loaded.spec.secrets.length = 1 := by
  obtain ⟨loaded, h⟩ := sample_accepted
  have hraw : sampleHost.fromStr sampleText = .ok sampleRaw := by simp [sampleHost]
  obtain ⟨raw, hfound, herrors, -⟩ := checked_of_parse h
  obtain rfl := Except.ok.inj (hraw.symm.trans hfound)
  obtain ⟨hcomplete, -, hsecrets⟩ := fields_complete sampleHost sampleText "spec.toml" "."
  exact ⟨hcomplete sampleRaw hraw herrors, loaded, h,
    (hsecrets sampleRaw loaded hraw h).1.length_eq.symm⟩

end Bimo.EngineSpec
