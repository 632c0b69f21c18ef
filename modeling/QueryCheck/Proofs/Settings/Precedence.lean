import Mathlib.Data.List.TakeWhile
import QueryCheck.Proofs.Settings.Keys

/-! # The precedence of sources

Every key is decided by itself: the source of the highest rank that says anything there decides it,
whatever the sources below say there, and whatever any source says at other keys.

* `Sources`, `Rank`: what the sources say, and which go before which;
* `Sources.Decides`: the source that decides a key;
* `Decides.layer_get?`: it decides what all sources say together;
* `load_precedence`: the settings of a run. -/

namespace QueryCheck.Settings

open QueryCheck.Command

/-- What settings come from. -/
structure Sources where
  processors : Int
  file : Layer
  environment : List (String × String)
  given : Given

/-- The ranks of sources. -/
inductive Rank where
  | flag
  | environment
  | file
  | standard
  deriving DecidableEq, Repr

/-- The ranks that go before a rank. -/
def Rank.above : Rank → List Rank
  | flag => []
  | environment => [flag]
  | file => [flag, environment]
  | standard => [flag, environment, file]

namespace Sources

/-- What the source of a rank says at a key. -/
def tells (s : Sources) (k : Key) : Rank → Option Datum
  | .flag => s.given.values.get? k.flag
  | .environment => variableAt? s.environment k.name
  | .file => s.file.last? k.name
  | .standard => (defaults s.processors).get? k.name

/-- The source of a rank decides a key: it says something there, and those before it say nothing. -/
structure Decides (s : Sources) (k : Key) (r : Rank) (d : Datum) : Prop where
  told : s.tells k r = some d
  silent : ∀ r' ∈ r.above, s.tells k r' = none

/-- The sources of a run: the configuration file that is chosen or found, without maps, variables
about whole keys, and the flags that were read from arguments, among those of a command. -/
structure Found (s : Sources) (disk : Disk Id) (chosen : String) : Prop where
  file : layerOfFile disk (findFile disk chosen) = .ok s.file
  flat : s.file.Flat
  undotted : Undotted s.environment
  given : ∃ (c : Name) (flags : List Flag) (arguments : List String),
    flags ⊆ c.flags ∧ Flags.parse flags arguments = .ok s.given

variable {s s' : Sources} {k : Key} {r r' : Rank} {d d' : Datum}

theorem exists_standard (s : Sources) (k : Key) : ∃ d, s.tells k .standard = some d := by
  cases k <;> exact ⟨_, rfl⟩

/-- Some source decides every key. -/
theorem exists_decides (s : Sources) (k : Key) : ∃ r d, s.Decides k r d := by
  cases hflag : s.tells k .flag with
  | some d => exact ⟨.flag, d, hflag, by simp [Rank.above]⟩
  | none =>
    cases henvironment : s.tells k .environment with
    | some d => exact ⟨.environment, d, henvironment, by simp [Rank.above, hflag]⟩
    | none =>
      cases hfile : s.tells k .file with
      | some d => exact ⟨.file, d, hfile, by simp [Rank.above, hflag, henvironment]⟩
      | none =>
        obtain ⟨d, hd⟩ := s.exists_standard k
        exact ⟨.standard, d, hd, by simp [Rank.above, hflag, henvironment, hfile]⟩

/-- A key is decided in one way. -/
theorem Decides.unique (h : s.Decides k r d) (h' : s.Decides k r' d') : r = r' ∧ d = d' := by
  have hcompare : ∀ r r' : Rank, r = r' ∨ r ∈ r'.above ∨ r' ∈ r.above := by
    intro r r'
    cases r <;> cases r' <;> decide
  obtain rfl | habove | habove := hcompare r r'
  · exact ⟨rfl, Option.some.inj (h.told.symm.trans h'.told)⟩
  · cases h.told.symm.trans (h'.silent r habove)
  · cases h'.told.symm.trans (h.silent r' habove)

/-- What is decided depends on the deciding source and those before it alone. -/
theorem Decides.of_eq (h : s.Decides k r d) (hsame : ∀ r' ∈ r :: r.above, s'.tells k r' = s.tells k r') :
    s'.Decides k r d :=
  ⟨(hsame r List.mem_cons_self).trans h.told,
    fun r' hr' => (hsame r' (List.mem_cons_of_mem r hr')).trans (h.silent r' hr')⟩

/-- Every key of some settings has the value that the deciding source tells there. -/
def Give (s : Sources) (settings : Config) : Prop :=
  ∀ k, ∃ r d, s.Decides k r d ∧ k.value? d = some (settings.value k)

/-- All sources laid over each other. -/
def layer (s : Sources) : Layer :=
  combine [defaults s.processors, s.file, layerOfEnvironment s.environment, s.given.layer]

theorem flat_defaults (processors : Int) : (defaults processors).Flat := by
  simp [Layer.Flat, defaults, Datum.isMap]

theorem defaults_last? (processors : Int) (k : Key) :
    (defaults processors).last? k.name = (defaults processors).get? k.name := by
  cases k <;> rfl

theorem layer_get? {disk : Disk Id} {chosen : String} (h : s.Found disk chosen) (k : Key) :
    s.layer.get? k.name = (s.tells k .flag).or ((s.tells k .environment).or
      ((s.tells k .file).or (s.tells k .standard))) := by
  obtain ⟨c, flags, arguments, hflags, hgiven⟩ := h.given
  have hproper := (proper_parse hgiven).mono hflags
  rw [layer, get?_combine (flat_defaults _) h.flat (flat_layerOfEnvironment h.undotted)
    (flat_layer hproper), layer_last? hproper, layerOfEnvironment_last? h.undotted, defaults_last?]
  rfl

/-- The source that decides a key decides what all sources say there together. -/
theorem Decides.layer_get? {disk : Disk Id} {chosen : String} (hfound : s.Found disk chosen)
    (h : s.Decides k r d) : s.layer.get? k.name = some d := by
  rw [Sources.layer_get? hfound]
  cases r with
  | flag => rw [h.told, Option.some_or]
  | environment => rw [h.silent .flag (by decide), h.told, Option.none_or, Option.some_or]
  | file =>
    rw [h.silent .flag (by decide), h.silent .environment (by decide), h.told, Option.none_or,
      Option.none_or, Option.some_or]
  | standard =>
    rw [h.silent .flag (by decide), h.silent .environment (by decide), h.silent .file (by decide),
      h.told, Option.none_or, Option.none_or, Option.none_or]

/-- All sources together are decoded to the values that the deciding sources tell. -/
theorem decode_layer_eq_some_iff {disk : Disk Id} {chosen : String} (hfound : s.Found disk chosen)
    {settings : Config} : decode s.layer = some settings ↔ s.Give settings := by
  rw [decode_eq_some_iff]
  refine forall_congr' fun k => ?_
  constructor
  · intro hvalue
    obtain ⟨r, d, hd⟩ := s.exists_decides k
    rw [hd.layer_get? hfound, Option.getD_some] at hvalue
    exact ⟨r, d, hd, hvalue⟩
  · rintro ⟨r, d, hd, hvalue⟩
    rwa [hd.layer_get? hfound, Option.getD_some]

end Sources

/-! ### Loading -/

/-- At least one job is asked for, and every rule has a name. -/
structure Config.Usable (settings : Config) : Prop where
  jobs : 1 ≤ settings.jobs
  rules : ∀ rule ∈ settings.rules, ∃ c ∈ rule.toList, isSpace c = false

/-- Nothing is left of a text if it is made of spaces. -/
theorem trim_eq_empty_iff {text : String} : trim text = "" ↔ ∀ c ∈ text.toList, isSpace c = true := by
  have hempty : trim text = "" ↔ ∀ c ∈ text.toList.dropWhile isSpace, isSpace c = true := by
    rw [trim, String.ofList_eq_empty_iff, List.reverse_eq_nil_iff, List.dropWhile_eq_nil_iff]
    simp only [List.mem_reverse]
  rw [hempty]
  constructor
  · intro h c hc
    rw [← List.takeWhile_append_dropWhile (p := isSpace) (l := text.toList)] at hc
    obtain hc | hc := List.mem_append.mp hc
    · exact List.mem_takeWhile_imp hc
    · exact h c hc
  · exact fun h c hc => h c ((List.dropWhile_sublist isSpace).subset hc)

/-- The settings that can be used are accepted, as they are. -/
theorem check_eq_ok_iff {settings settings' : Config} :
    settings.check = .ok settings' ↔ settings = settings' ∧ settings.Usable := by
  have hrules : (settings.rules.any fun rule => decide (trim rule = "")) = true ↔
      ¬ ∀ rule ∈ settings.rules, ∃ c ∈ rule.toList, isSpace c = false := by
    simp [trim_eq_empty_iff]
  unfold Config.check
  by_cases hjobs : settings.jobs < 1
  · rw [if_pos hjobs]
    exact ⟨nofun, fun h => absurd hjobs (Int.not_lt.mpr h.2.jobs)⟩
  · by_cases hany : (settings.rules.any fun rule => decide (trim rule = "")) = true
    · rw [if_neg hjobs, if_pos hany]
      exact ⟨nofun, fun h => absurd h.2.rules (hrules.mp hany)⟩
    · rw [if_neg hjobs, if_neg hany]
      have husable : settings.Usable := ⟨Int.not_lt.mp hjobs, not_not.mp (mt hrules.mpr hany)⟩
      exact ⟨fun h => ⟨Except.ok.inj h, husable⟩, fun h => congrArg Except.ok h.1⟩

theorem ofSources_eq_ok_iff {sources : List Layer} {settings : Config} :
    ofSources sources = .ok settings ↔
      ∃ decoded, decode (combine sources) = some decoded ∧ decoded.check = .ok settings := by
  rw [ofSources]
  cases decode (combine sources) with
  | none => simp
  | some decoded => simp

/-- A run loads what its sources are decoded to together, if it is accepted. -/
theorem load_eq_ok_iff_decode {disk : Disk Id} {chosen : String} {s : Sources} (h : s.Found disk chosen)
    {loaded : Loaded} :
    load disk s.processors s.environment chosen s.given.layer = .ok loaded ↔
      (∃ settings, decode s.layer = some settings ∧ settings.check = .ok loaded.settings) ∧
        loaded.file = findFile disk chosen := by
  have hload : load disk s.processors s.environment chosen s.given.layer =
      match layerOfFile disk (findFile disk chosen) with
      | .error e => .error e
      | .ok file =>
        (ofSources [defaults s.processors, file, layerOfEnvironment s.environment,
          s.given.layer]).map fun settings => { settings, file := findFile disk chosen } := rfl
  rw [hload, h.file, Sources.layer, ← ofSources_eq_ok_iff]
  dsimp only
  cases ofSources [defaults s.processors, s.file, layerOfEnvironment s.environment, s.given.layer] with
  | error e =>
    constructor
    · intro hloaded
      cases hloaded
    · rintro ⟨hloaded, -⟩
      cases hloaded
  | ok settings =>
    constructor
    · intro hloaded
      cases hloaded
      exact ⟨rfl, rfl⟩
    · rintro ⟨hsettings, hpath⟩
      cases hsettings
      exact congrArg Except.ok (congrArg (Loaded.mk loaded.settings) hpath.symm)

/-- What a run loads, key by key. -/
theorem load_eq_ok_iff {disk : Disk Id} {chosen : String} {s : Sources} (h : s.Found disk chosen)
    (loaded : Loaded) :
    load disk s.processors s.environment chosen s.given.layer = .ok loaded ↔
      s.Give loaded.settings ∧ loaded.settings.Usable ∧ loaded.file = findFile disk chosen := by
  rw [load_eq_ok_iff_decode h, ← Sources.decode_layer_eq_some_iff h]
  constructor
  · rintro ⟨⟨settings, hdecode, hcheck⟩, hpath⟩
    obtain ⟨rfl, husable⟩ := check_eq_ok_iff.mp hcheck
    exact ⟨hdecode, husable, hpath⟩
  · rintro ⟨hdecode, husable, hpath⟩
    exact ⟨⟨_, hdecode, check_eq_ok_iff.mpr ⟨rfl, husable⟩⟩, hpath⟩

/-- **The precedence of sources.** A run succeeds with certain settings if and only if every key has
the value that the first source tells that says anything there, of the flags that were given, the
variables of the environment, the configuration file and the defaults, at least one job is asked for
and no rule is without a name. So another run that finds the same there in the deciding source, and
in those before it, has the same value at the key, whatever else it finds. -/
theorem load_precedence {s : Sources} {disk : Disk Id} {chosen : String}
    (hfound : s.Found disk chosen) :
    (∀ loaded, load disk s.processors s.environment chosen s.given.layer = .ok loaded ↔
      s.Give loaded.settings ∧ loaded.settings.Usable ∧ loaded.file = findFile disk chosen) ∧
    ∀ (s' : Sources) (disk' : Disk Id) (chosen' : String) (loaded loaded' : Loaded),
      s'.Found disk' chosen' →
      load disk s.processors s.environment chosen s.given.layer = .ok loaded →
      load disk' s'.processors s'.environment chosen' s'.given.layer = .ok loaded' →
      ∀ k r d, s.Decides k r d → (∀ r' ∈ r :: r.above, s'.tells k r' = s.tells k r') →
        loaded'.settings.value k = loaded.settings.value k := by
  refine ⟨load_eq_ok_iff hfound, ?_⟩
  intro s' disk' chosen' loaded loaded' hfound' hload hload' k r d hd hsame
  obtain ⟨r₁, d₁, hd₁, hvalue⟩ := ((load_eq_ok_iff hfound loaded).mp hload).1 k
  obtain ⟨r₂, d₂, hd₂, hvalue'⟩ := ((load_eq_ok_iff hfound' loaded').mp hload').1 k
  -- Both runs decide the key by the same datum.
  obtain ⟨-, rfl⟩ := hd₁.unique hd
  obtain ⟨-, rfl⟩ := hd₂.unique (hd.of_eq hsame)
  exact Option.some.inj (hvalue'.symm.trans hvalue)

/-! ### Two runs that agree in a flag -/

/-- A place with one configuration file. -/
def oneFile (text : String) : Disk Id where
  directory := "/"
  read path := if path = "gqlcheck.yaml" then .ok text else .error .missing
  present path := decide (path = "gqlcheck.yaml")

/-- What was read from the arguments of a validation. -/
def givenTo (arguments : List String) : Given :=
  (Flags.parse (Name.flags .validate) arguments).toOption.getD {}

/-- The sources of a validation with such a file. -/
def sourcesOf (processors : Int) (text : String) (environment : List (String × String))
    (arguments : List String) : Sources where
  processors := processors
  file := (readYaml text).getD []
  environment := environment
  given := givenTo arguments

theorem found_sourcesOf {processors : Int} {text : String} {environment : List (String × String)}
    {arguments : List String} (htext : (readYaml text).isSome = true)
    (hflat : (((readYaml text).getD []).all fun e => !e.2.isMap) = true) (hundotted : Undotted environment)
    (hgiven : (Flags.parse (Name.flags .validate) arguments).isOk = true) :
    (sourcesOf processors text environment arguments).Found (oneFile text) "gqlcheck.yaml" := by
  have hflat : ((readYaml text).getD []).Flat := fun e he => by
    simpa using List.all_eq_true.mp hflat e he
  refine ⟨?_, hflat, hundotted, .validate, Name.flags .validate, arguments, List.Subset.refl _, ?_⟩
  · obtain ⟨l, hl⟩ := Option.isSome_iff_exists.mp htext
    have hfind : findFile (oneFile text) "gqlcheck.yaml" = "gqlcheck.yaml" := rfl
    have hreader : readerFor "gqlcheck.yaml" = .ok readYaml := rfl
    have hread : (oneFile text).read "gqlcheck.yaml" = .ok text := rfl
    have hlayer : layerOfFile (oneFile text) "gqlcheck.yaml" = .ok l := by
      rw [layerOfFile, if_neg (by decide), hreader]
      simp only [bind, pure, hread, hl]
    rw [hfind, hlayer, sourcesOf, hl, Option.getD_some]
  · unfold sourcesOf givenTo
    cases hparse : Flags.parse (Name.flags .validate) arguments with
    | ok g => rfl
    | error e => rw [hparse] at hgiven; cases hgiven

/-- A file with a schema, a depth and a number of jobs. -/
def contestedText : String := "schema: from-file.graphql\nmax_depth: \"64\"\njobs: \"2\"\n"

/-- A file with a format and a number of jobs that is none. -/
def agreeingText : String := "format: json\njobs: many\n"

/-- Sources that name the number of jobs in all ranks. -/
def contested : Sources :=
  sourcesOf 4 contestedText
    [("GQLCHECK_MAX_DEPTH", "32"), ("GQLCHECK_RULES", "KnownTypeNames, UniqueFragmentNames"),
      ("GQLCHECK_JOBS", "3")]
    ["--jobs", "5"]

/-- Other sources that agree with them in the flags. -/
def agreeing : Sources :=
  sourcesOf 8 agreeingText [("GQLCHECK_VERBOSE", "true")] ["--jobs", "5"]

theorem Sources.exists_decides_of_value {s : Sources} {k : Key} {v : k.Value} (r : Rank)
    (hsilent : ∀ r' ∈ r.above, (s.tells k r').isNone = true)
    (hvalue : (s.tells k r).bind k.value? = some v) :
    ∃ r d, s.Decides k r d ∧ k.value? d = some v := by
  obtain ⟨d, hd, hv⟩ := Option.bind_eq_some_iff.mp hvalue
  exact ⟨r, d, ⟨hd, fun r' hr' => Option.isNone_iff_eq_none.mp (hsilent r' hr')⟩, hv⟩

theorem give_contested : contested.Give
    { schema := "from-file.graphql", format := "", maxDepth := 32,
      rules := ["KnownTypeNames", "UniqueFragmentNames"], directives := "", verbose := false,
      jobs := 5 } := by
  intro k
  cases k with
  | schema => exact Sources.exists_decides_of_value .file (by decide +kernel) (by decide +kernel)
  | format =>
    exact Sources.exists_decides_of_value .standard (by decide +kernel) (by decide +kernel)
  | maxDepth =>
    exact Sources.exists_decides_of_value .environment (by decide +kernel) (by decide +kernel)
  | rules =>
    have hsplit : splitList "KnownTypeNames, UniqueFragmentNames" =
        ["KnownTypeNames", "UniqueFragmentNames"] := by
      rw [splitList_eq]
      decide +kernel
    have hfound : (contested.environment.reverse.find? fun v => variableKey? v.1 == some "rules") =
        some ("GQLCHECK_RULES", "KnownTypeNames, UniqueFragmentNames") := by
      decide +kernel
    refine Sources.exists_decides_of_value .environment (by decide +kernel) ?_
    rw [Sources.tells, variableAt?, Key.name, hfound, Option.map_some, variableText, if_pos rfl, hsplit]
    decide +kernel
  | directives =>
    exact Sources.exists_decides_of_value .standard (by decide +kernel) (by decide +kernel)
  | verbose =>
    exact Sources.exists_decides_of_value .standard (by decide +kernel) (by decide +kernel)
  | jobs => exact Sources.exists_decides_of_value .flag (by decide +kernel) (by decide +kernel)

theorem give_agreeing : agreeing.Give
    { schema := "schema.graphql", format := "json", maxDepth := 512, rules := [], directives := "",
      verbose := true, jobs := 5 } := by
  intro k
  cases k with
  | format => exact Sources.exists_decides_of_value .file (by decide +kernel) (by decide +kernel)
  | verbose =>
    exact Sources.exists_decides_of_value .environment (by decide +kernel) (by decide +kernel)
  | jobs => exact Sources.exists_decides_of_value .flag (by decide +kernel) (by decide +kernel)
  | schema | maxDepth | rules | directives =>
    exact Sources.exists_decides_of_value .standard (by decide +kernel) (by decide +kernel)

theorem found_contested : contested.Found (oneFile contestedText) "gqlcheck.yaml" :=
  found_sourcesOf (by decide +kernel) (by decide +kernel) (by unfold Undotted; decide +kernel)
    (by decide +kernel)

theorem found_agreeing : agreeing.Found (oneFile agreeingText) "gqlcheck.yaml" :=
  found_sourcesOf (by decide +kernel) (by decide +kernel) (by unfold Undotted; decide +kernel)
    (by decide +kernel)

theorem load_precedence_contested : ∃ loaded loaded',
    load (oneFile contestedText) 4 contested.environment "gqlcheck.yaml" contested.given.layer =
      .ok loaded ∧
    load (oneFile agreeingText) 8 agreeing.environment "gqlcheck.yaml" agreeing.given.layer =
      .ok loaded' ∧
    loaded.settings.schema = "from-file.graphql" ∧ loaded.settings.maxDepth = 32 ∧
    loaded.settings.rules = ["KnownTypeNames", "UniqueFragmentNames"] ∧ loaded.settings.jobs = 5 ∧
    loaded'.settings.schema = "schema.graphql" ∧ loaded'.settings.jobs = loaded.settings.jobs := by
  have hnames : ∀ rule ∈ ["KnownTypeNames", "UniqueFragmentNames"],
      ∃ c ∈ rule.toList, isSpace c = false := by
    intro rule hrule
    rcases List.mem_pair.mp hrule with rfl | rfl
    · exact ⟨'K', by decide, by decide⟩
    · exact ⟨'U', by decide, by decide⟩
  have hload := ((load_precedence found_contested).1 ⟨_, "gqlcheck.yaml"⟩).mpr
    ⟨give_contested, ⟨by decide, hnames⟩, rfl⟩
  have hload' := ((load_precedence found_agreeing).1 ⟨_, "gqlcheck.yaml"⟩).mpr
    ⟨give_agreeing, ⟨by decide, nofun⟩, rfl⟩
  obtain ⟨d, hd⟩ : ∃ d, contested.tells .jobs .flag = some d :=
    Option.isSome_iff_exists.mp (by decide +kernel)
  have hjobs := (load_precedence found_contested).2 agreeing _ _ _ _ found_agreeing hload hload'
    .jobs .flag d ⟨hd, nofun⟩ fun r hr => by rw [List.mem_singleton.mp hr]; rfl
  exact ⟨_, _, hload, hload', rfl, rfl, rfl, rfl, rfl, hjobs⟩

end QueryCheck.Settings
