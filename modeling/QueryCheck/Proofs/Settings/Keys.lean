import QueryCheck.Command.Name
import QueryCheck.Proofs.Command.Given
import QueryCheck.Proofs.Text.Parts

/-! # Settings, key by key

Every setting has a key. A file writes it as its name, a variable of the environment in any letters
behind the mark of the program, and a flag with hyphens in the place of underscores.

* `decode_eq_some_iff`: settings are decoded key by key;
* `layerOfEnvironment_last?`: the last variable of a key speaks for the environment;
* `layer_last?`: the flag of a key speaks for the command line. -/

namespace QueryCheck.Settings

open QueryCheck.Command
open QueryCheck.Text (lower splitOn_singleton splitOn_singleton_of_not_mem)

/-- The keys of settings. -/
inductive Key where
  | schema
  | format
  | maxDepth
  | rules
  | directives
  | verbose
  | jobs
  deriving DecidableEq, Repr

namespace Key

/-- The name of a key in files. -/
def name : Key → String
  | schema => "schema"
  | format => "format"
  | maxDepth => "max_depth"
  | rules => "rules"
  | directives => "directives"
  | verbose => "verbose"
  | jobs => "jobs"

/-- The flag of a key. -/
def flag (k : Key) : String :=
  String.ofList (k.name.toList.map fun c => if c = '_' then '-' else c)

/-- What is set at a key. -/
def Value : Key → Type
  | schema | format | directives => String
  | maxDepth | jobs => Int
  | rules => List String
  | verbose => Bool

instance : (k : Key) → DecidableEq k.Value
  | schema | format | directives => inferInstanceAs (DecidableEq String)
  | maxDepth | jobs => inferInstanceAs (DecidableEq Int)
  | rules => inferInstanceAs (DecidableEq (List String))
  | verbose => inferInstanceAs (DecidableEq Bool)

/-- The value of a datum at a key. -/
def value? : (k : Key) → Datum → Option k.Value
  | schema, d | format, d | directives, d => d.text?
  | maxDepth, d | jobs, d => d.int?
  | rules, d => d.texts?
  | verbose, d => d.flag?

end Key

/-- What is set at a key. -/
def Config.value (s : Config) : (k : Key) → k.Value
  | .schema => s.schema
  | .format => s.format
  | .maxDepth => s.maxDepth
  | .rules => s.rules
  | .directives => s.directives
  | .verbose => s.verbose
  | .jobs => s.jobs

/-- Settings are decoded key by key. -/
theorem decode_eq_some_iff {l : Layer} {s : Config} :
    decode l = some s ↔ ∀ k : Key, k.value? ((l.get? k.name).getD .null) = some (s.value k) := by
  constructor
  · intro h k
    simp only [decode, Option.bind_eq_bind, Option.bind_eq_some_iff, Option.pure_def,
      Option.some.injEq] at h
    obtain ⟨_, h₁, _, h₂, _, h₃, _, h₄, _, h₅, _, h₆, _, h₇, rfl⟩ := h
    cases k <;> assumption
  · intro h
    have hschema : ((l.get? "schema").getD .null).text? = some s.schema := h .schema
    have hformat : ((l.get? "format").getD .null).text? = some s.format := h .format
    have hdepth : ((l.get? "max_depth").getD .null).int? = some s.maxDepth := h .maxDepth
    have hrules : ((l.get? "rules").getD .null).texts? = some s.rules := h .rules
    have hdirectives : ((l.get? "directives").getD .null).text? = some s.directives := h .directives
    have hverbose : ((l.get? "verbose").getD .null).flag? = some s.verbose := h .verbose
    have hjobs : ((l.get? "jobs").getD .null).int? = some s.jobs := h .jobs
    simp only [decode, hschema, hformat, hdepth, hrules, hdirectives, hverbose, hjobs,
      Option.bind_eq_bind, Option.bind_some, Option.pure_def]

/-! ### Variables of the environment -/

/-- The key a variable of the environment is about: what follows the mark of the program in its
name, in small letters. -/
def variableKey? (name : String) : Option String :=
  if name.startsWith environmentMark && environmentMark.length < name.length then
    some (lower (name.drop environmentMark.length).toString)
  else none

/-- What the text of a variable says at a key. -/
def variableText (key value : String) : Datum :=
  if key = "rules" then .list ((splitList value).map .str) else .str value

/-- What the last variable of a key says. -/
def variableAt? (environment : List (String × String)) (key : String) : Option Datum :=
  (environment.reverse.find? fun v => variableKey? v.1 == some key).map fun v =>
    variableText key v.2

/-- No variable is about a part of a key. -/
def Undotted (environment : List (String × String)) : Prop :=
  ∀ v ∈ environment, ∀ key ∈ variableKey? v.1, '.' ∉ key.toList

/-- The names of a list are what stands between its commas, without spaces at the ends, as far as
anything is left. -/
theorem splitList_eq (s : String) : splitList s =
    ((s.toList.splitOn ',').map fun part => trim (String.ofList part)).filter (· ≠ "") := by
  have hcomma : "," = String.singleton ',' := by decide
  rw [splitList, hcomma, splitOn_singleton, List.map_map]
  rfl

theorem variableText_isMap (key value : String) : (variableText key value).isMap = false := by
  unfold variableText
  split <;> rfl

theorem variableDatum_eq {name value : String}
    (h : ∀ key ∈ variableKey? name, '.' ∉ key.toList) :
    variableDatum name value = (variableKey? name).map fun key => (key, variableText key value) := by
  unfold variableDatum
  unfold variableKey? at h ⊢
  split
  · next hmark =>
    rw [if_pos hmark] at h
    have hpoint : "." = String.singleton '.' := by decide
    generalize lower (name.drop environmentMark.length).toString = key at h ⊢
    have hone := splitOn_singleton_of_not_mem (h key rfl)
    dsimp only
    rw [hpoint, hone, Option.map_some, variableText]
    rfl
  · rfl

theorem get?_filterMap_variables {environment : List (String × String)} (h : Undotted environment)
    (key : String) :
    Layer.get? (environment.filterMap fun v => variableDatum v.1 v.2) key =
      (environment.find? fun v => variableKey? v.1 == some key).map fun v =>
        variableText key v.2 := by
  induction environment with
  | nil => rfl
  | cons v environment ih =>
    obtain ⟨hv, hrest⟩ := List.forall_mem_cons.mp h
    rw [List.filterMap_cons, variableDatum_eq hv]
    cases hkey : variableKey? v.1 with
    | none => simpa [List.find?_cons, hkey] using ih hrest
    | some key' =>
      by_cases hsame : key' = key
      · simp [Layer.get?_cons, hkey, hsame]
      · simpa [Layer.get?_cons, List.find?_cons, hkey, hsame] using ih hrest

theorem flat_variables {environment : List (String × String)} (h : Undotted environment) :
    Layer.Flat (environment.filterMap fun v => variableDatum v.1 v.2) := by
  intro e he
  obtain ⟨v, hv, hdatum⟩ := List.mem_filterMap.mp he
  rw [variableDatum_eq (h v hv)] at hdatum
  obtain ⟨key, -, rfl⟩ := Option.map_eq_some_iff.mp hdatum
  exact variableText_isMap key v.2

theorem flat_layerOfEnvironment {environment : List (String × String)} (h : Undotted environment) :
    (layerOfEnvironment environment).Flat :=
  Layer.Flat.overlay (by simp [Layer.Flat]) (flat_variables h)

/-- The last variable of a key speaks for the environment. -/
theorem layerOfEnvironment_last? {environment : List (String × String)} (h : Undotted environment)
    (key : String) : (layerOfEnvironment environment).last? key = variableAt? environment key := by
  have hreverse : Undotted environment.reverse := fun v hv => h v (List.mem_reverse.mp hv)
  have hnodup : ((layerOfEnvironment environment).map Prod.fst).Nodup :=
    Layer.nodup_overlay List.nodup_nil
  rw [Layer.last?_of_nodup hnodup, layerOfEnvironment, Layer.get?_overlay (flat_variables h),
    Layer.get?_nil, Option.or_none, Layer.last?, ← List.filterMap_reverse,
    get?_filterMap_variables hreverse, variableAt?]

/-! ### Flags -/

/-- A name with underscores in the place of hyphens. -/
def underscored (name : String) : String :=
  String.ofList (name.toList.map fun c => if c = '-' then '_' else c)

theorem layer_eq (g : Given) : g.layer = g.values.map fun e => (underscored e.1, e.2) := rfl

/-- Among the flags of the commands, the one that is read as the name of a key is the flag of the
key. -/
theorem underscored_eq_iff (c : Name) :
    ∀ f ∈ c.flags, ∀ k : Key, underscored f.name = k.name ↔ f.name = k.flag := by
  have htable : ∀ c ∈ Name.all, ∀ f ∈ c.flags, ∀ k ∈ [Key.schema, .format, .maxDepth, .rules,
      .directives, .verbose, .jobs], underscored f.name = k.name ↔ f.name = k.flag := by
    decide +kernel
  have hc : c ∈ Name.all := by
    cases c with
    | complete described => cases described <;> decide
    | _ => decide
  exact fun f hf k => htable c hc f hf k (by cases k <;> decide)

theorem get?_map_fst {f : String → String} {l : Layer} {key name : String}
    (h : ∀ e ∈ l, f e.1 = key ↔ e.1 = name) :
    Layer.get? (l.map fun e => (f e.1, e.2)) key = l.get? name := by
  induction l with
  | nil => rfl
  | cons e l ih =>
    obtain ⟨he, hl⟩ := List.forall_mem_cons.mp h
    rw [List.map_cons, Layer.get?_cons, Layer.get?_cons, ih hl]
    exact if_congr he rfl rfl

/-- The flag of a key speaks for the command line. -/
theorem layer_last? {c : Name} {g : Given} (h : g.Proper c.flags) (k : Key) :
    g.layer.last? k.name = g.values.get? k.flag := by
  rw [← Layer.last?_of_nodup h.nodup, layer_eq]
  unfold Layer.last?
  rw [← List.map_reverse]
  refine get?_map_fst fun e he => ?_
  obtain ⟨f, hf, hname⟩ := h.named e (List.mem_reverse.mp he)
  rw [← hname]
  exact underscored_eq_iff c f hf k

theorem flat_layer {flags : List Flag} {g : Given} (h : g.Proper flags) : g.layer.Flat := by
  intro e he
  obtain ⟨e', he', rfl⟩ := List.mem_map.mp he
  exact h.flat e' he'

end QueryCheck.Settings
