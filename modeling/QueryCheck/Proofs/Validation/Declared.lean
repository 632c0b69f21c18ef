import Mathlib.Data.Option.Defs
import QueryCheck.Proofs.Syntax.Read
import QueryCheck.Proofs.Validation.Appended
import QueryCheck.Proofs.Validation.Directives
import QueryCheck.Schema.Load

/-! # Where a directive is declared

A directive may be declared by the schema or by a definition behind the document. The schema makes
a directive of the definition as written, the document one of its node; they agree in all but the
texts of default values, which no rule reads. So a document is validated in the same way.

* `Directive.Agrees`: directives that are the same but for the texts of default values.
* `agrees_directiveDefinition`: the two readings of a definition.
* `Sides`: the schemas and documents of two validations that know agreeing directives.
* `Matches`: states of the two validations; `atEnter_matches` and `atLeave_matches`: rules keep to
  them.
* `validate_declared`: a definition in the schema and behind the document. -/

namespace QueryCheck.Schema

/-! ### Agreeing directives -/

/-- Arguments that are the same but for the texts of their defaults. -/
structure InputValue.Agrees (v w : InputValue) : Prop where
  name : v.name = w.name
  description : v.description = w.description
  type : v.type = w.type
  default : v.default.isSome = w.default.isSome

/-- Directives that are the same but for the texts of default values. -/
structure Directive.Agrees (d e : Directive) : Prop where
  name : d.name = e.name
  description : d.description = e.description
  locations : d.locations = e.locations
  repeatable : d.repeatable = e.repeatable
  arguments : List.Forall₂ InputValue.Agrees d.arguments e.arguments

theorem InputValue.Agrees.refl (v : InputValue) : v.Agrees v := ⟨rfl, rfl, rfl, rfl⟩

theorem Directive.Agrees.refl (d : Directive) : d.Agrees d :=
  ⟨rfl, rfl, rfl, rfl, List.forall₂_same.mpr fun v _ => .refl v⟩

theorem InputValue.Agrees.isRequired {v w : InputValue} (h : v.Agrees w) :
    v.isRequired = w.isRequired := by
  have hnone : v.default.isNone = w.default.isNone := by
    rw [← Option.not_isSome, ← Option.not_isSome, h.default]
  rw [InputValue.isRequired, InputValue.isRequired, h.type, hnone]

section Arguments

variable {vs ws : List InputValue}

theorem InputValue.names_agree (h : List.Forall₂ Agrees vs ws) : names vs = names ws := by
  induction h with
  | nil => rfl
  | cons hv _ ih => exact congrArg₂ List.cons hv.name ih

theorem InputValue.find?_agree (h : List.Forall₂ Agrees vs ws) (name : String) :
    Option.Rel Agrees (find? vs name) (find? ws name) := by
  unfold find?
  induction h with
  | nil => exact .none
  | @cons v w vs ws hv _ ih =>
    rw [List.find?_cons, List.find?_cons, hv.name]
    cases w.name == name with
    | true => exact .some hv
    | false => exact ih

end Arguments

theorem Directive.Agrees.argument? {d e : Directive} (h : d.Agrees e) (name : String) :
    Option.Rel InputValue.Agrees (d.argument? name) (e.argument? name) :=
  InputValue.find?_agree h.arguments name

end QueryCheck.Schema

namespace QueryCheck.Validation

open QueryCheck.Schema
open QueryCheck.Syntax
open QueryCheck.Typing
open QueryCheck.Walk
open Context

theorem Rule.requiredOf_agree {d e : Directive} (h : d.Agrees e) : requiredOf d = requiredOf e := by
  have hrequired : ∀ {vs ws : List InputValue}, List.Forall₂ InputValue.Agrees vs ws →
      vs.filterMap requiredEntry = ws.filterMap requiredEntry := by
    intro vs ws hvs
    induction hvs with
    | nil => rfl
    | @cons v w vs ws hv _ ih =>
      have hentry : requiredEntry v = requiredEntry w := by
        rw [requiredEntry, requiredEntry, hv.isRequired, hv.name, hv.type]
      rw [List.filterMap_cons, List.filterMap_cons, ih, hentry]
  rw [requiredOf, requiredOf, ← filterMap_requiredEntry, ← filterMap_requiredEntry, h.name,
    hrequired h.arguments]

/-! ### The two readings of a definition -/

section Readings

variable (e : Excerpt)

theorem descriptionOf_description (s : String) : descriptionOf (Excerpt.description s) = s := by
  unfold Excerpt.description
  split_ifs with h
  · exact h.symm
  · rfl

/-- The two readings of an argument. -/
theorem agrees_inputValue (v : Written.InputValue) : ∃ w,
    argumentOf? (.node (e.inputValue v)) = some w ∧ w.Agrees (.ofWritten v) := by
  refine ⟨_, rfl, rfl, descriptionOf_description v.description, refOf_typeRef e v.type, ?_⟩
  unfold Excerpt.value? InputValue.ofWritten
  cases v.default <;> rfl

theorem agrees_inputValues : ∀ vs : List Written.InputValue, ∃ ws,
    (vs.map fun v => Child.node (e.inputValue v)).mapM argumentOf? = some ws ∧
      List.Forall₂ InputValue.Agrees ws (vs.map .ofWritten)
  | [] => ⟨[], rfl, .nil⟩
  | v :: vs => by
    obtain ⟨w, hw, hv⟩ := agrees_inputValue e v
    obtain ⟨ws, hws, hvs⟩ := agrees_inputValues vs
    refine ⟨w :: ws, ?_, .cons hv hvs⟩
    rw [List.map_cons, List.mapM_cons, hw, hws]
    rfl

theorem nameTexts_locationNames : ∀ (start : Nat) (ls : List String),
    (e.locationNames start ls).map Child.nameText = ls
  | _, [] => rfl
  | start, l :: ls => by
    rw [Excerpt.locationNames, List.map_cons, nameTexts_locationNames]
    rfl

/-- **The two readings of a directive definition** agree. -/
theorem agrees_directiveDefinition (g : Written.DirectiveDefinition) : ∃ d,
    directiveOf? (.node (e.directiveDefinition g)) = some d ∧ d.Agrees (.ofWritten g) := by
  obtain ⟨ws, hws, hargs⟩ := agrees_inputValues e g.arguments
  refine ⟨{ name := g.name, description := g.description, locations := g.locations
            arguments := ws, repeatable := g.repeatable }, ?_, ⟨rfl, rfl, rfl, rfl, hargs⟩⟩
  rw [Excerpt.directiveDefinition, directiveOf?, hws, descriptionOf_description,
    nameTexts_locationNames]
  rfl

end Readings

/-! ### Frames -/

/-- A schema with other directives. -/
abbrev declaring (s : Schema) (ds : List Directive) : Schema := { s with directives := ds }

/-- Frames that are the same but for the texts of default values. -/
structure FramesAgree (f g : Frame) : Prop where
  type : f.type = g.type
  parent : f.parent = g.parent
  field : f.field = g.field
  argument : Option.Rel InputValue.Agrees f.argument g.argument
  directive : Option.Rel Directive.Agrees f.directive g.directive
  input : f.input = g.input
  inDirective : f.inDirective = g.inDirective

theorem FramesAgree.empty : FramesAgree {} {} := ⟨rfl, rfl, rfl, .none, .none, rfl, rfl⟩

/-- Types are resolved without a look at the directives of a schema. -/
theorem resolve?_declaring (s : Schema) (ds : List Directive) (n : Node) :
    resolve? (some (declaring s ds)) n = resolve? (some s) n := by
  induction n using resolve?.induct (s := some s) with
  | case1 => rfl
  | case2 => rfl
  | case3 => rfl
  | case4 t l ih => rw [resolve?, resolve?, ih]
  | case5 t l ih => rw [resolve?, resolve?, ih]
  | case6 n hnamed hlist hnonNull => rw [resolve?, resolve?] <;> assumption

theorem resolve_declaring (s : Schema) (ds : List Directive) (n : Node) :
    resolve (some (declaring s ds)) n = resolve (some s) n := by
  rw [resolve, resolve, resolve?_declaring]

theorem resolvable_declaring (s : Schema) (ds : List Directive) (n : Node) :
    resolvable (some (declaring s ds)) n = resolvable (some s) n := by
  simp only [resolvable, resolve?_declaring]

theorem resolveIn_declaring (s : Schema) (ds : List Directive) (c : Child Node) :
    resolveIn (some (declaring s ds)) c = resolveIn (some s) c := by
  cases c with
  | node n => exact resolve_declaring s ds n
  | _ => rfl

section Sides

variable {s : Schema} {ds : List Directive} {lookup lookup' : String → Option Directive}

theorem isSome_eq_of_rel {α β : Type} {R : α → β → Prop} {a : Option α} {b : Option β}
    (h : Option.Rel R a b) : a.isSome = b.isSome := by
  cases h <;> rfl

theorem map_eq_of_rel {α β γ : Type} {R : α → β → Prop} {f : α → γ} {g : β → γ}
    (hfg : ∀ a b, R a b → f a = g b) {a : Option α} {b : Option β} (h : Option.Rel R a b) :
    a.map f = b.map g := by
  cases h with
  | none => rfl
  | some h => exact congrArg some (hfg _ _ h)

theorem agree_refl (v : Option InputValue) : Option.Rel InputValue.Agrees v v := by
  cases v with
  | none => exact .none
  | some v => exact .some (.refl v)

theorem type_eq_of_rel {v w : Option InputValue} (h : Option.Rel InputValue.Agrees v w) :
    v.bind InputValue.type = w.bind InputValue.type := by
  cases h with
  | none => rfl
  | some h => exact h.type

theorem argument?_agree {d e : Option Directive} (h : Option.Rel Directive.Agrees d e)
    (name : String) : Option.Rel InputValue.Agrees (d.bind (·.argument? name))
      (e.bind (·.argument? name)) := by
  cases h with
  | none => exact .none
  | some h => exact h.argument? name

/-- **Entering a node** keeps frames in agreement. -/
theorem FramesAgree.enter (hlookup : ∀ name, Option.Rel Directive.Agrees (lookup name)
    (lookup' name)) {f g : Frame} (h : FramesAgree f g) (n : Node) :
    FramesAgree (f.enter (some s) lookup n) (g.enter (some (declaring s ds)) lookup' n) := by
  unfold Frame.enter
  split
  · exact { h with type := rfl }
  · exact { h with parent := by rw [h.type]; rfl }
  · exact { h with field := by rw [h.parent]; rfl, type := by rw [h.parent]; rfl }
  · exact { h with directive := hlookup _, inDirective := rfl }
  · next name value l =>
    have hargument : Option.Rel InputValue.Agrees
        (if f.inDirective then f.directive.bind (·.argument? name.nameText)
          else f.field.bind (·.argument? name.nameText))
        (if g.inDirective then g.directive.bind (·.argument? name.nameText)
          else g.field.bind (·.argument? name.nameText)) := by
      rw [h.inDirective, h.field]
      split_ifs
      · exact argument?_agree h.directive name.nameText
      · exact agree_refl _
    exact { h with argument := hargument, input := type_eq_of_rel hargument }
  · exact { h with type := (resolve_declaring s ds _).symm }
  · rw [h.type]
    split_ifs
    · exact h
    · exact { h with type := rfl }
  · exact { h with type := (resolveIn_declaring s ds _).symm }
  · exact { h with input := (resolveIn_declaring s ds _).symm }
  · exact { h with input := by rw [h.input] }
  · exact { h with input := by rw [h.input]; rfl }
  · exact h

theorem FramesAgree.top {fs gs : Frames} (h : List.Forall₂ FramesAgree fs gs) :
    FramesAgree fs.top gs.top := by
  cases h with
  | nil => exact .empty
  | cons hf _ => exact hf

/-- The frames of a path agree. -/
theorem forall₂_framesAt (hlookup : ∀ name, Option.Rel Directive.Agrees (lookup name)
    (lookup' name)) : ∀ path : List Node, List.Forall₂ FramesAgree
      (framesAt (some s) lookup path) (framesAt (some (declaring s ds)) lookup' path)
  | [] => .nil
  | n :: path => by
    have hpath := forall₂_framesAt hlookup path
    rw [framesAt_cons, framesAt_cons, Frames.enter, Frames.enter]
    split_ifs
    · exact .cons (FramesAgree.enter hlookup (FramesAgree.top hpath) n) hpath
    · exact hpath

end Sides

/-! ### States of two validations -/

/-- Two validations: the schema of the second may have other directives, but under each name both
find agreeing directives, and they have the same fragments. -/
structure Sides (s : Schema) (ds : List Directive) (doc doc' : Node) : Prop where
  directives : ∀ name, Option.Rel Directive.Agrees (lookupIn (some s) doc name)
    (lookupIn (some (declaring s ds)) doc' name)
  table : (directiveTable? (some s) doc).isSome
  table' : (directiveTable? (some (declaring s ds)) doc').isSome
  required : Rule.requiredTable? (alone (some s) doc [] []) =
    (directiveTable? (some s) doc).map (List.map Rule.requiredOf)
  required' : Rule.requiredTable? (alone (some (declaring s ds)) doc' [] []) =
    (directiveTable? (some (declaring s ds)) doc').map (List.map Rule.requiredOf)
  fragments : fragmentTable? doc = fragmentTable? doc'

/-- States of two validations that stand at one node and have found the same. -/
structure Matches (s : Schema) (ds : List Directive) (doc doc' : Node) (c c' : Context) :
    Prop where
  schema : c.schema = some s
  schema' : c'.schema = some (declaring s ds)
  document : c.document = doc
  document' : c'.document = doc'
  coherent : c.Coherent
  coherent' : c'.Coherent
  frames : List.Forall₂ FramesAgree c.frames c'.frames
  problems : c.problems = c'.problems
  metNames : c.metNames = c'.metNames
  broken : c.broken = c'.broken

/-- What making a table leaves as it is. -/
structure Context.Kept (c d : Context) : Prop where
  schema : d.schema = c.schema
  document : d.document = c.document
  frames : d.frames = c.frames
  problems : d.problems = c.problems
  metNames : d.metNames = c.metNames

theorem kept_withFragments (c : Context) : c.Kept c.withFragments := by
  rw [withFragments_fields c]
  exact ⟨rfl, rfl, rfl, rfl, rfl⟩

theorem kept_withDirectives (c : Context) : c.Kept c.withDirectives := by
  rw [withDirectives_fields c]
  exact ⟨rfl, rfl, rfl, rfl, rfl⟩

section Matches

variable {s : Schema} {ds : List Directive} {doc doc' : Node} {c c' : Context}

namespace Matches

theorem report (h : Matches s ds doc doc' c c') (p : Problem) :
    Matches s ds doc doc' (c.report p) (c'.report p) :=
  { h with
    coherent := ⟨h.coherent.fragments, h.coherent.directives⟩
    coherent' := ⟨h.coherent'.fragments, h.coherent'.directives⟩
    problems := congrArg (· ++ [p]) h.problems }

theorem breakDown (h : Matches s ds doc doc' c c') :
    Matches s ds doc doc' c.breakDown c'.breakDown :=
  { h with
    coherent := ⟨h.coherent.fragments, h.coherent.directives⟩
    coherent' := ⟨h.coherent'.fragments, h.coherent'.directives⟩
    broken := rfl }

/-- States in which only tables have been made, or both have broken down. -/
theorem ofTables {d d' : Context} (h : Matches s ds doc doc' c c') (hd : c.Kept d)
    (hd' : c'.Kept d') (hcoherent : d.Coherent) (hcoherent' : d'.Coherent)
    (hbroken : d.broken = d'.broken) : Matches s ds doc doc' d d' where
  schema := hd.schema.trans h.schema
  schema' := hd'.schema.trans h.schema'
  document := hd.document.trans h.document
  document' := hd'.document.trans h.document'
  coherent := hcoherent
  coherent' := hcoherent'
  frames := by rw [hd.frames, hd'.frames]; exact h.frames
  problems := by rw [hd.problems, hd'.problems]; exact h.problems
  metNames := by rw [hd.metNames, hd'.metNames]; exact h.metNames
  broken := hbroken

theorem withFragments (hsides : Sides s ds doc doc') (h : Matches s ds doc doc' c c') :
    Matches s ds doc doc' c.withFragments c'.withFragments := by
  refine h.ofTables (kept_withFragments c) (kept_withFragments c')
    (isolated_withFragments 0 c h.coherent).coherent
    (isolated_withFragments 0 c' h.coherent').coherent ?_
  rw [(withFragments_eq h.coherent).2, (withFragments_eq h.coherent').2, h.broken, h.document,
    h.document', hsides.fragments]

theorem withDirectives (hsides : Sides s ds doc doc') (h : Matches s ds doc doc' c c') :
    Matches s ds doc doc' c.withDirectives c'.withDirectives := by
  refine h.ofTables (kept_withDirectives c) (kept_withDirectives c')
    (isolated_withDirectives 0 c h.coherent).coherent
    (isolated_withDirectives 0 c' h.coherent').coherent ?_
  rw [(withDirectives_eq h.coherent).2, (withDirectives_eq h.coherent').2, h.broken, h.document,
    h.document', h.schema, h.schema', Option.isNone_eq_false_iff.mpr hsides.table,
    Option.isNone_eq_false_iff.mpr hsides.table']

theorem foldl {α : Type} {f f' : Context → α → Context}
    (hf : ∀ a c c', Matches s ds doc doc' c c' → Matches s ds doc doc' (f c a) (f' c' a)) :
    ∀ (as : List α) {c c' : Context}, Matches s ds doc doc' c c' →
      Matches s ds doc doc' (as.foldl f c) (as.foldl f' c')
  | [], _, _, h => h
  | a :: as, _, _, h => foldl hf as (hf a _ _ h)

end Matches

/-! ### Rules in two validations -/

namespace Rule

variable (h : Matches s ds doc doc' c c')
include h

theorem checkTypeName_matches (n : Node) :
    Matches s ds doc doc' (checkTypeName s n c) (checkTypeName (declaring s ds) n c') := by
  unfold checkTypeName
  split
  · next name l =>
    dsimp only
    rw [show (declaring s ds).type? = s.type? from rfl,
      show (declaring s ds).typeNames = s.typeNames from rfl]
    split_ifs
    · exact h
    · exact h.report _
  · exact h

theorem checkConditionOf_matches (fragment : String) (cond : Node) :
    Matches s ds doc doc' (checkConditionOf fragment cond c)
      (checkConditionOf fragment cond c') := by
  unfold checkConditionOf
  rw [h.schema, h.schema', resolve?_declaring s ds cond]
  cases resolve? (some s) cond with
  | none => exact h.breakDown
  | some ref =>
    dsimp only
    rw [show mayCondition (some (declaring s ds)) ref = mayCondition (some s) ref from rfl]
    split_ifs
    · exact h
    · exact h.report _

theorem checkCondition_matches (n : Node) :
    Matches s ds doc doc' (checkCondition n c) (checkCondition n c') := by
  unfold checkCondition
  split
  · exact checkConditionOf_matches h _ _
  · exact checkConditionOf_matches h _ _
  · exact h

theorem checkUnique_matches (slot : Nat) (n : Node) :
    Matches s ds doc doc' (checkUnique slot n c) (checkUnique slot n c') := by
  unfold checkUnique
  split
  · next name _ _ _ _ _ =>
    dsimp only
    rw [← h.metNames]
    cases firstMet? slot name.nameText c.metNames with
    | some first => exact h.report _
    | none =>
      exact { h with
        coherent := ⟨h.coherent.fragments, h.coherent.directives⟩
        coherent' := ⟨h.coherent'.fragments, h.coherent'.directives⟩
        metNames := rfl }
  · exact h

theorem checkFieldArgument_matches (n : Node) :
    Matches s ds doc doc' (checkFieldArgument n c) (checkFieldArgument n c') := by
  have htop := FramesAgree.top h.frames
  unfold checkFieldArgument Context.top
  rw [← htop.field, ← htop.parent, ← htop.inDirective, ← isSome_eq_of_rel htop.argument]
  split
  · split_ifs
    · exact h
    · exact h.report _
  · exact h

variable (hsides : Sides s ds doc doc')
include hsides

theorem checkSpread_matches (n : Node) :
    Matches s ds doc doc' (checkSpread n c) (checkSpread n c') := by
  have htables := h.withFragments hsides
  unfold checkSpread
  split
  · next name _ _ =>
    dsimp only
    rw [fragment_eq h.coherent, fragment_eq h.coherent', h.document, h.document', hsides.fragments]
    cases ((fragmentTable? doc').getD []).lookup name.nameText with
    | some f => exact htables
    | none => exact htables.report _
  · exact h

theorem checkDirectiveArguments_matches (n : Node) :
    Matches s ds doc doc' (checkDirectiveArguments n c) (checkDirectiveArguments n c') := by
  have htables := h.withDirectives hsides
  unfold checkDirectiveArguments
  split
  · next name args _ =>
    rw [directive_eq h.coherent, directive_eq h.coherent', h.schema, h.schema', h.document,
      h.document']
    have hfound := hsides.directives name.nameText
    unfold lookupIn at hfound
    revert hfound
    generalize findDirective (directivesOf (some s) doc) name.nameText = found
    generalize findDirective (directivesOf (some (declaring s ds)) doc') name.nameText = found'
    rintro (⟨hd⟩ | _)
    · refine Matches.foldl (fun a c c' hc => ?_) args htables
      unfold checkDirectiveArgument
      split
      · next name' _ _ =>
        dsimp only
        rw [isSome_eq_of_rel (hd.argument? name'.nameText), hd.name,
          InputValue.names_agree hd.arguments]
        split_ifs
        · exact hc
        · exact hc.report _
      · exact hc.breakDown
    · exact htables
  · exact h

omit h in
/-- Both validations know the same required arguments. -/
theorem lookup_requiredsOf (name : String) :
    (requiredsOf (some s) doc).reverse.lookup name =
      (requiredsOf (some (declaring s ds)) doc').reverse.lookup name := by
  have hknown : ∀ {r : Option Schema} {d : Node},
      requiredTable? (alone r d [] []) = (directiveTable? r d).map (List.map requiredOf) →
      (requiredsOf r d).reverse.lookup name =
        (lookupIn r d name).map fun d => (requiredOf d).2 := by
    intro r d hrequired
    have htable : requiredsOf r d = (directivesOf r d).map requiredOf := by
      rw [requiredsOf, hrequired, directivesOf]
      cases directiveTable? r d <;> rfl
    rw [htable, lookup_requiredOf]
    rfl
  rw [hknown hsides.required, hknown hsides.required']
  exact map_eq_of_rel (fun _ _ hd => congrArg Prod.snd (requiredOf_agree hd))
    (hsides.directives name)

theorem checkProvided_matches (n : Node) :
    Matches s ds doc doc' (checkProvided (requiredsOf (some s) doc) n c)
      (checkProvided (requiredsOf (some (declaring s ds)) doc') n c') := by
  unfold checkProvided
  split
  · next name args _ =>
    dsimp only
    rw [lookup_requiredsOf hsides]
    split
    · exact h
    · split
      · exact h.breakDown
      · refine Matches.foldl (fun r c c' hc => ?_) _ h
        exact hc.report _
  · exact h

/-- **What a rule does when a node is entered**, in both validations. -/
theorem atEnter_matches (r : Rule) (n : Node) (slot : Nat) :
    Matches s ds doc doc' (r.atEnter n slot c) (r.atEnter n slot c') := by
  cases r with
  | fragmentsOnCompositeTypes => exact checkCondition_matches h n
  | knownArgumentNames =>
    exact checkFieldArgument_matches (checkDirectiveArguments_matches h hsides n) n
  | knownArgumentNamesOnDirectives => exact checkDirectiveArguments_matches h hsides n
  | knownFragmentNames => exact checkSpread_matches h hsides n
  | knownTypeNames =>
    rw [atEnter, atEnter, h.schema, h.schema']
    exact checkTypeName_matches h n
  | providedRequiredArgumentsOnDirectives => exact h
  | uniqueFragmentNames => exact checkUnique_matches h slot n

/-- **What a rule does when a node is left**, in both validations. -/
theorem atLeave_matches (r : Rule) (n : Node) (slot : Nat) :
    Matches s ds doc doc' (r.atLeave n slot c) (r.atLeave n slot c') := by
  cases r with
  | providedRequiredArgumentsOnDirectives =>
    have htable : requiredTable? c = requiredTable? (alone (some s) doc [] []) := by
      unfold requiredTable?
      rw [h.schema, h.document]
      rfl
    have htable' : requiredTable? c' =
        requiredTable? (alone (some (declaring s ds)) doc' [] []) := by
      unfold requiredTable?
      rw [h.schema', h.document']
      rfl
    rw [atLeave, atLeave, htable, htable']
    exact checkProvided_matches h hsides n
  | _ => exact h

end Rule

end Matches

/-! ### Two validations along a route -/

section Along

variable {s : Schema} {ds : List Directive} {doc doc' : Node} (hsides : Sides s ds doc doc')
include hsides

/-- **What a rule makes of a step**, in both validations. -/
theorem act_matches {st st' : Step} (h : Alike (some s) (lookupIn (some s) doc) st st')
    (x : Rule × Memory) :
    Matches s ds doc doc' (act (some s) doc st x) (act (some (declaring s ds)) doc' st' x) := by
  have halone : ∀ (n : Node) {above above' : List Node},
      framesAt (some s) (lookupIn (some s) doc) above =
        framesAt (some s) (lookupIn (some s) doc) above' →
      Matches s ds doc doc'
        (alone (some s) doc (framesAt (some s) (lookupIn (some s) doc) (n :: above)) x.2)
        (alone (some (declaring s ds)) doc' (framesAt (some (declaring s ds))
          (lookupIn (some (declaring s ds)) doc') (n :: above')) x.2) := by
    intro n above above' hframes
    rw [framesAt_cons, hframes, ← framesAt_cons]
    exact ⟨rfl, rfl, rfl, rfl, coherent_alone _ _ _ _, coherent_alone _ _ _ _,
      forall₂_framesAt hsides.directives _, rfl, rfl, rfl⟩
  cases h with
  | enter n hframes => exact Rule.atEnter_matches (halone n hframes) hsides x.1 n 0
  | leave n hframes => exact Rule.atLeave_matches (halone n hframes) hsides x.1 n 0
  | abandon n hframes => exact halone n hframes

theorem remember_matches {st st' : Step} (h : Alike (some s) (lookupIn (some s) doc) st st')
    (x : Rule × Memory) :
    remember (some s) doc st x = remember (some (declaring s ds)) doc' st' x := by
  rw [remember, remember, memoryOf, memoryOf, (act_matches hsides h x).metNames]

/-- **What is found along alike steps** is the same in both validations, and one breaks down where
the other does. -/
theorem findings_matches {steps steps' : List Step}
    (h : List.Forall₂ (Alike (some s) (lookupIn (some s) doc)) steps steps') :
    ∀ crew : List (Rule × Memory),
      findings (some s) doc steps crew = findings (some (declaring s ds)) doc' steps' crew ∧
        breaking (some s) doc steps crew = breaking (some (declaring s ds)) doc' steps' crew := by
  induction h with
  | nil => exact fun _ => ⟨rfl, rfl⟩
  | @cons st st' steps steps' hstep _ ih =>
    intro crew
    have hlacks : lacksPart (some s) doc st = lacksPart (some (declaring s ds)) doc' st' := by
      cases hstep with
      | enter n hframes =>
        rw [lacksPart, lacksPart, Option.isNone_eq_false_iff.mpr hsides.table,
          Option.isNone_eq_false_iff.mpr hsides.table', resolvable_declaring s ds n]
      | _ => rfl
    have hcrew : crew.map (remember (some s) doc st) =
        crew.map (remember (some (declaring s ds)) doc' st') :=
      List.map_congr_left fun x _ => remember_matches hsides hstep x
    have hact := act_matches hsides hstep
    obtain ⟨hfindings, hbreaking⟩ := ih (crew.map (remember (some s) doc st))
    rw [findings, findings, breaking, breaking, hfindings, hbreaking, hcrew, hlacks]
    refine ⟨congrArg (· ++ _) (List.flatMap_congr fun x _ => (hact x).problems), ?_⟩
    congr 2
    rw [Bool.eq_iff_iff, List.any_eq_true, List.any_eq_true]
    exact exists_congr fun x => and_congr_right fun _ => by rw [(hact x).broken]

end Along

/-! ### A definition in the schema and behind the document -/

section Declared

variable {e : Excerpt} {g : Written.DirectiveDefinition} {s : Schema} {front back : List Directive}
  {ns : List Node} {l : Option Location}

/-- A directive that is new among others is found in the same way wherever it stands. -/
theorem findDirective_inserted {d d' : Directive} (h : d.Agrees d')
    (hnew : ∀ x ∈ front ++ back, x.name ≠ d'.name) (name : String) :
    Option.Rel Directive.Agrees (findDirective (front ++ back ++ [d]) name)
      (findDirective (front ++ d' :: back) name) := by
  have hsame : ∀ x : Option Directive, Option.Rel Directive.Agrees x x := by
    intro x
    cases x with
    | none => exact .none
    | some x => exact .some (.refl x)
  have hone : ∀ x : Directive, findDirective [x] name = if x.name = name then some x else none := by
    intro x
    by_cases hx : x.name = name <;> simp [findDirective, hx]
  show Option.Rel Directive.Agrees _ (findDirective (front ++ ([d'] ++ back)) name)
  rw [findDirective_append, findDirective_append, findDirective_append, findDirective_append, hone,
    hone, h.name]
  by_cases hname : d'.name = name
  · subst hname
    rw [List.forall_mem_append] at hnew
    rw [if_pos rfl, if_pos rfl, findDirective_eq_none hnew.1, findDirective_eq_none hnew.2]
    exact .some h
  · rw [if_neg hname, if_neg hname, Option.none_or, Option.or_none]
    exact hsame _

/-- **The two validations** of a document: with a definition behind it, and with the definition in
the schema. -/
theorem sides_declared (hs : s.directives = front ++ back)
    (hnew : ∀ d ∈ s.directives, d.name ≠ g.name) (hns : ∀ n ∈ ns, n.kind ≠ .directiveDefinition) :
    Sides s (front ++ .ofWritten g :: back) (documentWith (ns ++ [e.directiveDefinition g]) l)
      (documentWith ns l) := by
  obtain ⟨d, hd, hagrees⟩ := agrees_directiveDefinition e g
  obtain ⟨hkind, hread⟩ := e.read_directiveDefinition g
  have hplaces : placesOf .directiveDefinition
      (documentWith (ns ++ [e.directiveDefinition g]) l) = [.node (e.directiveDefinition g)] :=
    placesOf_documentWith l hns (by simpa using hkind)
  have hplaces' : placesOf .directiveDefinition (documentWith ns l) = [] := by
    rw [← List.append_nil ns]
    exact placesOf_documentWith l hns nofun
  have htable : directiveTable? (some s) (documentWith (ns ++ [e.directiveDefinition g]) l) =
      some (front ++ back ++ [d]) := by
    rw [directiveTable?, hplaces, List.mapM_cons, hd, ← hs]
    rfl
  have htable' : directiveTable? (some (declaring s (front ++ .ofWritten g :: back)))
      (documentWith ns l) = some (front ++ .ofWritten g :: back) := by
    rw [directiveTable?, hplaces']
    exact congrArg some (List.append_nil _)
  refine ⟨fun name => ?_, by rw [htable]; rfl, by rw [htable']; rfl, requiredTable?_eq ?_,
    requiredTable?_eq ?_, ?_⟩
  · rw [lookupIn, lookupIn, directivesOf, directivesOf, htable, htable']
    exact findDirective_inserted hagrees (hs ▸ hnew) name
  · intro x hx
    have hx : .node x ∈ placesOf .directiveDefinition
      (documentWith (ns ++ [e.directiveDefinition g]) l) := hx
    rw [hplaces, List.mem_singleton] at hx
    obtain rfl := Child.node.inj hx
    exact ⟨hkind, hread.whole.typed, hread.whole.typeGiven⟩
  · intro x hx
    have hx : .node x ∈ placesOf .directiveDefinition (documentWith ns l) := hx
    rw [hplaces'] at hx
    cases hx
  · have hfragments : placesOf .fragmentDefinition
        (documentWith (ns ++ [e.directiveDefinition g]) l) =
          placesOf .fragmentDefinition (documentWith ns l) := by
      simp [placesOf, Node.definitions, hkind]
    rw [fragmentTable?, fragmentTable?, hfragments]

/-- What is found in a definition behind a document, by whatever rules with whatever memory: no rule
breaks down there, and every problem is about the definition. -/
theorem findings_behind {n : Node} (hkind : n.kind = .directiveDefinition) (hn : n.Whole)
    (htypes : n.All fun m => m.typeNamed = true) (s : Option Schema) (maxDepth : Int)
    (hns : ∀ n ∈ ns, n.kind ≠ .directiveDefinition) (crew : List (Rule × Memory)) :
    let doc := documentWith (ns ++ [n]) l
    let inside := routeAll maxDepth [doc] [n.rose]
    breaking s doc inside.steps crew = false ∧
      ∀ p ∈ findings s doc inside.steps crew ++
        (inside.tooDeep.map (depthProblem maxDepth)).toList,
      ∀ x ∈ p.nodes, PointsInto n.rose.labels x := by
  intro doc inside
  have hplaces : placesOf .directiveDefinition (documentWith [n] none) =
      placesOf .directiveDefinition doc := by
    rw [placesOf_documentWith l hns (by simpa using hkind), ← List.nil_append [n]]
    exact placesOf_documentWith none (by simp) (by simpa using hkind)
  have halike : AlikeRoutes s (lookupIn s doc) inside (routeInside maxDepth [n] none) :=
    alikeRoutesAll maxDepth _ rfl rfl
  have hwhole : (documentWith [n] none).Whole := Node.whole_document fun m hm => by
    rw [List.mem_singleton.mp hm, hkind]
    exact ⟨by decide, hn⟩
  have hmem : ∀ {above : List Node}, ∀ st ∈ (routeAll maxDepth above ([n].map Node.rose)).steps,
      st.node ∈ n.rose.labels := by
    intro above st hst
    obtain ⟨m, hm, hst⟩ := node_mem_of_mem_steps hst
    rwa [List.mem_singleton.mp hm] at hst
  have hdefinitional : ∀ st ∈ inside.steps, definitional st.node.kind = true := fun st hst =>
    definitional_of_mem_labels hkind hn _ (hmem st hst)
  constructor
  · rw [breaking_alike hplaces halike.steps hdefinitional]
    exact breaking_of_whole s hwhole _ fun st hst =>
      ⟨hn.below _ (hmem st hst), resolvable_of_typeNamed s htypes _ (hmem st hst)⟩
  · rw [findings_alike hplaces halike.steps hdefinitional, halike.tooDeep]
    have hfront := @pointsInto_front s (crew.map Prod.fst) maxDepth [n]
      (documentWith [n] none) [documentWith [n] none]
    rwa [List.flatMap_cons, List.flatMap_nil, List.append_nil] at hfront

end Declared

/-- **It does not matter where a directive is declared.** The directive that a schema makes of a
definition and the one that a document makes of its node agree in name, description, locations and
repeatability, and argument by argument in name, description and type and in whether there is a
default. So the validation of a document with the definition behind it gives what it gives when the
definition is in the schema instead, for which the name has to be new, and after that only problems
about the definition itself. -/
theorem validate_declared (e : Excerpt) (g : Written.DirectiveDefinition) :
    (∃ d, directiveOf? (.node (e.directiveDefinition g)) = some d ∧ d.Agrees (.ofWritten g)) ∧
    ∀ (s : Schema) (front back : List Directive), s.directives = front ++ back →
      (∀ d ∈ s.directives, d.name ≠ g.name) →
      ∀ (ns : List Node) (l : Option Location), (∀ n ∈ ns, n.kind ≠ .directiveDefinition) →
      ∀ (rules : List Rule) (maxDepth : Int), ∃ about : List Problem,
        (∀ p ∈ about, ∀ x ∈ p.nodes, PointsInto (e.directiveDefinition g).rose.labels x) ∧
        validate (some s)
            ((documentWith ns l).appendDefinitions [.node (e.directiveDefinition g)]) rules maxDepth =
          (validate (some { s with directives := front ++ .ofWritten g :: back })
            (documentWith ns l) rules maxDepth).map (· ++ about) := by
  refine ⟨agrees_directiveDefinition e g, fun s front back hs hnew ns l hns rules maxDepth => ?_⟩
  obtain ⟨hkind, hread⟩ := e.read_directiveDefinition g
  have hsides := sides_declared (e := e) (l := l) hs hnew hns
  have happend : (documentWith ns l).appendDefinitions [.node (e.directiveDefinition g)] =
      documentWith (ns ++ [e.directiveDefinition g]) l := by
    show Node.document (ns.map .node ++ [e.directiveDefinition g].map .node) l = _
    rw [← List.map_append]
  set doc := documentWith (ns ++ [e.directiveDefinition g]) l with hdoc
  have hprepared : unprepared (some s) doc =
      unprepared (some (declaring s (front ++ .ofWritten g :: back))) (documentWith ns l) := by
    obtain ⟨table, htable⟩ := Option.isSome_iff_exists.mp hsides.table
    obtain ⟨table', htable'⟩ := Option.isSome_iff_exists.mp hsides.table'
    funext r
    rw [unprepared, unprepared, hsides.required, hsides.required', htable, htable']
    rfl
  set own := routeAll maxDepth [doc] (ns.map Node.rose)
  have halike : AlikeRoutes (some s) (lookupIn (some s) doc) own (routeInside maxDepth ns l) :=
    alikeRoutesAll maxDepth _ rfl rfl
  obtain ⟨hfindings, hbreaking⟩ := findings_matches hsides halike.steps (fresh rules)
  set behind := routeAll maxDepth [doc] [(e.directiveDefinition g).rose]
  have hinside : routeInside maxDepth (ns ++ [e.directiveDefinition g]) l =
      if own.tooDeep.isSome then own else ⟨own.steps ++ behind.steps, behind.tooDeep⟩ := by
    rw [routeInside, List.map_append, List.map_singleton, routeAll_append]
  rw [happend, validate_eq, validate_eq, tooDeep, tooDeep, route_documentWith, route_documentWith,
    fails_documentWith, fails_documentWith, found_documentWith, found_documentWith, ← hdoc,
    hprepared, ← hfindings, ← hbreaking, ← halike.tooDeep, hinside]
  cases hdeep : own.tooDeep with
  | some n =>
    refine ⟨[], by simp, ?_⟩
    rw [Option.isSome_some, if_pos rfl, hdeep]
    split_ifs <;> simp
  | none =>
    rw [Option.isSome_none, if_neg Bool.false_ne_true]
    obtain ⟨hwhole, habout⟩ := findings_behind (l := l) hkind hread.whole hread.typeNamed
      (some s) maxDepth hns (rememberAll (some s) doc own.steps (fresh rules))
    refine ⟨findings (some s) doc behind.steps (rememberAll (some s) doc own.steps (fresh rules)) ++
      (behind.tooDeep.map (depthProblem maxDepth)).toList, habout, ?_⟩
    dsimp only
    rw [breaking_append, findings_append, hwhole, Bool.or_false]
    split_ifs <;> simp

/-- A definition of a directive with a required argument. -/
def ownerDefinition : Written.DirectiveDefinition :=
  ⟨"", "owner", [⟨"", "team", .named "String" true ⟨17, 23, 1⟩, none, [], ⟨11, 15, 1⟩⟩], false,
    ["QUERY"], ⟨0, 5, 1⟩⟩

/-- A query that uses the directive with another argument. -/
def ownedQuery : Node :=
  let arg : Node := .argument (.node (.name "name" none)) (.node (.nullValue none)) none
  let owner : Node := .directive (.node (.name "owner" none)) [.node arg] none
  .operationDefinition "query" .absent [] [.node owner] .absent none

/-- The argument that is not declared and the one that is missing are found with the definition in
the schema as they are with the definition behind the query. -/
theorem validate_declared_ownedQuery :
    ({} : Schema).directives = [] ++ [] ∧ ownedQuery.kind ≠ .directiveDefinition ∧
    (validate (some { directives := [.ofWritten ownerDefinition] }) (documentWith [ownedQuery] none)
      Rule.specified 0).map List.length = some 2 ∧
    ∃ about : List Problem,
      validate (some {}) ((documentWith [ownedQuery] none).appendDefinitions
          [.node ((Excerpt.mk [] .definitions).directiveDefinition ownerDefinition)])
          Rule.specified 0 =
        (validate (some { directives := [.ofWritten ownerDefinition] })
          (documentWith [ownedQuery] none) Rule.specified 0).map (· ++ about) := by
  have hkind : ownedQuery.kind ≠ .directiveDefinition := by decide
  obtain ⟨about, -, habout⟩ := (validate_declared ⟨[], .definitions⟩ ownerDefinition).2 {} [] [] rfl
    (by simp) [ownedQuery] none (by simpa using hkind) Rule.specified 0
  exact ⟨rfl, hkind, by decide +kernel, about, habout⟩

end QueryCheck.Validation
