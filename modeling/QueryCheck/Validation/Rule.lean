import QueryCheck.Text.Suggest
import QueryCheck.Validation.Context
import QueryCheck.Walk.Basic

/-! # Rules

The checks a document can be put to. Each rule gives a visitor that looks at the nodes it cares
about and reports the problems it finds; no rule changes the course of the walk.

* `Rule.all` lists the rules by name, `Rule.specified` those that are run unless others are asked
  for.
* `Rule.select` finds rules by name.
* `Rule.visitor` gives the handlers of a rule. -/

namespace QueryCheck.Validation

open QueryCheck.Schema
open QueryCheck.Syntax
open QueryCheck.Text (quote didYouMean suggestions)
open QueryCheck.Typing
open QueryCheck.Walk

/-- The rules. -/
inductive Rule where
  | fragmentsOnCompositeTypes
  | knownArgumentNames
  | knownArgumentNamesOnDirectives
  | knownFragmentNames
  | knownTypeNames
  | providedRequiredArgumentsOnDirectives
  | uniqueFragmentNames
  deriving DecidableEq, Repr, Inhabited

namespace Rule

/-- The name of a rule. -/
def name : Rule → String
  | fragmentsOnCompositeTypes => "FragmentsOnCompositeTypes"
  | knownArgumentNames => "KnownArgumentNames"
  | knownArgumentNamesOnDirectives => "KnownArgumentNamesOnDirectives"
  | knownFragmentNames => "KnownFragmentNames"
  | knownTypeNames => "KnownTypeNames"
  | providedRequiredArgumentsOnDirectives => "ProvidedRequiredArgumentsOnDirectives"
  | uniqueFragmentNames => "UniqueFragmentNames"

/-- What a rule checks, in one sentence. -/
def description : Rule → String
  | fragmentsOnCompositeTypes =>
    "Fragments may only condition on object, interface or union types."
  | knownArgumentNames =>
    "Arguments of fields and directives must be defined by the field or directive."
  | knownArgumentNamesOnDirectives => "Arguments of directives must be defined by the directive."
  | knownFragmentNames => "Fragment spreads must refer to fragments defined in the document."
  | knownTypeNames =>
    "Named types in variable definitions and type conditions must exist in the schema."
  | providedRequiredArgumentsOnDirectives => "Required arguments of directives must be provided."
  | uniqueFragmentNames => "Fragment names must be unique within a document."

/-- Every rule, in the order of their names. -/
def all : List Rule :=
  [fragmentsOnCompositeTypes, knownArgumentNames, knownArgumentNamesOnDirectives,
   knownFragmentNames, knownTypeNames, providedRequiredArgumentsOnDirectives, uniqueFragmentNames]

/-- The rules that are run unless others are asked for, in the order they run. The arguments of
directives are checked with those of fields. -/
def specified : List Rule :=
  [knownTypeNames, fragmentsOnCompositeTypes, uniqueFragmentNames, knownFragmentNames,
   knownArgumentNames, providedRequiredArgumentsOnDirectives]

/-- The rule with the given name. -/
def lookup? (n : String) : Option Rule := all.find? fun r => r.name == n

/-- A rule name that names no rule. -/
structure Unknown where
  name : String
  deriving DecidableEq, Repr, Inhabited

/-- The message of an unknown rule name. -/
def Unknown.message (e : Unknown) : String :=
  "unknown rule " ++ quote e.name ++ "." ++ didYouMean (suggestions e.name (all.map Rule.name))

/-- The rules with the given names, in the given order; no names select the specified rules. -/
def select (names : List String) : Except Unknown (List Rule) :=
  if names.isEmpty then .ok specified
  else names.mapM fun n =>
    match lookup? n with
    | some r => .ok r
    | none => .error ⟨n⟩

/-! ### Handlers -/

/-- A handler that only looks and reports. -/
def observing (f : Node → Context → Context) : Handler Context := fun n c => (.proceed, f n c)

/-- A problem found by a rule. -/
def problem (r : Rule) (message : String) (nodes : List (Child Node)) : Problem :=
  ⟨message, nodes, r.name⟩

/-- Reports a reference to a type the schema does not have. -/
def checkTypeName (s : Schema) (n : Node) (c : Context) : Context :=
  match n with
  | .namedType name _ =>
    let text := name.nameText
    if (s.type? text).isSome then c
    else
      c.report (knownTypeNames.problem
        ("Unknown type " ++ quote text ++ "." ++ didYouMean (suggestions text s.typeNames))
        [.node n])
  | _ => c

/-- Whether a resolved type condition may be one: only a known type that is not composite may
not. -/
def mayCondition (s : Option Schema) : Option TypeRef → Bool
  | none => true
  | some ref => ((Schema.typeOf? s ref.namedType).map NamedType.isComposite).getD false

/-- Reports a type condition that is not a composite type; `fragment` is how its fragment is
named. -/
def checkConditionOf (fragment : String) (cond : Node) (c : Context) : Context :=
  match resolve? c.schema cond with
  | none => c.breakDown
  | some ref =>
    if mayCondition c.schema ref then c
    else
      c.report (fragmentsOnCompositeTypes.problem
        (fragment ++ " cannot condition on non composite type " ++ quote cond.print ++ ".")
        [.node cond])

/-- Reports a fragment whose condition is not a composite type. -/
def checkCondition (n : Node) (c : Context) : Context :=
  match n with
  | .inlineFragment (.node cond) _ _ _ => checkConditionOf "Fragment" cond c
  | .fragmentDefinition name _ (.node cond) _ _ _ =>
    checkConditionOf ("Fragment " ++ quote name.nameText) cond c
  | _ => c

/-- The place of a name as a problem shows it: a missing name is a place filled with none. -/
def namePlace : Child Node → Child Node
  | .node n => .node n
  | _ => .null .name

/-- The fragment of a given name that was met first, by the count of rule `slot`. -/
def firstMet? (slot : Nat) (name : String) (met : List (Nat × String × Child Node)) :
    Option (Child Node) :=
  (met.find? fun m => m.1 == slot && m.2.1 == name).map fun m => m.2.2

/-- Reports a fragment definition whose name was met before. -/
def checkUnique (slot : Nat) (n : Node) (c : Context) : Context :=
  match n with
  | .fragmentDefinition name _ _ _ _ _ =>
    let text := name.nameText
    match firstMet? slot text c.metNames with
    | some first =>
      c.report (uniqueFragmentNames.problem
        ("There can be only one fragment named " ++ quote text ++ ".") [first, namePlace name])
    | none => { c with metNames := c.metNames ++ [(slot, text, namePlace name)] }
  | _ => c

/-- Reports a fragment spread whose fragment is not defined. -/
def checkSpread (n : Node) (c : Context) : Context :=
  match n with
  | .fragmentSpread name _ _ =>
    let text := name.nameText
    match c.fragment text with
    | (some _, c) => c
    | (none, c) =>
      c.report (knownFragmentNames.problem ("Unknown fragment " ++ quote text ++ ".")
        [namePlace name])
  | _ => c

/-- Reports an argument its field does not declare. -/
def checkFieldArgument (n : Node) (c : Context) : Context :=
  match n, c.top.field, c.top.parent with
  | .argument name _ _, some field, some parent =>
    if c.top.inDirective || c.top.argument.isSome then c
    else
      let text := name.nameText
      c.report (knownArgumentNames.problem
        ("Unknown argument " ++ quote text ++ " on field " ++ quote field.name ++ " of type "
          ++ quote parent.name ++ "."
          ++ didYouMean (suggestions text (InputValue.names field.arguments)))
        [.node n])
  | _, _, _ => c

/-- Reports an argument its directive does not declare. -/
def checkDirectiveArgument (d : Directive) (c : Context) (arg : Child Node) : Context :=
  match arg with
  | .node (.argument name value l) =>
    let text := name.nameText
    if (d.argument? text).isSome then c
    else
      c.report (knownArgumentNamesOnDirectives.problem
        ("Unknown argument " ++ quote text ++ " on directive \"@" ++ d.name ++ "\"."
          ++ didYouMean (suggestions text (InputValue.names d.arguments)))
        [.node (.argument name value l)])
  | _ => c.breakDown

/-- Reports the arguments a directive does not declare; directives that are not known are left
alone. -/
def checkDirectiveArguments (n : Node) (c : Context) : Context :=
  match n with
  | .directive name args _ =>
    match c.directive name.nameText with
    | (some d, c) => args.foldl (checkDirectiveArgument d) c
    | (none, c) => c
  | _ => c

/-! ### Required arguments of directives -/

/-- The required arguments of a directive, each with the text of its type. -/
abbrev Required := List (String × String)

/-- The required arguments of a known directive. -/
def requiredOf (d : Directive) : String × Required :=
  (d.name, (d.arguments.filter InputValue.isRequired).map fun a =>
    (a.name, (a.type.map TypeRef.print).getD ""))

/-- Whether a place holds a non-null type, or says that it holds none of that kind. -/
def isNonNullPlace : Child Node → Bool
  | .node n => n.kind == .nonNullType
  | .null k => k == .nonNullType
  | .absent => false

/-- The argument defined at a place when it is required; a missing node breaks the check. -/
def requiredArgument? : Child Node → Option (Option (String × String))
  | .node (.inputValueDefinition _ name type default _ _) =>
    if isNonNullPlace type && !default.isFilled then
      some (some (name.nameText, (type.toOption.map Node.print).getD ""))
    else some none
  | _ => none

/-- The required arguments of a directive defined in a document. -/
def requiredInDocument? : Child Node → Option (String × Required)
  | .node (.directiveDefinition _ name args _ _ _) => do
    let args ← args.mapM requiredArgument?
    return (name.nameText, args.filterMap id)
  | _ => none

/-- The required arguments by directive; where a name occurs twice the later entry counts. -/
def requiredTable? (c : Context) : Option (List (String × Required)) := do
  let own ← (placesOf .directiveDefinition c.document).mapM requiredInDocument?
  return (baseDirectives c.schema).map requiredOf ++ own

/-- The name of an argument; a missing argument has none. -/
def argumentName? : Child Node → Option String
  | .node (.argument name _ _) => some name.nameText
  | _ => none

/-- Reports the required arguments a directive is not given. -/
def checkProvided (table : List (String × Required)) (n : Node) (c : Context) : Context :=
  match n with
  | .directive name args _ =>
    let text := name.nameText
    match (table.reverse.lookup text).getD [] with
    | [] => c
    | required =>
      match args.mapM argumentName? with
      | none => c.breakDown
      | some provided =>
        (required.filter fun r => !provided.contains r.1).foldl (fun c r =>
          c.report (providedRequiredArgumentsOnDirectives.problem
            ("Directive \"@" ++ text ++ "\" argument " ++ quote r.1 ++ " of type " ++ quote r.2
              ++ " is required but not provided.")
            [.node n])) c
  | _ => c

/-! ### Visitors -/

/-- The visitor that only looks at nodes of one kind when they are entered. -/
def onEnter (k : Kind) (f : Node → Context → Context) : Visitor Context :=
  .single k { enter := some (observing f) }

/-- The visitor that only looks at nodes of one kind when they are left. -/
def onLeave (k : Kind) (f : Node → Context → Context) : Visitor Context :=
  .single k { leave := some (observing f) }

/-- The handlers of a rule. `slot` tells rules apart that are run together, and `c` is the state
before the walk. -/
def visitor (slot : Nat) (c : Context) : Rule → Visitor Context
  | fragmentsOnCompositeTypes =>
    .merge [onEnter .inlineFragment checkCondition, onEnter .fragmentDefinition checkCondition]
  | knownArgumentNames =>
    .merge [onEnter .directive checkDirectiveArguments, onEnter .argument checkFieldArgument]
  | knownArgumentNamesOnDirectives => onEnter .directive checkDirectiveArguments
  | knownFragmentNames => onEnter .fragmentSpread checkSpread
  | knownTypeNames =>
    match c.schema with
    | none => .none
    | some s => onEnter .namedType (checkTypeName s)
  | providedRequiredArgumentsOnDirectives =>
    onLeave .directive (checkProvided ((requiredTable? c).getD []))
  | uniqueFragmentNames => onEnter .fragmentDefinition (checkUnique slot)

/-- What choosing a rule does to the state: it breaks the validation when a table it needs cannot be
made. -/
def prepare (r : Rule) (c : Context) : Context :=
  if r = providedRequiredArgumentsOnDirectives ∧ (requiredTable? c).isNone then c.breakDown else c

end Rule

end QueryCheck.Validation
