import QueryCheck.Command.Check
import QueryCheck.Report.Table
import QueryCheck.Text.Glob

/-! # Listings

The rules, the arguments of the known directives and the definitions of a document, as they are
listed.

* `ruleListing`: the rules;
* `knownDirectives`: the directives documents are checked against, found under the `knownNames`;
* `Filter`: a choice of arguments, and `argumentsOf` the chosen ones;
* `outline`: the definitions of a document. -/

namespace QueryCheck.Command

open QueryCheck.Data (Value)
open QueryCheck.Report (Results Table)
open QueryCheck.Schema (Directive InputValue TypeRef)
open QueryCheck.Syntax
open QueryCheck.Text (Regex)
open QueryCheck.Validation

/-- The word for something that holds, in a table. -/
def yes (b : Bool) : String := if b then "yes" else ""

/-! ### Rules -/

/-- Whether a rule is run unless others are asked for. -/
def isDefault (r : Rule) : Bool := Rule.specified.any fun s => s.name == r.name

/-- A rule as data. -/
def ruleData (r : Rule) : Value :=
  .map [("name", .str r.name), ("description", .str r.description), ("default", .bool (isDefault r))]

/-- A rule as a line, marked if it is run by default. -/
def ruleLine (r : Rule) : String :=
  (if isDefault r then "*" else " ") ++ " " ++ r.name ++ " # " ++ r.description

/-- Rules as a table. -/
def ruleTable (rules : List Rule) : Table where
  headers := ["rule", "default", "description"]
  rows := rules.map fun r => [r.name, yes (isDefault r), r.description]

/-- The listing of all rules, or of those that are run by default. -/
def ruleListing (defaultOnly : Bool) : Results Rule where
  items := if defaultOnly then Rule.all.filter isDefault else Rule.all
  data := ruleData
  line := some ruleLine
  whole := some fun rules => (ruleTable rules).render

/-! ### Directives -/

/-- The name of a definition; empty without one. -/
def definitionName : Node → String
  | .operationDefinition _ name _ _ _ _ => name.nameText
  | .fragmentDefinition name _ _ _ _ _ => name.nameText
  | .directiveDefinition _ name _ _ _ _ => name.nameText
  | _ => ""

/-- The names under which directives are listed, in order: those of the directives known without
definitions and those of the definitions, each once. -/
def knownNames (s : Option Schema) (definitions : List Node) : List String :=
  ((baseDirectives s).map Directive.name ++ definitions.map definitionName).eraseDups.mergeSort
    (· ≤ ·)

/-- The directives documents are checked against, as they are found under the known names. -/
def knownDirectives (s : Option Schema) (definitions : List Node) : List (Option Directive) :=
  let c : Context := { schema := s, document := documentOf definitions }
  (knownNames s definitions).map fun name => (c.directive name).1

/-- The directives of a listing; with one that is absent nothing can be listed. -/
def presentDirectives (ds : List (Option Directive)) : Except Failure (List Directive) :=
  ds.mapM fun
    | some d => .ok d
    | none => .error .absentDirective

/-- A choice of arguments. -/
structure Filter where
  required : Bool := false
  nullable : Bool := false
  hasDescription : Bool := false
  /-- A glob pattern for names; every name if empty. -/
  glob : String := ""
  regex : Option Regex := none

namespace Filter

/-- Whether a name is chosen. -/
def admitsName (f : Filter) (name : String) : Bool :=
  (f.glob = "" || Text.Glob.isMatch f.glob name)
    && match f.regex with
      | some r => r.occursIn name
      | none => true

/-- Whether an argument is chosen. -/
def admits (f : Filter) (v : InputValue) : Bool :=
  (!f.required || v.isRequired)
    && (!f.nullable || !(v.type.map TypeRef.isNonNull).getD false)
    && (!f.hasDescription || v.description ≠ "")
    && f.admitsName v.name

end Filter

/-- An argument of a directive. -/
structure DirectiveArgument where
  directive : String
  value : InputValue
  deriving Inhabited

namespace DirectiveArgument

/-- The text of the type. -/
def type (a : DirectiveArgument) : String := (a.value.type.map TypeRef.print).getD ""

/-- The text of the default value; empty without one. -/
def default (a : DirectiveArgument) : String := a.value.default.getD ""

/-- The directive and the name. -/
def title (a : DirectiveArgument) : String := "@" ++ a.directive ++ "(" ++ a.value.name ++ ")"

/-- The type with the default value. -/
def signature (a : DirectiveArgument) : String :=
  if a.default = "" then a.type else a.type ++ " = " ++ a.default

/-- The description on one line. -/
def summary (a : DirectiveArgument) : String :=
  String.ofList (a.value.description.toList.map fun c => if c = '\n' then ' ' else c)

/-- An argument as data; what is empty is left out. -/
def data (a : DirectiveArgument) : Value :=
  .map ([("directive", .str a.directive), ("name", .str a.value.name), ("type", .str a.type),
      ("required", .bool a.value.isRequired)]
    ++ (if a.default = "" then [] else [("defaultValue", .str a.default)])
    ++ (if a.value.description = "" then [] else [("description", .str a.value.description)]))

/-- An argument as a line. -/
def line (a : DirectiveArgument) : String :=
  a.title ++ ": " ++ a.signature ++ (if a.value.description = "" then "" else " # " ++ a.summary)

end DirectiveArgument

/-- Arguments as a table. -/
def argumentTable (as : List DirectiveArgument) : Table where
  headers := ["argument", "type", "required", "description"]
  rows := as.map fun a => [a.title, a.signature, yes a.value.isRequired, a.summary]

/-- The chosen arguments of some directives. -/
def argumentsOf (f : Filter) (ds : List Directive) : List DirectiveArgument :=
  ds.flatMap fun d => (d.arguments.filter f.admits).map fun v => ⟨d.name, v⟩

/-- The listing of some arguments. -/
def argumentListing (as : List DirectiveArgument) : Results DirectiveArgument where
  items := as
  data := DirectiveArgument.data
  line := some DirectiveArgument.line
  whole := some fun as => (argumentTable as).render

/-- The directive of a name among the known ones; a sign in front of the name does not count. -/
def chosenDirective (ds : List Directive) (name : String) : Except Failure (List Directive) :=
  let bare := if name.startsWith "@" then (name.drop 1).toString else name
  match ds.filter fun d => d.name == bare with
  | [] => .error (.unknownDirective bare (Text.closest? bare (ds.map Directive.name) suggestionDistance))
  | chosen => .ok chosen

/-! ### Definitions -/

/-- Where a definition is; empty if it is nowhere. -/
def definitionPlace (d : Node) : String :=
  match d.loc with
  | some l => toString l.line ++ ":" ++ toString l.column
  | none => ""

/-- The definitions of a document as a table. -/
def outline (doc : Node) : Table where
  headers := ["kind", "name", "location"]
  rows := (doc.definitions.filterMap Child.toOption).map fun d =>
    [d.kind.toName, definitionName d, definitionPlace d]

end QueryCheck.Command
