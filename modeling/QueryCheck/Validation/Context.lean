import QueryCheck.Syntax.Printer
import QueryCheck.Typing.Frame

/-! # The state of a validation

A validation keeps the schema and the document, the frames of the walk, and the problems found so
far. Fragments and directives are looked up in tables; each table is made when it is first needed
and stays as it is from then on, even when the document grows.

Nodes made by hand may lack parts that no document read from a text lacks. Where a look-up or a rule
needs such a part the validation is `broken`: it has no result.

* `Context.fragment` and `Context.directive` look names up.
* `Context.enter` and `Context.leave` keep the frames. -/

namespace QueryCheck.Validation

open QueryCheck.Schema
open QueryCheck.Syntax
open QueryCheck.Typing

/-! ### Problems -/

/-- A problem found in a document: what it is, the nodes it is about and the rule that found it. -/
structure Problem where
  message : String
  nodes : List (Child Node)
  rule : String
  deriving Inhabited

/-- The location of the node in a place, if it has one. It is unknown when the place was filled with
no node. -/
def locationIn? : Child Node → Option (Option Location)
  | .absent => some none
  | .null _ => none
  | .node n => some n.loc

namespace Problem

/-- The locations of the nodes a problem is about, for those that have one. It is unknown when a
place for a node was filled with none. -/
def locations? (p : Problem) : Option (List Location) := do
  let ls ← p.nodes.mapM locationIn?
  return ls.filterMap id

end Problem

/-! ### Directives defined in a document -/

/-- The text of a description. -/
def descriptionOf : Child Node → String
  | .node (.stringValue s _ _) => s
  | _ => ""

/-- An argument of a directive defined in a document; a missing node defines none. -/
def argumentOf? : Child Node → Option InputValue
  | .node (.inputValueDefinition desc name type default _ _) =>
    some
      { name := name.nameText, description := descriptionOf desc, type := refIn type
        default :=
          if default.isFilled then some ((default.toOption.map Node.print).getD "") else none }
  | _ => none

/-- A directive defined in a document; a missing node, or a missing argument, defines none. -/
def directiveOf? : Child Node → Option Directive
  | .node (.directiveDefinition desc name args repeatable locs _) => do
    let args ← args.mapM argumentOf?
    return { name := name.nameText, description := descriptionOf desc
             locations := locs.map Child.nameText, arguments := args, repeatable }
  | _ => none

/-- The places for definitions of kind `k` in a document, those filled with none included. -/
def placesOf (k : Kind) (doc : Node) : List (Child Node) :=
  doc.definitions.filter fun
    | .node n => n.kind == k
    | .null k' => k' == k
    | .absent => false

/-- The directives known before a document is looked at. -/
def baseDirectives : Option Schema → List Directive
  | some s => s.directives
  | none => builtinDirectives

/-- The directives a document is checked against; where a name occurs twice the later one counts. It
is unknown when a definition lacks a part. -/
def directiveTable? (s : Option Schema) (doc : Node) : Option (List Directive) := do
  let own ← (placesOf .directiveDefinition doc).mapM directiveOf?
  return baseDirectives s ++ own

/-- The last directive of a table with the given name. -/
def findDirective (table : List Directive) (name : String) : Option Directive :=
  table.reverse.find? fun d => d.name == name

/-- The name of a fragment definition, if it has one. -/
def fragmentName? : Node → Option String
  | .fragmentDefinition (.node (.name s _)) _ _ _ _ _ => some s
  | _ => none

/-- The named fragments of a document. It is unknown when a place was filled with none. -/
def fragmentTable? (doc : Node) : Option (List (String × Node)) := do
  let frags ← (placesOf .fragmentDefinition doc).mapM Child.toOption
  return frags.filterMap fun f => (fragmentName? f).map fun n => (n, f)

/-! ### The context -/

/-- The state of a validation. -/
structure Context where
  schema : Option Schema
  document : Node
  frames : Frames := []
  fragmentTable : Option (List (String × Node)) := none
  directiveTable : Option (List Directive) := none
  problems : List Problem := []
  /-- The names of the fragments met so far, separately for each rule that asks for them. -/
  metNames : List (Nat × String × Child Node) := []
  broken : Bool := false
  deriving Inhabited

namespace Context

/-- Adds a problem after those found so far. -/
def report (c : Context) (p : Problem) : Context := { c with problems := c.problems ++ [p] }

/-- Marks the validation as having no result. -/
def breakDown (c : Context) : Context := { c with broken := true }

/-- Makes the table of fragments unless it is there. -/
def withFragments (c : Context) : Context :=
  match c.fragmentTable with
  | some _ => c
  | none =>
    match fragmentTable? c.document with
    | some table => { c with fragmentTable := some table }
    | none => c.breakDown

/-- The fragment with the given name: of several the first. -/
def fragment (c : Context) (name : String) : Option Node × Context :=
  let c := c.withFragments
  ((c.fragmentTable.getD []).lookup name, c)

/-- Makes the table of directives unless it is there. -/
def withDirectives (c : Context) : Context :=
  match c.directiveTable with
  | some _ => c
  | none =>
    match directiveTable? c.schema c.document with
    | some table => { c with directiveTable := some table }
    | none => c.breakDown

/-- The directive with the given name. -/
def directive (c : Context) (name : String) : Option Directive × Context :=
  let c := c.withDirectives
  (findDirective (c.directiveTable.getD []) name, c)

/-- Derives the frame inside a node. -/
def enter (n : Node) (c : Context) : Context :=
  let c := if n.kind = .directive then c.withDirectives else c
  let c := if resolvable c.schema n then c else c.breakDown
  let lookup := findDirective (c.directiveTable.getD [])
  { c with frames := c.frames.enter c.schema lookup n }

/-- Returns to the frame around a node. -/
def leave (n : Node) (c : Context) : Context := { c with frames := c.frames.leave n }

/-- The innermost frame. -/
def top (c : Context) : Frame := c.frames.top

end Context

end QueryCheck.Validation
