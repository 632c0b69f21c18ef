import QueryCheck.Syntax.Node
import QueryCheck.Written.SchemaParser

/-! # Documents read from a text

A document as written becomes a tree of nodes. The spans of tokens give the locations of most nodes.
A name is located by looking for its text from the place of the node it belongs to, so its location
is that of the first occurrence there, which may lie inside a comment, a description or a longer
word.

* `Excerpt.find` looks for a text.
* `parseDocument` reads a query text into a document node.
* `parseDirectiveDefinitions` reads a schema text into its directive definitions. -/

namespace QueryCheck.Syntax

open QueryCheck.Source (Span)

/-- The text a document is read from. -/
structure Excerpt where
  chars : List Char
  origin : Origin

namespace Excerpt

/-! ### Places in a text -/

/-- One step along a text: a line feed starts the next line. -/
def placeStep (place : Nat × Nat) (c : Char) : Nat × Nat :=
  if c = '\n' then (place.1 + 1, 1) else (place.1, place.2 + 1)

/-- The line and the column of an offset. -/
def placeOf (e : Excerpt) (offset : Nat) : Nat × Nat :=
  (e.chars.take offset).foldl placeStep (1, 1)

/-- The location of the stretch between two offsets. -/
def location (e : Excerpt) (start stop : Nat) : Location :=
  let place := e.placeOf start
  ⟨start, stop, place.1, place.2, e.origin⟩

/-- The location of a span. -/
def ofSpan (e : Excerpt) (s : Span) : Option Location := some (e.location s.start s.stop)

/-- The offset of the first occurrence of a text in a list of characters that starts at `offset`. -/
def findIn (needle : List Char) : (offset : Nat) → List Char → Option Nat
  | offset, [] => if needle.isEmpty then some offset else none
  | offset, c :: cs =>
    if needle.isPrefixOf (c :: cs) then some offset else findIn needle (offset + 1) cs

/-- The offset of the first occurrence of a text at or after an offset. -/
def find (e : Excerpt) (text : String) (start : Nat) : Option Nat :=
  if text = "" then none else findIn text.toList start (e.chars.drop start)

/-! ### Names and types -/

/-- The location of the first occurrence of a text at or after an offset. -/
def locate (e : Excerpt) (text : String) (start : Nat) : Option Location :=
  (e.find text start).map fun i => e.location i (i + text.length)

/-- A name, located at its first occurrence at or after an offset. -/
def name (e : Excerpt) (text : String) (start : Nat) : Node := .name text (e.locate text start)

/-- Where a node's text ends, or the given offset when it has no location. -/
def endOr (n : Node) (start : Nat) : Nat :=
  match n.loc with
  | some l => l.stop.toNat
  | none => start

/-- A reference to a named type, located like its name. -/
def namedType (e : Excerpt) (text : String) (start : Nat) : Node :=
  .namedType (.node (e.name text start)) (e.locate text start)

/-- The offset after the first word `on` at or after an offset, or that offset when there is
none. -/
def afterOn (e : Excerpt) (start : Nat) : Nat :=
  match e.find "on" start with
  | some i => i + 2
  | none => start

/-- A type reference. -/
def typeRef (e : Excerpt) : Written.TypeRef → Node
  | .named n nonNull s =>
    let inner := e.namedType n s.start
    if nonNull then .nonNullType (.node inner) (e.ofSpan s) else inner
  | .list elem nonNull s =>
    let inner := .listType (.node (e.typeRef elem)) (e.ofSpan s)
    if nonNull then .nonNullType (.node inner) (e.ofSpan s) else inner

/-! ### Values, arguments and directives -/

/-- A literal. -/
def literal (l : Option Location) (raw : String) : Written.LiteralKind → Node
  | .int => .intValue raw l
  | .float => .floatValue raw l
  | .string => .stringValue raw false l
  | .block => .stringValue raw true l
  | .boolean => .booleanValue (raw = "true") l
  | .null => .nullValue l
  | .enum => .enumValue raw l

mutual

/-- A value. -/
def value (e : Excerpt) : Written.Value → Node
  | .variable n s => .var (.node (e.name n s.start)) (e.ofSpan s)
  | .literal k raw s => literal (e.ofSpan s) raw k
  | .list vs s => .listValue (e.values vs) (e.ofSpan s)
  | .object fs s => .objectValue (e.objectFields fs) (e.ofSpan s)

/-- The items of a list value. -/
def values (e : Excerpt) : List Written.Value → List (Child Node)
  | [] => []
  | v :: vs => .node (e.value v) :: e.values vs

/-- The fields of an object value, each located like its name. -/
def objectFields (e : Excerpt) : List (String × Span × Written.Value) → List (Child Node)
  | [] => []
  | (n, s, v) :: fs =>
    .node (.objectField (.node (e.name n s.start)) (.node (e.value v)) (e.locate n s.start))
      :: e.objectFields fs

end

/-- A value that may be missing. -/
def value? (e : Excerpt) (v : Option Written.Value) : Child Node := .ofOption (v.map e.value)

/-- Arguments. -/
def arguments (e : Excerpt) (args : List Written.Argument) : List (Child Node) :=
  args.map fun a =>
    .node (.argument (.node (e.name a.name a.span.start)) (.node (e.value a.value))
      (e.ofSpan a.span))

/-- The location of a directive: with its at sign when that stands right before the name. -/
def directiveLocation (e : Excerpt) (d : Written.Directive) : Option Location :=
  match e.find d.name d.span.start with
  | some i =>
    if 0 < i ∧ e.chars[i - 1]? = some '@' then some (e.location (i - 1) (i + d.name.length))
    else e.ofSpan d.span
  | none => e.ofSpan d.span

/-- Directives. -/
def directives (e : Excerpt) (dirs : List Written.Directive) : List (Child Node) :=
  dirs.map fun d =>
    .node (.directive (.node (e.name d.name d.span.start)) (e.arguments d.arguments)
      (e.directiveLocation d))

/-! ### Selections -/

/-- The location of a selection set: that of its first selection, counted anew. -/
def setLocation (e : Excerpt) (selections : List (Child Node)) : Option Location :=
  match selections with
  | .node n :: _ => n.loc.map fun l => e.location l.start.toNat l.stop.toNat
  | _ => none

/-- A selection set around its selections. -/
def selectionSet (e : Excerpt) (selections : List (Child Node)) : Child Node :=
  .node (.selectionSet selections (e.setLocation selections))

mutual

/-- A selection. A key equal to the name is left out. -/
def selection (e : Excerpt) : Written.Selection → Node
  | .field key n args dirs sel s =>
    let sel :=
      match sel with
      | some ss => e.selectionSet (e.selections ss)
      | none => .absent
    if key = n then
      .field .absent (.node (e.name n s.start)) (e.arguments args) (e.directives dirs) sel
        (e.ofSpan s)
    else
      let a := e.name key s.start
      .field (.node a) (.node (e.name n (endOr a s.start))) (e.arguments args) (e.directives dirs)
        sel (e.ofSpan s)
  | .spread n dirs s =>
    .fragmentSpread (.node (e.name n s.start)) (e.directives dirs) (e.ofSpan s)
  | .inline cond dirs ss s =>
    let cond : Child Node :=
      .ofOption (cond.map fun t => e.namedType t (e.afterOn s.start))
    .inlineFragment cond (e.directives dirs) (e.selectionSet (e.selections ss)) (e.ofSpan s)

/-- Selections. -/
def selections (e : Excerpt) : List Written.Selection → List (Child Node)
  | [] => []
  | s :: ss => .node (e.selection s) :: e.selections ss

end

/-! ### Definitions -/

/-- A variable definition. -/
def variableDefinition (e : Excerpt) (v : Written.VariableDefinition) : Node :=
  .variableDefinition (.node (.var (.node (e.name v.name v.span.start)) (e.ofSpan v.span)))
    (.node (e.typeRef v.type)) (e.value? v.default) (e.directives v.directives) (e.ofSpan v.span)

/-- Variable definitions. -/
def variableDefinitions (e : Excerpt) (vs : List Written.VariableDefinition) :
    List (Child Node) :=
  vs.map fun v => .node (e.variableDefinition v)

/-- An operation; its name is looked for after its keyword. -/
def operation (e : Excerpt) (op : Written.OperationDefinition) : Node :=
  let keyword := op.operation.keyword
  .operationDefinition keyword
    (.ofOption (op.name.map fun n => e.name n (op.span.start + keyword.length)))
    (e.variableDefinitions op.parameters) (e.directives op.directives)
    (e.selectionSet (e.selections op.selections)) (e.ofSpan op.span)

/-- A fragment; its name is looked for after its keyword, and its type condition after the first
`on` that follows the name. -/
def fragment (e : Excerpt) (f : Written.FragmentDefinition) : Node :=
  let n := e.name f.name (f.span.start + "fragment".length)
  .fragmentDefinition (.node n) (e.variableDefinitions f.parameters)
    (.node (e.namedType f.typeCondition (e.afterOn (endOr n f.span.start))))
    (e.directives f.directives) (e.selectionSet (e.selections f.selections)) (e.ofSpan f.span)

/-- A description, if there is one. Descriptions have no location. -/
def description (s : String) : Child Node :=
  if s = "" then .absent else .node (.stringValue s false none)

/-- An argument definition. -/
def inputValue (e : Excerpt) (v : Written.InputValue) : Node :=
  .inputValueDefinition (description v.description) (.node (e.name v.name v.span.start))
    (.node (e.typeRef v.type)) (e.value? v.default) (e.directives v.directives) (e.ofSpan v.span)

/-- The locations a directive is declared for, each looked for after the one before it. -/
def locationNames (e : Excerpt) : (start : Nat) → List String → List (Child Node)
  | _, [] => []
  | start, l :: ls =>
    let n := e.name l start
    .node n :: e.locationNames (endOr n start) ls

/-- A directive definition. -/
def directiveDefinition (e : Excerpt) (d : Written.DirectiveDefinition) : Node :=
  let n := e.name d.name d.span.start
  .directiveDefinition (description d.description) (.node n)
    (d.arguments.map fun a => .node (e.inputValue a)) d.repeatable
    (e.locationNames (endOr n d.span.start) d.locations) (e.ofSpan d.span)

/-- A query document: operations and fragments in the order they start. An empty one has no
location. -/
def queryDocument (e : Excerpt) (doc : Written.QueryDocument) : Node :=
  let defs : List (Nat × Node) :=
    doc.operations.map (fun op => (op.span.start, e.operation op))
      ++ doc.fragments.map fun f => (f.span.start, e.fragment f)
  let ordered := defs.mergeSort fun a b => a.1 ≤ b.1
  .document (ordered.map fun d => .node d.2)
    (if defs.isEmpty then none else some ⟨0, e.chars.length, 1, 1, e.origin⟩)

end Excerpt

/-! ### Reading texts -/

/-- Reads a query text. -/
def parseDocument (text : String) : Except Written.SyntaxError Node :=
  (Written.parseQuery text).map (Excerpt.mk text.toList .document).queryDocument

/-- Reads the directive definitions of a schema text, in the order they start; other definitions are
left out. -/
def parseDirectiveDefinitions (text : String) : Except Written.SyntaxError (List Node) :=
  let e : Excerpt := ⟨text.toList, .definitions⟩
  (Written.parseSchema text).map fun doc =>
    (doc.directives.mergeSort fun a b => a.span.start ≤ b.span.start).map e.directiveDefinition

end QueryCheck.Syntax
