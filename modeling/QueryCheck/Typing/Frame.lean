import QueryCheck.Typing.Reference

/-! # Type context

What is known about types at a place of a document. A frame holds the type context of one nesting
level; entering a node that bears on types derives its frame from the enclosing one, and leaving it
returns to that.

* `Frame.enter` derives the frame inside a node, and `resolvable` tells whether the type it needs
  has an answer.
* `Frames.enter` and `Frames.leave` keep the stack of frames; nodes that do not bear on types leave
  it as it is. -/

namespace QueryCheck.Typing

open QueryCheck.Schema
open QueryCheck.Syntax

/-- The type context of one nesting level. -/
structure Frame where
  /-- The type selected from or written as a condition. -/
  type : Option TypeRef := none
  /-- The type whose fields may be selected. -/
  parent : Option NamedType := none
  /-- The selected field. -/
  field : Option Field := none
  /-- The argument a value is given for. -/
  argument : Option InputValue := none
  /-- The directive an argument is given to. -/
  directive : Option Directive := none
  /-- The type a value has to have. -/
  input : Option TypeRef := none
  inDirective : Bool := false
  deriving Repr, Inhabited

/-- Whether nodes of a kind bear on types. -/
def tracked : Kind → Bool
  | .operationDefinition | .selectionSet | .field | .directive | .argument | .inlineFragment
  | .fragmentDefinition | .variableDefinition | .listValue | .objectField => true
  | _ => false

/-! ### Fields every schema has -/

/-- The field that gives the name of an object's type. -/
def typenameField : Field :=
  { name := "__typename", description := "The name of the current Object type at runtime."
    type := some (.nonNull (some (.named "String"))) }

/-- The field that gives the schema. -/
def schemaField : Field :=
  { name := "__schema", description := "Access the current type schema of this server."
    type := some (.nonNull (some (.named "__Schema"))) }

/-- The field that gives one type of the schema. -/
def typeField : Field :=
  { name := "__type", description := "Request the type information of a single type."
    type := some (.named "__Type")
    arguments := [{ name := "name", type := some (.nonNull (some (.named "String"))) }] }

/-- The field of a type with the given name, fields every schema has included. -/
def fieldOf (s : Option Schema) (parent : Option NamedType) (name : String) : Option Field := do
  let t ← parent
  if name == typenameField.name then return typenameField
  let isRoot := (s.bind Schema.query).getD "" == t.name && s.isSome
  if isRoot && name == schemaField.name then return schemaField
  if isRoot && name == typeField.name then return typeField
  t.field? name

/-! ### Types stated by nodes -/

/-- The place of the type that is resolved when a node is entered. -/
def statedType : Node → Child Node
  | .inlineFragment t _ _ _ => t
  | .fragmentDefinition _ _ t _ _ _ => t
  | .variableDefinition _ t _ _ _ => t
  | _ => .absent

/-- Whether the type that a node states has an answer when it is resolved. -/
def resolvable (s : Option Schema) (n : Node) : Bool :=
  (statedType n).toOption.all fun t => (resolve? s t).isSome

/-! ### Frames -/

/-- The innermost name of a type that may be unknown. -/
def namedOf (t : Option TypeRef) : String := (t.map TypeRef.namedType).getD ""

/-- The type of the items of a list value where the list has to have type `t`. Where a list is not
expected its items are taken to stand for themselves. -/
def itemType (t : Option TypeRef) : Option TypeRef :=
  let bare :=
    match t with
    | some (.nonNull inner) => inner
    | t => t
  match bare with
  | some (.list inner) => inner
  | t => t

/-- The frame of the root type of an operation; a missing keyword means a query. -/
def rootRef (s : Option Schema) (operation : String) : Option TypeRef := do
  let root ← (← s).rootType? (if operation = "" then "query" else operation)
  return .named root.name

namespace Frame

/-- The frame inside a node, derived from the enclosing one. `lookup` knows the directives. -/
def enter (s : Option Schema) (lookup : String → Option Directive) (n : Node) (f : Frame) : Frame :=
  match n with
  | .operationDefinition op _ _ _ _ _ => { f with type := rootRef s op }
  | .selectionSet _ _ =>
    { f with parent := (Schema.typeOf? s (namedOf f.type)).filter NamedType.isComposite }
  | .field _ name _ _ _ _ =>
    let def? := fieldOf s f.parent name.nameText
    { f with field := def?, type := def?.bind Field.type }
  | .directive name _ _ => { f with directive := lookup name.nameText, inDirective := true }
  | .argument name _ _ =>
    let arg? :=
      if f.inDirective then f.directive.bind (·.argument? name.nameText)
      else f.field.bind (·.argument? name.nameText)
    { f with argument := arg?, input := arg?.bind InputValue.type }
  | .inlineFragment (.node t) _ _ _ => { f with type := resolve s t }
  | .inlineFragment _ _ _ _ =>
    if namedOf f.type = "" then f else { f with type := some (.named (namedOf f.type)) }
  | .fragmentDefinition _ _ t _ _ _ => { f with type := resolveIn s t }
  | .variableDefinition _ t _ _ _ => { f with input := resolveIn s t }
  | .listValue _ _ => { f with input := itemType f.input }
  | .objectField name _ _ =>
    let field? : Option InputValue := do
      let t : NamedType ← Schema.typeOf? s (namedOf f.input)
      if t.kind == .inputObject then t.inputField? name.nameText else none
    { f with input := field?.bind InputValue.type }
  | _ => f

end Frame

/-- The frames of the nodes a walk is in, innermost first. -/
abbrev Frames := List Frame

namespace Frames

/-- The innermost frame; outside all nodes nothing is known. -/
def top (fs : Frames) : Frame := fs.headD {}

/-- The frames after entering a node. -/
def enter (s : Option Schema) (lookup : String → Option Directive) (n : Node) (fs : Frames) : Frames :=
  if tracked n.kind then (fs.top.enter s lookup n) :: fs else fs

/-- The frames after leaving a node. -/
def leave (n : Node) (fs : Frames) : Frames := if tracked n.kind then fs.tail else fs

end Frames

end QueryCheck.Typing
