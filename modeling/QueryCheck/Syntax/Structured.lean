import QueryCheck.Data.Json
import QueryCheck.Syntax.Node

/-! # The structured form of a node

A node as an ordered map: its kind first, then its fields, then its location. Children that are
missing and empty lists are left out. Two nodes are equal when the JSON texts of their structured
forms without locations are; a form that is nested too deep for JSON has no text, and no node is
equal to a node with such a form.

* `Node.structured` is the structured form.
* `Child.equal` and `Node.equal` compare two nodes by structure. -/

namespace QueryCheck.Syntax

open QueryCheck.Data (Value)

/-- A location as an ordered map. -/
def Location.structured (l : Location) : Value :=
  .map [("start", .int l.start), ("end", .int l.stop), ("line", .int l.line),
        ("column", .int l.column)]

/-- A list item in structured form; a missing one is the empty map. -/
def Child.structuredItem : Child Value → Value
  | .node v => v
  | _ => .map []

/-- The entry of a field, if it has one. -/
def entryOf (key : String) : Slot Value → List (String × Value)
  | .text s => [(key, .str s)]
  | .flag b => [(key, .bool b)]
  | .one c => c.toOption.toList.map fun v => (key, v)
  | .many [] => []
  | .many cs => [(key, .list (cs.map Child.structuredItem))]

/-- The entry of a flag that has one only when it is set. -/
def markOf (key : String) : Slot Value → List (String × Value)
  | .flag b => if b then [(key, .bool true)] else []
  | s => entryOf key s

/-- The entry of a declared field, if it has one. -/
def structuredEntry : (String × Shape) → Slot Value → List (String × Value)
  | (key, .mark), s => markOf key s
  | (key, _), s => entryOf key s

/-- The entries of the fields of a node of kind `k`. -/
def structuredFields (k : Kind) (ss : List (Slot Value)) : List (String × Value) :=
  match k, ss with
  | .name, [value] => entryOf "value" value
  | .document, [definitions] => entryOf "definitions" definitions
  | .operationDefinition, [operation, name, variableDefinitions, directives, selectionSet] =>
    entryOf "operation" operation ++ entryOf "name" name
      ++ entryOf "variableDefinitions" variableDefinitions ++ entryOf "directives" directives
      ++ entryOf "selectionSet" selectionSet
  | .variableDefinition, [var, type, defaultValue, directives] =>
    entryOf "variable" var ++ entryOf "type" type ++ entryOf "defaultValue" defaultValue
      ++ entryOf "directives" directives
  | .variable, [name] => entryOf "name" name
  | .selectionSet, [selections] => entryOf "selections" selections
  | .field, [key, name, arguments, directives, selectionSet] =>
    entryOf "alias" key ++ entryOf "name" name ++ entryOf "arguments" arguments
      ++ entryOf "directives" directives ++ entryOf "selectionSet" selectionSet
  | .argument, [name, value] => entryOf "name" name ++ entryOf "value" value
  | .fragmentSpread, [name, directives] => entryOf "name" name ++ entryOf "directives" directives
  | .inlineFragment, [typeCondition, directives, selectionSet] =>
    entryOf "typeCondition" typeCondition ++ entryOf "directives" directives
      ++ entryOf "selectionSet" selectionSet
  | .fragmentDefinition, [name, variableDefinitions, typeCondition, directives, selectionSet] =>
    entryOf "name" name ++ entryOf "variableDefinitions" variableDefinitions
      ++ entryOf "typeCondition" typeCondition ++ entryOf "directives" directives
      ++ entryOf "selectionSet" selectionSet
  | .intValue, [value] => entryOf "value" value
  | .floatValue, [value] => entryOf "value" value
  | .stringValue, [value, block] => entryOf "value" value ++ markOf "block" block
  | .booleanValue, [value] => entryOf "value" value
  | .nullValue, [] => []
  | .enumValue, [value] => entryOf "value" value
  | .listValue, [values] => entryOf "values" values
  | .objectValue, [fields] => entryOf "fields" fields
  | .objectField, [name, value] => entryOf "name" name ++ entryOf "value" value
  | .directive, [name, arguments] => entryOf "name" name ++ entryOf "arguments" arguments
  | .namedType, [name] => entryOf "name" name
  | .listType, [type] => entryOf "type" type
  | .nonNullType, [type] => entryOf "type" type
  | .directiveDefinition, [description, name, arguments, repeatable, locations] =>
    entryOf "description" description ++ entryOf "name" name ++ entryOf "arguments" arguments
      ++ entryOf "repeatable" repeatable ++ entryOf "locations" locations
  | .inputValueDefinition, [description, name, type, defaultValue, directives] =>
    entryOf "description" description ++ entryOf "name" name ++ entryOf "type" type
      ++ entryOf "defaultValue" defaultValue ++ entryOf "directives" directives
  | k, ss => (List.zipWith structuredEntry k.declared ss).flatten

/-- The structured form of a node from the structured forms of its children. -/
def structuredParts (k : Kind) (ss : List (Slot Value)) (l : Option Location) : Value :=
  .map (("kind", .str k.toName) :: structuredFields k ss
    ++ l.toList.map fun loc => ("loc", loc.structured))

namespace Node

/-- The structured form of a node. -/
def structured : Node → Value := fold structuredParts

/-- The structured form without locations. -/
def shape (n : Node) : Value := n.structured.withoutLocations

/-- Whether two nodes have the same structure; locations do not matter. The structured forms are
compared as they are written, and one that cannot be written is like none. -/
def equal (a b : Node) : Bool := a.shape.writtenAlike b.shape

/-- The structured form as JSON on one line, or only the kind when the form cannot be written. -/
def toText (n : Node) : String := (n.structured.toJson?).getD ("<" ++ n.kind.toName ++ ">")

end Node

namespace Child

/-- The structured form of the node in a place, which is empty where there is none. -/
def structured (c : Child Node) : Value := (c.map Node.structured).structuredItem

/-- The structured form without locations. -/
def shape (c : Child Node) : Value := c.structured.withoutLocations

/-- Whether two places hold nodes of the same structure, as `Node.equal` tells it; places without a
node are the same. -/
def equal (a b : Child Node) : Bool := a.shape.writtenAlike b.shape

end Child

end QueryCheck.Syntax
