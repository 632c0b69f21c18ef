/-! # Node kinds

The closed set of node kinds of a document, the families a kind may belong to, and the fields each
kind declares. Nodes are built by the table `Kind.declared`. Listing children, copying and writing
structured data name the fields of a kind themselves.

* `Kind.code` numbers the kinds from one in the order they are listed in `Kind.all`.
* `Kind.declared k` lists the fields of `k` in declared order, each with its `Shape`. -/

namespace QueryCheck.Syntax

/-- The kind of a node. -/
inductive Kind where
  | name
  | document
  | operationDefinition
  | variableDefinition
  | variable
  | selectionSet
  | field
  | argument
  | fragmentSpread
  | inlineFragment
  | fragmentDefinition
  | intValue
  | floatValue
  | stringValue
  | booleanValue
  | nullValue
  | enumValue
  | listValue
  | objectValue
  | objectField
  | directive
  | namedType
  | listType
  | nonNullType
  | directiveDefinition
  | inputValueDefinition
  deriving DecidableEq, Repr, Inhabited

namespace Kind

/-- Every kind, in numbering order. -/
def all : List Kind :=
  [name, document, operationDefinition, variableDefinition, Kind.variable, selectionSet, field,
   argument, fragmentSpread, inlineFragment, fragmentDefinition, intValue, floatValue, stringValue,
   booleanValue, nullValue, enumValue, listValue, objectValue, objectField, directive, namedType,
   listType, nonNullType, directiveDefinition, inputValueDefinition]

/-- The number of a kind; numbering starts at one. -/
def code (k : Kind) : Nat := k.ctorIdx + 1

/-- The kind with the given number, if there is one. -/
def ofCode? (n : Nat) : Option Kind :=
  if n = 0 then none else all[n - 1]?

/-- The display name of a kind. -/
def toName : Kind → String
  | name => "Name"
  | document => "Document"
  | operationDefinition => "OperationDefinition"
  | variableDefinition => "VariableDefinition"
  | Kind.variable => "Variable"
  | selectionSet => "SelectionSet"
  | field => "Field"
  | argument => "Argument"
  | fragmentSpread => "FragmentSpread"
  | inlineFragment => "InlineFragment"
  | fragmentDefinition => "FragmentDefinition"
  | intValue => "IntValue"
  | floatValue => "FloatValue"
  | stringValue => "StringValue"
  | booleanValue => "BooleanValue"
  | nullValue => "NullValue"
  | enumValue => "EnumValue"
  | listValue => "ListValue"
  | objectValue => "ObjectValue"
  | objectField => "ObjectField"
  | directive => "Directive"
  | namedType => "NamedType"
  | listType => "ListType"
  | nonNullType => "NonNullType"
  | directiveDefinition => "DirectiveDefinition"
  | inputValueDefinition => "InputValueDefinition"

/-- The kind with the given display name, if there is one. -/
def ofName? (s : String) : Option Kind := all.find? fun k => k.toName == s

/-- The display name of a kind number; a number outside the table is shown as it is. -/
def nameOfCode (n : Nat) : String :=
  match ofCode? n with
  | some k => k.toName
  | none => "Kind(" ++ toString n ++ ")"

end Kind

/-! ### Families and shapes -/

/-- A family of kinds that may stand in the same place of a document. -/
inductive Family where
  | definition
  | selection
  | value
  | typeRef
  deriving DecidableEq, Repr, Inhabited

namespace Family

/-- The kinds of a family. -/
def kinds : Family → List Kind
  | definition => [.operationDefinition, .fragmentDefinition, .directiveDefinition]
  | selection => [.field, .fragmentSpread, .inlineFragment]
  | value =>
    [.variable, .intValue, .floatValue, .stringValue, .booleanValue, .nullValue, .enumValue,
     .listValue, .objectValue]
  | typeRef => [.namedType, .listType, .nonNullType]

end Family

/-- What a place of a document takes: nodes of one kind or nodes of a family. -/
inductive Wanted where
  | kind (k : Kind)
  | family (f : Family)
  deriving DecidableEq, Repr, Inhabited

namespace Wanted

/-- Whether a node of kind `k` may stand in the place. -/
def admits : Wanted → Kind → Bool
  | kind k', k => k == k'
  | family f, k => f.kinds.contains k

end Wanted

/-- The shape of a declared field. -/
inductive Shape where
  /-- A text. -/
  | text
  /-- The keyword of an operation, held as a text. -/
  | operation
  /-- A flag that is always part of the structured form. -/
  | flag
  /-- A flag that is part of the structured form only when it is set. -/
  | mark
  /-- At most one node. -/
  | one (w : Wanted)
  /-- Any number of nodes. -/
  | many (w : Wanted)
  deriving DecidableEq, Repr, Inhabited

namespace Kind

/-- The fields a kind declares, in order. -/
def declared : Kind → List (String × Shape)
  | name => [("value", .text)]
  | document => [("definitions", .many (.family .definition))]
  | operationDefinition =>
    [("operation", .operation),
     ("name", .one (.kind name)),
     ("variableDefinitions", .many (.kind variableDefinition)),
     ("directives", .many (.kind directive)),
     ("selectionSet", .one (.kind selectionSet))]
  | variableDefinition =>
    [("variable", .one (.kind Kind.variable)),
     ("type", .one (.family .typeRef)),
     ("defaultValue", .one (.family .value)),
     ("directives", .many (.kind directive))]
  | Kind.variable => [("name", .one (.kind name))]
  | selectionSet => [("selections", .many (.family .selection))]
  | field =>
    [("alias", .one (.kind name)),
     ("name", .one (.kind name)),
     ("arguments", .many (.kind argument)),
     ("directives", .many (.kind directive)),
     ("selectionSet", .one (.kind selectionSet))]
  | argument => [("name", .one (.kind name)), ("value", .one (.family .value))]
  | fragmentSpread => [("name", .one (.kind name)), ("directives", .many (.kind directive))]
  | inlineFragment =>
    [("typeCondition", .one (.kind namedType)),
     ("directives", .many (.kind directive)),
     ("selectionSet", .one (.kind selectionSet))]
  | fragmentDefinition =>
    [("name", .one (.kind name)),
     ("variableDefinitions", .many (.kind variableDefinition)),
     ("typeCondition", .one (.kind namedType)),
     ("directives", .many (.kind directive)),
     ("selectionSet", .one (.kind selectionSet))]
  | intValue => [("value", .text)]
  | floatValue => [("value", .text)]
  | stringValue => [("value", .text), ("block", .mark)]
  | booleanValue => [("value", .flag)]
  | nullValue => []
  | enumValue => [("value", .text)]
  | listValue => [("values", .many (.family .value))]
  | objectValue => [("fields", .many (.kind objectField))]
  | objectField => [("name", .one (.kind name)), ("value", .one (.family .value))]
  | directive => [("name", .one (.kind name)), ("arguments", .many (.kind argument))]
  | namedType => [("name", .one (.kind name))]
  | listType => [("type", .one (.family .typeRef))]
  | nonNullType => [("type", .one (.family .typeRef))]
  | directiveDefinition =>
    [("description", .one (.kind stringValue)),
     ("name", .one (.kind name)),
     ("arguments", .many (.kind inputValueDefinition)),
     ("repeatable", .flag),
     ("locations", .many (.kind name))]
  | inputValueDefinition =>
    [("description", .one (.kind stringValue)),
     ("name", .one (.kind name)),
     ("type", .one (.family .typeRef)),
     ("defaultValue", .one (.family .value)),
     ("directives", .many (.kind directive))]

end Kind

end QueryCheck.Syntax
