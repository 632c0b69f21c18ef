import QueryCheck.Source.Token

/-! # Documents as written

What the grammar of the query language and of the schema language yields: definitions with the spans
of the tokens that mark their place. Nothing is resolved here; names are texts.

* `QueryDocument` holds the operations and fragments of a query text.
* `SchemaDocument` holds the definitions and extensions of a schema text. -/

namespace QueryCheck.Written

open QueryCheck.Source (Span)

/-- A type reference. The span is that of the name, or of the token after the opening bracket. -/
inductive TypeRef where
  | named (name : String) (nonNull : Bool) (span : Span)
  | list (elem : TypeRef) (nonNull : Bool) (span : Span)
  deriving Repr, Inhabited

namespace TypeRef

/-- Whether the reference is marked non-null. -/
def nonNull : TypeRef → Bool
  | named _ b _ => b
  | list _ b _ => b

/-- The span of the reference. -/
def span : TypeRef → Span
  | named _ _ s => s
  | list _ _ s => s

/-- The innermost name. -/
def name : TypeRef → String
  | named n _ _ => n
  | list t _ _ => t.name

/-- The reference in the notation of the language. -/
def print : TypeRef → String
  | named n b _ => n ++ (if b then "!" else "")
  | list t b _ => "[" ++ t.print ++ "]" ++ (if b then "!" else "")

end TypeRef

/-- The literals that hold no other values. -/
inductive LiteralKind where
  | int
  | float
  | string
  | block
  | boolean
  | null
  | enum
  deriving DecidableEq, Repr, Inhabited

/-- A value. -/
inductive Value where
  | variable (name : String) (span : Span)
  | literal (kind : LiteralKind) (raw : String) (span : Span)
  | list (items : List Value) (span : Span)
  | object (fields : List (String × Span × Value)) (span : Span)
  deriving Repr, Inhabited

/-- An argument; the span is that of its name. -/
structure Argument where
  name : String
  value : Value
  span : Span
  deriving Repr, Inhabited

/-- A directive; the span is that of its name. -/
structure Directive where
  name : String
  arguments : List Argument
  span : Span
  deriving Repr, Inhabited

/-- A selection. The key of a field is its alias, and its name when none was written; a spread is
placed at its name and an inline fragment at the token after its dots. -/
inductive Selection where
  | field (key name : String) (arguments : List Argument) (directives : List Directive)
      (selections : Option (List Selection)) (span : Span)
  | spread (name : String) (directives : List Directive) (span : Span)
  | inline (typeCondition : Option String) (directives : List Directive)
      (selections : List Selection) (span : Span)
  deriving Repr, Inhabited

/-- A variable definition; the span is that of its dollar sign. -/
structure VariableDefinition where
  name : String
  type : TypeRef
  default : Option Value
  directives : List Directive
  span : Span
  deriving Repr, Inhabited

/-- The three kinds of operations. -/
inductive Operation where
  | query
  | mutation
  | subscription
  deriving DecidableEq, Repr, Inhabited

namespace Operation

/-- The keyword of an operation. -/
def keyword : Operation → String
  | query => "query"
  | mutation => "mutation"
  | subscription => "subscription"

/-- The operation with the given keyword. -/
def ofKeyword? : String → Option Operation
  | "query" => some query
  | "mutation" => some mutation
  | "subscription" => some subscription
  | _ => none

end Operation

/-- An operation definition. -/
structure OperationDefinition where
  operation : Operation
  name : Option String
  parameters : List VariableDefinition
  directives : List Directive
  selections : List Selection
  span : Span
  deriving Repr, Inhabited

/-- A fragment definition. -/
structure FragmentDefinition where
  name : String
  parameters : List VariableDefinition
  typeCondition : String
  directives : List Directive
  selections : List Selection
  span : Span
  deriving Repr, Inhabited

/-- The operations and the fragments of a query text. -/
structure QueryDocument where
  operations : List OperationDefinition := []
  fragments : List FragmentDefinition := []
  deriving Repr, Inhabited

/-! ### Schema language -/

/-- The kinds of types. -/
inductive TypeKind where
  | scalar
  | object
  | interface
  | union
  | enum
  | inputObject
  deriving DecidableEq, Repr, Inhabited

/-- How a kind of type is spelled. -/
def TypeKind.spelled : TypeKind → String
  | scalar => "SCALAR"
  | object => "OBJECT"
  | interface => "INTERFACE"
  | union => "UNION"
  | enum => "ENUM"
  | inputObject => "INPUT_OBJECT"

/-- An argument or an input field. The span is that of its description, or of its name. -/
structure InputValue where
  description : String
  name : String
  type : TypeRef
  default : Option Value
  directives : List Directive
  span : Span
  deriving Repr, Inhabited

/-- A field of an object, an interface or an input object. Only the last may have a default. -/
structure Field where
  description : String
  name : String
  arguments : List InputValue
  type : TypeRef
  default : Option Value
  directives : List Directive
  span : Span
  deriving Repr, Inhabited

/-- A value of an enum. -/
structure EnumValue where
  description : String
  name : String
  directives : List Directive
  span : Span
  deriving Repr, Inhabited

/-- A type definition or extension. The span is that of its name. -/
structure TypeDefinition where
  kind : TypeKind
  description : String := ""
  name : String
  interfaces : List String := []
  directives : List Directive := []
  fields : List Field := []
  members : List String := []
  values : List EnumValue := []
  span : Span
  deriving Repr, Inhabited

/-- A directive definition. The span is that of its name. -/
structure DirectiveDefinition where
  description : String
  name : String
  arguments : List InputValue
  repeatable : Bool
  locations : List String
  span : Span
  deriving Repr, Inhabited

/-- A root operation type of a schema. -/
structure RootOperation where
  operation : Operation
  type : String
  span : Span
  deriving Repr, Inhabited

/-- A schema definition or extension. -/
structure SchemaDefinition where
  directives : List Directive
  roots : List RootOperation
  span : Span
  deriving Repr, Inhabited

/-- The definitions of a schema text, each sort in the order written. -/
structure SchemaDocument where
  schemas : List SchemaDefinition := []
  schemaExtensions : List SchemaDefinition := []
  types : List TypeDefinition := []
  typeExtensions : List TypeDefinition := []
  directives : List DirectiveDefinition := []
  deriving Repr, Inhabited

end QueryCheck.Written
