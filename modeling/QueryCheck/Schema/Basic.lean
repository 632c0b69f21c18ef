import QueryCheck.Schema.TypeRef

/-! # Schemas

What documents are checked against: the root types, the named types with their fields, and the known
directives. Types and directives are kept in the order of their names, each name once. A schema may
be missing altogether; look-ups in a missing schema find nothing. -/

namespace QueryCheck

open QueryCheck.Written (TypeKind)

namespace Schema

/-- An argument or a field of an input object. `default` is the text of its default value. -/
structure InputValue where
  name : String
  description : String := ""
  type : Option TypeRef
  default : Option String := none
  deriving Repr, Inhabited

namespace InputValue

/-- Whether a value has to be given: the type is non-null and there is no default. -/
def isRequired (v : InputValue) : Bool :=
  (v.type.map TypeRef.isNonNull).getD false && v.default.isNone

/-- The first of some input values with the given name. -/
def find? (values : List InputValue) (name : String) : Option InputValue :=
  values.find? fun v => v.name == name

/-- The names of some input values, in order. -/
def names (values : List InputValue) : List String := values.map InputValue.name

end InputValue

/-- A field of an object or an interface. -/
structure Field where
  name : String
  description : String := ""
  type : Option TypeRef
  arguments : List InputValue := []
  deriving Repr, Inhabited

/-- A directive. -/
structure Directive where
  name : String
  description : String := ""
  locations : List String := []
  arguments : List InputValue := []
  repeatable : Bool := false
  deriving Repr, Inhabited

/-- A named type. -/
structure NamedType where
  name : String
  kind : TypeKind
  description : String := ""
  fields : List Field := []
  interfaces : List String := []
  members : List String := []
  values : List String := []
  inputFields : List InputValue := []
  deriving Repr, Inhabited

namespace NamedType

/-- The field with the given name. -/
def field? (t : NamedType) (name : String) : Option Field := t.fields.find? fun f => f.name == name

/-- The input field with the given name. -/
def inputField? (t : NamedType) (name : String) : Option InputValue :=
  InputValue.find? t.inputFields name

/-- Whether selections can be made on the type. -/
def isComposite (t : NamedType) : Bool :=
  t.kind == .object || t.kind == .interface || t.kind == .union

/-- Whether the type can be that of an argument or a variable. -/
def isInput (t : NamedType) : Bool :=
  t.kind == .scalar || t.kind == .enum || t.kind == .inputObject

end NamedType

/-- The argument of a field with the given name. -/
def Field.argument? (f : Field) (name : String) : Option InputValue :=
  InputValue.find? f.arguments name

/-- The argument of a directive with the given name. -/
def Directive.argument? (d : Directive) (name : String) : Option InputValue :=
  InputValue.find? d.arguments name

end Schema

open Schema

/-- A schema. -/
structure Schema where
  query : Option String := none
  mutation : Option String := none
  subscription : Option String := none
  types : List NamedType := []
  directives : List Directive := []
  deriving Repr, Inhabited

namespace Schema

/-- The type with the given name. -/
def type? (s : Schema) (name : String) : Option NamedType := s.types.find? fun t => t.name == name

/-- The directive with the given name. -/
def directive? (s : Schema) (name : String) : Option Directive :=
  s.directives.find? fun d => d.name == name

/-- The names of all types, in order. -/
def typeNames (s : Schema) : List String := s.types.map NamedType.name

/-- The root type of the operation with the given keyword. -/
def rootType? (s : Schema) (operation : String) : Option NamedType := do
  let op ← Written.Operation.ofKeyword? operation
  let name ←
    match op with
    | .query => s.query
    | .mutation => s.mutation
    | .subscription => s.subscription
  s.type? name

/-- The directives that are known without a schema. -/
def builtinDirectives : List Directive :=
  [{ name := "include"
     description :=
      "Directs the executor to include this field or fragment only when the `if` argument is true."
     arguments :=
      [{ name := "if", description := "Included when true."
         type := some (.nonNull (some (.named "Boolean"))) }]
     locations := ["FIELD", "FRAGMENT_SPREAD", "INLINE_FRAGMENT"] },
   { name := "skip"
     description :=
      "Directs the executor to skip this field or fragment when the `if` argument is true."
     arguments :=
      [{ name := "if", description := "Skipped when true."
         type := some (.nonNull (some (.named "Boolean"))) }]
     locations := ["FIELD", "FRAGMENT_SPREAD", "INLINE_FRAGMENT"] },
   { name := "deprecated"
     description := "Marks an element of a GraphQL schema as no longer supported."
     arguments :=
      [{ name := "reason", description := "Explains why this element was deprecated."
         type := some (.named "String"), default := some "\"No longer supported\"" }]
     locations :=
      ["FIELD_DEFINITION", "ARGUMENT_DEFINITION", "INPUT_FIELD_DEFINITION", "ENUM_VALUE"] }]

end Schema

/-- The type with the given name of a schema that may be missing. -/
def Schema.typeOf? (s : Option Schema) (name : String) : Option NamedType := do (← s).type? name

end QueryCheck
