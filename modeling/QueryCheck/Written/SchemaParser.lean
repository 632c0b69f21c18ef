import QueryCheck.Written.Parser

/-! # The grammar of schema documents

Type, directive and schema definitions and extensions, each with an optional description in front.
Values are constant everywhere but in the directives of an input extension.

* `parseSchema` reads the definitions of a text. -/

namespace QueryCheck.Written

open QueryCheck.Source

namespace Parser

/-! ### Parts of definitions -/

/-- A description, if one is next; an empty one counts as none. -/
def description : Parser String := do
  let t ← peek
  if t.kind = .string ∨ t.kind = .blockString then
    discard next
    return t.value
  else return ""

/-- An argument definition or an input field. -/
def inputValue : Parser InputValue := do
  let here := (← peek).span
  let desc ← description
  let n ← name
  discard (expect .colon)
  let t ← typeRef
  let d ← defaultValue
  return ⟨desc, n, t, d, ← directives true, here⟩

/-- Argument definitions in parentheses, if there are any. -/
def argumentDefinitions : Parser (List InputValue) := nonEmpty .parenL .parenR inputValue

/-- A field of an object or an interface. -/
def fieldDefinition : Parser Field := do
  let here := (← peek).span
  let desc ← description
  let n ← name
  let args ← argumentDefinitions
  discard (expect .colon)
  let t ← typeRef
  return ⟨desc, n, args, t, none, ← directives true, here⟩

/-- The fields of an object or an interface, if there are any. -/
def fieldDefinitions : Parser (List Field) := nonEmpty .braceL .braceR fieldDefinition

/-- A field of an input object. -/
def inputField : Parser Field := do
  let v ← inputValue
  return ⟨v.description, v.name, [], v.type, v.default, v.directives, v.span⟩

/-- The fields of an input object, if there are any. -/
def inputFields : Parser (List Field) := nonEmpty .braceL .braceR inputField

/-- A value of an enum. -/
def enumValue : Parser EnumValue := do
  let here := (← peek).span
  let desc ← description
  let n ← name
  return ⟨desc, n, ← directives true, here⟩

/-- The values of an enum, if there are any. -/
def enumValues : Parser (List EnumValue) := nonEmpty .braceL .braceR enumValue

/-- The interfaces after the word `implements`, if it is there. -/
def implementsInterfaces : Parser (List String) := do
  if (← peek).value = "implements" then
    discard next
    separated .amp name
  else return []

/-- The members of a union after an equals sign, if it is there. -/
def unionMembers : Parser (List String) := do
  if ← skip .equals then separated .pipe name else return []

/-- A root operation type. -/
def rootOperation : Parser RootOperation := do
  let here := (← peek).span
  let op ← operationType
  discard (expect .colon)
  return ⟨op, ← name, here⟩

/-- The root operation types of a schema, if there are any. -/
def rootOperations : Parser (List RootOperation) := nonEmpty .braceL .braceR rootOperation

/-- The places a directive may be declared for. -/
def directiveLocations : List String :=
  ["QUERY", "MUTATION", "SUBSCRIPTION", "FIELD", "FRAGMENT_DEFINITION", "FRAGMENT_SPREAD",
   "INLINE_FRAGMENT", "VARIABLE_DEFINITION", "SCHEMA", "SCALAR", "OBJECT", "FIELD_DEFINITION",
   "ARGUMENT_DEFINITION", "INTERFACE", "UNION", "ENUM", "ENUM_VALUE", "INPUT_OBJECT",
   "INPUT_FIELD_DEFINITION"]

/-- A place a directive is declared for. -/
def directiveLocation : Parser String := do
  let t ← expect .name
  if directiveLocations.contains t.value then return t.value else unexpectedToken t

/-! ### Definitions -/

/-- The kind of type a keyword defines. -/
def typeKind? : String → Option TypeKind
  | "scalar" => some .scalar
  | "type" => some .object
  | "interface" => some .interface
  | "union" => some .union
  | "enum" => some .enum
  | "input" => some .inputObject
  | _ => none

/-- The keyword that defines a kind of type. -/
def typeKeyword : TypeKind → String
  | .scalar => "scalar"
  | .object => "type"
  | .interface => "interface"
  | .union => "union"
  | .enum => "enum"
  | .inputObject => "input"

/-- A type definition of the given kind. -/
def typeDefinition (kind : TypeKind) (desc : String) : Parser TypeDefinition := do
  expectWord (typeKeyword kind)
  let here := (← peek).span
  let n ← name
  let interfaces ←
    if kind = .object ∨ kind = .interface then implementsInterfaces else pure []
  let dirs ← directives true
  let base : TypeDefinition :=
    { kind, description := desc, name := n, interfaces, directives := dirs, span := here }
  match kind with
  | .scalar => return base
  | .object | .interface => return { base with fields := ← fieldDefinitions }
  | .union => return { base with members := ← unionMembers }
  | .enum => return { base with values := ← enumValues }
  | .inputObject => return { base with fields := ← inputFields }

/-- A type extension of the given kind. It has to add something. -/
def typeExtension (kind : TypeKind) : Parser TypeDefinition := do
  expectWord (typeKeyword kind)
  let here := (← peek).span
  let n ← name
  let interfaces ← if kind = .object then implementsInterfaces else pure []
  let dirs ← directives (kind ≠ .inputObject)
  let base : TypeDefinition := { kind, name := n, interfaces, directives := dirs, span := here }
  let ext ←
    match kind with
    | .scalar => pure base
    | .object | .interface => pure { base with fields := ← fieldDefinitions }
    | .union => pure { base with members := ← unionMembers }
    | .enum => pure { base with values := ← enumValues }
    | .inputObject => pure { base with fields := ← inputFields }
  if ext.interfaces.isEmpty && ext.directives.isEmpty && ext.fields.isEmpty && ext.members.isEmpty
      && ext.values.isEmpty then unexpected
  else return ext

/-- A schema definition. -/
def schemaDefinition : Parser SchemaDefinition := do
  expectWord "schema"
  let here := (← peek).span
  let dirs ← directives true
  return ⟨dirs, ← rootOperations, here⟩

/-- A schema extension. It has to add something. -/
def schemaExtension : Parser SchemaDefinition := do
  let ext ← schemaDefinition
  if ext.directives.isEmpty && ext.roots.isEmpty then unexpected else return ext

/-- A directive definition. -/
def directiveDefinition (desc : String) : Parser DirectiveDefinition := do
  expectWord "directive"
  discard (expect .atSign)
  let here := (← peek).span
  let n ← name
  let args ← argumentDefinitions
  let t ← peek
  let repeatable ←
    if t.kind = .name ∧ t.value = "repeatable" then
      discard next
      pure true
    else pure false
  expectWord "on"
  return ⟨desc, n, args, repeatable, ← separated .pipe directiveLocation, here⟩

/-- An extension, added to the document. -/
def extension (doc : SchemaDocument) : Parser SchemaDocument := do
  expectWord "extend"
  let word := (← peek).value
  if word = "schema" then
    return { doc with schemaExtensions := doc.schemaExtensions ++ [← schemaExtension] }
  else
    match typeKind? word with
    | some kind =>
      return { doc with typeExtensions := doc.typeExtensions ++ [← typeExtension kind] }
    | none => unexpected

/-- One definition or extension, added to the document. -/
def schemaEntry (doc : SchemaDocument) : Parser SchemaDocument := do
  let first ← peek
  let desc ← description
  let t ← peek
  if t.kind ≠ .name then unexpected
  else if t.value = "schema" then
    return { doc with schemas := doc.schemas ++ [← schemaDefinition] }
  else if t.value = "directive" then
    return { doc with directives := doc.directives ++ [← directiveDefinition desc] }
  else if t.value = "extend" then
    if desc ≠ "" then unexpectedToken first else extension doc
  else
    match typeKind? t.value with
    | some kind =>
      return { doc with types := doc.types ++ [← typeDefinition kind desc] }
    | none => unexpected

/-- The definitions of a schema text, at most `bound` of them. -/
def schemaEntries (doc : SchemaDocument) : (bound : Nat) → Parser SchemaDocument
  | 0 => return doc
  | bound + 1 => do
    if (← peek).kind = .endOfText then return doc
    else
      let doc ← schemaEntry doc
      schemaEntries doc bound

/-- The definitions of a schema text. -/
def schemaDocument : Parser SchemaDocument := do schemaEntries {} (← bound)

end Parser

/-- Reads a schema text. -/
def parseSchema (text : String) : Except SyntaxError SchemaDocument :=
  (Parser.schemaDocument.run (tokens text)).map Prod.fst

end QueryCheck.Written
