import QueryCheck.Schema.Basic
import QueryCheck.Schema.Error
import QueryCheck.Schema.Prelude
import QueryCheck.Written.SchemaParser

/-! # Loading schemas

A schema text is read after the prelude, its extensions are merged into the types they extend, and
the result is checked: types in the order of their names, then directive definitions in the order of
theirs. The first thing that is wrong ends the loading.

* `Catalogue.ofDocuments` merges definitions and extensions.
* `Catalogue.checkTypes` and `Catalogue.checkDirectives` check the result.
* `load` builds a schema from a text. -/

namespace QueryCheck.Schema

open QueryCheck.Source (Span)
open QueryCheck.Written (TypeDefinition DirectiveDefinition TypeKind SchemaDocument)

/-! ### Types with their extensions -/

/-- A type definition, and whether the prelude has it. -/
structure Entry where
  type : TypeDefinition
  builtin : Bool
  deriving Repr, Inhabited

/-- The merged types in the order they were defined, and the directives. -/
structure Catalogue where
  entries : List Entry
  directives : List DirectiveDefinition
  deriving Repr, Inhabited

/-- An error at a span of the schema text. -/
def wrong {α : Type} (cause : Cause) (span : Span) : Except LoadError α :=
  throw (.invalid cause span.line false)

namespace Entry

/-- An error at the name of a type. -/
def wrong {α : Type} (e : Entry) (cause : Cause) : Except LoadError α :=
  throw (.invalid cause e.type.span.line e.builtin)

/-- The type with what an extension adds. -/
def extend (e : Entry) (ext : TypeDefinition) : Entry :=
  { e with type :=
    { e.type with
      directives := e.type.directives ++ ext.directives
      interfaces := e.type.interfaces ++ ext.interfaces
      fields := e.type.fields ++ ext.fields
      members := e.type.members ++ ext.members
      values := e.type.values ++ ext.values } }

end Entry

/-- The entry of a type. -/
def entryOf? (entries : List Entry) (name : String) : Option Entry :=
  entries.find? fun e => e.type.name == name

/-- Adds a type, whose name has to be new. -/
def addType (builtin : Bool) (entries : List Entry) (t : TypeDefinition) :
    Except LoadError (List Entry) :=
  match entryOf? entries t.name with
  | some _ => wrong (.redeclaredType t.name) t.span
  | none => return entries ++ [⟨t, builtin⟩]

/-- Merges an extension into the type it extends, which is made when there is none. -/
def addExtension (entries : List Entry) (ext : TypeDefinition) : Except LoadError (List Entry) :=
  match entryOf? entries ext.name with
  | none =>
    let made : Entry := ⟨{ kind := ext.kind, name := ext.name, span := ext.span }, false⟩
    return entries ++ [made.extend ext]
  | some e =>
    if e.type.kind ≠ ext.kind then
      wrong (.extensionKind ext.name e.type.kind ext.kind) ext.span
    else
      return entries.map fun e' => if e'.type.name == ext.name then e'.extend ext else e'

/-- The directives that may be defined again; the later definition counts. -/
def replaceable : List String := ["include", "skip", "deprecated", "specifiedBy", "defer"]

/-- Adds a directive definition. -/
def addDirective (dirs : List DirectiveDefinition) (d : DirectiveDefinition) :
    Except LoadError (List DirectiveDefinition) :=
  if dirs.any fun d' => d'.name == d.name then
    if replaceable.contains d.name then
      return dirs.map fun d' => if d'.name == d.name then d else d'
    else wrong (.redeclaredDirective d.name) d.span
  else return dirs ++ [d]

namespace Catalogue

/-- The merged types of the prelude and a schema text. -/
def entriesOf (base doc : SchemaDocument) : Except LoadError (List Entry) := do
  let entries ← base.types.foldlM (addType true) []
  let entries ← doc.types.foldlM (addType false) entries
  doc.typeExtensions.foldlM addExtension entries

/-- The merged definitions of the prelude and a schema text. -/
def ofDocuments (base doc : SchemaDocument) : Except LoadError Catalogue := do
  let entries ← entriesOf base doc
  let dirs ← (base.directives ++ doc.directives).foldlM addDirective []
  return ⟨entries, dirs⟩

variable (c : Catalogue)

/-- The type with the given name. -/
def type? (name : String) : Option TypeDefinition := (entryOf? c.entries name).map Entry.type

/-- The directive with the given name. -/
def directive? (name : String) : Option DirectiveDefinition :=
  c.directives.find? fun d => d.name == name

/-! ### Checks -/

/-- Names that start with two underscores are reserved. -/
def checkName (name : String) (span : Span) : Except LoadError Unit :=
  if "__".isPrefixOf name then wrong (.reservedName name) span else return

/-- The directives used at a place of the schema have to be declared for it and given their
arguments. `inside` is the directive in whose definition they are used, if any. -/
def checkUses (location : String) (inside : Option String) (dirs : List Written.Directive) :
    Except LoadError Unit :=
  dirs.forM fun d => do
    checkName d.name d.span
    if inside = some d.name then wrong (.selfReference d.name) d.span
    match c.directive? d.name with
    | none => wrong (.undefinedDirective d.name) d.span
    | some definition =>
      if !definition.locations.contains location then
        wrong (.notApplicable d.name location) d.span
      d.arguments.forM fun a =>
        if definition.arguments.any fun x => x.name == a.name then return
        else wrong (.undefinedArgument a.name d.name) a.span
      definition.arguments.forM fun x =>
        if x.type.nonNull && x.default.isNone then
          match d.arguments.find? fun a => a.name == x.name with
          | none => wrong (.nullArgument x.name d.name) d.span
          | some a =>
            match a.value with
            | .literal .null _ _ => wrong (.nullArgument x.name d.name) d.span
            | _ => return
        else return

/-- The types named by references have to exist. -/
def checkTypeRef (t : Written.TypeRef) : Except LoadError Unit :=
  match c.type? t.name with
  | none => wrong (.undefinedType t.name) t.span
  | some _ => return

/-- Whether a kind of type may be that of an argument. -/
def isInputKind (k : TypeKind) : Bool := k == .scalar || k == .enum || k == .inputObject

/-- Whether a kind of type may be that of a field. -/
def isOutputKind (k : TypeKind) : Bool := k != .inputObject

/-- The arguments of a field or, `inside` its definition, of a directive. -/
def checkArguments (inside : Option String) (args : List Written.InputValue) :
    Except LoadError Unit :=
  args.forM fun a => do
    checkName a.name a.span
    c.checkTypeRef a.type
    match c.type? a.type.name with
    | some t =>
      if !isInputKind t.kind then
        wrong (.argumentKind a.type.print a.name t.kind) a.span
    | none => pure ()
    c.checkUses "ARGUMENT_DEFINITION" inside a.directives

/-! ### Interfaces -/

/-- The types that may stand for a union or an interface of the given name. A member of a union that
is not defined shows as `none`. -/
def possibleTypes (name : String) : List (Option String) :=
  c.entries.flatMap fun e =>
    let t := e.type
    match t.kind with
    | .union =>
      if t.name == name then t.members.map fun m => (c.type? m).map TypeDefinition.name else []
    | .object | .inputObject =>
      (t.interfaces.filter (· == name)).map (fun _ => some t.name)
        ++ if t.name == name then [some t.name] else []
    | .interface => (t.interfaces.filter (· == name)).map fun _ => some t.name
    | _ => []

/-- Whether a name is among possible types, looked at in order. -/
def isPossible (name : String) : List (Option String) → Except LoadError Bool
  | [] => return false
  | none :: _ => throw .undefinedMember
  | some n :: ns => if n == name then return true else isPossible name ns

/-- Whether a field of type `actual` may stand for one of type `required`: what is non-null stays
so, and a type may be replaced by one of its possible types. -/
def isCovariant : Written.TypeRef → Written.TypeRef → Except LoadError Bool
  | required, actual =>
    if required.nonNull && !actual.nonNull then return false
    else
      match required, actual with
      | .named r _ _, .named a _ _ =>
        if r == a then return true else isPossible a (c.possibleTypes r)
      | .named r _ _, .list .. => isPossible "" (c.possibleTypes r)
      | .list .., .named .. => return false
      | .list r _ _, .list a _ _ => isCovariant r a

/-- Whether an argument of type `found` takes whatever one of type `required` does. -/
def isCompatible : Written.TypeRef → Written.TypeRef → Bool
  | .named r s _, .named f n _ => r == f && (!n || s)
  | .list r s _, .list f n _ => isCompatible r f && (!n || s)
  | _, _ => false

/-- A field of an interface has to be a field of the types that implement it. -/
def checkInterfaceField (e : Entry) (interface : String) (required : Written.Field) :
    Except LoadError Unit := do
  let t := e.type
  match t.fields.find? fun f => f.name == required.name with
  | none => e.wrong (.missingField t.name interface required.name)
  | some found =>
    if !(← c.isCovariant required.type found.type) then
      wrong (.fieldType t.name interface required.name required.type.print) found.span
    required.arguments.forM fun a =>
      match found.arguments.find? fun x => x.name == a.name with
      | none => wrong (.missingArgument t.name interface required.name a.name) found.span
      | some x =>
        if isCompatible a.type x.type then return
        else wrong (.argumentType t.name interface required.name a.name) x.span
    found.arguments.forM fun x =>
      if !(required.arguments.any fun a => a.name == x.name) && x.type.nonNull
          && x.default.isNone then
        wrong (.requiredArgument t.name interface found.name x.name) x.span
      else return

/-- A type that implements an interface has to implement those of the interface too. -/
def checkAncestors (e : Entry) (interface : TypeDefinition) : Except LoadError Unit :=
  interface.interfaces.forM fun ancestor =>
    if e.type.interfaces.contains ancestor then return
    else if ancestor == e.type.name then e.wrong (.circular e.type.name interface.name)
    else e.wrong (.missingAncestor e.type.name ancestor interface.name)

/-- An interface of a type. -/
def checkInterface (e : Entry) (name : String) : Except LoadError Unit := do
  match c.type? name with
  | none => e.wrong (.undefinedPart name)
  | some i =>
    if i.kind ≠ .interface then e.wrong (.notAnInterface name i.kind)
    i.fields.forM (c.checkInterfaceField e i.name)
    checkAncestors e i

/-! ### Types and directives -/

/-- A field on its own. -/
def checkField (kind : TypeKind) (f : Written.Field) : Except LoadError Unit := do
  checkName f.name f.span
  c.checkTypeRef f.type
  c.checkArguments none f.arguments
  c.checkUses (if kind = .inputObject then "INPUT_FIELD_DEFINITION" else "FIELD_DEFINITION") none
    f.directives

/-- A member of a union. -/
def checkMember (e : Entry) (name : String) : Except LoadError Unit :=
  match c.type? name with
  | none => e.wrong (.undefinedPart name)
  | some t =>
    if t.kind = .object then return else e.wrong (.memberKind e.type.kind name)

/-- What a type of the given kind has to hold. -/
def checkContent (e : Entry) : Except LoadError Unit :=
  let t := e.type
  match t.kind with
  | .object | .interface => do
    if t.fields.isEmpty then e.wrong (.noFields t.kind t.name)
    t.fields.forM fun f =>
      match c.type? f.type.name with
      | some ft =>
        if isOutputKind ft.kind then return else wrong (.fieldKind t.kind t.name) f.span
      | none => return
  | .enum => do
    if t.values.isEmpty then e.wrong (.noValues t.name)
    t.values.forM fun v => do
      if ["true", "false", "null"].contains v.name then e.wrong (.notAnEnumValue t.name v.name)
      c.checkUses "ENUM_VALUE" none v.directives
  | .inputObject => do
    if t.fields.isEmpty then e.wrong (.noInputFields t.name)
    t.fields.forM fun f =>
      match c.type? f.type.name with
      | some ft =>
        if isInputKind ft.kind then return else wrong (.inputFieldKind ft.kind f.name) f.span
      | none => return
  | _ => return

/-- Whether a later field has the name of an earlier one; the first such field in the order of the
earlier ones. -/
def repeatedField? : List Written.Field → Option Written.Field
  | [] => none
  | f :: fs =>
    match fs.find? fun g => g.name == f.name with
    | some g => some g
    | none => repeatedField? fs

/-- A type with everything in it. -/
def checkType (e : Entry) : Except LoadError Unit := do
  let t := e.type
  t.fields.forM (c.checkField t.kind)
  t.members.forM (c.checkMember e)
  t.interfaces.forM (c.checkInterface e)
  c.checkContent e
  match repeatedField? t.fields with
  | some f => wrong (.repeatedField t.name f.name) f.span
  | none => pure ()
  if !e.builtin then checkName t.name t.span
  c.checkUses t.kind.spelled none t.directives

/-- The types in the order of their names. -/
def sortedEntries : List Entry := c.entries.mergeSort fun a b => a.type.name ≤ b.type.name

/-- The directives in the order of their names. -/
def sortedDirectives : List DirectiveDefinition := c.directives.mergeSort fun a b => a.name ≤ b.name

/-- All types. -/
def checkTypes : Except LoadError Unit := c.sortedEntries.forM c.checkType

/-- All directive definitions. -/
def checkDirectives : Except LoadError Unit :=
  c.sortedDirectives.forM fun d => do
    checkName d.name d.span
    c.checkArguments (some d.name) d.arguments

/-! ### Root types -/

/-- Takes over the root operation types of a schema definition or extension and checks its
directives. -/
def addRoots (s : Schema) (d : Written.SchemaDefinition) : Except LoadError Schema := do
  let s ← d.roots.foldlM (fun (s : Schema) r =>
    match c.type? r.type with
    | none => wrong (.unknownRoot r.operation r.type) r.span
    | some _ =>
      match r.operation with
      | .query => return { s with query := some r.type }
      | .mutation => return { s with mutation := some r.type }
      | .subscription => return { s with subscription := some r.type }) s
  c.checkUses "SCHEMA" none d.directives
  return s

/-- The root types that schema definitions and extensions name. -/
def roots (doc : SchemaDocument) : Except LoadError Schema := do
  match doc.schemas with
  | _ :: second :: _ => wrong .secondSchema second.span
  | _ => pure ()
  (doc.schemas ++ doc.schemaExtensions).foldlM c.addRoots {}

/-- Without a schema definition, types with the usual names are root types. -/
def defaultRoots (doc : SchemaDocument) (s : Schema) : Schema :=
  if doc.schemas.isEmpty then
    let usual (name : String) : Option String := (c.type? name).map TypeDefinition.name
    { s with
      query := s.query <|> usual "Query"
      mutation := s.mutation <|> usual "Mutation"
      subscription := s.subscription <|> usual "Subscription" }
  else s

end Catalogue

/-! ### The finished schema -/

mutual

/-- The text of a value. -/
def literalText : Written.Value → String
  | .variable n _ => "$" ++ n
  | .literal .string raw _ => Text.quote raw
  | .literal .block raw _ => Text.quote raw
  | .literal _ raw _ => raw
  | .list vs _ => "[" ++ String.intercalate "," (literalTexts vs) ++ "]"
  | .object fs _ => "\x7b" ++ String.intercalate "," (literalFields fs) ++ "\x7d"

/-- The texts of the items of a list. -/
def literalTexts : List Written.Value → List String
  | [] => []
  | v :: vs => literalText v :: literalTexts vs

/-- The texts of the fields of an object. -/
def literalFields : List (String × Span × Written.Value) → List String
  | [] => []
  | (n, _, v) :: fs => (n ++ ":" ++ literalText v) :: literalFields fs

end

/-- An argument. -/
def InputValue.ofWritten (v : Written.InputValue) : InputValue :=
  { name := v.name, description := v.description, type := some (.ofWritten v.type)
    default := v.default.map literalText }

/-- A field of an input object. -/
def InputValue.ofField (f : Written.Field) : InputValue :=
  { name := f.name, description := f.description, type := some (.ofWritten f.type)
    default := f.default.map literalText }

/-- A field. -/
def Field.ofWritten (f : Written.Field) : Field :=
  { name := f.name, description := f.description, type := some (.ofWritten f.type)
    arguments := f.arguments.map InputValue.ofWritten }

/-- A directive. -/
def Directive.ofWritten (d : DirectiveDefinition) : Directive :=
  { name := d.name, description := d.description, locations := d.locations
    arguments := d.arguments.map InputValue.ofWritten, repeatable := d.repeatable }

/-- The fields by which the query root gives access to the schema itself. -/
def introspectionFields : List Written.Field :=
  let nowhere : Span := ⟨0, 0, 0⟩
  [⟨"", "__schema", [], .named "__Schema" true nowhere, none, [], nowhere⟩,
   ⟨"", "__type", [⟨"", "name", .named "String" true nowhere, none, [], nowhere⟩],
    .named "__Type" false nowhere, none, [], nowhere⟩]

/-- A type. -/
def NamedType.ofWritten (query : Option String) (t : TypeDefinition) : NamedType :=
  let fields := if query = some t.name then t.fields ++ introspectionFields else t.fields
  let isOutput := t.kind = .object ∨ t.kind = .interface
  { name := t.name, kind := t.kind, description := t.description
    interfaces := t.interfaces, members := t.members, values := t.values.map fun v => v.name
    fields := if isOutput then fields.map Field.ofWritten else []
    inputFields := if t.kind = .inputObject then fields.map InputValue.ofField else [] }

/-- Reads a text of schema definitions. -/
def readDocument (text : String) : Except LoadError SchemaDocument :=
  (Written.parseSchema text).mapError fun e => .invalid (.parse e.complaint) e.line false

/-- Builds a schema from a text. -/
def load (text : String) : Except LoadError Schema := do
  let base ← readDocument preludeText
  let doc ← readDocument text
  let c ← Catalogue.ofDocuments base doc
  let s ← c.roots doc
  c.checkTypes
  c.checkDirectives
  let s := c.defaultRoots doc s
  return { s with
    types := c.sortedEntries.map fun e => NamedType.ofWritten s.query e.type
    directives := c.sortedDirectives.map Directive.ofWritten }

end QueryCheck.Schema
