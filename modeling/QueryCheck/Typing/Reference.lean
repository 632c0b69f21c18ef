import QueryCheck.Schema.Basic
import QueryCheck.Syntax.Node

/-! # Type references in documents

A type reference written in a document can be taken as it stands, or be resolved against a schema:
it is then known only when the type it names is.

* `refOf` takes a reference as it stands.
* `resolve?` looks its name up in a schema, and `resolve` is what it finds. -/

namespace QueryCheck.Typing

open QueryCheck.Schema (TypeRef)
open QueryCheck.Syntax

/-- A type reference as it stands; what is not a type is unknown. -/
def refOf : Node → Option TypeRef
  | .namedType n _ => some (.named n.nameText)
  | .listType (.node t) _ => some (.list (refOf t))
  | .nonNullType (.node t) _ => some (.nonNull (refOf t))
  | .listType _ _ => some (.list none)
  | .nonNullType _ _ => some (.nonNull none)
  | _ => none

/-- A type reference resolved against a schema; it is unknown when the named type is. A reference
without a name is looked up by the empty name, and there is no answer when the schema has a type of
that name. -/
def resolve? (s : Option Schema) : Node → Option (Option TypeRef)
  | .namedType n _ =>
    if (Schema.typeOf? s n.nameText).isNone then some none
    else if n.isName then some (some (.named n.nameText))
    else none
  | .listType (.node t) _ => (resolve? s t).map (Option.map fun r => .list (some r))
  | .nonNullType (.node t) _ => (resolve? s t).map (Option.map fun r => .nonNull (some r))
  | _ => some none

/-- What a type reference is resolved to, if it is known. -/
def resolve (s : Option Schema) (n : Node) : Option TypeRef := (resolve? s n).getD none

/-- `refOf` in a place for a type. -/
def refIn (c : Child Node) : Option TypeRef := c.toOption.bind refOf

/-- `resolve` in a place for a type. -/
def resolveIn (s : Option Schema) (c : Child Node) : Option TypeRef := c.toOption.bind (resolve s)

end QueryCheck.Typing
