import QueryCheck.Written.Basic

/-! # Type references

A reference to a type of a schema: a name, a list of a reference, or a reference that excludes null.
The inside of a list or of a non-null reference may be unknown.

* `TypeRef.print` writes a reference in the notation of the language. -/

namespace QueryCheck.Schema

/-- A type reference. -/
inductive TypeRef where
  | named (name : String)
  | list (inner : Option TypeRef)
  | nonNull (inner : Option TypeRef)
  deriving Repr, Inhabited

namespace TypeRef

/-- Whether the reference excludes null. -/
def isNonNull : TypeRef → Bool
  | nonNull _ => true
  | _ => false

/-- Whether the reference is a list, possibly a non-null one. -/
def isList : TypeRef → Bool
  | list _ => true
  | nonNull (some (list _)) => true
  | _ => false

/-- The reference without its outermost wrapping; a name stays. -/
def unwrap : TypeRef → Option TypeRef
  | named n => some (named n)
  | list t => t
  | nonNull t => t

/-- The innermost name; the empty text when the inside is unknown. -/
def namedType : TypeRef → String
  | named n => n
  | list (some t) => t.namedType
  | nonNull (some t) => t.namedType
  | list none => ""
  | nonNull none => ""

/-- The reference in the notation of the language. -/
def print : TypeRef → String
  | named n => n
  | list (some t) => "[" ++ t.print ++ "]"
  | list none => "[]"
  | nonNull (some t) => t.print ++ "!"
  | nonNull none => "!"

/-- The reference as written, with its non-null mark as a wrapping of its own. -/
def ofWritten : Written.TypeRef → TypeRef
  | .named n strict _ => if strict then .nonNull (some (.named n)) else .named n
  | .list t strict _ =>
    if strict then .nonNull (some (.list (some (ofWritten t)))) else .list (some (ofWritten t))

end TypeRef

end QueryCheck.Schema
