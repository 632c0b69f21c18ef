import QueryCheck.Written.Parser

/-! # Schema errors

What can be wrong with a schema text, as causes with their wording, and where. -/

namespace QueryCheck.Schema

open QueryCheck.Written (TypeKind Operation Complaint)

/-- What is wrong with a schema. -/
inductive Cause where
  | parse (c : Complaint)
  | redeclaredType (name : String)
  | extensionKind (name : String) (base ext : TypeKind)
  | redeclaredDirective (name : String)
  | secondSchema
  | unknownRoot (op : Operation) (type : String)
  | reservedName (name : String)
  /-- A field or an argument has an unknown type. -/
  | undefinedType (name : String)
  /-- A member of a union or an interface of a type is unknown. -/
  | undefinedPart (name : String)
  | memberKind (kind : TypeKind) (name : String)
  | noFields (kind : TypeKind) (name : String)
  | fieldKind (kind : TypeKind) (name : String)
  | noValues (name : String)
  | notAnEnumValue (name value : String)
  | noInputFields (name : String)
  | inputFieldKind (kind : TypeKind) (field : String)
  | repeatedField (type field : String)
  | argumentKind (type argument : String) (kind : TypeKind)
  | selfReference (directive : String)
  | undefinedDirective (name : String)
  | notApplicable (directive location : String)
  | undefinedArgument (argument directive : String)
  | nullArgument (argument directive : String)
  | notAnInterface (name : String) (kind : TypeKind)
  | missingField (type interface field : String)
  | fieldType (type interface field expected : String)
  | missingArgument (type interface field argument : String)
  | argumentType (type interface field argument : String)
  | requiredArgument (type interface field argument : String)
  | missingAncestor (type ancestor interface : String)
  | circular (type interface : String)
  deriving DecidableEq, Repr, Inhabited

/-- The wording of a cause. -/
def Cause.message : Cause → String
  | parse c => c.message
  | redeclaredType n => "Cannot redeclare type " ++ n ++ "."
  | extensionKind n base ext =>
    "Cannot extend type " ++ n ++ " because the base type is a " ++ base.spelled ++ ", not "
      ++ ext.spelled ++ "."
  | redeclaredDirective n => "Cannot redeclare directive " ++ n ++ "."
  | secondSchema =>
    "Cannot have multiple schema entry points, consider schema extensions instead."
  | unknownRoot op t =>
    "Schema root " ++ op.keyword ++ " refers to a type " ++ t ++ " that does not exist."
  | reservedName n =>
    "Name \"" ++ n ++ "\" must not begin with \"__\", which is reserved by GraphQL introspection."
  | undefinedType n => "Undefined type " ++ n ++ "."
  | undefinedPart n => "Undefined type " ++ Text.quote n ++ "."
  | memberKind k n => k.spelled ++ " type " ++ Text.quote n ++ " must be OBJECT."
  | noFields k n => k.spelled ++ " " ++ n ++ ": must define one or more fields."
  | fieldKind k n =>
    k.spelled ++ " " ++ n ++ ": field must be one of SCALAR, OBJECT, INTERFACE, UNION, ENUM."
  | noValues n => "ENUM " ++ n ++ ": must define one or more unique enum values."
  | notAnEnumValue n v => "ENUM " ++ n ++ ": non-enum value " ++ v ++ "."
  | noInputFields n => "INPUT_OBJECT " ++ n ++ ": must define one or more input fields."
  | inputFieldKind k f =>
    k.spelled ++ " " ++ f ++ ": field must be one of SCALAR, ENUM, INPUT_OBJECT."
  | repeatedField t f => "Field " ++ t ++ "." ++ f ++ " can only be defined once."
  | argumentKind t a k =>
    "cannot use " ++ t ++ " as argument " ++ a ++ " because " ++ k.spelled
      ++ " is not a valid input type"
  | selfReference d => "Directive " ++ d ++ " cannot refer to itself."
  | undefinedDirective n => "Undefined directive " ++ n ++ "."
  | notApplicable d l => "Directive " ++ d ++ " is not applicable on " ++ l ++ "."
  | undefinedArgument a d => "Undefined argument " ++ a ++ " for directive " ++ d ++ "."
  | nullArgument a d => "Argument " ++ a ++ " for directive " ++ d ++ " cannot be null."
  | notAnInterface n k => Text.quote n ++ " is a non interface type " ++ k.spelled ++ "."
  | missingField t i f => "For " ++ t ++ " to implement " ++ i ++ " it must have a field called " ++ f ++ "."
  | fieldType t i f e =>
    "For " ++ t ++ " to implement " ++ i ++ " the field " ++ f ++ " must have type " ++ e ++ "."
  | missingArgument t i f a =>
    "For " ++ t ++ " to implement " ++ i ++ " the field " ++ f
      ++ " must have the same arguments but it is missing " ++ a ++ "."
  | argumentType t i f a =>
    "For " ++ t ++ " to implement " ++ i ++ " the field " ++ f
      ++ " must have the same arguments but " ++ a ++ " has the wrong type."
  | requiredArgument t i f a =>
    "For " ++ t ++ " to implement " ++ i ++ " any additional arguments on " ++ f
      ++ " must be optional or have a default value but " ++ a ++ " is required."
  | missingAncestor t a i =>
    "Type " ++ t ++ " must implement " ++ a ++ " because it is implemented by " ++ i ++ "."
  | circular t i =>
    "Type " ++ t ++ " cannot implement " ++ i ++ " because it would create a circular reference."

/-- Why a schema could not be loaded. -/
inductive LoadError where
  /-- The text has an error on a line; `prelude` tells that the line is one of the prelude. -/
  | invalid (cause : Cause) (line : Nat) (inPrelude : Bool)
  /-- A type was compared with a union that has an undefined member. -/
  | undefinedMember
  deriving DecidableEq, Repr, Inhabited

/-- The message of an error in the text of the given name. -/
def LoadError.message (source : String) : LoadError → String
  | invalid cause line inPrelude =>
    let file :=
      if inPrelude then "prelude.graphql" else if source = "" then "input" else source
    file ++ ":" ++ toString line ++ ": " ++ cause.message
  | undefinedMember => ""

end QueryCheck.Schema
