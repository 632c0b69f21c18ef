import QueryCheck.Syntax.Node
import QueryCheck.Text.Quoted

/-! # Printing nodes

The text of a node in the query language. A document prints every definition on a line of its own
with an empty line between two; a selection set prints on one line. The text of a node is put
together from the texts of its children, so printing is a fold over the tree.

Descriptions, and the variable definitions of a fragment, are not printed. -/

namespace QueryCheck.Syntax

open QueryCheck.Text (quote)

/-- The text in a place for a child; a missing child has no text. -/
def Child.printed : Child String → String
  | .node s => s
  | _ => ""

namespace Printer

/-- The texts of a list with a separator between two. -/
def joined (separator : String) (cs : List (Child String)) : String :=
  String.intercalate separator (cs.map Child.printed)

/-- A list in parentheses, or nothing when it is empty. -/
def parenthesized : List (Child String) → String
  | [] => ""
  | cs => "(" ++ joined ", " cs ++ ")"

/-- Directives, each after a space. -/
def directives (cs : List (Child String)) : String :=
  String.join (cs.map fun c => " " ++ c.printed)

/-- A selection set after a space, or nothing when there is none. -/
def selections : Child String → String
  | .node s => " " ++ s
  | _ => ""

/-- A default value after an equals sign, or nothing when the place was not filled. -/
def default (c : Child String) : String := if c.isFilled then " = " ++ c.printed else ""

/-- The characters of a text with a backslash in front of every three quotes in a row. -/
def escapeQuotes : List Char → List Char
  | '"' :: '"' :: '"' :: cs => '\\' :: '"' :: '"' :: '"' :: escapeQuotes cs
  | c :: cs => c :: escapeQuotes cs
  | [] => []

/-- The text of a block string with its quotes: three quotes inside it are escaped. -/
def block (s : String) : String := "\"\"\"" ++ String.ofList (escapeQuotes s.toList) ++ "\"\"\""

/-- The text of a node from the texts of its children. -/
def parts : Kind → List (Slot String) → String
  | .name, [.text s] => s
  | .namedType, [.one n] => n.printed
  | .listType, [.one t] => "[" ++ t.printed ++ "]"
  | .nonNullType, [.one t] => t.printed ++ "!"
  | .variable, [.one n] => "$" ++ n.printed
  | .intValue, [.text s] => s
  | .floatValue, [.text s] => s
  | .enumValue, [.text s] => s
  | .stringValue, [.text s, .flag b] => if b then block s else quote s
  | .booleanValue, [.flag b] => if b then "true" else "false"
  | .nullValue, _ => "null"
  | .listValue, [.many vs] => "[" ++ joined ", " vs ++ "]"
  | .objectValue, [.many fs] => "\x7b" ++ joined ", " fs ++ "\x7d"
  | .objectField, [.one n, .one v] => n.printed ++ ": " ++ v.printed
  | .argument, [.one n, .one v] => n.printed ++ ": " ++ v.printed
  | .directive, [.one n, .many args] => "@" ++ n.printed ++ parenthesized args
  | .field, [.one key, .one n, .many args, .many dirs, .one sel] =>
    (match key with
     | .node a => a ++ ": "
     | _ => "")
      ++ n.printed ++ parenthesized args ++ directives dirs ++ selections sel
  | .fragmentSpread, [.one n, .many dirs] => "..." ++ n.printed ++ directives dirs
  | .inlineFragment, [.one t, .many dirs, .one sel] =>
    (match t with
     | .node s => "... on " ++ s
     | _ => "...")
      ++ directives dirs ++ selections sel
  | .selectionSet, [.many ss] => "\x7b " ++ joined " " ss ++ " \x7d"
  | .variableDefinition, [.one v, .one t, .one d, .many dirs] =>
    v.printed ++ ": " ++ t.printed ++ default d ++ directives dirs
  | .inputValueDefinition, [_, .one n, .one t, .one d, .many dirs] =>
    n.printed ++ ": " ++ t.printed ++ default d ++ directives dirs
  | .directiveDefinition, [_, .one n, .many args, .flag repeatable, .many locs] =>
    "directive @" ++ n.printed ++ parenthesized args
      ++ (if repeatable then " repeatable" else "") ++ " on " ++ joined " | " locs
  | .operationDefinition, [.text op, .one n, .many vars, .many dirs, .one sel] =>
    op
      ++ (match n with
          | .node s => " " ++ s
          | _ => "")
      ++ parenthesized vars ++ directives dirs ++ selections sel
  | .fragmentDefinition, [.one n, _, .one t, .many dirs, .one sel] =>
    "fragment " ++ n.printed ++ " on " ++ t.printed ++ directives dirs ++ selections sel
  | .document, [.many ds] => joined "\n\n" ds
  | _, _ => ""

end Printer

namespace Node

/-- The text of a node in the query language. -/
def print : Node → String := fold fun k ss _ => Printer.parts k ss

end Node

end QueryCheck.Syntax
