import QueryCheck.Syntax.Kind

/-! # Nodes

A node has a kind, one slot per declared field and, when it was read from a text, a location. A slot
holds a text, a flag, at most one child or a list of children. A child may be missing in two ways:
`absent` is nothing at all, and `null k` is a place that was filled with "no node of kind `k`". Both
are skipped by everything that visits nodes; they differ only where a place is asked whether it was
filled.

All recursion over nodes goes through `Node.fold`, which replaces every node by the value computed
from its kind, its slots with the children already replaced, and its location. What is computed
names the slots of every kind on its own; a node with other slots than those of its kind, of which
there are none, is treated slot by slot.

* `Node.children n` lists the nodes owned by `n` in declared order.
* `Node.rose n` is the tree of nodes below `n`, each vertex labelled with its node.
* `Node.cloneDeep n` copies the tree without locations. -/

namespace QueryCheck.Syntax

/-- The text a location points into. Locations made by hand point into none. -/
inductive Origin where
  | byHand
  | document
  | definitions
  deriving DecidableEq, Repr, Inhabited

/-- The span of a node: offsets count characters from zero, lines and columns from one. -/
structure Location where
  start : Int
  stop : Int
  line : Int
  column : Int
  origin : Origin := .byHand
  deriving DecidableEq, Repr, Inhabited

/-- A place for a child. -/
inductive Child (α : Type) where
  | absent
  | null (kind : Kind)
  | node (value : α)
  deriving Repr, Inhabited

namespace Child

variable {α β : Type}

/-- The child, if there is one. -/
def toOption : Child α → Option α
  | node a => some a
  | _ => none

/-- A child from an optional value. -/
def ofOption : Option α → Child α
  | some a => node a
  | none => absent

/-- Replaces the child. -/
def map (f : α → β) : Child α → Child β
  | absent => absent
  | null k => null k
  | node a => node (f a)

/-- Whether the place was filled, be it with no node of some kind. -/
def isFilled : Child α → Bool
  | absent => false
  | _ => true

end Child

/-- The content of a declared field. -/
inductive Slot (α : Type) where
  | text (s : String)
  | flag (b : Bool)
  | one (c : Child α)
  | many (cs : List (Child α))
  deriving Repr, Inhabited

namespace Slot

variable {α β : Type}

/-- Replaces the children. -/
def map (f : α → β) : Slot α → Slot β
  | text s => text s
  | flag b => flag b
  | one c => one (c.map f)
  | many cs => many (cs.map (Child.map f))

/-- The children in a slot, missing ones left out. -/
def children : Slot α → List α
  | one c => c.toOption.toList
  | many cs => cs.filterMap Child.toOption
  | _ => []

end Slot

/-- A node of a document. -/
inductive Node where
  | mk (kind : Kind) (slots : List (Slot Node)) (loc : Option Location)

namespace Node

instance : Inhabited Node := ⟨mk default [] none⟩

/-- The kind of a node. -/
def kind : Node → Kind
  | mk k _ _ => k

/-- The slots of a node in declared order. -/
def slots : Node → List (Slot Node)
  | mk _ ss _ => ss

/-- The location of a node. -/
def loc : Node → Option Location
  | mk _ _ l => l

/-- The children in the slots of a node of kind `k`, in declared order. -/
def childrenOf {α : Type} (k : Kind) (ss : List (Slot α)) : List α :=
  match k, ss with
  | .name, [.text _] => []
  | .document, [definitions] => definitions.children
  | .operationDefinition, [.text _, name, variableDefinitions, directives, selectionSet] =>
    name.children ++ variableDefinitions.children ++ directives.children ++ selectionSet.children
  | .variableDefinition, [var, type, defaultValue, directives] =>
    var.children ++ type.children ++ defaultValue.children ++ directives.children
  | .variable, [name] => name.children
  | .selectionSet, [selections] => selections.children
  | .field, [key, name, arguments, directives, selectionSet] =>
    key.children ++ name.children ++ arguments.children ++ directives.children
      ++ selectionSet.children
  | .argument, [name, value] => name.children ++ value.children
  | .fragmentSpread, [name, directives] => name.children ++ directives.children
  | .inlineFragment, [typeCondition, directives, selectionSet] =>
    typeCondition.children ++ directives.children ++ selectionSet.children
  | .fragmentDefinition, [name, variableDefinitions, typeCondition, directives, selectionSet] =>
    name.children ++ variableDefinitions.children ++ typeCondition.children ++ directives.children
      ++ selectionSet.children
  | .intValue, [.text _] => []
  | .floatValue, [.text _] => []
  | .stringValue, [.text _, .flag _] => []
  | .booleanValue, [.flag _] => []
  | .nullValue, [] => []
  | .enumValue, [.text _] => []
  | .listValue, [values] => values.children
  | .objectValue, [fields] => fields.children
  | .objectField, [name, value] => name.children ++ value.children
  | .directive, [name, arguments] => name.children ++ arguments.children
  | .namedType, [name] => name.children
  | .listType, [type] => type.children
  | .nonNullType, [type] => type.children
  | .directiveDefinition, [description, name, arguments, .flag _, locations] =>
    description.children ++ name.children ++ arguments.children ++ locations.children
  | .inputValueDefinition, [description, name, type, defaultValue, directives] =>
    description.children ++ name.children ++ type.children ++ defaultValue.children
      ++ directives.children
  | _, ss => ss.flatMap Slot.children

/-- The nodes owned by a node, in declared order. -/
def children (n : Node) : List Node := childrenOf n.kind n.slots

/-! ### Recursion over nodes -/

mutual

/-- Replaces every node by the value computed from its kind, replaced slots and location. -/
def fold {α : Type} (f : Kind → List (Slot α) → Option Location → α) : Node → α
  | mk k ss l => f k (foldSlots f ss) l

/-- `Node.fold` on the slots of a node. -/
def foldSlots {α : Type} (f : Kind → List (Slot α) → Option Location → α) :
    List (Slot Node) → List (Slot α)
  | [] => []
  | s :: ss => foldSlot f s :: foldSlots f ss

/-- `Node.fold` on one slot. -/
def foldSlot {α : Type} (f : Kind → List (Slot α) → Option Location → α) : Slot Node → Slot α
  | .text s => .text s
  | .flag b => .flag b
  | .one c => .one (foldChild f c)
  | .many cs => .many (foldChildren f cs)

/-- `Node.fold` on a place for a child. -/
def foldChild {α : Type} (f : Kind → List (Slot α) → Option Location → α) : Child Node → Child α
  | .absent => .absent
  | .null k => .null k
  | .node n => .node (fold f n)

/-- `Node.fold` on a list of places. -/
def foldChildren {α : Type} (f : Kind → List (Slot α) → Option Location → α) :
    List (Child Node) → List (Child α)
  | [] => []
  | c :: cs => foldChild f c :: foldChildren f cs

end

end Node

/-! ### The tree of nodes -/

/-- A tree with a label at every vertex. -/
inductive Rose (α : Type) where
  | mk (label : α) (branches : List (Rose α))

namespace Rose

variable {α : Type}

/-- The label at the root. -/
def label : Rose α → α
  | mk a _ => a

/-- The trees directly below the root. -/
def branches : Rose α → List (Rose α)
  | mk _ ts => ts

mutual

/-- All labels, every one before those below it. -/
def labels : Rose α → List α
  | mk a ts => a :: labelsOfAll ts

/-- All labels of a list of trees, in order. -/
def labelsOfAll : List (Rose α) → List α
  | [] => []
  | t :: ts => labels t ++ labelsOfAll ts

end

end Rose

namespace Node

/-- The tree of nodes whose root is the node given by its parts and whose branches are given. -/
def graft (k : Kind) (ss : List (Slot (Rose Node))) (l : Option Location) : Rose Node :=
  .mk (mk k (ss.map (Slot.map Rose.label)) l) (childrenOf k ss)

/-- The tree of nodes below a node; branches follow the order of children. -/
def rose : Node → Rose Node := fold graft

/-- The number of nodes in the tree below a node, itself included. -/
def size (n : Node) : Nat := n.rose.labels.length

/-! ### Forms of nodes

Each kind has a form that names its slots, usable both to build a node and to take it apart. -/

/-- A name. -/
@[match_pattern] abbrev name (value : String) (l : Option Location) : Node :=
  mk .name [.text value] l

/-- A document. -/
@[match_pattern] abbrev document (definitions : List (Child Node)) (l : Option Location) : Node :=
  mk .document [.many definitions] l

/-- An operation definition. -/
@[match_pattern] abbrev operationDefinition (operation : String) (name : Child Node)
    (parameters directives : List (Child Node)) (selections : Child Node) (l : Option Location) :
    Node :=
  mk .operationDefinition
    [.text operation, .one name, .many parameters, .many directives, .one selections] l

/-- A variable definition. -/
@[match_pattern] abbrev variableDefinition (var type default : Child Node)
    (directives : List (Child Node)) (l : Option Location) : Node :=
  mk .variableDefinition [.one var, .one type, .one default, .many directives] l

/-- A variable. -/
@[match_pattern] abbrev var (name : Child Node) (l : Option Location) : Node :=
  mk .variable [.one name] l

/-- A selection set. -/
@[match_pattern] abbrev selectionSet (selections : List (Child Node)) (l : Option Location) : Node :=
  mk .selectionSet [.many selections] l

/-- A field selection; its key is its alias. -/
@[match_pattern] abbrev field (key name : Child Node) (arguments directives : List (Child Node))
    (selections : Child Node) (l : Option Location) : Node :=
  mk .field [.one key, .one name, .many arguments, .many directives, .one selections] l

/-- An argument. -/
@[match_pattern] abbrev argument (name value : Child Node) (l : Option Location) : Node :=
  mk .argument [.one name, .one value] l

/-- A fragment spread. -/
@[match_pattern] abbrev fragmentSpread (name : Child Node) (directives : List (Child Node))
    (l : Option Location) : Node :=
  mk .fragmentSpread [.one name, .many directives] l

/-- An inline fragment. -/
@[match_pattern] abbrev inlineFragment (typeCondition : Child Node)
    (directives : List (Child Node)) (selections : Child Node) (l : Option Location) : Node :=
  mk .inlineFragment [.one typeCondition, .many directives, .one selections] l

/-- A fragment definition. -/
@[match_pattern] abbrev fragmentDefinition (name : Child Node) (parameters : List (Child Node))
    (typeCondition : Child Node) (directives : List (Child Node)) (selections : Child Node)
    (l : Option Location) : Node :=
  mk .fragmentDefinition
    [.one name, .many parameters, .one typeCondition, .many directives, .one selections] l

/-- An integer literal. -/
@[match_pattern] abbrev intValue (value : String) (l : Option Location) : Node :=
  mk .intValue [.text value] l

/-- A float literal. -/
@[match_pattern] abbrev floatValue (value : String) (l : Option Location) : Node :=
  mk .floatValue [.text value] l

/-- A string literal; `block` tells a block string. -/
@[match_pattern] abbrev stringValue (value : String) (block : Bool) (l : Option Location) : Node :=
  mk .stringValue [.text value, .flag block] l

/-- A boolean literal. -/
@[match_pattern] abbrev booleanValue (value : Bool) (l : Option Location) : Node :=
  mk .booleanValue [.flag value] l

/-- The null literal. -/
@[match_pattern] abbrev nullValue (l : Option Location) : Node := mk .nullValue [] l

/-- An enum literal. -/
@[match_pattern] abbrev enumValue (value : String) (l : Option Location) : Node :=
  mk .enumValue [.text value] l

/-- A list literal. -/
@[match_pattern] abbrev listValue (values : List (Child Node)) (l : Option Location) : Node :=
  mk .listValue [.many values] l

/-- An object literal. -/
@[match_pattern] abbrev objectValue (fields : List (Child Node)) (l : Option Location) : Node :=
  mk .objectValue [.many fields] l

/-- A field of an object literal. -/
@[match_pattern] abbrev objectField (name value : Child Node) (l : Option Location) : Node :=
  mk .objectField [.one name, .one value] l

/-- A directive. -/
@[match_pattern] abbrev directive (name : Child Node) (arguments : List (Child Node))
    (l : Option Location) : Node :=
  mk .directive [.one name, .many arguments] l

/-- A reference to a named type. -/
@[match_pattern] abbrev namedType (name : Child Node) (l : Option Location) : Node :=
  mk .namedType [.one name] l

/-- A reference to a list type. -/
@[match_pattern] abbrev listType (type : Child Node) (l : Option Location) : Node :=
  mk .listType [.one type] l

/-- A reference to a non-null type. -/
@[match_pattern] abbrev nonNullType (type : Child Node) (l : Option Location) : Node :=
  mk .nonNullType [.one type] l

/-- A directive definition. -/
@[match_pattern] abbrev directiveDefinition (description name : Child Node)
    (arguments : List (Child Node)) (repeatable : Bool) (locations : List (Child Node))
    (l : Option Location) : Node :=
  mk .directiveDefinition
    [.one description, .one name, .many arguments, .flag repeatable, .many locations] l

/-- An input value definition. -/
@[match_pattern] abbrev inputValueDefinition (description name type default : Child Node)
    (directives : List (Child Node)) (l : Option Location) : Node :=
  mk .inputValueDefinition
    [.one description, .one name, .one type, .one default, .many directives] l

/-! ### Copies -/

/-- A node without a location, from copies of its children. -/
def cloneParts (k : Kind) (ss : List (Slot Node)) : Node :=
  match k, ss with
  | .name, [.text value] => name value none
  | .document, [.many definitions] => document definitions none
  | .operationDefinition,
      [.text operation, .one n, .many parameters, .many directives, .one selections] =>
    operationDefinition operation n parameters directives selections none
  | .variableDefinition, [.one v, .one type, .one default, .many directives] =>
    variableDefinition v type default directives none
  | .variable, [.one n] => var n none
  | .selectionSet, [.many selections] => selectionSet selections none
  | .field, [.one key, .one n, .many arguments, .many directives, .one selections] =>
    field key n arguments directives selections none
  | .argument, [.one n, .one value] => argument n value none
  | .fragmentSpread, [.one n, .many directives] => fragmentSpread n directives none
  | .inlineFragment, [.one typeCondition, .many directives, .one selections] =>
    inlineFragment typeCondition directives selections none
  | .fragmentDefinition,
      [.one n, .many parameters, .one typeCondition, .many directives, .one selections] =>
    fragmentDefinition n parameters typeCondition directives selections none
  | .intValue, [.text value] => intValue value none
  | .floatValue, [.text value] => floatValue value none
  | .stringValue, [.text value, .flag block] => stringValue value block none
  | .booleanValue, [.flag value] => booleanValue value none
  | .nullValue, [] => nullValue none
  | .enumValue, [.text value] => enumValue value none
  | .listValue, [.many values] => listValue values none
  | .objectValue, [.many fields] => objectValue fields none
  | .objectField, [.one n, .one value] => objectField n value none
  | .directive, [.one n, .many arguments] => directive n arguments none
  | .namedType, [.one n] => namedType n none
  | .listType, [.one type] => listType type none
  | .nonNullType, [.one type] => nonNullType type none
  | .directiveDefinition,
      [.one description, .one n, .many arguments, .flag repeatable, .many locations] =>
    directiveDefinition description n arguments repeatable locations none
  | .inputValueDefinition,
      [.one description, .one n, .one type, .one default, .many directives] =>
    inputValueDefinition description n type default directives none
  | k, ss => mk k ss none

/-- An independent copy of a node and everything it owns, without locations. -/
def cloneDeep : Node → Node := fold fun k ss _ => cloneParts k ss

end Node

/-! ### Reading nodes -/

/-- The text of a name in a place for one; a missing name reads as the empty text. -/
def Child.nameText : Child Node → String
  | .node (.name value _) => value
  | _ => ""

/-- Whether a place holds a name. -/
def Child.isName : Child Node → Bool
  | .node (.name _ _) => true
  | _ => false

namespace Node

/-- A node's kind, with the text of the node when it is a name and else of its first name child. -/
def label (n : Node) : String :=
  let text? : Option String :=
    match n with
    | .name value _ => some value
    | _ => n.children.findSome? fun
      | .name value _ => some value
      | _ => none
  match text? with
  | some text => n.kind.toName ++ ":" ++ text
  | none => n.kind.toName

/-- The definitions of a document; no other node has any. -/
def definitions : Node → List (Child Node)
  | .document ds _ => ds
  | _ => []

/-- The definitions of a document that are nodes of kind `k`, in order. -/
def definitionsOf (k : Kind) (doc : Node) : List Node :=
  (doc.definitions.filterMap Child.toOption).filter fun d => d.kind == k

/-- The operation definitions of a document, in order. -/
def operations (doc : Node) : List Node := doc.definitionsOf .operationDefinition

/-- The fragment definitions of a document, in order. -/
def fragments (doc : Node) : List Node := doc.definitionsOf .fragmentDefinition

/-- The directive definitions of a document, in order. -/
def directiveDefinitions (doc : Node) : List Node := doc.definitionsOf .directiveDefinition

/-- A document with further definitions at its end. -/
def appendDefinitions (doc : Node) (more : List (Child Node)) : Node :=
  match doc with
  | .document ds l => .document (ds ++ more) l
  | n => n

end Node

end QueryCheck.Syntax
