import QueryCheck.Syntax.Node

/-! # Building nodes from named fields

A node can be built from its kind and values given by field name. Every value is checked against the
shape the kind declares for the field; fields that are not given stay empty. The fields are looked
at in the order of their names, and the first that does not fit decides the error.

* `Node.build` builds a node of a given kind, and `Node.buildOf` one of a kind given by its number.
* `BuildError` says which field did not fit, what it takes and what it was given. -/

namespace QueryCheck.Syntax

/-- A value given for a field. -/
inductive FieldValue where
  | nothing
  | text (s : String)
  /-- The keyword of an operation, said to be one. -/
  | operation (s : String)
  | flag (b : Bool)
  | number (i : Int)
  | node (n : Node)
  /-- No node, said of a kind. -/
  | null (k : Kind)
  /-- A list of nodes of any kind. -/
  | nodes (cs : List (Child Node))
  /-- A plain list whose items are all of one sort. -/
  | plainList (of : Wanted) (cs : List (Child Node))
  /-- A node list whose items are all of one sort. -/
  | nodeList (of : Wanted) (cs : List (Child Node))
  | location (l : Location)
  /-- No location, said to be one. -/
  | noLocation
  /-- A value of any other sort, under the name that messages give the sort. -/
  | other (sort : String)
  deriving Inhabited

/-- What a value is, as far as messages tell it. -/
inductive ValueSort where
  | nothing
  | text
  | operation
  | flag
  | number
  | nodeOf (k : Kind)
  | nullOf (k : Kind)
  | nodes
  | plainList (of : Wanted)
  | nodeList (of : Wanted)
  | location
  | other (name : String)
  deriving DecidableEq, Repr, Inhabited

/-- What a field takes, as far as messages tell it. -/
inductive Takes where
  | text
  | operation
  | flag
  | one (w : Wanted)
  | many (w : Wanted)
  | location
  /-- A type that is not itself non-null. -/
  | bareType
  /-- A field declared by the kind; the given one is not. -/
  | declaredField
  deriving DecidableEq, Repr, Inhabited

/-- A field that did not fit. `item` is the position of the list item at fault, if it is one. -/
structure BuildError where
  kind : Kind
  field : String
  item : Option Nat
  expected : Takes
  got : ValueSort
  deriving DecidableEq, Repr, Inhabited

/-- What a place for a child holds. -/
def Child.sort : Child Node → ValueSort
  | .absent => .nothing
  | .null k => .nullOf k
  | .node n => .nodeOf n.kind

/-- What a value is. -/
def FieldValue.sort : FieldValue → ValueSort
  | .nothing => .nothing
  | .text _ => .text
  | .operation _ => .operation
  | .flag _ => .flag
  | .number _ => .number
  | .node n => .nodeOf n.kind
  | .null k => .nullOf k
  | .nodes _ => .nodes
  | .plainList w _ => .plainList w
  | .nodeList w _ => .nodeList w
  | .location _ => .location
  | .noLocation => .location
  | .other name => .other name

namespace Build

/-- The slot of a field that was not given. -/
def emptySlot : Shape → Slot Node
  | .text | .operation => .text ""
  | .flag | .mark => .flag false
  | .one _ => .one .absent
  | .many _ => .many []

/-- What a field of the given shape takes. -/
def takes : Shape → Takes
  | .text => .text
  | .operation => .operation
  | .flag | .mark => .flag
  | .one w => .one w
  | .many w => .many w

/-- Whether a list item may stand in a list of `w`. -/
def fitsItem (w : Wanted) : Child Node → Bool
  | .absent => false
  | .null k => w.admits k
  | .node n => w.admits n.kind

/-- The position of the first list item that may not stand in a list of `w`, with the item. -/
def firstMisfit (w : Wanted) (cs : List (Child Node)) : Option (Nat × Child Node) :=
  (cs.zipIdx.find? fun ci => !fitsItem w ci.1).map fun ci => (ci.2, ci.1)

/-- The place of a field that takes one child when no node of kind `k` is given for it. Where only
one kind may stand, no node of it is nothing at all. -/
def nullPlace (w : Wanted) (k : Kind) : Child Node :=
  match w with
  | .kind _ => .absent
  | .family _ => .null k

/-- The slot a value gives to a field, or an error when it does not fit. `nothing` leaves the slot
as it is. -/
def slotOf (k : Kind) (field : String) (shape : Shape) (old : Slot Node) (v : FieldValue) :
    Except BuildError (Slot Node) :=
  let misfit : Except BuildError (Slot Node) := .error ⟨k, field, none, takes shape, v.sort⟩
  match shape, v with
  | _, .nothing => .ok old
  | .text, .text s => .ok (.text s)
  | .operation, .operation s => .ok (.text s)
  | .operation, .text s => .ok (.text s)
  | .flag, .flag b => .ok (.flag b)
  | .mark, .flag b => .ok (.flag b)
  | .one w, .node n => if w.admits n.kind then .ok (.one (.node n)) else misfit
  | .one w, .null k' => if w.admits k' then .ok (.one (nullPlace w k')) else misfit
  | .many w, .plainList w' cs => if w = w' then .ok (.many cs) else misfit
  | .many w, .nodeList w' cs => if w = w' then .ok (.many cs) else misfit
  | .many w, .nodes cs =>
    match firstMisfit w cs with
    | some (i, c) => .error ⟨k, field, some i, .one w, c.sort⟩
    | none => .ok (.many cs)
  | _, _ => misfit

/-- Whether a value is, or is said to be, of kind `k`. -/
def ofKind (k : Kind) (v : FieldValue) : Bool := v.sort == .nodeOf k || v.sort == .nullOf k

/-- The location a value gives. -/
def locationOf (k : Kind) (v : FieldValue) : Except BuildError (Option Location) :=
  match v with
  | .nothing => .ok none
  | .noLocation => .ok none
  | .location l => .ok (some l)
  | v => .error ⟨k, "loc", none, .location, v.sort⟩

/-- Sets one field of a node. -/
def setField (n : Node) (field : String) (v : FieldValue) : Except BuildError Node :=
  let k := n.kind
  if field = "loc" then do
    let l ← locationOf k v
    return .mk k n.slots l
  else
    match k.declared.findIdx? fun d => d.1 == field with
    | none => .error ⟨k, field, none, .declaredField, v.sort⟩
    | some i =>
      if k = .nonNullType && ofKind .nonNullType v then
        .error ⟨k, field, none, .bareType, v.sort⟩
      else do
        let shape := ((k.declared[i]?).map Prod.snd).getD .text
        let s ← slotOf k field shape ((n.slots[i]?).getD (emptySlot shape)) v
        return .mk k (n.slots.set i s) n.loc

end Build

namespace Node

/-- A node of the given kind with nothing in it. -/
def empty (k : Kind) : Node := .mk k (k.declared.map fun d => Build.emptySlot d.2) none

/-- Builds a node of kind `k` from field values, which are taken in the order of their names. -/
def build (k : Kind) (fields : List (String × FieldValue)) : Except BuildError Node :=
  (fields.mergeSort fun a b => a.1 ≤ b.1).foldlM
    (fun n f => Build.setField n f.1 f.2) (empty k)

end Node

/-- Why a node was not built. -/
inductive Refusal where
  /-- There is no kind of the given number. -/
  | kind (code : Nat)
  | field (e : BuildError)
  deriving DecidableEq, Repr, Inhabited

/-- Builds a node of the kind with the given number, if there is one. -/
def Node.buildOf (code : Nat) (fields : List (String × FieldValue)) : Except Refusal Node :=
  match Kind.ofCode? code with
  | some k => (build k fields).mapError .field
  | none => .error (.kind code)

/-! ### Messages -/

/-- The words in which messages tell what values are and what fields take. -/
structure Wording where
  sort : ValueSort → String
  takes : Kind → Takes → String

/-- What was expected and what was given, in quotes. -/
def expectation (expected got : String) : String :=
  "Expected type \"" ++ expected ++ "\", got \"" ++ got ++ "\""

/-- The message of a field that did not fit. -/
def BuildError.message (w : Wording) (e : BuildError) : String :=
  let place :=
    match e.item with
    | some i => e.field ++ "[" ++ toString i ++ "]"
    | none => e.field
  e.kind.toName ++ (if place = "" then "" else "." ++ place) ++ ": "
    ++ expectation (w.takes e.kind e.expected) (w.sort e.got)

/-- The message of a node that was not built. -/
def Refusal.message (w : Wording) : Refusal → String
  | .kind code => expectation "node kind" (Kind.nameOfCode code)
  | .field e => e.message w

end QueryCheck.Syntax
