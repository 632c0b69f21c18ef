import QueryCheck.Syntax.Structured

/-! # Shared nodes

A store keeps nodes in cells that refer to each other, so that one node can stand in several places
and a change made through one of them shows in all. Storing a tree takes new cells for all its
nodes, and so does copying one: the cell is looked up, its children are copied first, and the copies
stand in a new cell. A list is part of its cell; what is taken off it there stays in the lists of
other cells.

* `Store.insert` stores a tree, `Store.read?` reads the tree below a cell.
* `Store.cloneDeep?` copies the tree below a cell, cell by cell.
* `Store.setText?`, `Store.dropLast?` and `Store.append?` change a cell in place. -/

namespace QueryCheck.Syntax

/-- The number of a cell. -/
abbrev Ref := Nat

/-- A node whose children are given by reference. -/
structure Cell where
  kind : Kind
  slots : List (Slot Ref)
  loc : Option Location
  deriving Inhabited

/-- Cells that refer to each other. -/
structure Store where
  cells : List Cell := []
  deriving Inhabited

/-- A computation that stores nodes. -/
abbrev Storing (α : Type) := StateM Store α

namespace Store

/-- The cell with the given number. -/
def cell? (st : Store) (r : Ref) : Option Cell := st.cells[r]?

/-- Takes a new cell. -/
def push (c : Cell) : Storing Ref := fun st => (st.cells.length, ⟨st.cells ++ [c]⟩)

/-- Replaces a cell. -/
def put (st : Store) (r : Ref) (c : Cell) : Store := ⟨st.cells.set r c⟩

/-- The children of a cell, missing ones left out. -/
def children (st : Store) (r : Ref) : List Ref :=
  ((st.cell? r).map fun c => c.slots.flatMap Slot.children).getD []

/-- The cell reached by a path of child positions. -/
def follow? (st : Store) : List Nat → Ref → Option Ref
  | [], r => some r
  | i :: is, r => ((st.children r)[i]?).bind (st.follow? is)

/-! ### Trees in a store -/

/-- Runs the computation in a place for a child. -/
def storeChild : Child (Storing Ref) → Storing (Child Ref)
  | .absent => return .absent
  | .null k => return .null k
  | .node m => return .node (← m)

/-- Runs the computations in a slot, in order. -/
def storeSlot : Slot (Storing Ref) → Storing (Slot Ref)
  | .text s => return .text s
  | .flag b => return .flag b
  | .one c => return .one (← storeChild c)
  | .many cs => return .many (← cs.mapM storeChild)

/-- Stores a tree in new cells, children before the node that owns them. -/
def insert : Node → Storing Ref :=
  Node.fold fun k ss l => do
    let ss ← ss.mapM storeSlot
    push ⟨k, ss, l⟩

/-- Reads a place for a child. -/
def readChild (read : Ref → Option Node) : Child Ref → Option (Child Node)
  | .absent => some .absent
  | .null k => some (.null k)
  | .node r => (read r).map .node

/-- Reads a slot. -/
def readSlot (read : Ref → Option Node) : Slot Ref → Option (Slot Node)
  | .text s => some (.text s)
  | .flag b => some (.flag b)
  | .one c => (readChild read c).map .one
  | .many cs => (cs.mapM (readChild read)).map .many

/-- Reads the tree below a cell down to the given depth; a deeper one cannot be read. -/
def readWithin (st : Store) : (depth : Nat) → Ref → Option Node
  | 0, _ => none
  | depth + 1, r => do
    let c ← st.cell? r
    let ss ← c.slots.mapM (readSlot (st.readWithin depth))
    return .mk c.kind ss c.loc

/-- Reads the tree below a cell. No tree is deeper than there are cells, unless a cell is below
itself. -/
def read? (st : Store) (r : Ref) : Option Node := st.readWithin st.cells.length r

/-! ### Copies -/

/-- A computation that copies nodes, if there are any to copy. -/
abbrev Copying (α : Type) := StateT Store Option α

/-- Copies what is in a place for a child. -/
def copyChild (copy : Ref → Copying Ref) : Child Ref → Copying (Child Ref)
  | .absent => return .absent
  | .null k => return .null k
  | .node r => return .node (← copy r)

/-- Copies what is in a slot, in order. -/
def copySlot (copy : Ref → Copying Ref) : Slot Ref → Copying (Slot Ref)
  | .text s => return .text s
  | .flag b => return .flag b
  | .one c => return .one (← copyChild copy c)
  | .many cs => return .many (← cs.mapM (copyChild copy))

/-- Copies the tree below a cell down to the given depth; a deeper one cannot be copied. The copies
of the children come before the copy of the cell, and no copy has a location. -/
def copyWithin : (depth : Nat) → Ref → Copying Ref
  | 0, _ => fun _ => none
  | depth + 1, r => fun st => do
    let c ← st.cell? r
    let (ss, st) ← (c.slots.mapM (copySlot (copyWithin depth))).run st
    return (push ⟨c.kind, ss, none⟩).run st

/-- Stores a copy of the tree below a cell, without locations, in new cells. No tree is deeper than
there are cells, unless a cell is below itself. -/
def cloneDeep? (st : Store) (r : Ref) : Option (Ref × Store) :=
  (copyWithin st.cells.length r).run st

/-! ### Changes in place -/

/-- Overwrites the text of a cell that starts with one. -/
def setText? (st : Store) (r : Ref) (text : String) : Option Store := do
  let c ← st.cell? r
  match c.slots with
  | .text _ :: ss => some (st.put r { c with slots := .text text :: ss })
  | _ => none

/-- Takes the last item off a cell that is only a list; there has to be one. -/
def dropLast? (st : Store) (r : Ref) : Option Store := do
  let c ← st.cell? r
  match c.slots with
  | [.many (x :: xs)] => some (st.put r { c with slots := [.many (x :: xs).dropLast] })
  | _ => none

/-- Whether a list of a cell of kind `owner` takes items of kind `k`. -/
def takesItem (owner k : Kind) : Bool :=
  match owner.declared with
  | [(_, .many w)] => w.admits k
  | _ => false

/-- Adds a reference to another cell to the end of a cell that is only a list. -/
def append? (st : Store) (r item : Ref) : Option Store := do
  let c ← st.cell? r
  let x ← st.cell? item
  match c.slots with
  | [.many xs] =>
    if takesItem c.kind x.kind then
      some (st.put r { c with slots := [.many (xs ++ [.node item])] })
    else none
  | _ => none

end Store

end QueryCheck.Syntax
