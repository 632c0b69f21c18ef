import QueryCheck.Syntax.Store

/-! # Shelves

A shelf is a store with names for some of its cells, the slots of the shelf. Nodes are reached from
a slot by a path of child positions. A slot may hold a node that is part of the node in another
slot, and then a change made through one of them shows in the other.

* `Shelf.insert`, `Shelf.clone?` and `Shelf.pick?` fill a slot: with a tree, with a copy of a node,
  with the node itself.
* `Shelf.change?` changes a node in place, and `Shelf.run` makes one change after another. -/

namespace QueryCheck.Syntax

/-- A store with names for some of its cells. -/
structure Shelf where
  store : Store := {}
  slots : List (String × Ref) := []
  deriving Inhabited

/-- A change of a node in place. -/
inductive Edit where
  /-- Overwrites the text of the node. -/
  | setText (text : String)
  /-- Takes the last item off the list of the node. -/
  | dropLast
  deriving DecidableEq, Repr, Inhabited

/-- A change of the node reached from a slot by a path. -/
structure Change where
  slot : String
  path : List Nat
  edit : Edit
  deriving DecidableEq, Repr, Inhabited

/-- Changes a cell in place. -/
def Store.edit? (st : Store) (r : Ref) : Edit → Option Store
  | .setText text => st.setText? r text
  | .dropLast => st.dropLast? r

namespace Shelf

/-- The cell reached from a slot by a path of child positions. -/
def place? (s : Shelf) (slot : String) (path : List Nat) : Option Ref :=
  (s.slots.lookup slot).bind (s.store.follow? path)

/-- The node reached from a slot by a path. -/
def node? (s : Shelf) (slot : String) (path : List Nat) : Option Node :=
  (s.place? slot path).bind s.store.read?

/-- The structured form of the node in a slot. -/
def structured? (s : Shelf) (slot : String) : Option Data.Value :=
  (s.node? slot []).map Node.structured

/-! ### Filling slots -/

/-- Puts a cell of a store that has grown into a slot. -/
def keep (s : Shelf) (into : String) (grown : Ref × Store) : Shelf :=
  ⟨grown.2, (into, grown.1) :: s.slots⟩

/-- Stores a tree and puts it into a slot. -/
def insert (s : Shelf) (into : String) (n : Node) : Shelf :=
  s.keep into ((Store.insert n).run s.store)

/-- Puts a copy of the node reached by a path into a slot. -/
def clone? (s : Shelf) (slot : String) (path : List Nat) (into : String) : Option Shelf := do
  let r ← s.place? slot path
  let grown ← s.store.cloneDeep? r
  return s.keep into grown

/-- Puts the node reached by a path itself into a slot. -/
def pick? (s : Shelf) (slot : String) (path : List Nat) (into : String) : Option Shelf :=
  (s.place? slot path).map fun r => s.keep into (r, s.store)

/-! ### Changes in place -/

/-- Makes a change, if it can be made. -/
def change? (s : Shelf) (c : Change) : Option Shelf := do
  let r ← s.place? c.slot c.path
  let st ← s.store.edit? r c.edit
  return { s with store := st }

/-- Makes changes one after another. One that cannot be made leaves everything as it is. -/
def run (s : Shelf) (changes : List Change) : Shelf :=
  changes.foldl (fun s c => (s.change? c).getD s) s

/-- Adds the node in a slot to the end of the list of the node reached by a path. -/
def append? (s : Shelf) (slot : String) (path : List Nat) (item : String) : Option Shelf := do
  let r ← s.place? slot path
  let x ← s.slots.lookup item
  let st ← s.store.append? r x
  return { s with store := st }

end Shelf

end QueryCheck.Syntax
