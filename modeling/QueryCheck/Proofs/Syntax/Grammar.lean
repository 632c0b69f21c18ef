import QueryCheck.Proofs.Source.Lexemes
import QueryCheck.Proofs.Syntax.Tree
import QueryCheck.Written.Basic

/-! # The grammar of query documents

The nodes that stand for executable documents, without locations, as predicates on nodes: one for
each sort of phrase, with one case for each form of the phrase. Which strings may occur in a
document is left open: a condition on lexemes tells. Beside the phrases stand the lexemes of a node,
put together like its text.

* `Node.lexemes`: the lexemes of a node.
* `IsValue`, `IsType`, `IsArgument`, `IsDirective`, `IsSelection`, `IsVariableDefinition`,
  `IsDefinition`, `IsDocument`: the phrases of the language. -/

namespace QueryCheck.Syntax

open QueryCheck.Source

/-! ### Lexemes of nodes -/

/-- The lexemes in a place for a child; a missing child has none. -/
def Child.lexemes : Child (List Lexeme) → List Lexeme
  | .node ls => ls
  | _ => []

namespace Lexemes

/-- The lexemes of a list. -/
def listed (cs : List (Child (List Lexeme))) : List Lexeme := cs.flatMap Child.lexemes

/-- A list in parentheses, or nothing when it is empty. -/
def parenthesized : List (Child (List Lexeme)) → List Lexeme
  | [] => []
  | cs => enclosed .parenL .parenR (listed cs)

/-- A default value after an equals sign, or nothing when the place was not filled. -/
def default (c : Child (List Lexeme)) : List Lexeme :=
  if c.isFilled then mark .equals :: c.lexemes else []

/-- The lexemes of a node from the lexemes of its children. -/
def parts : Kind → List (Slot (List Lexeme)) → List Lexeme
  | .name, [.text s] => [(.name, s)]
  | .namedType, [.one n] => n.lexemes
  | .listType, [.one t] => enclosed .bracketL .bracketR t.lexemes
  | .nonNullType, [.one t] => t.lexemes ++ [mark .bang]
  | .variable, [.one n] => mark .dollar :: n.lexemes
  | .intValue, [.text s] => [(.int, s)]
  | .floatValue, [.text s] => [(.float, s)]
  | .enumValue, [.text s] => [(.name, s)]
  | .stringValue, [.text s, .flag b] => [(if b then .blockString else .string, s)]
  | .booleanValue, [.flag b] => [(.name, if b then "true" else "false")]
  | .nullValue, _ => [(.name, "null")]
  | .listValue, [.many vs] => enclosed .bracketL .bracketR (listed vs)
  | .objectValue, [.many fs] => enclosed .braceL .braceR (listed fs)
  | .objectField, [.one n, .one v] => n.lexemes ++ mark .colon :: v.lexemes
  | .argument, [.one n, .one v] => n.lexemes ++ mark .colon :: v.lexemes
  | .directive, [.one n, .many args] => mark .atSign :: (n.lexemes ++ parenthesized args)
  | .field, [.one key, .one n, .many args, .many dirs, .one sel] =>
    (match key with
     | .node a => a ++ [mark .colon]
     | _ => [])
      ++ (n.lexemes ++ (parenthesized args ++ (listed dirs ++ sel.lexemes)))
  | .fragmentSpread, [.one n, .many dirs] => mark .spread :: (n.lexemes ++ listed dirs)
  | .inlineFragment, [.one t, .many dirs, .one sel] =>
    mark .spread ::
      ((match t with
        | .node ls => (.name, "on") :: ls
        | _ => [])
        ++ (listed dirs ++ sel.lexemes))
  | .selectionSet, [.many ss] => enclosed .braceL .braceR (listed ss)
  | .variableDefinition, [.one v, .one t, .one d, .many dirs] =>
    v.lexemes ++ mark .colon :: (t.lexemes ++ (default d ++ listed dirs))
  | .operationDefinition, [.text op, .one n, .many vars, .many dirs, .one sel] =>
    (.name, op) :: (n.lexemes ++ (parenthesized vars ++ (listed dirs ++ sel.lexemes)))
  | .fragmentDefinition, [.one n, .many vars, .one t, .many dirs, .one sel] =>
    (.name, "fragment") :: (n.lexemes ++
      (parenthesized vars ++ (.name, "on") :: (t.lexemes ++ (listed dirs ++ sel.lexemes))))
  | .document, [.many ds] => listed ds
  | _, _ => []

end Lexemes

namespace Node

/-- The lexemes of a node in the query language. -/
def lexemes : Node → List Lexeme := fold fun k ss _ => Lexemes.parts k ss

theorem lexemes_mk (k : Kind) (ss : List (Slot Node)) (l : Option Location) :
    (mk k ss l).lexemes = Lexemes.parts k (ss.map (Slot.map lexemes)) := fold_mk _ k ss l

end Node

/-! ### Phrases -/

/-- The place of a name without a location. -/
abbrev nameIn (s : String) : Child Node := .node (.name s none)

/-- The places of some nodes. -/
abbrev placed (ns : List Node) : List (Child Node) := ns.map .node

/-- The selection set of some selections. -/
abbrev selectionSetOf (ss : List Node) : Node := .selectionSet (placed ss) none

/-- A type that is marked non-null or not. -/
def marked (nonNull : Bool) (t : Node) : Node := if nonNull then .nonNullType (.node t) none else t

/-- A field of an object value. -/
abbrev fieldOf (f : String × Node) : Node := .objectField (nameIn f.1) (.node f.2) none

/-- Values; a constant one has no variables. The strings in them meet the condition `S`. -/
inductive IsValue (S : Lexeme → Prop) (constant : Bool) : Node → Prop
  | var {s : String} : constant = false → IsName s → IsValue S constant (.var (nameIn s) none)
  | int {s : String} : IsNumber false s.toList → IsValue S constant (.intValue s none)
  | float {s : String} : IsNumber true s.toList → IsValue S constant (.floatValue s none)
  | string {s : String} : S (.string, s) → IsValue S constant (.stringValue s false none)
  | block {s : String} : S (.blockString, s) → IsValue S constant (.stringValue s true none)
  | boolean (b : Bool) : IsValue S constant (.booleanValue b none)
  | null : IsValue S constant (.nullValue none)
  | enum {s : String} : IsName s → s ∉ ["true", "false", "null"] →
      IsValue S constant (.enumValue s none)
  | list {vs : List Node} : (∀ v ∈ vs, IsValue S constant v) →
      IsValue S constant (.listValue (placed vs) none)
  | object {fs : List (String × Node)} : (∀ f ∈ fs, IsName f.1) →
      (∀ f ∈ fs, IsValue S constant f.2) →
      IsValue S constant (.objectValue (placed (fs.map fieldOf)) none)

/-- Type references. -/
inductive IsType : Node → Prop
  | named {s : String} (nonNull : Bool) :
    IsName s → IsType (marked nonNull (.namedType (nameIn s) none))
  | list {t : Node} (nonNull : Bool) : IsType t → IsType (marked nonNull (.listType (.node t) none))

/-- Arguments. -/
inductive IsArgument (S : Lexeme → Prop) (constant : Bool) : Node → Prop
  | mk {s : String} {v : Node} : IsName s → IsValue S constant v →
      IsArgument S constant (.argument (nameIn s) (.node v) none)

/-- Directives. -/
inductive IsDirective (S : Lexeme → Prop) (constant : Bool) : Node → Prop
  | mk {s : String} {args : List Node} : IsName s → (∀ a ∈ args, IsArgument S constant a) →
      IsDirective S constant (.directive (nameIn s) (placed args) none)

/-- Selections. The key of a field is not its name, and a fragment may not be named `on`. -/
inductive IsSelection (S : Lexeme → Prop) : Node → Prop
  | field {key : Option String} {s : String} {args dirs : List Node} {sel : Option (List Node)} :
      (∀ k ∈ key, IsName k ∧ k ≠ s) → IsName s → (∀ a ∈ args, IsArgument S false a) →
      (∀ d ∈ dirs, IsDirective S false d) → (∀ ss ∈ sel, ss ≠ []) →
      (∀ ss ∈ sel, ∀ n ∈ ss, IsSelection S n) →
      IsSelection S (.field (.ofOption (key.map fun k => .name k none)) (nameIn s) (placed args)
        (placed dirs) (.ofOption (sel.map selectionSetOf)) none)
  | spread {s : String} {dirs : List Node} : IsName s → s ≠ "on" →
      (∀ d ∈ dirs, IsDirective S false d) →
        IsSelection S (.fragmentSpread (nameIn s) (placed dirs) none)
  | inline {cond : Option String} {dirs ss : List Node} : (∀ t ∈ cond, IsName t) →
      (∀ d ∈ dirs, IsDirective S false d) → ss ≠ [] → (∀ n ∈ ss, IsSelection S n) →
      IsSelection S (.inlineFragment (.ofOption (cond.map fun t => .namedType (nameIn t) none))
        (placed dirs) (.node (selectionSetOf ss)) none)

/-- Variable definitions. -/
inductive IsVariableDefinition (S : Lexeme → Prop) : Node → Prop
  | mk {s : String} {t : Node} {default : Option Node} {dirs : List Node} : IsName s → IsType t →
      (∀ v ∈ default, IsValue S true v) → (∀ d ∈ dirs, IsDirective S false d) →
      IsVariableDefinition S (.variableDefinition (.node (.var (nameIn s) none)) (.node t)
        (.ofOption default) (placed dirs) none)

/-- Operation and fragment definitions. -/
inductive IsDefinition (S : Lexeme → Prop) : Node → Prop
  | operation (op : Written.Operation) {name : Option String} {vars dirs ss : List Node} :
      (∀ s ∈ name, IsName s) → (∀ v ∈ vars, IsVariableDefinition S v) →
      (∀ d ∈ dirs, IsDirective S false d) → ss ≠ [] → (∀ n ∈ ss, IsSelection S n) →
      IsDefinition S (.operationDefinition op.keyword (.ofOption (name.map fun s => .name s none))
        (placed vars) (placed dirs) (.node (selectionSetOf ss)) none)
  | fragment {s t : String} {vars dirs ss : List Node} : IsName s → s ≠ "on" →
      (∀ v ∈ vars, IsVariableDefinition S v) → IsName t → (∀ d ∈ dirs, IsDirective S false d) →
      ss ≠ [] → (∀ n ∈ ss, IsSelection S n) →
      IsDefinition S (.fragmentDefinition (nameIn s) (placed vars)
        (.node (.namedType (nameIn t) none)) (placed dirs) (.node (selectionSetOf ss)) none)

/-- Executable documents. -/
inductive IsDocument (S : Lexeme → Prop) : Node → Prop
  | mk {ds : List Node} : (∀ d ∈ ds, IsDefinition S d) → IsDocument S (.document (placed ds) none)

/-! ### Lexemes of phrases -/

namespace Node

theorem listed_placed (ns : List Node) :
    Lexemes.listed ((placed ns).map (Child.map lexemes)) = ns.flatMap lexemes := by
  simp [Lexemes.listed, List.flatMap_map, Child.lexemes]

/-- The lexemes of some nodes in parentheses, or nothing when there are none. -/
def inParens (ns : List Node) : List Lexeme :=
  Lexemes.parenthesized ((placed ns).map (Child.map lexemes))

theorem inParens_of_ne_nil {ns : List Node} (h : ns ≠ []) :
    inParens ns = enclosed .parenL .parenR (ns.flatMap lexemes) := by
  obtain ⟨n, ns, rfl⟩ := List.exists_cons_of_ne_nil h
  rw [← listed_placed]
  rfl

theorem lexemes_marked (nonNull : Bool) (t : Node) :
    (marked nonNull t).lexemes = t.lexemes ++ if nonNull then [mark .bang] else [] := by
  cases nonNull
  · simp [marked]
  · rw [marked, if_pos rfl, lexemes_mk]
    rfl

theorem lexemes_namedType (s : String) : (Node.namedType (nameIn s) none).lexemes = [(.name, s)] :=
  rfl

theorem lexemes_listType (t : Node) :
    (Node.listType (.node t) none).lexemes = enclosed .bracketL .bracketR t.lexemes := by
  rw [lexemes_mk]
  rfl

theorem lexemes_listValue (vs : List Node) :
    (Node.listValue (placed vs) none).lexemes =
      enclosed .bracketL .bracketR (vs.flatMap lexemes) := by
  rw [lexemes_mk, ← listed_placed]
  rfl

theorem lexemes_fieldOf (f : String × Node) :
    (fieldOf f).lexemes = (.name, f.1) :: mark .colon :: f.2.lexemes := by
  rw [lexemes_mk]
  rfl

theorem lexemes_objectValue (fs : List (String × Node)) :
    (Node.objectValue (placed (fs.map fieldOf)) none).lexemes =
      enclosed .braceL .braceR (fs.flatMap fun f => (fieldOf f).lexemes) := by
  rw [lexemes_mk, ← List.flatMap_map fieldOf lexemes, ← listed_placed]
  rfl

theorem lexemes_argument (s : String) (v : Node) :
    (Node.argument (nameIn s) (.node v) none).lexemes = (.name, s) :: mark .colon :: v.lexemes := by
  rw [lexemes_mk]
  rfl

theorem lexemes_directive (s : String) (args : List Node) :
    (Node.directive (nameIn s) (placed args) none).lexemes =
      mark .atSign :: (.name, s) :: inParens args := by
  rw [lexemes_mk]
  rfl

theorem lexemes_selectionSetOf (ss : List Node) :
    (selectionSetOf ss).lexemes = enclosed .braceL .braceR (ss.flatMap lexemes) := by
  rw [lexemes_mk, ← listed_placed]
  rfl

/-- The lexemes of the key of a field, if it has one. -/
def keyLexemes (key : Option String) : List Lexeme :=
  key.elim [] fun k => [(.name, k), mark .colon]

/-- The lexemes of a selection set, if there is one. -/
def setLexemes (sel : Option (List Node)) : List Lexeme :=
  sel.elim [] fun ss => (selectionSetOf ss).lexemes

theorem lexemes_field (key : Option String) (s : String) (args dirs : List Node)
    (sel : Option (List Node)) :
    (Node.field (.ofOption (key.map fun k => .name k none)) (nameIn s) (placed args) (placed dirs)
      (.ofOption (sel.map selectionSetOf)) none).lexemes =
      keyLexemes key ++
        ((.name, s) :: (inParens args ++ (dirs.flatMap lexemes ++ setLexemes sel))) := by
  rw [lexemes_mk, ← listed_placed]
  cases key <;> cases sel <;> rfl

theorem lexemes_fragmentSpread (s : String) (dirs : List Node) :
    (Node.fragmentSpread (nameIn s) (placed dirs) none).lexemes =
      mark .spread :: (.name, s) :: dirs.flatMap lexemes := by
  rw [lexemes_mk, ← listed_placed]
  rfl

/-- The lexemes of a type condition, if there is one. -/
def conditionLexemes (cond : Option String) : List Lexeme :=
  cond.elim [] fun t => [(.name, "on"), (.name, t)]

theorem lexemes_inlineFragment (cond : Option String) (dirs ss : List Node) :
    (Node.inlineFragment (.ofOption (cond.map fun t => .namedType (nameIn t) none)) (placed dirs)
      (.node (selectionSetOf ss)) none).lexemes =
      mark .spread :: (conditionLexemes cond ++
        (dirs.flatMap lexemes ++ (selectionSetOf ss).lexemes)) := by
  rw [lexemes_mk, ← listed_placed]
  cases cond <;> rfl

/-- The lexemes of a default value, if there is one. -/
def defaultLexemes (default : Option Node) : List Lexeme :=
  default.elim [] fun v => mark .equals :: v.lexemes

theorem lexemes_variableDefinition (s : String) (t : Node) (default : Option Node)
    (dirs : List Node) :
    (Node.variableDefinition (.node (.var (nameIn s) none)) (.node t) (.ofOption default)
      (placed dirs) none).lexemes =
      mark .dollar :: (.name, s) :: mark .colon ::
        (t.lexemes ++ (defaultLexemes default ++ dirs.flatMap lexemes)) := by
  rw [lexemes_mk, ← listed_placed]
  cases default <;> rfl

theorem lexemes_operationDefinition (op : String) (name : Option String)
    (vars dirs ss : List Node) :
    (Node.operationDefinition op (.ofOption (name.map fun s => .name s none)) (placed vars)
      (placed dirs) (.node (selectionSetOf ss)) none).lexemes =
      (.name, op) :: (name.elim [] (fun s => [(.name, s)]) ++
        (inParens vars ++ (dirs.flatMap lexemes ++ (selectionSetOf ss).lexemes))) := by
  rw [lexemes_mk, ← listed_placed]
  cases name <;> rfl

theorem lexemes_fragmentDefinition (s t : String) (vars dirs ss : List Node) :
    (Node.fragmentDefinition (nameIn s) (placed vars) (.node (.namedType (nameIn t) none))
      (placed dirs) (.node (selectionSetOf ss)) none).lexemes =
      (.name, "fragment") :: (.name, s) :: (inParens vars ++ ((.name, "on") :: (.name, t) ::
        (dirs.flatMap lexemes ++ (selectionSetOf ss).lexemes))) := by
  rw [lexemes_mk, ← listed_placed]
  rfl

end Node

end QueryCheck.Syntax
