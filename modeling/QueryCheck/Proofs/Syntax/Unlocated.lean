import QueryCheck.Proofs.Syntax.Grammar
import QueryCheck.Syntax.Locate

/-! # Read documents without their locations

Where the nodes of a document are located depends on the text it was read from; what they are does
not. For every phrase as written there is one node without locations, whatever the text is.

* `cloneDeep_list`, `cloneDeep_object`, `cloneDeep_listType`, `cloneDeep_field`,
  `cloneDeep_operation`, `cloneDeep_fragment`: the node of a phrase without locations. -/

namespace QueryCheck.Syntax

namespace Excerpt

open Node

variable (e : Excerpt)

/-- The node of one argument. -/
def argument (a : Written.Argument) : Node :=
  .argument (.node (e.name a.name a.span.start)) (.node (e.value a.value)) (e.ofSpan a.span)

/-- The node of one directive. -/
def directive (d : Written.Directive) : Node :=
  .directive (.node (e.name d.name d.span.start)) (e.arguments d.arguments) (e.directiveLocation d)

/-- The node of one field of an object value. -/
def objectField (f : String × Source.Span × Written.Value) : Node :=
  .objectField (.node (e.name f.1 f.2.1.start)) (.node (e.value f.2.2)) (e.locate f.1 f.2.1.start)

theorem arguments_eq (args : List Written.Argument) :
    e.arguments args = placed (args.map e.argument) := by
  simp [arguments, argument]

theorem directives_eq (dirs : List Written.Directive) :
    e.directives dirs = placed (dirs.map e.directive) := by
  simp [directives, directive]

theorem values_eq : ∀ vs : List Written.Value, e.values vs = placed (vs.map e.value)
  | [] => rfl
  | v :: vs => by rw [values, values_eq vs]; rfl

theorem objectFields_eq : ∀ fs : List (String × Source.Span × Written.Value),
    e.objectFields fs = placed (fs.map e.objectField)
  | [] => rfl
  | (n, s, v) :: fs => by rw [objectFields, objectFields_eq fs]; rfl

theorem selections_eq : ∀ ss : List Written.Selection, e.selections ss = placed (ss.map e.selection)
  | [] => rfl
  | s :: ss => by rw [selections, selections_eq ss]; rfl

/-! ### Values and types -/

theorem cloneDeep_name (s : String) (start : Nat) : (e.name s start).cloneDeep = .name s none := rfl

theorem cloneDeep_namedType (s : String) (start : Nat) :
    (e.namedType s start).cloneDeep = .namedType (nameIn s) none := rfl

theorem cloneDeep_variable (n : String) (s : Source.Span) :
    (e.value (.variable n s)).cloneDeep = .var (nameIn n) none := rfl

theorem cloneDeep_literal (k : Written.LiteralKind) (raw : String) (s : Source.Span) :
    (e.value (.literal k raw s)).cloneDeep = literal none raw k := by
  cases k <;> rfl

theorem cloneDeep_list (vs : List Written.Value) (s : Source.Span) :
    (e.value (.list vs s)).cloneDeep =
      .listValue (placed (vs.map fun v => (e.value v).cloneDeep)) none := by
  rw [value, cloneDeep_mk, values_eq]
  simp [Slot.map]

theorem cloneDeep_objectField (f : String × Source.Span × Written.Value) :
    (e.objectField f).cloneDeep = fieldOf (f.1, (e.value f.2.2).cloneDeep) := by
  rw [objectField, cloneDeep_mk]
  rfl

theorem cloneDeep_object (fs : List (String × Source.Span × Written.Value)) (s : Source.Span) :
    (e.value (.object fs s)).cloneDeep =
      .objectValue (placed (fs.map fun f => fieldOf (f.1, (e.value f.2.2).cloneDeep))) none := by
  rw [value, cloneDeep_mk, objectFields_eq]
  simp [Slot.map, cloneDeep_objectField]

theorem cloneDeep_named (n : String) (nonNull : Bool) (s : Source.Span) :
    (e.typeRef (.named n nonNull s)).cloneDeep = marked nonNull (.namedType (nameIn n) none) := by
  cases nonNull <;> rfl

theorem cloneDeep_listType (t : Written.TypeRef) (nonNull : Bool) (s : Source.Span) :
    (e.typeRef (.list t nonNull s)).cloneDeep =
      marked nonNull (.listType (.node (e.typeRef t).cloneDeep) none) := by
  cases nonNull <;> simp [typeRef, cloneDeep_mk, Slot.map, marked]

/-! ### Arguments, directives and selections -/

theorem cloneDeep_argument (a : Written.Argument) :
    (e.argument a).cloneDeep =
      .argument (nameIn a.name) (.node (e.value a.value).cloneDeep) none := by
  rw [argument, cloneDeep_mk]
  rfl

theorem cloneDeep_directive (d : Written.Directive) :
    (e.directive d).cloneDeep =
      .directive (nameIn d.name)
        (placed (d.arguments.map fun a => (e.argument a).cloneDeep)) none := by
  rw [directive, cloneDeep_mk, arguments_eq]
  simp [Slot.map, cloneDeep_name]

/-- The node of a selection set without locations. -/
theorem cloneDeep_selectionSet (ss : List Written.Selection) :
    (e.selectionSet (e.selections ss)).map cloneDeep =
      .node (selectionSetOf (ss.map fun s => (e.selection s).cloneDeep)) := by
  rw [selectionSet, Child.map_node, cloneDeep_mk, selections_eq]
  simp [Slot.map]

/-- The key of a field as a node has it: a key equal to the name is left out. -/
def keyOf (key n : String) : Option String := if key = n then none else some key

theorem cloneDeep_field (key n : String) (args : List Written.Argument)
    (dirs : List Written.Directive)
    (sel : Option (List Written.Selection)) (s : Source.Span) :
    (e.selection (.field key n args dirs sel s)).cloneDeep =
      .field (.ofOption ((keyOf key n).map fun k => .name k none)) (nameIn n)
        (placed (args.map fun a => (e.argument a).cloneDeep))
        (placed (dirs.map fun d => (e.directive d).cloneDeep))
        (.ofOption
          ((sel.map (List.map fun s => (e.selection s).cloneDeep)).map selectionSetOf)) none := by
  have hset := e.cloneDeep_selectionSet
  by_cases hk : key = n <;> cases sel <;>
    simp [selection, keyOf, hk, cloneDeep_mk, Slot.map, Child.ofOption, arguments_eq, directives_eq,
      cloneDeep_name, hset]

theorem cloneDeep_spread (n : String) (dirs : List Written.Directive) (s : Source.Span) :
    (e.selection (.spread n dirs s)).cloneDeep =
      .fragmentSpread (nameIn n) (placed (dirs.map fun d => (e.directive d).cloneDeep)) none := by
  simp [selection, cloneDeep_mk, Slot.map, directives_eq, cloneDeep_name]

theorem cloneDeep_inline (cond : Option String) (dirs : List Written.Directive)
    (ss : List Written.Selection) (s : Source.Span) :
    (e.selection (.inline cond dirs ss s)).cloneDeep =
      .inlineFragment (.ofOption (cond.map fun t => .namedType (nameIn t) none))
        (placed (dirs.map fun d => (e.directive d).cloneDeep))
        (.node (selectionSetOf (ss.map fun s => (e.selection s).cloneDeep))) none := by
  have hset := e.cloneDeep_selectionSet
  cases cond <;>
    simp [selection, cloneDeep_mk, Slot.map, Child.ofOption, directives_eq, cloneDeep_namedType,
      hset]

/-! ### Definitions -/

theorem cloneDeep_variableDefinition (v : Written.VariableDefinition) :
    (e.variableDefinition v).cloneDeep =
      .variableDefinition (.node (.var (nameIn v.name) none)) (.node (e.typeRef v.type).cloneDeep)
        (.ofOption (v.default.map fun d => (e.value d).cloneDeep))
        (placed (v.directives.map fun d => (e.directive d).cloneDeep)) none := by
  rw [variableDefinition, value?, directives_eq]
  cases v.default <;> simp [cloneDeep_mk, Slot.map, Child.ofOption, cloneDeep_name]

theorem cloneDeep_operation (op : Written.OperationDefinition) :
    (e.operation op).cloneDeep =
      .operationDefinition op.operation.keyword (.ofOption (op.name.map fun s => .name s none))
        (placed (op.parameters.map fun v => (e.variableDefinition v).cloneDeep))
        (placed (op.directives.map fun d => (e.directive d).cloneDeep))
        (.node (selectionSetOf (op.selections.map fun s => (e.selection s).cloneDeep))) none := by
  have hset := e.cloneDeep_selectionSet
  rw [operation, variableDefinitions, directives_eq]
  cases op.name <;> simp [cloneDeep_mk, Slot.map, Child.ofOption, cloneDeep_name, hset]

theorem cloneDeep_fragment (f : Written.FragmentDefinition) :
    (e.fragment f).cloneDeep =
      .fragmentDefinition (nameIn f.name)
        (placed (f.parameters.map fun v => (e.variableDefinition v).cloneDeep))
        (.node (.namedType (nameIn f.typeCondition) none))
        (placed (f.directives.map fun d => (e.directive d).cloneDeep))
        (.node (selectionSetOf (f.selections.map fun s => (e.selection s).cloneDeep))) none := by
  have hset := e.cloneDeep_selectionSet
  rw [fragment, variableDefinitions, directives_eq]
  simp [cloneDeep_mk, Slot.map, cloneDeep_name, cloneDeep_namedType, hset]

end Excerpt

end QueryCheck.Syntax
