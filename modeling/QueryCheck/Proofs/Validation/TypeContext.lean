import QueryCheck.Proofs.Validation.ArgumentNames

/-! # The type context of a walk

The tracker of a validation derives a frame for every node that bears on types from the frame around
it, of which every kind of node changes only some parts. Whatever a walk does, what its handlers
read in the innermost frame fits the nodes they stand in and the schema: no part that an outer node
left behind survives where it does not belong.

* `InStep`: a walk whose tracker keeps the type context and whose handlers leave it as it is.
* `WellFormed`: what a frame knows on a path.
* `parent_of_frameAt`, `inDirective_frameAt`, `bare_frameAt`, `argument_frameAt`: the parts one by
  one, each by recursion on the path.
* `walk_wellFormed`: every handler of such a walk reads a well-formed frame. -/

namespace QueryCheck.Typing

open QueryCheck.Schema
open QueryCheck.Syntax
open QueryCheck.Syntax.Node (Lineage)

/-! ### Frames of paths -/

section Frames

variable (s : Option Schema) (lookup : String → Option Directive)

theorem frameAt_cons (n : Node) (path : List Node) :
    frameAt s lookup (n :: path) =
      if tracked n.kind then (frameAt s lookup path).enter s lookup n
      else frameAt s lookup path := by
  rw [frameAt, bearing_cons]
  split_ifs <;> rfl

/-- What holds of the empty frame and passes into every node holds of the frame of every path. -/
theorem frameAt_induct {P : Frame → Prop} (hempty : P {})
    (hstep : ∀ n f, P f → P (f.enter s lookup n)) : ∀ path, P (frameAt s lookup path)
  | [] => hempty
  | n :: path => by
    have ih := frameAt_induct hempty hstep path
    rw [frameAt_cons]
    split_ifs
    · exact hstep n _ ih
    · exact ih

/-- Inside a node the parent is the one around it, or a composite type of the schema. -/
theorem parent_enter (n : Node) (f : Frame) :
    (f.enter s lookup n).parent = f.parent ∨
      (f.enter s lookup n).parent = compositeOf s (namedOf f.type) := by
  unfold Frame.enter
  split
  case h_2 => exact .inr rfl
  all_goals first
    | exact .inl rfl
    | split_ifs <;> exact .inl rfl

/-- **The parent** is the composite type that the schema has under its name. -/
theorem parent_of_frameAt (path : List Node) {t : NamedType}
    (ht : (frameAt s lookup path).parent = some t) :
    Schema.typeOf? s t.name = some t ∧ t.isComposite = true := by
  refine frameAt_induct s lookup (P := fun f => ∀ t, f.parent = some t →
    Schema.typeOf? s t.name = some t ∧ t.isComposite = true) nofun ?_ path t ht
  intro n f ih t ht
  rcases parent_enter s lookup n f with hsame | hnew
  · exact ih t (hsame ▸ ht)
  · rw [hnew] at ht
    obtain ⟨htype, hcomposite⟩ := Option.filter_eq_some_iff.mp ht
    obtain ⟨sch, rfl, hfind⟩ := Option.bind_eq_some_iff.mp htype
    refine ⟨?_, hcomposite⟩
    rw [name_of_type? hfind]
    exact htype

/-- A directive is entered, or what is known about directives stays. -/
theorem inDirective_enter {n : Node} (hn : n.typed = true) (f : Frame) :
    (f.enter s lookup n).inDirective = (f.inDirective || n.kind == .directive) := by
  by_cases hk : n.kind = .directive
  · obtain ⟨name, args, l, rfl, -⟩ := Node.eq_directive_of_typed hn hk
    exact (Bool.or_true _).symm
  · rw [beq_false_of_ne hk, Bool.or_false]
    unfold Frame.enter
    split
    case h_4 => exact absurd rfl hk
    all_goals first
      | rfl
      | split_ifs <;> rfl

/-- **A frame is inside a directive** when a node of its path is a directive. -/
theorem inDirective_frameAt : ∀ {path : List Node}, (∀ n ∈ path, n.typed = true) →
    (frameAt s lookup path).inDirective = path.any fun n => n.kind == .directive
  | [], _ => rfl
  | n :: path, h => by
    rw [List.forall_mem_cons] at h
    have ih := inDirective_frameAt h.2
    rw [frameAt_cons, List.any_cons]
    split_ifs with ht
    · rw [inDirective_enter s lookup h.1, ih, Bool.or_comm]
    · have hk : n.kind ≠ .directive := fun hk => ht (hk ▸ rfl)
      rw [ih, beq_false_of_ne hk, Bool.false_or]

/-! ### Frames without a schema -/

/-- A frame that knows no type of a schema. Inside directives arguments may be known. -/
structure Bare (f : Frame) : Prop where
  type : f.type = none
  parent : f.parent = none
  field : f.field = none
  outside : f.inDirective = false → f.argument = none ∧ f.input = none

theorem resolveIn_none (c : Child Node) : resolveIn none c = none := by
  rw [resolveIn]
  cases c.toOption with
  | none => rfl
  | some t => exact resolve_none t

theorem Bare.enter (n : Node) {f : Frame} (h : Bare f) : Bare (f.enter none lookup n) := by
  unfold Frame.enter
  split
  · exact ⟨rfl, h.parent, h.field, h.outside⟩
  · exact ⟨h.type, rfl, h.field, h.outside⟩
  · have hfield : ∀ name, fieldOf none f.parent name = none := fun name => by
      rw [h.parent]
      rfl
    exact ⟨congrArg (Option.bind · Field.type) (hfield _), h.parent, hfield _, h.outside⟩
  · exact ⟨h.type, h.parent, h.field, nofun⟩
  · refine ⟨h.type, h.parent, h.field, fun hout => ?_⟩
    rw [show f.inDirective = false from hout, h.field]
    exact ⟨rfl, rfl⟩
  · exact ⟨resolve_none _, h.parent, h.field, h.outside⟩
  · rw [if_pos (by rw [h.type]; rfl)]
    exact h
  · exact ⟨resolveIn_none _, h.parent, h.field, h.outside⟩
  · exact ⟨h.type, h.parent, h.field, fun hout => ⟨(h.outside hout).1, resolveIn_none _⟩⟩
  · refine ⟨h.type, h.parent, h.field, fun hout => ⟨(h.outside hout).1, ?_⟩⟩
    rw [(h.outside hout).2]
    rfl
  · exact ⟨h.type, h.parent, h.field, fun hout => ⟨(h.outside hout).1, rfl⟩⟩
  · exact h

/-- **Without a schema** frames are bare. -/
theorem bare_frameAt (path : List Node) : Bare (frameAt none lookup path) :=
  frameAt_induct none lookup ⟨rfl, rfl, rfl, fun _ => ⟨rfl, rfl⟩⟩ (fun n _ h => h.enter lookup n) path

/-! ### Fields -/

variable {s}

/-- The name of a field that can be selected on a type: one that every type has, one that only the
root type of queries has, or a declared one. -/
def Selectable (s : Option Schema) (t : NamedType) (name : String) : Prop :=
  name = "__typename" ∨
    (name = "__schema" ∨ name = "__type") ∧ s.bind (·.rootType? "query") = some t ∨
    ∃ f ∈ t.fields, f.name = name

/-- A type of a schema is the root type of queries if the schema names it as such. -/
theorem rootType?_eq_iff {t : NamedType} (ht : Schema.typeOf? s t.name = some t) :
    s.bind (·.rootType? "query") = some t ↔ s.bind Schema.query = some t.name := by
  obtain ⟨sch, rfl, hfind⟩ := Option.bind_eq_some_iff.mp ht
  have hroot : sch.rootType? "query" = sch.query.bind sch.type? := rfl
  rw [Option.bind_some, Option.bind_some, hroot]
  constructor
  · intro h
    obtain ⟨name, hquery, htype⟩ := Option.bind_eq_some_iff.mp h
    rw [hquery, name_of_type? htype]
  · intro h
    rw [h]
    exact hfind

/-- The name of a field tells whether it can be selected. -/
theorem isSome_selected?_iff {t : NamedType} (ht : Schema.typeOf? s t.name = some t)
    (name : String) : (selected? s t name).isSome ↔ Selectable s t name := by
  have hnames : typenameField.name = "__typename" ∧ schemaField.name = "__schema" ∧
      typeField.name = "__type" := ⟨rfl, rfl, rfl⟩
  rw [selected?, List.find?_isSome, Selectable, rootType?_eq_iff ht, selectable]
  by_cases h : s.bind Schema.query = some t.name
  · simp only [h, if_true, List.cons_append, List.nil_append, List.exists_mem_cons_iff, beq_iff_eq,
      hnames, eq_comm (b := name), and_true, or_assoc]
  · simp only [h, if_false, List.cons_append, List.nil_append, List.exists_mem_cons_iff, beq_iff_eq,
      hnames, eq_comm (b := name), and_false, false_or]

/-- **The field** that a frame knows is one that can be selected on the parent under its name. -/
theorem fieldOf_spec (hs : ∀ sch ∈ s, "" ∉ sch.typeNames) {parent : Option NamedType}
    (hparent : ∀ t, parent = some t → Schema.typeOf? s t.name = some t) (name : String) :
    ((fieldOf s parent name).isSome ↔ ∃ t, parent = some t ∧ Selectable s t name) ∧
      ∀ d, fieldOf s parent name = some d → d.name = name := by
  cases parent with
  | none => exact ⟨⟨nofun, nofun⟩, nofun⟩
  | some t =>
    have ht := hparent t rfl
    have hne : t.name ≠ "" := by
      intro hempty
      rw [hempty, typeOf?_empty hs] at ht
      cases ht
    rw [fieldOf_eq s hne, isSome_selected?_iff ht]
    constructor
    · constructor
      · exact fun h => ⟨t, rfl, h⟩
      · rintro ⟨_, ⟨⟩, h⟩
        exact h
    · intro d hd
      simpa using List.find?_some hd

/-! ### Arguments -/

/-- The arguments declared by the definition of what the innermost node of a path uses: by the
directive of its name, or by the field of the scope that it selects. -/
def ownerArguments (s : Option Schema) (lookup : String → Option Directive) :
    List Node → List InputValue
  | .directive name _ _ :: _ => ((lookup name.nameText).map Directive.arguments).getD []
  | .field _ name _ _ _ _ :: above =>
    (((scopeOf s above).bind fun t => selected? s t name.nameText).map Field.arguments).getD []
  | _ => []

/-- A look-up among the arguments of a definition that may be unknown. -/
theorem bind_find? {α : Type} (o : Option α) (arguments : α → List InputValue) (name : String) :
    (o.bind fun a => InputValue.find? (arguments a) name) =
      InputValue.find? ((o.map arguments).getD []) name := by
  cases o <;> rfl

/-- **The frame of an argument** knows the argument that its owner declares, and its type. -/
theorem argument_frameAt (hs : ∀ sch ∈ s, "" ∉ sch.typeNames) {doc : Node} (hdoc : doc.Typed)
    (hkind : doc.kind = .document) {name value : Child Node} {l : Option Location}
    {above : List Node} (hpath : Lineage doc (.argument name value l :: above)) :
    let f := frameAt s lookup (.argument name value l :: above)
    f.argument = InputValue.find? (ownerArguments s lookup above) name.nameText ∧
      f.input = f.argument.bind InputValue.type := by
  refine ⟨?_, rfl⟩
  cases hpath with
  | root => cases hkind
  | @child _ owner above owned rest =>
    have howner : owner.Typed := Lineage.all hdoc rest owner List.mem_cons_self
    rcases owner_argument (Node.kind_mem_owners howner.typed owned) with hfield | hdirective
    · obtain ⟨key, field, args, dirs, sel, l', rfl⟩ := Node.eq_field_of_typed howner.typed hfield
      obtain ⟨-, hfound, houtside⟩ := frameAt_field lookup hs hdoc hkind rest
      have hargument : (frameAt s lookup (.argument name value l ::
          .field key field args dirs sel l' :: above)).argument =
            (frameAt s lookup (.field key field args dirs sel l' :: above)).field.bind
              (·.argument? name.nameText) := if_neg (ne_true_of_eq_false houtside)
      rw [hargument, hfound]
      exact bind_find? _ Field.arguments _
    · obtain ⟨used, args, l', rfl, -⟩ := Node.eq_directive_of_typed howner.typed hdirective
      exact bind_find? (lookup used.nameText) Directive.arguments _

end Frames

/-! ### Well-formed frames -/

/-- **A frame that is well-formed** on a path, innermost node first. -/
structure WellFormed (s : Option Schema) (lookup : String → Option Directive) (path : List Node)
    (f : Frame) : Prop where
  /-- The parent is the composite type that the schema has under its name. -/
  parent : ∀ t, f.parent = some t → Schema.typeOf? s t.name = some t ∧ t.isComposite = true
  /-- The frame is inside a directive when a node of the path is one. -/
  inDirective : f.inDirective = true ↔ ∃ n ∈ path, n.kind = .directive
  /-- At a field the field is known when it can be selected on the parent. It is the one of its
  name, and its type is the type. -/
  field : ∀ key name args dirs sel l above, path = .field key name args dirs sel l :: above →
    (f.field.isSome ↔ ∃ t, f.parent = some t ∧ Selectable s t name.nameText) ∧
      (∀ d, f.field = some d → d.name = name.nameText) ∧ f.type = f.field.bind Field.type
  /-- At an argument an argument that is known is declared under its name by what owns it, and its
  type is the type a value has to have. -/
  argument : ∀ name value l above, path = .argument name value l :: above →
    ∀ a, f.argument = some a →
      a ∈ ownerArguments s lookup above ∧ a.name = name.nameText ∧ f.input = a.type
  /-- Without a schema only arguments of directives are known. -/
  schemaless : s = none → f.type = none ∧ f.parent = none ∧ f.field = none ∧
    ((∀ n ∈ path, n.kind ≠ .directive) → f.argument = none ∧ f.input = none)

/-- **The frame of every path of a document is well-formed.** -/
theorem wellFormed_frameAt {s : Option Schema} (lookup : String → Option Directive)
    (hs : ∀ sch ∈ s, "" ∉ sch.typeNames) {doc : Node} (hdoc : doc.Typed)
    (hkind : doc.kind = .document) {path : List Node} (hpath : Lineage doc path) :
    WellFormed s lookup path (frameAt s lookup path) := by
  have hall : ∀ n ∈ path, n.Typed := Lineage.all hdoc hpath
  have hinside := inDirective_frameAt s lookup fun n hn => (hall n hn).typed
  refine ⟨fun t => parent_of_frameAt s lookup path, ?_, ?_, ?_, ?_⟩
  · rw [hinside, List.any_eq_true]
    simp only [beq_iff_eq]
  · rintro key name args dirs sel l above rfl
    obtain ⟨hknown, hname⟩ :=
      fieldOf_spec hs (fun t ht => (parent_of_frameAt s lookup above ht).1) name.nameText
    exact ⟨hknown, hname, rfl⟩
  · rintro name value l above rfl a ha
    obtain ⟨hargument, hinput⟩ := argument_frameAt lookup hs hdoc hkind hpath
    rw [ha] at hargument hinput
    exact ⟨List.mem_of_find?_eq_some hargument.symm,
      by simpa using List.find?_some hargument.symm, hinput⟩
  · rintro rfl
    have hbare := bare_frameAt lookup path
    refine ⟨hbare.type, hbare.parent, hbare.field, fun hnone => hbare.outside ?_⟩
    rw [hinside, List.any_eq_false]
    exact fun n hn => by simpa using hnone n hn

end QueryCheck.Typing

namespace QueryCheck.Validation

open QueryCheck.Syntax
open QueryCheck.Syntax.Node (Lineage)
open QueryCheck.Typing
open QueryCheck.Walk
open Context

/-! ### Walks that keep the type context -/

/-- What handlers have not changed: what the type context is derived from, and the frames. -/
structure Undisturbed (c c' : Context) : Prop where
  schema : c'.schema = c.schema
  document : c'.document = c.document
  frames : c'.frames = c.frames
  coherent : c'.Coherent

/-- **A walk in step** with the type context that is seen in its state: its tracker keeps the
context, and its handlers leave it as it is. Whatever else they do is up to them. -/
structure InStep {σ : Type} (view : σ → Context) (p : Plan σ) : Prop where
  enter : ∀ n x, view (p.tracker.enter n x) = (view x).enter n
  leave : ∀ n x, view (p.tracker.leave n x) = (view x).leave n
  entering : ∀ k, ∀ h ∈ p.table.enter k, ∀ n x, (view x).Coherent →
    Undisturbed (view x) (view (h n x).2)
  leaving : ∀ k, ∀ h ∈ p.table.leave k, ∀ n x, (view x).Coherent →
    Undisturbed (view x) (view (h n x).2)

section InStep

variable {σ : Type} {view : σ → Context} {p : Plan σ} {s : Option Schema} {doc : Node}

theorem Undisturbed.stands {path : List Node} {c c' : Context} (h : Undisturbed c c')
    (hc : Stands s doc path c) : Stands s doc path c' where
  schema := h.schema.trans hc.schema
  document := h.document.trans hc.document
  frames := h.frames.trans hc.frames
  coherent := h.coherent

/-- A walk in step stands on its path. -/
theorem InStep.pathInvariant (hp : InStep view p) :
    PathInvariant p fun path x => Stands s doc path (view x) where
  enter above n x hx := by
    rw [hp.enter]
    exact hx.enter n
  entering k h hh path n x hx := (hp.entering k h hh n x hx.coherent).stands hx
  leaving k h hh path n x hx := (hp.leaving k h hh n x hx.coherent).stands hx
  leave above n x hx := by
    rw [hp.leave]
    exact hx.leave

/-- **The type context of a walk is well-formed.** In a document whose lists lack no item the
directives are known, and whenever a handler runs, the innermost frame is well-formed on the path to
its node. -/
theorem walk_wellFormed (hp : InStep view p) {x : σ} (hframes : (view x).frames = [])
    (hcoherent : (view x).Coherent) (hs : ∀ sch ∈ (view x).schema, "" ∉ sch.typeNames)
    (hdoc : (view x).document.Typed) (hgapless : (view x).document.Gapless)
    (hkind : (view x).document.kind = .document) :
    ∃ table, directiveTable? (view x).schema (view x).document = some table ∧
      ∃ calls, walk p.logged (view x).document (x, []) =
          (walk p (view x).document x).withLog calls ∧
        Visit p (fun path y =>
          WellFormed (view x).schema (findDirective table) path (view y).top)
          [] (view x).document.rose calls := by
  obtain ⟨table, htable⟩ := Option.isSome_iff_exists.mp
    ((directiveTable?_isSome_iff (view x).schema hdoc).mpr (complete_of_gapless hdoc hgapless))
  have hlookup : lookupIn (view x).schema (view x).document = findDirective table := by
    rw [lookupIn, directivesOf, htable, Option.getD_some]
  have hstart : Stands (view x).schema (view x).document [] (view x) :=
    ⟨rfl, rfl, hframes, hcoherent⟩
  obtain ⟨calls, hrun, -, hvisit⟩ := walk_logged hp.pathInvariant (view x).document x hstart
  refine ⟨table, htable, calls, hrun, (hvisit.lineage rfl .root).mono ?_⟩
  rintro path y ⟨hpath, hstands⟩
  have htop : (view y).top = frameAt (view x).schema (findDirective table) path := by
    rw [Context.top, hstands.frames, top_framesAt, hlookup]
  rw [htop]
  exact wellFormed_frameAt (findDirective table) hs hdoc hkind hpath

end InStep

/-- A walk that notes the innermost frame whenever it enters or leaves a node. -/
def notingFrames (maxDepth : Int) : Plan (Context × List Frame) :=
  let note : Handler (Context × List Frame) := fun _ x => (.proceed, x.1, x.2 ++ [x.1.top])
  { table := ⟨fun _ => [note], fun _ => [note]⟩
    tracker := ⟨fun n x => (x.1.enter n, x.2), fun n x => (x.1.leave n, x.2)⟩
    maxDepth }

theorem inStep_notingFrames (maxDepth : Int) : InStep Prod.fst (notingFrames maxDepth) := by
  refine ⟨fun _ _ => rfl, fun _ _ => rfl, ?_, ?_⟩ <;>
  · intro k h hh n x hx
    obtain rfl := List.mem_singleton.mp hh
    exact ⟨rfl, rfl, rfl, hx⟩

theorem walk_wellFormed_plantedQuery :
    let start : Context × List Frame := (alone (some garden) plantedQuery [] [], [])
    InStep Prod.fst (notingFrames 0) ∧ start.1.frames = [] ∧ start.1.Coherent ∧
      (∀ sch ∈ some garden, "" ∉ sch.typeNames) ∧ plantedQuery.Typed ∧ plantedQuery.Gapless ∧
      plantedQuery.kind = .document ∧
      ∃ table, directiveTable? (some garden) plantedQuery = some table ∧
        ∃ calls, walk (notingFrames 0).logged plantedQuery (start, []) =
            (walk (notingFrames 0) plantedQuery start).withLog calls ∧
          Visit (notingFrames 0) (fun path y =>
            WellFormed (some garden) (findDirective table) path y.1.top)
            [] plantedQuery.rose calls := by
  intro start
  have hs : ∀ sch ∈ some garden, "" ∉ sch.typeNames := by
    rintro _ ⟨⟩
    decide
  have hdoc : plantedQuery.Typed := by decide
  have hgapless : plantedQuery.Gapless := by decide
  have hstep := inStep_notingFrames 0
  have hcoherent : start.1.Coherent := coherent_alone _ _ _ _
  exact ⟨hstep, rfl, hcoherent, hs, hdoc, hgapless, rfl,
    walk_wellFormed (x := start) hstep rfl hcoherent hs hdoc hgapless rfl⟩

/-! ### The walk of a validation -/

/-- Handlers that leave the type context as it is. -/
def Undisturbing (hs : List (Handler Context)) : Prop :=
  ∀ h ∈ hs, ∀ n c, c.Coherent → Undisturbed c (h n c).2

theorem Undisturbed.refl {c : Context} (hc : c.Coherent) : Undisturbed c c := ⟨rfl, rfl, rfl, hc⟩

theorem Undisturbed.trans {c c' c'' : Context} (h : Undisturbed c c') (h' : Undisturbed c' c'') :
    Undisturbed c c'' where
  schema := h'.schema.trans h.schema
  document := h'.document.trans h.document
  frames := h'.frames.trans h.frames
  coherent := h'.coherent

namespace Undisturbing

theorem nil : Undisturbing [] := nofun

theorem append {hs gs : List (Handler Context)} (hh : Undisturbing hs) (hg : Undisturbing gs) :
    Undisturbing (hs ++ gs) := List.forall_mem_append.mpr ⟨hh, hg⟩

/-- What an isolated action does to the state leaves the type context as it is. -/
theorem observing {f : Nat → Node → Context → Context} (hf : ∀ n, Isolated fun slot c => f slot n c)
    (slot : Nat) : Undisturbing [Rule.observing (f slot)] := by
  intro h hh n c hc
  obtain rfl := List.mem_singleton.mp hh
  have hi := hf n slot c hc
  exact ⟨hi.schema, hi.document, hi.frames, hi.coherent⟩

theorem runHandlers (n : Node) : ∀ {hs : List (Handler Context)}, Undisturbing hs →
    ∀ c, c.Coherent → Undisturbed c (Walk.runHandlers n hs c).2
  | [], _, c, hc => .refl hc
  | h :: hs, hh, c, hc => by
    obtain ⟨hfirst, hrest⟩ := List.forall_mem_cons.mp hh
    have hthis := hfirst n c hc
    have hthose : Undisturbed (h n c).2 (Walk.runHandlers n hs (h n c).2).2 :=
      runHandlers n hrest (h n c).2 hthis.coherent
    rcases ha : h n c with ⟨a, c'⟩
    rw [ha] at hthis hthose
    cases a with
    | stop =>
      rw [runHandlers_stop ha]
      exact hthis
    | skip =>
      rw [runHandlers_skip ha]
      exact hthis.trans hthose
    | proceed =>
      rw [runHandlers_proceed ha]
      exact hthis.trans hthose

theorem chain {hs : List (Handler Context)} (hh : Undisturbing hs) :
    Undisturbing (Visitor.chain hs).toList := by
  match hs with
  | [] => exact hh
  | [_] => exact hh
  | h :: g :: hs =>
    intro f hf n c hc
    rw [chain_cons_cons, Option.mem_toList] at hf
    obtain rfl := Option.some.inj hf
    exact hh.runHandlers n c hc

theorem onEnter (k k' : Kind) {f : Nat → Node → Context → Context}
    (hf : ∀ n, Isolated fun slot c => f slot n c) (slot : Nat) :
    Undisturbing ((Rule.onEnter k (f slot)) k').enter.toList := by
  rw [Rule.enter_onEnter]
  split_ifs
  · exact observing hf slot
  · exact nil

theorem visitor_enter (r : Rule) (slot : Nat) (c₀ : Context) (k : Kind) :
    Undisturbing (r.visitor slot c₀ k).enter.toList := by
  cases r with
  | fragmentsOnCompositeTypes =>
    rw [Rule.visitor, Rule.enter_merge]
    exact ((onEnter _ k Rule.isolated_checkCondition slot).append
      (onEnter _ k Rule.isolated_checkCondition slot)).chain
  | knownArgumentNames =>
    rw [Rule.visitor, Rule.enter_merge]
    exact ((onEnter _ k Rule.isolated_checkDirectiveArguments slot).append
      (onEnter _ k Rule.isolated_checkFieldArgument slot)).chain
  | knownArgumentNamesOnDirectives =>
    exact onEnter _ k Rule.isolated_checkDirectiveArguments slot
  | knownFragmentNames => exact onEnter _ k Rule.isolated_checkSpread slot
  | knownTypeNames =>
    rw [Rule.visitor]
    cases c₀.schema with
    | none => exact nil
    | some s => exact onEnter _ k (Rule.isolated_checkTypeName s) slot
  | providedRequiredArgumentsOnDirectives =>
    rw [Rule.visitor, Rule.onLeave, Visitor.single]
    split_ifs <;> exact nil
  | uniqueFragmentNames =>
    exact onEnter _ k (f := fun slot n c => Rule.checkUnique slot n c) Rule.isolated_checkUnique slot

theorem visitor_leave (r : Rule) (slot : Nat) (c₀ : Context) (k : Kind) :
    Undisturbing (r.visitor slot c₀ k).leave.toList := by
  cases r with
  | fragmentsOnCompositeTypes =>
    rw [Rule.visitor, Rule.leave_merge, Rule.leave_onEnter, Rule.leave_onEnter]
    exact nil
  | knownArgumentNames =>
    rw [Rule.visitor, Rule.leave_merge, Rule.leave_onEnter, Rule.leave_onEnter]
    exact nil
  | knownTypeNames =>
    rw [Rule.visitor]
    cases c₀.schema with
    | none => exact nil
    | some s =>
      dsimp only
      rw [Rule.leave_onEnter]
      exact nil
  | providedRequiredArgumentsOnDirectives =>
    rw [Rule.visitor, Rule.onLeave, Visitor.single]
    split_ifs
    · exact observing (Rule.isolated_checkProvided ((Rule.requiredTable? c₀).getD [])) slot
    · exact nil
  | _ =>
    rw [Rule.visitor, Rule.leave_onEnter]
    exact nil

end Undisturbing

/-- **The walk of a validation** is in step. -/
theorem inStep_rulePlan (rules : List Rule) (c₀ : Context) (maxDepth : Int) :
    InStep id (rulePlan rules c₀ maxDepth) where
  enter _ _ := rfl
  leave _ _ := rfl
  entering k h hh n c hc := by
    rw [rulePlan, ruleTable, enter_ofVisitors, List.flatMap_map] at hh
    obtain ⟨x, -, hx⟩ := List.mem_flatMap.mp hh
    exact Undisturbing.visitor_enter x.1 x.2 c₀ k h hx n c hc
  leaving k h hh n c hc := by
    rw [rulePlan, ruleTable, leave_ofVisitors, List.flatMap_map] at hh
    obtain ⟨x, -, hx⟩ := List.mem_flatMap.mp hh
    exact Undisturbing.visitor_leave x.1 x.2 c₀ k h hx n c hc

end QueryCheck.Validation
