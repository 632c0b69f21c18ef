import QueryCheck.Proofs.Syntax.Clone
import QueryCheck.Proofs.Syntax.EscapedQuotes
import QueryCheck.Proofs.Syntax.QuotedStrings
import QueryCheck.Proofs.Written.Documents

/-! # Printing and reading

The text of a document without the variable definitions of fragments has the lexemes of the
document, provided that its string literals can be read as they are printed. So it is read as the
same document again. A plain document, one that has no string literals either, is always read again.

* `Node.Lasting`, `Node.Plain`: nodes of which nothing is lost or changed when they are printed.
* `writes_value`, `writes_type`, `writes_argument`, `writes_directive`, `writes_selection`,
  `writes_variableDefinition`, `writes_definition`: the text of a phrase has the lexemes of the
  phrase.
* `exists_parseDocument_print`: the text of lasting definitions is read as these definitions.
* `exists_same_of_lasting`, `parseDocument_print`: reading the text of a document that was read
  gives the document again, and an equal one unless it is nested too deep to be compared.
* `argumentQuery`: a query of one field with one argument. -/

namespace QueryCheck.Syntax

open QueryCheck.Data (Value)
open QueryCheck.Source

/-! ### Lasting nodes -/

namespace Node

/-- The variable definitions of a fragment. -/
def fragmentParameters : Node → List (Child Node)
  | .fragmentDefinition _ parameters _ _ _ _ => parameters
  | _ => []

/-- A string literal that is read as it is printed; other nodes are no string literals. -/
def Legible : Node → Prop
  | .stringValue s true _ => Enclosable s
  | .stringValue s false _ => ∀ c ∈ s.toList, Spellable c
  | _ => True

instance (n : Node) : Decidable n.Legible := by
  unfold Legible
  split
  · infer_instance
  · exact List.decidableBAll Spellable _
  · infer_instance

/-- A node with legible string literals and without the variable definitions of fragments. -/
structure Lasting (n : Node) : Prop where
  legible : ∀ m ∈ n.rose.labels, m.Legible
  noParameters : ∀ m ∈ n.rose.labels, m.fragmentParameters = []

/-- A node without string literals and without the variable definitions of fragments. -/
structure Plain (n : Node) : Prop where
  noString : ∀ m ∈ n.rose.labels, m.kind ≠ .stringValue
  noParameters : ∀ m ∈ n.rose.labels, m.fragmentParameters = []

instance (n : Node) : Decidable n.Plain :=
  decidable_of_iff ((∀ m ∈ n.rose.labels, m.kind ≠ .stringValue) ∧
      ∀ m ∈ n.rose.labels, m.fragmentParameters.isEmpty = true)
    ⟨fun h => ⟨h.1, fun m hm => List.isEmpty_iff.mp (h.2 m hm)⟩,
      fun h => ⟨h.noString, fun m hm => List.isEmpty_iff.mpr (h.noParameters m hm)⟩⟩

theorem legible_of_kind_ne {n : Node} (h : n.kind ≠ .stringValue) : n.Legible := by
  unfold Legible
  split
  · exact absurd rfl h
  · exact absurd rfl h
  · trivial

theorem Plain.lasting {n : Node} (h : n.Plain) : n.Lasting :=
  ⟨fun m hm => legible_of_kind_ne (h.noString m hm), h.noParameters⟩

/-- The children of a lasting node are lasting. -/
theorem Lasting.child {n m : Node} (h : n.Lasting) (hm : m ∈ n.children) : m.Lasting where
  legible x hx := h.legible x (mem_labels_of_child hm x hx)
  noParameters x hx := h.noParameters x (mem_labels_of_child hm x hx)

theorem fragmentParameters_cloneDeep (n : Node) :
    n.cloneDeep.fragmentParameters = n.fragmentParameters.map (Child.map Node.cloneDeep) := by
  obtain ⟨k, ss, l⟩ := n
  rw [cloneDeep_mk]
  unfold fragmentParameters
  split
  · next heq =>
    -- a node whose clone is a fragment definition has the slots of one
    simp only [mk.injEq, List.map_eq_cons_iff, List.map_eq_nil_iff] at heq
    obtain ⟨rfl, ⟨s₁, _, rfl, h₁, s₂, _, rfl, h₂, s₃, _, rfl, h₃, s₄, _, rfl, h₄, s₅, _, rfl,
      h₅, rfl⟩, -⟩ := heq
    obtain ⟨c₁, rfl, -⟩ := Slot.map_eq_one h₁
    obtain ⟨cs₂, rfl, rfl⟩ := Slot.map_eq_many h₂
    obtain ⟨c₃, rfl, -⟩ := Slot.map_eq_one h₃
    obtain ⟨cs₄, rfl, -⟩ := Slot.map_eq_many h₄
    obtain ⟨c₅, rfl, -⟩ := Slot.map_eq_one h₅
    rfl
  · next hne =>
    split
    · next heq =>
      obtain ⟨rfl, rfl, rfl⟩ := mk.inj heq
      exact absurd rfl (hne _ _ _ _ _ _)
    · rfl

/-- A node with a plain clone is plain. -/
theorem Plain.of_cloneDeep {n : Node} (h : n.cloneDeep.Plain) : n.Plain := by
  constructor <;> intro m hm
  · rw [← kind_cloneDeep]
    exact h.noString _ (labels_cloneDeep n ▸ List.mem_map_of_mem hm)
  · have hclone := h.noParameters _ (labels_cloneDeep n ▸ List.mem_map_of_mem hm)
    rwa [fragmentParameters_cloneDeep, List.map_eq_nil_iff] at hclone

/-- A plain node, from its children. -/
theorem plain_of_children {n : Node} (hk : n.kind ≠ .stringValue) (hp : n.fragmentParameters = [])
    (hc : ∀ m ∈ n.children, m.Plain) : n.Plain := by
  constructor <;> rw [labels_eq, List.forall_mem_cons] <;> simp only [List.mem_flatMap]
  · exact ⟨hk, fun x ⟨m, hm, hx⟩ => (hc m hm).noString x hx⟩
  · exact ⟨hp, fun x ⟨m, hm, hx⟩ => (hc m hm).noParameters x hx⟩

/-- A node whose clone is a string literal is one. -/
theorem eq_stringValue_of_cloneDeep {n : Node} {s : String} {block : Bool} {l : Option Location}
    (h : n.cloneDeep = .stringValue s block l) : ∃ l', n = .stringValue s block l' := by
  obtain ⟨k, ss, l'⟩ := n
  simp only [cloneDeep_mk, mk.injEq, List.map_eq_cons_iff, List.map_eq_nil_iff] at h
  obtain ⟨rfl, ⟨s₁, _, rfl, h₁, s₂, _, rfl, h₂, rfl⟩, -⟩ := h
  rw [Slot.map_eq_text h₁, Slot.map_eq_flag h₂]
  exact ⟨l', rfl⟩

/-- The clone of a legible literal is legible. -/
theorem Legible.cloneDeep {n : Node} (h : n.Legible) : n.cloneDeep.Legible := by
  unfold Legible
  split
  · next heq =>
    obtain ⟨l, rfl⟩ := eq_stringValue_of_cloneDeep heq
    exact h
  · next heq =>
    obtain ⟨l, rfl⟩ := eq_stringValue_of_cloneDeep heq
    exact h
  · trivial

/-- The clone of a lasting node is lasting. -/
theorem Lasting.cloneDeep {n : Node} (h : n.Lasting) : n.cloneDeep.Lasting := by
  constructor <;> rw [labels_cloneDeep, List.forall_mem_map] <;> intro m hm
  · exact (h.legible m hm).cloneDeep
  · rw [fragmentParameters_cloneDeep, h.noParameters m hm, List.map_nil]

end Node

/-! ### Lists -/

theorem separates_comma : Separates ", " [] :=
  ⟨fun _ _ _ hl => .blank (.inr (.inl rfl)) (.blank (.inl rfl) hl), fun _ => ends_cons (by decide)⟩

theorem separates_space : Separates " " [] :=
  ⟨fun _ _ _ hl => .blank (.inl rfl) hl, fun _ => ends_cons (by decide)⟩

theorem separates_lines : Separates "\n\n" [] :=
  ⟨fun _ _ _ hl => .blank (.inr (.inr rfl)) (.blank (.inr (.inr rfl)) hl),
    fun _ => ends_cons (by decide)⟩

theorem writes_intercalate {sep : String} (hsep : Separates sep []) : ∀ {ns : List Node},
    (∀ n ∈ ns, Writes n.print n.lexemes) →
    Writes (sep.intercalate (ns.map Node.print)) (ns.flatMap Node.lexemes)
  | [], _ => trails_empty.writes
  | [n], h => by simpa using h n (by simp)
  | n :: m :: ns, h => by
    have hn := h n (by simp)
    have hns := writes_intercalate hsep fun n' hn' => h n' (List.mem_cons_of_mem _ hn')
    rw [List.map_cons, List.map_cons, String.intercalate_cons_cons, String.append_assoc,
      List.flatMap_cons]
    exact hn.append (hsep.append hns)

/-- The texts of some nodes in their places. -/
abbrev printedIn (ns : List Node) : List (Child String) := (placed ns).map (Child.map Node.print)

theorem joined_printedIn (sep : String) (ns : List Node) :
    Printer.joined sep (printedIn ns) = sep.intercalate (ns.map Node.print) := by
  have hmap : (printedIn ns).map Child.printed = ns.map Node.print := by simp [Child.printed]
  rw [Printer.joined, hmap]

theorem writes_joined {sep : String} (hsep : Separates sep []) {ns : List Node}
    (h : ∀ n ∈ ns, Writes n.print n.lexemes) :
    Writes (Printer.joined sep (printedIn ns)) (ns.flatMap Node.lexemes) := by
  rw [joined_printedIn]
  exact writes_intercalate hsep h

theorem trails_parenthesized {ns : List Node} (h : ∀ n ∈ ns, Writes n.print n.lexemes) :
    Trails (Printer.parenthesized (printedIn ns)) (Node.inParens ns) := by
  cases ns with
  | nil => exact trails_empty
  | cons n ns =>
    rw [Node.inParens_of_ne_nil (List.cons_ne_nil n ns)]
    exact (writes_joined separates_comma h).enclosed (separates_punctuation rfl rfl)
      (separates_punctuation rfl rfl)

theorem trails_directives : ∀ {dirs : List Node}, (∀ d ∈ dirs, Writes d.print d.lexemes) →
    Trails (Printer.directives (printedIn dirs)) (dirs.flatMap Node.lexemes)
  | [], _ => trails_empty
  | d :: dirs, h => by
    have hd := separates_space.append (h d (by simp))
    have hdirs := trails_directives fun d' hd' => h d' (List.mem_cons_of_mem _ hd')
    have heq : Printer.directives (printedIn (d :: dirs)) =
        (" " ++ d.print) ++ Printer.directives (printedIn dirs) := String.join_cons
    rw [heq, List.flatMap_cons]
    exact hd.append hdirs

/-! ### Values and types -/

theorem separates_colon : Separates ": " [mark .colon] :=
  ⟨fun _ _ _ hl => .mark rfl (.blank (.inl rfl) hl), fun _ => ends_cons (by decide)⟩

/-- A name and what stands behind its colon. -/
theorem writes_entry {s t : String} {ls : List Lexeme} (hs : IsName s) (ht : Writes t ls) :
    Writes (s ++ (": " ++ t)) ((.name, s) :: mark .colon :: ls) :=
  (writes_name hs).append (separates_colon.append ht)

theorem writes_value {constant : Bool} {n : Node} (h : IsValue IsString constant n)
    (hp : n.Lasting) : Writes n.print n.lexemes := by
  induction h with
  | @var s _ hs =>
    change Writes ("$" ++ s) ([mark .dollar] ++ [(.name, s)])
    exact (separates_punctuation rfl rfl).marks.append (writes_name hs)
  | int hs => exact writes_number hs
  | float hs => exact writes_number hs
  | string _ => exact writes_quote (hp.legible _ (Node.mem_labels_self _))
  | block hs => exact writes_block (hs rfl) (hp.legible _ (Node.mem_labels_self _))
  | boolean b =>
    cases b
    · exact writes_name (isName_of_all rfl rfl rfl)
    · exact writes_name (isName_of_all rfl rfl rfl)
  | null => exact writes_name (isName_of_all rfl rfl rfl)
  | enum hs _ => exact writes_name hs
  | @list vs hvs ih =>
    have hitems : ∀ v ∈ vs, Writes v.print v.lexemes :=
      fun v hv => ih v hv (hp.child (by simpa using hv))
    rw [Node.lexemes_listValue, Node.print_mk]
    exact ((writes_joined separates_comma hitems).enclosed (separates_punctuation rfl rfl)
      (separates_punctuation rfl rfl)).writes
  | @object fs hnames hvs ih =>
    have hitems : ∀ m ∈ fs.map fieldOf, Writes m.print m.lexemes := by
      refine List.forall_mem_map.mpr fun f hf => ?_
      have hfield : (fieldOf f).Lasting := by
        refine hp.child (Node.mem_children_mk.mpr ⟨_, List.mem_singleton_self _, ?_⟩)
        rw [Slot.children_many]
        exact List.mem_map_of_mem hf
      rw [Node.lexemes_fieldOf, Node.print_mk]
      change Writes (f.1 ++ ": " ++ _) _
      rw [String.append_assoc]
      exact writes_entry (hnames f hf) (ih f hf (hfield.child (by simp)))
    rw [Node.lexemes_objectValue, Node.print_mk, ← List.flatMap_map]
    exact ((writes_joined separates_comma hitems).enclosed (separates_punctuation rfl rfl)
      (separates_punctuation rfl rfl)).writes

theorem writes_type {n : Node} (h : IsType n) : Writes n.print n.lexemes := by
  have hmarked : ∀ (nonNull : Bool) {t : Node}, Writes t.print t.lexemes →
      Writes (marked nonNull t).print (marked nonNull t).lexemes := by
    intro nonNull t ht
    rw [Node.lexemes_marked]
    cases nonNull
    · simpa [marked] using ht
    · rw [marked, if_pos rfl, Node.print_mk]
      exact ht.append (separates_punctuation rfl rfl).trails
  induction h with
  | named nonNull hs => exact hmarked nonNull (writes_name hs)
  | list nonNull _ ih =>
    refine hmarked nonNull ?_
    rw [Node.lexemes_listType, Node.print_mk]
    exact (ih.enclosed (separates_punctuation rfl rfl) (separates_punctuation rfl rfl)).writes

/-! ### Arguments, directives and selections -/

theorem writes_argument {constant : Bool} {n : Node} (h : IsArgument IsString constant n)
    (hp : n.Lasting) : Writes n.print n.lexemes := by
  cases h with
  | @mk s v hs hv =>
    rw [Node.lexemes_argument, Node.print_mk]
    change Writes (s ++ ": " ++ _) _
    rw [String.append_assoc]
    exact writes_entry hs (writes_value hv (hp.child (by simp)))

theorem writes_directive {constant : Bool} {n : Node} (h : IsDirective IsString constant n)
    (hp : n.Lasting) : Writes n.print n.lexemes := by
  cases h with
  | @mk s args hs hargs =>
    have hitems : ∀ a ∈ args, Writes a.print a.lexemes := fun a ha =>
      writes_argument (hargs a ha) (hp.child (by simp [ha]))
    rw [Node.lexemes_directive, Node.print_mk]
    exact ((separates_punctuation rfl rfl).marks.append (writes_name hs)).append
      (trails_parenthesized hitems)

theorem writes_directives {constant : Bool} {dirs : List Node}
    (h : ∀ d ∈ dirs, IsDirective IsString constant d) (hp : ∀ d ∈ dirs, d.Lasting) :
    Trails (Printer.directives (printedIn dirs)) (dirs.flatMap Node.lexemes) :=
  trails_directives fun d hd => writes_directive (h d hd) (hp d hd)

theorem writes_selectionSetOf {ss : List Node} (h : ∀ n ∈ ss, Writes n.print n.lexemes) :
    Writes (selectionSetOf ss).print (selectionSetOf ss).lexemes := by
  have hopen : Separates "\x7b " [mark .braceL] :=
    ⟨fun _ _ _ hl => .mark rfl (.blank (.inl rfl) hl), fun _ => ends_cons (by decide)⟩
  have hclose : Separates " \x7d" [mark .braceR] :=
    ⟨fun _ _ _ hl => .blank (.inl rfl) (.mark rfl hl), fun _ => ends_cons (by decide)⟩
  rw [Node.lexemes_selectionSetOf, Node.print_mk]
  exact ((writes_joined separates_space h).enclosed hopen hclose).writes

theorem trails_selections {sel : Option (List Node)}
    (h : ∀ ss ∈ sel, ∀ n ∈ ss, Writes n.print n.lexemes) :
    Trails (Printer.selections ((Child.ofOption (sel.map selectionSetOf)).map Node.print))
      (Node.setLexemes sel) := by
  cases sel with
  | none => exact trails_empty
  | some ss => exact separates_space.append (writes_selectionSetOf (h ss rfl))

/-- Directives and a selection set at the end of a phrase. -/
theorem trails_body {dirs ss : List Node} (hdirs : ∀ d ∈ dirs, IsDirective IsString false d)
    (hp : ∀ d ∈ dirs, d.Lasting) (hss : ∀ n ∈ ss, Writes n.print n.lexemes) :
    Trails (Printer.directives (printedIn dirs) ++ (" " ++ (selectionSetOf ss).print))
      (dirs.flatMap Node.lexemes ++ (selectionSetOf ss).lexemes) :=
  (writes_directives hdirs hp).append (separates_space.append (writes_selectionSetOf hss))

/-- The selections of a lasting node are lasting. -/
theorem Node.Lasting.selections {n : Node} {ss : List Node} (h : n.Lasting)
    (hm : selectionSetOf ss ∈ n.children) : ∀ m ∈ ss, m.Lasting :=
  fun m hmem => (h.child hm).child (by simpa using hmem)

theorem marks_dots : Marks "..." [mark .spread] := fun _ _ _ hl => .dots hl

/-- A word and a space behind it. -/
theorem marks_word {s : String} (hs : IsName s) : Marks (s ++ " ") [(.name, s)] := by
  intro last rest ls' hl
  rw [String.toList_append, List.append_assoc]
  exact .name hs (ends_cons (by decide)) (.blank (.inl rfl) hl)

theorem isName_on : IsName "on" := isName_of_all rfl rfl rfl

theorem writes_selection {n : Node} (h : IsSelection IsString n) (hp : n.Lasting) :
    Writes n.print n.lexemes := by
  induction h with
  | @field key s args dirs sel hkey hs hargs hdirs hne hsel ih =>
    have hargs' :=
      trails_parenthesized fun a ha => writes_argument (hargs a ha) (hp.child (by simp [ha]))
    have hdirs' := writes_directives hdirs fun d hd => hp.child (by simp [hd])
    have hsel' : ∀ ss ∈ sel, ∀ n ∈ ss, Writes n.print n.lexemes := by
      intro ss hss n hn
      obtain rfl : sel = some ss := hss
      exact ih ss rfl n hn (hp.selections (by simp [Child.ofOption]) n hn)
    have hbody := (writes_name hs).append (hargs'.append (hdirs'.append (trails_selections hsel')))
    rw [Node.lexemes_field, Node.print_mk]
    cases key with
    | none =>
      change Writes ("" ++ s ++ _ ++ _ ++ _) _
      simp only [String.empty_append, String.append_assoc]
      exact hbody
    | some k =>
      change Writes (k ++ ": " ++ s ++ _ ++ _ ++ _) _
      simp only [String.append_assoc]
      exact writes_entry (hkey k rfl).1 hbody
  | @spread s dirs hs hon hdirs =>
    have hdirs' := writes_directives hdirs fun d hd => hp.child (by simp [hd])
    rw [Node.lexemes_fragmentSpread, Node.print_mk]
    exact (marks_dots.append (writes_name hs)).append hdirs'
  | @inline cond dirs ss hcond hdirs hne hss ih =>
    have htail := trails_body hdirs (fun d hd => hp.child (by simp [hd]))
      fun n hn => ih n hn (hp.selections (by simp) n hn)
    rw [Node.lexemes_inlineFragment, Node.print_mk]
    cases cond with
    | none =>
      change Writes ("..." ++ _ ++ _) _
      simp only [String.append_assoc]
      exact marks_dots.append htail.writes
    | some t =>
      change Writes ("..." ++ (" " ++ ("on" ++ " ")) ++ t ++ _ ++ _) _
      have hword := (marks_word isName_on).append ((writes_name (hcond t rfl)).append htail)
      simp only [String.append_assoc]
      exact marks_dots.append (separates_space.append hword).writes

/-! ### Definitions and documents -/

theorem trails_default {default : Option Node} (h : ∀ v ∈ default, IsValue IsString true v)
    (hp : ∀ v ∈ default, v.Lasting) :
    Trails (Printer.default ((Child.ofOption default).map Node.print))
      (Node.defaultLexemes default) := by
  cases default with
  | none => exact trails_empty
  | some v =>
    have hequals : Separates " = " [mark .equals] :=
      ⟨fun _ _ _ hl => .blank (.inl rfl) (.mark rfl (.blank (.inl rfl) hl)),
        fun _ => ends_cons (by decide)⟩
    exact hequals.append (writes_value (h v rfl) (hp v rfl))

theorem writes_variableDefinition {n : Node} (h : IsVariableDefinition IsString n)
    (hp : n.Lasting) : Writes n.print n.lexemes := by
  cases h with
  | @mk s t default dirs hs ht hdefault hdirs =>
    have hdirs' := writes_directives hdirs fun d hd => hp.child (by simp [hd])
    have hdefault' := trails_default hdefault fun v hv => hp.child (by
      obtain rfl : default = some v := hv
      simp [Child.ofOption])
    have hentry := writes_entry hs ((writes_type ht).append (hdefault'.append hdirs'))
    have hdollar : Separates "$" [mark .dollar] := separates_punctuation rfl rfl
    rw [Node.lexemes_variableDefinition, Node.print_mk]
    change Writes ("$" ++ s ++ ": " ++ _ ++ _ ++ _) _
    simp only [String.append_assoc]
    exact hdollar.marks.append hentry

theorem isName_keyword (op : Written.Operation) : IsName op.keyword := by
  cases op
  · exact isName_of_all rfl rfl rfl
  · exact isName_of_all rfl rfl rfl
  · exact isName_of_all rfl rfl rfl

theorem writes_definition {n : Node} (h : IsDefinition IsString n) (hp : n.Lasting) :
    Writes n.print n.lexemes := by
  cases h with
  | @operation op name vars dirs ss hname hvars hdirs hne hss =>
    have hvars' := trails_parenthesized fun v hv =>
      writes_variableDefinition (hvars v hv) (hp.child (by simp [hv]))
    have hbody := trails_body hdirs (fun d hd => hp.child (by simp [hd]))
      fun n hn => writes_selection (hss n hn) (hp.selections (by simp) n hn)
    have htail := hvars'.append hbody
    rw [Node.lexemes_operationDefinition, Node.print_mk]
    cases name with
    | none =>
      change Writes (op.keyword ++ "" ++ _ ++ _ ++ _) _
      simp only [String.append_assoc, String.append_empty]
      exact (writes_name (isName_keyword op)).append htail
    | some s =>
      change Writes (op.keyword ++ (" " ++ s) ++ _ ++ _ ++ _) _
      have hs := separates_space.append ((writes_name (hname s rfl)).append htail)
      simp only [String.append_assoc]
      exact (writes_name (isName_keyword op)).append hs
  | @fragment s t vars dirs ss hs hon hvars ht hdirs hne hss =>
    obtain rfl : vars = [] := List.map_eq_nil_iff.mp (hp.noParameters _ (Node.mem_labels_self _))
    have hbody := trails_body hdirs (fun d hd => hp.child (by simp [hd]))
      fun n hn => writes_selection (hss n hn) (hp.selections (by simp) n hn)
    have hon' := (marks_word isName_on).append ((writes_name ht).append hbody)
    have hname := (writes_name hs).append (separates_space.append hon')
    have hfragment : IsName "fragment" := isName_of_all rfl rfl rfl
    rw [Node.lexemes_fragmentDefinition, Node.print_mk]
    change Writes ("fragment" ++ " " ++ s ++ (" " ++ ("on" ++ " ")) ++ t ++ _ ++ _) _
    simp only [String.append_assoc]
    exact (marks_word hfragment).append hname

/-- **The text of a lasting document** has the lexemes of its definitions. -/
theorem lexes_definitions {ds : List Node} (h : ∀ d ∈ ds, IsDefinition IsString d)
    (hp : ∀ d ∈ ds, d.Lasting) :
    Lexes (Node.document (placed ds) none).print.toList (ds.flatMap Node.lexemes) := by
  rw [Node.print_mk]
  exact (writes_joined separates_lines fun d hd => writes_definition (h d hd) (hp d hd)).lexes

/-- **The text of lasting definitions** is read as these definitions. -/
theorem exists_parseDocument_print {ds : List Node} (h : ∀ d ∈ ds, IsDefinition IsString d)
    (hp : ∀ d ∈ ds, d.Lasting) :
    ∃ doc, parseDocument (Node.document (placed ds) none).print = .ok doc ∧
      doc.cloneDeep = .document (placed ds) none :=
  Written.Parser.parseDocument_lexemes h (lexes_definitions h hp)

/-- **Reading the text of a lasting document that was read** gives the same document but for
locations, which has the same text. It is equal to the document unless that is nested too deep to be
compared. -/
theorem exists_same_of_lasting {text : String} {doc : Node} (h : parseDocument text = .ok doc)
    (hp : doc.Lasting) :
    ∃ doc', parseDocument doc.print = .ok doc' ∧ doc'.cloneDeep = doc.cloneDeep ∧
      (doc.equal doc' = true ↔ doc.shape.depth ≤ Value.maxNesting) ∧
        doc'.print = doc.print := by
  have hdoc := Written.Parser.isDocument_of_parseDocument h
  have hclone := hp.cloneDeep
  generalize hn : doc.cloneDeep = clone at hdoc hclone
  cases hdoc with
  | mk hds =>
    obtain ⟨doc', hparse, hdoc'⟩ :=
      exists_parseDocument_print hds fun d hd => hclone.child (by simp [hd])
    have heq : doc'.cloneDeep = doc.cloneDeep := hdoc'.trans hn.symm
    rw [← hn, Node.print_cloneDeep] at hparse
    refine ⟨doc', hparse, hdoc', ?_, ?_⟩
    · rw [Node.equal_iff_shape, ← doc'.shape_cloneDeep, heq, Node.shape_cloneDeep,
        and_iff_right rfl]
    · rw [← doc'.print_cloneDeep, heq, Node.print_cloneDeep]

/-- **Reading the text of a document that was read** gives a document with the same structure and
the same text, provided that nothing in it is lost or changed by printing. Both are equal unless
they are nested too deep to be compared. -/
theorem parseDocument_print {text : String} {doc : Node} (h : parseDocument text = .ok doc)
    (hp : doc.Plain) :
    ∃ doc', parseDocument doc.print = .ok doc' ∧ doc'.cloneDeep = doc.cloneDeep ∧
      (doc.equal doc' = true ↔ doc.shape.depth ≤ Value.maxNesting) ∧
        doc'.print = doc.print :=
  exists_same_of_lasting h hp.lasting

/-- A fragment with an alias, values, directives and all sorts of selections, with as few blanks as
possible. -/
def tightFragment : String :=
  "fragment F on T@d\x7ba:b(x:[1,$n]y:\x7bk:-2.5e3\x7d)...on U@e(on:null)\x7bon\x7d...\x7bd\x7d...G\x7d"

theorem parseDocument_print_tightFragment : ∃ doc doc',
    parseDocument tightFragment = .ok doc ∧ doc.Plain ∧ parseDocument doc.print = .ok doc' ∧
      doc'.cloneDeep = doc.cloneDeep ∧
        (doc.equal doc' = true ↔ doc.shape.depth ≤ Value.maxNesting) ∧
          doc'.print = doc.print := by
  have hplain :
      (parseDocument tightFragment).toOption.any (fun doc => decide doc.Plain) = true := by
    decide +kernel
  cases h : parseDocument tightFragment with
  | error e =>
    rw [h] at hplain
    cases hplain
  | ok doc =>
    rw [h] at hplain
    have hp : doc.Plain := of_decide_eq_true hplain
    obtain ⟨doc', hdoc'⟩ := parseDocument_print h hp
    exact ⟨doc, doc', rfl, hp, hdoc'⟩

/-! ### Documents nested too deep -/

/-- A field with one argument. -/
def argumentField (f a : String) (v : Node) : Node :=
  .field .absent (nameIn f) (placed [.argument (nameIn a) (.node v) none]) [] .absent none

/-- An operation of one field with one argument. -/
def argumentOperation (f a : String) (v : Node) : Node :=
  .operationDefinition "query" .absent [] [] (.node (selectionSetOf [argumentField f a v])) none

/-- A query of one field with one argument. -/
def argumentQuery (f a : String) (v : Node) : Node :=
  .document (placed [argumentOperation f a v]) none

variable {S : Lexeme → Prop} {f a : String} {v : Node}

theorem isDefinition_argumentOperation (hf : IsName f) (ha : IsName a) (hv : IsValue S false v) :
    IsDefinition S (argumentOperation f a v) := by
  have harg : IsArgument S false (.argument (nameIn a) (.node v) none) := .mk ha hv
  have hfield : IsSelection S (argumentField f a v) :=
    @IsSelection.field S none f [_] [] none (by simp) hf (by simpa using harg) (by simp) (by simp)
      (by simp)
  exact @IsDefinition.operation S .query none [] [] [_] (by simp) (by simp) (by simp)
    (List.cons_ne_nil _ _) (by simpa using hfield)

theorem isValue_nestedList : ∀ k, IsValue S false (.nestedList k)
  | 0 => @IsValue.list S false [] (by simp)
  | k + 1 => @IsValue.list S false [_] (by simpa using isValue_nestedList k)

/-- A list whose items are plain is plain. -/
theorem plain_listValue (vs : List Node) (h : ∀ v ∈ vs, v.Plain) :
    (Node.listValue (placed vs) none).Plain :=
  Node.plain_of_children (fun hk => by cases hk) rfl
    (by simpa [Node.children_eq, Node.slots] using h)

theorem plain_nestedList : ∀ k, (Node.nestedList k).Plain
  | 0 => plain_listValue [] (by simp)
  | k + 1 => plain_listValue [_] (by simpa using plain_nestedList k)

/-- A query whose argument is plain is plain. -/
theorem plain_argumentQuery (hv : v.Plain) : (argumentQuery f a v).Plain := by
  have hname : ∀ s, (Node.name s none).Plain := fun s =>
    Node.plain_of_children (fun hk => by cases hk) rfl fun m hm => by cases hm
  have harg : (Node.argument (nameIn a) (.node v) none).Plain :=
    Node.plain_of_children (fun hk => by cases hk) rfl
      (by simp [Node.children_eq, Node.slots, hname, hv])
  have hfield : (argumentField f a v).Plain :=
    Node.plain_of_children (fun hk => by cases hk) rfl
      (by simp [argumentField, Node.children_eq, Node.slots, Slot.children, Child.toOption, hname,
        harg])
  have hset : (selectionSetOf [argumentField f a v]).Plain :=
    Node.plain_of_children (fun hk => by cases hk) rfl
      (by simp [Node.children_eq, Node.slots, Slot.children, Child.toOption, hfield])
  have hoperation : (argumentOperation f a v).Plain :=
    Node.plain_of_children (fun hk => by cases hk) rfl
      (by simp [argumentOperation, Node.children_eq, Node.slots, Slot.children, Child.toOption,
        hset])
  exact Node.plain_of_children (fun hk => by cases hk) rfl
    (by simp [argumentQuery, Node.children_eq, Node.slots, Slot.children, Child.toOption,
      hoperation])

/-- The structured form of a query is eight levels deeper than that of its argument. -/
theorem depth_shape_argumentQuery (f a : String) (k : Nat) :
    (argumentQuery f a (.nestedList k)).shape.depth = 2 * k + 9 := by
  have hshape : (argumentQuery f a (.nestedList k)).shape =
      .map [("kind", .str "Document"), ("definitions", .list [
        .map [("kind", .str "OperationDefinition"), ("operation", .str "query"), ("selectionSet",
          .map [("kind", .str "SelectionSet"), ("selections", .list [
            .map [("kind", .str "Field"), ("name", .map [("kind", .str "Name"), ("value", .str f)]),
              ("arguments", .list [.map [("kind", .str "Argument"),
                ("name", .map [("kind", .str "Name"), ("value", .str a)]),
                ("value", (Node.nestedList k).shape)]])]])])]])] := rfl
  have hvalue := Node.depth_shape_nestedList k
  rw [hshape]
  simp only [Value.depth, Value.depthEntries, Value.depthItems]
  omega

/-- **A query nested too deep** is read again as it was, and yet is not equal to what is read. -/
theorem argumentQuery_ne_reread : ∃ doc doc',
    parseDocument (argumentQuery "a" "b" (.nestedList 5000)).print = .ok doc ∧ doc.Plain ∧
      parseDocument doc.print = .ok doc' ∧ doc.equal doc' = false := by
  have hplain := plain_argumentQuery (f := "a") (a := "b") (plain_nestedList 5000)
  have hdefinition : IsDefinition IsString (argumentOperation "a" "b" (.nestedList 5000)) :=
    isDefinition_argumentOperation (isName_of_all rfl rfl rfl) (isName_of_all rfl rfl rfl)
      (isValue_nestedList 5000)
  have hlasting : (argumentOperation "a" "b" (.nestedList 5000)).Lasting :=
    hplain.lasting.child (by simp [argumentQuery, Slot.children, Child.toOption])
  obtain ⟨doc, hparse, hdoc⟩ := exists_parseDocument_print
    (List.forall_mem_singleton.mpr hdefinition) (List.forall_mem_singleton.mpr hlasting)
  have hdocPlain : doc.Plain := .of_cloneDeep (hdoc ▸ hplain)
  obtain ⟨doc', hparse', -, hequal, -⟩ := exists_same_of_lasting hparse hdocPlain.lasting
  refine ⟨doc, doc', hparse, hdocPlain, hparse', ?_⟩
  have hdepth : doc.shape.depth = 2 * 5000 + 9 := by
    rw [← doc.shape_cloneDeep, hdoc]
    exact depth_shape_argumentQuery "a" "b" 5000
  rw [← Bool.not_eq_true, hequal, hdepth]
  decide

end QueryCheck.Syntax
