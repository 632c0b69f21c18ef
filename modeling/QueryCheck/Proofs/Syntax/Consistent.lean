import QueryCheck.Proofs.Written.Queries

/-! # Locations are consistent

A location tells a stretch of a text twice: by the offsets of its ends, and by the line and the
column of its start. The two agree wherever a node was read from a text, be it a query or the
definitions of directives, and the stretch of a name is its text.

* `Location.Consistent`: the line and the column of a location are those of its start.
* `Excerpt.consistent_location`: locations made from two offsets in order are consistent.
* `locations_consistent`: so are all locations of what is read from a text. -/

namespace QueryCheck.Syntax

open QueryCheck.Source (StandsAt)

/-! ### Consistent locations -/

/-- A location is consistent with a text: it is a stretch of the text, its line is told by the line
breaks before its start, and its column by the characters between the last of them and its start. -/
structure Location.Consistent (chars : List Char) (l : Location) : Prop where
  start_nonneg : 0 ≤ l.start
  start_le : l.start ≤ l.stop
  stop_le : l.stop ≤ chars.length
  line : l.line = (chars.take l.start.toNat).count '\n' + 1
  column : l.column = (Text.lastLine (chars.take l.start.toNat)).length + 1

/-- The characters of a text between the ends of a location. -/
def Location.stretch (chars : List Char) (l : Location) : List Char :=
  (chars.drop l.start.toNat).take (l.stop - l.start).toNat

namespace Excerpt

variable (e : Excerpt)

theorem consistent_location {i j : Nat} (hij : i ≤ j) (hj : j ≤ e.chars.length) :
    (e.location i j).Consistent e.chars :=
  ⟨Int.natCast_nonneg i, Int.ofNat_le.mpr hij, Int.ofNat_le.mpr hj, e.line_location i j,
    e.column_location i j⟩

theorem stretch_location {text : String} {i : Nat} (h : StandsAt e.chars text i) :
    (e.location i (i + text.length)).stretch e.chars = text.toList := by
  have hlength : (((i + text.length : Nat) : Int) - (i : Int)).toNat = text.toList.length := by
    rw [String.length_toList]
    omega
  change (e.chars.drop i).take (((i + text.length : Nat) : Int) - (i : Int)).toNat = text.toList
  rw [hlength]
  exact (List.prefix_iff_eq_take.mp h).symm

/-- The location of a node that shows what it marks is consistent, and its stretch is the text of
the node if it is a name. -/
theorem Shows.consistent {e : Excerpt} {U : Prop} {n : Node} (h : e.Shows U n) {l : Location}
    (hl : n.loc = some l) :
    l.Consistent e.chars ∧ ∀ s, n = .name s (some l) → l.stretch e.chars = s.toList := by
  obtain ⟨i, j, rfl, hij, hj⟩ := h.marks.1 l hl
  refine ⟨e.consistent_location hij.le hj, fun s hn => ?_⟩
  obtain ⟨k, hstands, hloc⟩ := h.name s _ hn
  rw [hloc]
  exact e.stretch_location hstands

end Excerpt

/-! ### What is read from a text -/

/-- A node that is read from a text: a query document, or one of the directive definitions of a
schema text. -/
def ReadFrom (text : String) (n : Node) : Prop :=
  parseDocument text = .ok n ∨ ∃ defs, parseDirectiveDefinitions text = .ok defs ∧ n ∈ defs

/-- A document that has a location covers the whole text. -/
theorem loc_of_parseDocument {text : String} {doc : Node} (h : parseDocument text = .ok doc) :
    ∀ l ∈ doc.loc, l = (Excerpt.mk text.toList .document).location 0 text.toList.length := by
  obtain ⟨q, -, rfl⟩ : ∃ q, Written.parseQuery text = .ok q ∧
      (Excerpt.mk text.toList .document).queryDocument q = doc := by
    unfold parseDocument at h
    cases hq : Written.parseQuery text with
    | error err => simp [hq, Except.map] at h
    | ok q => exact ⟨q, rfl, by simpa [hq, Except.map] using h⟩
  intro l hl
  have hloc : ∀ b : Bool,
      l ∈ (if b then none else some (Location.mk 0 text.toList.length 1 1 .document)) →
        l = (Excerpt.mk text.toList .document).location 0 text.toList.length := by
    rintro (_ | _) hmem
    · exact (Option.some.inj hmem).symm
    · cases hmem
  exact hloc _ hl

/-- The directive definitions of a text are marked. -/
theorem marked_parseDirectiveDefinitions {text : String} {defs : List Node}
    (h : parseDirectiveDefinitions text = .ok defs) :
    ∀ d ∈ defs, d.Marked ⟨text.toList, .definitions⟩ False := by
  unfold parseDirectiveDefinitions at h
  cases hq : Written.parseSchema text with
  | error err => simp [hq, Except.map] at h
  | ok q =>
    simp only [hq, Except.map, Except.ok.injEq] at h
    subst h
    intro d hd
    obtain ⟨w, hw, rfl⟩ := List.mem_map.mp hd
    have hlocated := Written.Parser.located_of_parseSchema hq .definitions
    exact (hlocated w (List.mem_mergeSort.mp hw)).marked

/-- **All locations of what is read from a text are consistent with it,** and the stretch of a name
is its text. -/
theorem locations_consistent {text : String} {root : Node} (h : ReadFrom text root) :
    ∀ n ∈ root.rose.labels, ∀ l, n.loc = some l → l.Consistent text.toList ∧
      ∀ s, n = .name s (some l) → l.stretch text.toList = s.toList := by
  intro n hn l hl
  rcases h with hdoc | ⟨defs, hdefs, hroot⟩
  · rw [Node.labels_eq, List.mem_cons, List.mem_flatMap] at hn
    rcases hn with rfl | ⟨d, hd, hn⟩
    · -- the document itself covers the whole text and is no name
      obtain rfl := loc_of_parseDocument hdoc l hl
      obtain ⟨-, ns, l', -, rfl, -⟩ := exists_written_of_parseDocument hdoc
      exact ⟨Excerpt.consistent_location ⟨text.toList, .document⟩ (Nat.zero_le _) le_rfl,
        fun s hname => by cases hname⟩
    · exact (marked_parseDocument hdoc d hd n hn).consistent hl
  · exact (marked_parseDirectiveDefinitions hdefs root hroot n hn).consistent hl

/-- The names of a tree in order, with their locations. -/
def nameLocations (root : Node) : List (String × Option Location) :=
  root.rose.labels.filterMap fun
    | .name value l => some (value, l)
    | _ => none

theorem name_mem_of_mem_nameLocations {root : Node} {value : String} {l : Option Location}
    (h : (value, l) ∈ nameLocations root) : .name value l ∈ root.rose.labels := by
  obtain ⟨n, hn, hname⟩ := List.mem_filterMap.mp h
  split at hname
  · obtain ⟨rfl, rfl⟩ := Prod.mk.inj (Option.some.inj hname)
    exact hn
  · cases hname

/-- An operation on the third line, behind a comment that ends with a carriage return and an empty
line. -/
def lowQuery : String := "# ä\r\n\nquery Q \x7b b \x7d"

theorem locations_consistent_lowQuery :
    ∃ doc l, ReadFrom lowQuery doc ∧ .name "Q" (some l) ∈ doc.rose.labels ∧
      l = ⟨12, 13, 3, 7, .document⟩ ∧ l.Consistent lowQuery.toList ∧
      l.stretch lowQuery.toList = "Q".toList := by
  have hnames : (parseDocument lowQuery).toOption.map nameLocations =
      some [("Q", some ⟨12, 13, 3, 7, .document⟩), ("b", some ⟨16, 17, 3, 11, .document⟩)] := by
    decide +kernel
  cases hdoc : parseDocument lowQuery with
  | error err => simp [hdoc, Except.toOption] at hnames
  | ok doc =>
    have hall : nameLocations doc =
        [("Q", some ⟨12, 13, 3, 7, .document⟩), ("b", some ⟨16, 17, 3, 11, .document⟩)] := by
      simpa [hdoc, Except.toOption] using hnames
    have hfirst : ("Q", some ⟨12, 13, 3, 7, .document⟩) ∈ nameLocations doc := by
      rw [hall]
      exact List.mem_cons_self
    have hmem := name_mem_of_mem_nameLocations hfirst
    obtain ⟨hconsistent, hstretch⟩ := locations_consistent (.inl hdoc) _ hmem _ rfl
    exact ⟨doc, _, .inl hdoc, hmem, rfl, hconsistent, hstretch "Q" rfl⟩

end QueryCheck.Syntax
