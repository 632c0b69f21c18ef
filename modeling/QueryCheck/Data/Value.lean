/-! # Structured values

The values a result is made of before it is written in some format: nothing, flags, whole numbers,
texts, lists, and maps that keep the order of their entries and may repeat a key.

* `Value.induct` is induction over values.
* `Value.same_iff` makes equality of values decidable.
* `Value.get?` finds the first entry of a key.
* `Value.withoutLocations` drops every `loc` entry at any depth. -/

namespace QueryCheck.Data

/-- A structured value. -/
inductive Value where
  | null
  | bool (b : Bool)
  | int (i : Int)
  | str (s : String)
  | list (items : List Value)
  | map (entries : List (String × Value))
  deriving Repr, Inhabited

namespace Value

/-! ### Induction -/

/-- The values a value holds. -/
def parts : Value → List Value
  | list items => items
  | map es => es.map Prod.snd
  | _ => []

mutual

/-- What passes from the parts of a value to the value holds of every value. -/
theorem induct {P : Value → Prop} (step : ∀ v : Value, (∀ w ∈ v.parts, P w) → P v) :
    ∀ v : Value, P v
  | null => step _ nofun
  | bool _ => step _ nofun
  | int _ => step _ nofun
  | str _ => step _ nofun
  | list items => step _ (inductItems step items)
  | map es => step _ (inductEntries step es)

theorem inductItems {P : Value → Prop} (step : ∀ v : Value, (∀ w ∈ v.parts, P w) → P v) :
    ∀ items : List Value, ∀ v ∈ items, P v
  | [], _, hv => nomatch hv
  | v :: _, _, .head _ => induct step v
  | _ :: vs, w, .tail _ hw => inductItems step vs w hw

theorem inductEntries {P : Value → Prop} (step : ∀ v : Value, (∀ w ∈ v.parts, P w) → P v) :
    ∀ es : List (String × Value), ∀ v ∈ es.map Prod.snd, P v
  | [], _, hv => nomatch hv
  | (_, v) :: _, _, .head _ => induct step v
  | _ :: es, w, .tail _ hw => inductEntries step es w hw

end

/-! ### Equality -/

mutual

/-- Whether two values are the same. -/
def same : Value → Value → Bool
  | null, null => true
  | bool a, bool b => a == b
  | int a, int b => a == b
  | str a, str b => a == b
  | list as, list bs => sameItems as bs
  | map as, map bs => sameEntries as bs
  | _, _ => false

/-- Whether two lists of items are the same. -/
def sameItems : List Value → List Value → Bool
  | [], [] => true
  | a :: as, b :: bs => same a b && sameItems as bs
  | _, _ => false

/-- Whether two lists of entries are the same. -/
def sameEntries : List (String × Value) → List (String × Value) → Bool
  | [], [] => true
  | (k, a) :: as, (l, b) :: bs => k == l && same a b && sameEntries as bs
  | _, _ => false

end

mutual

theorem eq_of_same : ∀ a b : Value, same a b = true → a = b
  | null, b, h => by cases b <;> simp_all [same]
  | bool _, b, h => by cases b <;> simp_all [same]
  | int _, b, h => by cases b <;> simp_all [same]
  | str _, b, h => by cases b <;> simp_all [same]
  | list as, b, h => by
    cases b <;> simp only [same, Bool.false_eq_true] at h
    rw [eq_of_sameItems as _ h]
  | map as, b, h => by
    cases b <;> simp only [same, Bool.false_eq_true] at h
    rw [eq_of_sameEntries as _ h]

theorem eq_of_sameItems : ∀ as bs : List Value, sameItems as bs = true → as = bs
  | [], bs, h => by cases bs <;> simp_all [sameItems]
  | a :: as, bs, h => by
    cases bs with
    | nil => simp [sameItems] at h
    | cons b bs =>
      simp only [sameItems, Bool.and_eq_true] at h
      rw [eq_of_same a b h.1, eq_of_sameItems as bs h.2]

theorem eq_of_sameEntries :
    ∀ as bs : List (String × Value), sameEntries as bs = true → as = bs
  | [], bs, h => by cases bs <;> simp_all [sameEntries]
  | (k, a) :: as, bs, h => by
    cases bs with
    | nil => simp [sameEntries] at h
    | cons e bs =>
      obtain ⟨l, b⟩ := e
      simp only [sameEntries, Bool.and_eq_true, beq_iff_eq] at h
      rw [h.1.1, eq_of_same a b h.1.2, eq_of_sameEntries as bs h.2]

end

mutual

theorem same_self : ∀ a : Value, same a a = true
  | null => rfl
  | bool _ => by simp [same]
  | int _ => by simp [same]
  | str _ => by simp [same]
  | list as => by simp only [same]; exact sameItems_self as
  | map as => by simp only [same]; exact sameEntries_self as

theorem sameItems_self : ∀ as : List Value, sameItems as as = true
  | [] => rfl
  | a :: as => by simp [sameItems, same_self a, sameItems_self as]

theorem sameEntries_self : ∀ as : List (String × Value), sameEntries as as = true
  | [] => rfl
  | (k, a) :: as => by simp [sameEntries, same_self a, sameEntries_self as]

end

theorem same_iff {a b : Value} : same a b = true ↔ a = b :=
  ⟨eq_of_same a b, fun h => h ▸ same_self a⟩

instance : DecidableEq Value := fun _ _ => decidable_of_iff _ same_iff

/-! ### Reading values -/

/-- The first value stored under a key of a list of entries. -/
def lookup (key : String) : List (String × Value) → Option Value
  | [] => none
  | (k, v) :: es => if k == key then some v else lookup key es

/-- The entries of a map; no other value has any. -/
def entries : Value → List (String × Value)
  | map es => es
  | _ => []

/-- The value stored under a key of a map. -/
def get? (v : Value) (key : String) : Option Value := lookup key v.entries

/-- The keys of a map in order, repeated ones included. -/
def keys (v : Value) : List String := v.entries.map Prod.fst

mutual

/-- The value without `loc` entries at any depth. -/
def withoutLocations : Value → Value
  | list items => list (withoutLocationsItems items)
  | map es => map (withoutLocationsEntries es)
  | v => v

/-- `withoutLocations` on the items of a list. -/
def withoutLocationsItems : List Value → List Value
  | [] => []
  | v :: vs => withoutLocations v :: withoutLocationsItems vs

/-- `withoutLocations` on the entries of a map. -/
def withoutLocationsEntries : List (String × Value) → List (String × Value)
  | [] => []
  | (k, v) :: es =>
    if k == "loc" then withoutLocationsEntries es
    else (k, withoutLocations v) :: withoutLocationsEntries es

end

end Value

end QueryCheck.Data
