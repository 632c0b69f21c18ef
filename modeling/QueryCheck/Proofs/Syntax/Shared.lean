import Mathlib.Combinatorics.Pigeonhole
import Mathlib.Data.List.Forall2
import QueryCheck.Proofs.Syntax.Tree
import QueryCheck.Syntax.Shelf

/-! # Reading shared nodes

A cell of a store can be read when no cell below it refers to itself by way of others: a path as
long as there are cells would come to some cell twice. What has been read stays readable, and reads
the same, when the store grows.

* `Store.Sound`: every reference leads to a cell, and none leads back to where it came from.
* `Store.Sound.exists_read?`: every cell of a sound store can be read.
* `Store.readWithin_mono`: reading in a store that has grown, and to a greater depth.
* `Store.Sound.of_descending`: a store whose cells only refer to earlier ones is sound. -/

namespace QueryCheck.Syntax

/-! ### Reading slots -/

section Map

variable {α β : Type}

theorem mapM_eq_some_iff {f : α → Option β} : ∀ {l : List α} {l' : List β},
    l.mapM f = some l' ↔ List.Forall₂ (fun a b => f a = some b) l l'
  | [], l' => by simp [eq_comm]
  | a :: l, l' => by
    rw [List.mapM_cons, List.forall₂_cons_left_iff]
    cases hb : f a with
    | none => simp
    | some b =>
      cases hl : l.mapM f with
      | none =>
        have hnone : ∀ bs, ¬List.Forall₂ (fun a b => f a = some b) l bs := fun bs hbs => by
          rw [← mapM_eq_some_iff, hl] at hbs
          cases hbs
        simp [hnone]
      | some bs =>
        have hsome : ∀ bs', List.Forall₂ (fun a b => f a = some b) l bs' ↔ bs = bs' := fun bs' => by
          rw [← mapM_eq_some_iff, hl, Option.some.injEq]
        simp [hsome, eq_comm]

theorem forall₂_map_eq_iff {γ : Type} {f : α → γ} {g : β → γ} {l : List α} {l' : List β} :
    List.Forall₂ (fun a b => f a = g b) l l' ↔ l.map f = l'.map g := by
  rw [← List.forall₂_eq_eq_eq, List.forall₂_map_left_iff, List.forall₂_map_right_iff]

end Map

namespace Store

theorem readChild_eq_some_iff {read : Ref → Option Node} {c : Child Ref} {d : Child Node} :
    readChild read c = some d ↔ c.map read = d.map some := by
  cases c <;> cases d <;> simp [readChild, Child.map]

/-- A slot is read when all its children are. -/
theorem readSlot_eq_some_iff {read : Ref → Option Node} {s : Slot Ref} {t : Slot Node} :
    readSlot read s = some t ↔ s.map read = t.map some := by
  cases s with
  | text s => cases t <;> simp [readSlot, Slot.map]
  | flag b => cases t <;> simp [readSlot, Slot.map]
  | one c =>
    cases t <;> simp [readSlot, Slot.map, readChild_eq_some_iff]
  | many cs =>
    cases t <;> simp [readSlot, Slot.map, mapM_eq_some_iff, readChild_eq_some_iff,
      forall₂_map_eq_iff]

theorem readSlots_eq_some_iff {read : Ref → Option Node} {ss : List (Slot Ref)}
    {ts : List (Slot Node)} :
    ss.mapM (readSlot read) = some ts ↔ ss.map (Slot.map read) = ts.map (Slot.map some) := by
  simp only [mapM_eq_some_iff, readSlot_eq_some_iff, forall₂_map_eq_iff]

section Mono

variable {read read' : Ref → Option Node} (h : ∀ x m, read x = some m → read' x = some m)
include h

theorem child_mono {c : Child Ref} {t : Child Node} (hc : c.map read = t.map some) :
    c.map read' = t.map some := by
  cases c <;> cases t <;> simp_all [Child.map]

theorem slot_mono {s : Slot Ref} {t : Slot Node} (hs : s.map read = t.map some) :
    s.map read' = t.map some := by
  cases s with
  | one c =>
    cases t <;> simp only [Slot.map, reduceCtorEq, Slot.one.injEq] at hs ⊢
    exact child_mono h hs
  | many cs =>
    cases t <;> simp only [Slot.map, reduceCtorEq, Slot.many.injEq] at hs ⊢
    exact forall₂_map_eq_iff.mp ((forall₂_map_eq_iff.mpr hs).imp fun _ _ => child_mono h)
  | _ => exact hs

/-- What is read of slots is read of them by whatever reads the same and more. -/
theorem slots_mono {ss : List (Slot Ref)} {ts : List (Slot Node)}
    (hss : ss.map (Slot.map read) = ts.map (Slot.map some)) :
    ss.map (Slot.map read') = ts.map (Slot.map some) :=
  forall₂_map_eq_iff.mp ((forall₂_map_eq_iff.mpr hss).imp fun _ _ => slot_mono h)

end Mono

end Store

/-! ### Cells and the cells they refer to -/

/-- The references of a cell. -/
def Cell.children (c : Cell) : List Ref := c.slots.flatMap Slot.children

namespace Store

variable {st st' : Store} {r x : Ref} {depth : Nat} {n : Node}

theorem children_of_cell {c : Cell} (h : st.cell? r = some c) : st.children r = c.children := by
  rw [children, h]
  rfl

theorem exists_cell_of_mem_children (hx : x ∈ st.children r) : ∃ c, st.cell? r = some c ∧
    x ∈ c.children := by
  cases hc : st.cell? r with
  | none =>
    rw [children, hc] at hx
    cases hx
  | some c => exact ⟨c, rfl, children_of_cell hc ▸ hx⟩

theorem cell?_eq_none_iff : st.cell? r = none ↔ st.cells.length ≤ r := List.getElem?_eq_none_iff

theorem exists_cell (hr : r < st.cells.length) : ∃ c, st.cell? r = some c :=
  ⟨_, List.getElem?_eq_getElem hr⟩

theorem lt_of_cell {c : Cell} (h : st.cell? r = some c) : r < st.cells.length :=
  (List.getElem?_eq_some_iff.mp h).1

/-- **Reading a cell** is reading what it refers to. -/
theorem readWithin_succ_iff : st.readWithin (depth + 1) r = some n ↔
    ∃ c, st.cell? r = some c ∧ c.kind = n.kind ∧ c.loc = n.loc ∧
      c.slots.map (Slot.map (st.readWithin depth)) = n.slots.map (Slot.map some) := by
  obtain ⟨k, ss, l⟩ := n
  rw [readWithin]
  cases st.cell? r with
  | none => simp
  | some c =>
    simp only [← readSlots_eq_some_iff, Option.some.injEq, exists_eq_left', Option.bind_eq_bind,
      Option.bind_some, Option.bind_eq_some_iff, pure, Node.mk.injEq, Node.kind, Node.slots, Node.loc]
    constructor
    · rintro ⟨ss, hss, rfl, rfl, rfl⟩
      exact ⟨rfl, rfl, hss⟩
    · rintro ⟨hk, hl, hss⟩
      exact ⟨ss, hss, hk, rfl, hl⟩

/-- A cell is read when all it refers to is. -/
theorem exists_readWithin_succ {c : Cell} (hc : st.cell? r = some c)
    (h : ∀ x ∈ c.children, ∃ m, st.readWithin depth x = some m) :
    ∃ n, st.readWithin (depth + 1) r = some n := by
  have hread : c.slots.map (Slot.map (st.readWithin depth)) =
      (c.slots.map (Slot.map fun x => (st.readWithin depth x).getD default)).map (Slot.map some) := by
    rw [List.map_map]
    refine List.map_congr_left fun s hs => ?_
    rw [Function.comp_apply, Slot.map_map]
    refine Slot.map_congr fun x hx => ?_
    obtain ⟨m, hm⟩ := h x (List.mem_flatMap.mpr ⟨s, hs, hx⟩)
    rw [hm, Option.getD_some]
  exact ⟨.mk c.kind _ c.loc, readWithin_succ_iff.mpr ⟨c, hc, rfl, rfl, hread⟩⟩

/-! ### Stores that grow -/

/-- A store that has the cells of another and more after them. -/
def Grows (st st' : Store) : Prop := st.cells <+: st'.cells

theorem Grows.refl (st : Store) : st.Grows st := List.prefix_refl _

theorem Grows.trans {st'' : Store} (h : st.Grows st') (h' : st'.Grows st'') : st.Grows st'' :=
  List.IsPrefix.trans h h'

theorem Grows.cell? (h : st.Grows st') {c : Cell} (hc : st.cell? r = some c) :
    st'.cell? r = some c := by
  obtain ⟨new, hnew⟩ := h
  rw [Store.cell?, ← hnew, List.getElem?_append_left (lt_of_cell hc)]
  exact hc

/-- **What has been read** is read in a store that has grown, and to a greater depth, too. -/
theorem readWithin_mono (h : st.Grows st') : ∀ {depth depth' : Nat} {r : Ref} {n : Node},
    depth ≤ depth' → st.readWithin depth r = some n → st'.readWithin depth' r = some n
  | 0, _, _, _, _, hn => nomatch hn
  | depth + 1, 0, _, _, hle, _ => by omega
  | depth + 1, depth' + 1, r, n, hle, hn => by
    obtain ⟨c, hc, hkind, hloc, hslots⟩ := readWithin_succ_iff.mp hn
    exact readWithin_succ_iff.mpr ⟨c, h.cell? hc, hkind, hloc,
      slots_mono (fun _ _ hm => readWithin_mono h (Nat.le_of_succ_le_succ hle) hm) hslots⟩

/-! ### Paths -/

theorem follow?_append : ∀ (path path' : List Nat) (r : Ref),
    st.follow? (path ++ path') r = (st.follow? path r).bind (st.follow? path')
  | [], _, _ => rfl
  | i :: is, path', r => by
    rw [List.cons_append, follow?, follow?, Option.bind_assoc]
    exact congrArg _ (funext fun x => follow?_append is path' x)

theorem follow?_concat (path : List Nat) (i : Nat) (r : Ref) :
    st.follow? (path ++ [i]) r = (st.follow? path r).bind fun x => (st.children x)[i]? := by
  rw [follow?_append]
  refine congrArg _ (funext fun x => ?_)
  rw [follow?]
  cases (st.children x)[i]? <;> rfl

/-- **Stores without cycles**: every reference leads to a cell, and no path leads from a cell to the
cell itself. -/
structure Sound (st : Store) : Prop where
  inside : ∀ r, ∀ x ∈ st.children r, x < st.cells.length
  acyclic : ∀ r path, st.follow? path r = some r → path = []

/-- A path stays among cells that refer to each other only. -/
theorem follow?_closed {R : Ref → Prop} (hclosed : ∀ r, R r → ∀ x ∈ st.children r, R x) :
    ∀ {path : List Nat} {r x : Ref}, R r → st.follow? path r = some x → R x
  | [], r, x, hr, hx => by
    rw [follow?, Option.some.injEq] at hx
    exact hx ▸ hr
  | i :: is, r, x, hr, hx => by
    obtain ⟨y, hy, hx⟩ := Option.bind_eq_some_iff.mp hx
    exact follow?_closed hclosed (hclosed r hr y (List.mem_of_getElem? hy)) hx

/-- Below a cell that cannot be read down to some depth there is a path of this depth. -/
theorem exists_path_of_unread (hinside : ∀ r, ∀ x ∈ st.children r, x < st.cells.length) :
    ∀ {depth : Nat} {r : Ref}, r < st.cells.length → st.readWithin depth r = none →
      ∃ path x, path.length = depth ∧ st.follow? path r = some x
  | 0, r, _, _ => ⟨[], r, rfl, rfl⟩
  | depth + 1, r, hr, hnone => by
    obtain ⟨c, hc⟩ := exists_cell hr
    have hunread : ∃ x ∈ c.children, st.readWithin depth x = none := by
      by_contra hall
      push Not at hall
      obtain ⟨n, hn⟩ := exists_readWithin_succ hc fun x hx => Option.ne_none_iff_exists'.mp (hall x hx)
      rw [hnone] at hn
      cases hn
    obtain ⟨y, hy, hnone⟩ := hunread
    rw [← children_of_cell hc] at hy
    obtain ⟨path, x, rfl, hx⟩ := exists_path_of_unread hinside (hinside r y hy) hnone
    obtain ⟨i, hi⟩ := List.mem_iff_getElem?.mp hy
    exact ⟨i :: path, x, rfl, by rw [follow?, hi, Option.bind_some, hx]⟩

/-- **Every cell of a sound store can be read.** -/
theorem Sound.exists_read? (h : st.Sound) (hr : r < st.cells.length) : ∃ n, st.read? r = some n := by
  refine Option.ne_none_iff_exists'.mp fun hnone => ?_
  obtain ⟨path, y, hlength, hy⟩ := exists_path_of_unread h.inside hr hnone
  -- The path passes one cell more than there are, so it comes to some cell twice.
  have hpassed : ∀ i, ∃ x, st.follow? (path.take i) r = some x := fun i => by
    rw [← List.take_append_drop i path, follow?_append] at hy
    obtain ⟨x, hx, -⟩ := Option.bind_eq_some_iff.mp hy
    exact ⟨x, hx⟩
  choose passed hpassed using hpassed
  have hmaps : ∀ i ∈ Finset.range (st.cells.length + 1), passed i ∈ Finset.range st.cells.length :=
    fun i _ => Finset.mem_range.mpr
      (follow?_closed (R := (· < st.cells.length)) (fun r _ => h.inside r) hr (hpassed i))
  obtain ⟨i, hi, j, hj, hne, heq⟩ :=
    Finset.exists_ne_map_eq_of_card_lt_of_maps_to (by simp) hmaps
  have hloop : ∀ {i j}, i < j → j < st.cells.length + 1 → passed i ≠ passed j := by
    intro i j hij hj heq
    have hfollow := hpassed j
    rw [← List.take_append_drop i (path.take j), List.take_take, Nat.min_eq_left hij.le,
      follow?_append, hpassed i, Option.bind_some, ← heq] at hfollow
    have hnil := congrArg List.length (h.acyclic _ _ hfollow)
    rw [List.length_drop, List.length_take, List.length_nil] at hnil
    omega
  rw [Finset.mem_range] at hi hj
  rcases Nat.lt_or_gt_of_ne hne with hlt | hlt
  · exact hloop hlt hj heq
  · exact hloop hlt hi heq.symm

/-- A store whose cells only refer to earlier ones is sound. -/
theorem Sound.of_descending (h : ∀ r < st.cells.length, ∀ x ∈ st.children r, x < r) : st.Sound := by
  have hdescending : ∀ r, ∀ x ∈ st.children r, x < r := fun r x hx => by
    obtain ⟨c, hc, -⟩ := exists_cell_of_mem_children hx
    exact h r (lt_of_cell hc) x hx
  have hle : ∀ {path : List Nat} {r x : Ref}, st.follow? path r = some x → x ≤ r := fun hx =>
    follow?_closed (R := (· ≤ _)) (fun y hy z hz => (hdescending y z hz).le.trans hy) (le_refl _) hx
  refine ⟨fun r x hx => ?_, fun r path hr => ?_⟩
  · obtain ⟨c, hc, -⟩ := exists_cell_of_mem_children hx
    exact (hdescending r x hx).trans (lt_of_cell hc)
  · cases path with
    | nil => rfl
    | cons i is =>
      obtain ⟨y, hy, hr⟩ := Option.bind_eq_some_iff.mp hr
      have hlt := hdescending r y (List.mem_of_getElem? hy)
      exact absurd hlt (Nat.not_lt.mpr (hle hr))

end Store

end QueryCheck.Syntax
