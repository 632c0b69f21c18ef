import Mathlib.Data.List.Perm.Basic
import Mathlib.Data.List.Range
import QueryCheck.Proofs.Syntax.Shared

/-! # Copies of shared nodes

A copy takes new cells only, one for every way to a cell below the copied one. Its cells refer to
new cells, and to each of them but its own just once: also where the copied cells share others, no
two paths in the copy lead to one cell.

* `Store.Adds`: a store with new cells, each of them referred to once by a new cell or from outside.
* `Store.Copies`: a computation that adds cells, and what is read of what it gives.
* `Store.copyWithin_copies`: copying a cell of which a node is read adds cells of which its clone
  is.
* `Store.Adds.follow?_injective`: different paths in a copy lead to different cells. -/

namespace QueryCheck.Syntax

namespace Store

variable {st st' st'' : Store} {roots roots' : List Ref} {root : Ref}

/-! ### New cells -/

/-- **New cells.** A store that has more cells than another, where every new cell is referred to
just once, by another new cell or as one of the given roots, and new cells refer to no others. -/
def Adds (st st' : Store) (roots : List Ref) : Prop :=
  ∃ new : List Cell, st'.cells = st.cells ++ new ∧
    (roots ++ new.flatMap Cell.children).Perm (List.range' st.cells.length new.length)

theorem Adds.grows (h : st.Adds st' roots) : st.Grows st' := by
  obtain ⟨new, hnew, -⟩ := h
  exact ⟨new, hnew.symm⟩

theorem Adds.nil (st : Store) : st.Adds st [] := ⟨[], by simp, by simp⟩

theorem Adds.append (h : st.Adds st' roots) (h' : st'.Adds st'' roots') :
    st.Adds st'' (roots ++ roots') := by
  obtain ⟨new, hnew, hperm⟩ := h
  obtain ⟨new', hnew', hperm'⟩ := h'
  refine ⟨new ++ new', by rw [hnew', hnew, List.append_assoc], ?_⟩
  have hrange : List.range' st.cells.length new.length ++ List.range' st'.cells.length new'.length =
      List.range' st.cells.length (new ++ new').length := by
    rw [hnew, List.length_append, List.length_append, ← List.range'_append, Nat.one_mul]
  have hswap : ((roots ++ roots') ++ (new ++ new').flatMap Cell.children).Perm
      ((roots ++ new.flatMap Cell.children) ++ (roots' ++ new'.flatMap Cell.children)) := by
    rw [List.flatMap_append, List.append_assoc, List.append_assoc]
    refine List.Perm.append_left _ ?_
    rw [← List.append_assoc, ← List.append_assoc]
    exact List.Perm.append_right _ List.perm_append_comm
  exact hrange ▸ hswap.trans (hperm.append hperm')

/-- A cell that refers to the roots takes their place. -/
theorem Adds.push {c : Cell} (h : st.Adds st' c.children) :
    st.Adds ⟨st'.cells ++ [c]⟩ [st'.cells.length] := by
  obtain ⟨new, hnew, hperm⟩ := h
  refine ⟨new ++ [c], by rw [hnew, List.append_assoc], ?_⟩
  rw [List.length_append, List.length_singleton, List.range'_concat, Nat.one_mul, hnew,
    List.length_append, List.flatMap_append, List.flatMap_singleton]
  refine List.perm_append_comm.trans (List.Perm.append_right _ ?_)
  exact List.perm_append_comm.trans hperm

/-! ### Copying lists, places and slots -/

section Copies

variable {α β ν μ : Type}

/-- **What a computation copies**: it adds cells, the new ones are referred to from what it gives,
and what it gives is read in a certain way. -/
def Copies (copy : Copying β) (refs : β → List Ref) (Reads : Store → β → Prop) (st : Store) : Prop :=
  ∃ b st', copy.run st = some (b, st') ∧ st.Adds st' (refs b) ∧ Reads st' b

theorem Copies.of_pure {b : β} {refs : β → List Ref} {Reads : Store → β → Prop}
    (hrefs : refs b = []) (hreads : Reads st b) : Copies (pure b) refs Reads st :=
  ⟨b, st, rfl, hrefs ▸ .nil st, hreads⟩

theorem Copies.map {copy : Copying α} {f : α → β} {refs : α → List Ref} {refs' : β → List Ref}
    {Reads : Store → α → Prop} {Reads' : Store → β → Prop} (h : Copies copy refs Reads st)
    (hrefs : ∀ a, refs' (f a) = refs a) (hreads : ∀ st a, Reads st a → Reads' st (f a)) :
    Copies (do return f (← copy)) refs' Reads' st := by
  obtain ⟨a, st', hrun, hadds, ha⟩ := h
  exact ⟨f a, st', by simp [hrun], (hrefs a).symm ▸ hadds, hreads st' a ha⟩

/-- **Copying item after item.** The items copied first are read alike after the others. -/
theorem copies_mapM {copy : α → Copying β} {refs : β → List Ref} (Reads : Store → β → μ → Prop)
    (hmono : ∀ {st st' b v}, st.Grows st' → Reads st b v → Reads st' b v) (clone : ν → μ)
    {as : List α} {ts : List ν}
    (h : List.Forall₂ (fun a t => ∀ st', st.Grows st' →
      Copies (copy a) refs (fun st b => Reads st b (clone t)) st') as ts) :
    ∀ st', st.Grows st' → Copies (as.mapM copy) (List.flatMap refs)
      (fun st bs => List.Forall₂ (Reads st) bs (ts.map clone)) st' := by
  induction h with
  | nil => exact fun st' _ => .of_pure rfl .nil
  | cons hcopy _ ih =>
    intro st₀ hgrows
    obtain ⟨b, st₁, hb, hadds, hread⟩ := hcopy st₀ hgrows
    obtain ⟨bs, st₂, hbs, hadds', hreads⟩ := ih st₁ (hgrows.trans hadds.grows)
    refine ⟨b :: bs, st₂, ?_, ?_, .cons (hmono hadds'.grows hread) hreads⟩
    · rw [List.mapM_cons, StateT.run_bind, hb]
      simp [hbs]
    · rw [List.flatMap_cons]
      exact hadds.append hadds'

end Copies

section Slots

variable {depth : Nat} {copy : Ref → Copying Ref}

/-- Whatever node is read of a cell, copying the cell gives one of which the clone of the node
is. -/
def CopiesCells (copy : Ref → Copying Ref) (depth : Nat) (st : Store) : Prop :=
  ∀ {r n}, st.readWithin depth r = some n → ∀ st', st.Grows st' →
    Copies (copy r) (fun r => [r]) (fun st r => st.readWithin depth r = some n.cloneDeep) st'

theorem copyChild_copies (hcopy : CopiesCells copy depth st) {c : Child Ref} {t : Child Node}
    (hc : c.map (st.readWithin depth) = t.map some) : ∀ st', st.Grows st' →
      Copies (copyChild copy c) (fun c => c.toOption.toList)
        (fun st c => c.map (st.readWithin depth) = (t.map Node.cloneDeep).map some) st' := by
  intro st' hgrows
  cases c with
  | absent =>
    cases t <;> simp only [Child.map, reduceCtorEq] at hc
    exact .of_pure rfl rfl
  | null k =>
    cases t <;> simp only [Child.map, reduceCtorEq] at hc
    exact .of_pure rfl hc
  | node r =>
    cases t <;> simp only [Child.map, reduceCtorEq, Child.node.injEq] at hc
    exact (hcopy hc st' hgrows).map (fun _ => rfl) fun _ _ hr => congrArg Child.node hr

theorem copySlot_copies (hcopy : CopiesCells copy depth st) {s : Slot Ref} {t : Slot Node}
    (hs : s.map (st.readWithin depth) = t.map some) : ∀ st', st.Grows st' →
      Copies (copySlot copy s) Slot.children
        (fun st s => s.map (st.readWithin depth) = (t.map Node.cloneDeep).map some) st' := by
  intro st' hgrows
  cases s with
  | text s =>
    cases t <;> simp only [Slot.map, reduceCtorEq] at hs
    exact .of_pure rfl hs
  | flag b =>
    cases t <;> simp only [Slot.map, reduceCtorEq] at hs
    exact .of_pure rfl hs
  | one c =>
    cases t <;> simp only [Slot.map, reduceCtorEq, Slot.one.injEq] at hs
    exact (copyChild_copies hcopy hs st' hgrows).map (fun _ => rfl) fun _ _ hc => congrArg Slot.one hc
  | many cs =>
    cases t with
    | many ts =>
      simp only [Slot.map, Slot.many.injEq] at hs
      have hitems := copies_mapM (fun st (c : Child Ref) t => c.map (st.readWithin depth) = t.map some)
        (fun hgrows hc => child_mono (fun _ _ => readWithin_mono hgrows le_rfl) hc)
        (Child.map Node.cloneDeep)
        ((forall₂_map_eq_iff.mpr hs).imp fun _ _ hc => copyChild_copies hcopy hc) st' hgrows
      refine hitems.map (fun cs => ?_) fun _ _ hcs => ?_
      · rw [Slot.children, List.filterMap_eq_flatMap_toList]
      · exact congrArg Slot.many (forall₂_map_eq_iff.mp hcs)
    | _ => simp [Slot.map] at hs

/-- **Copying a cell** of which a node is read adds cells, of which its clone is read. -/
theorem copyWithin_copies (st : Store) : ∀ depth, CopiesCells (copyWithin depth) depth st
  | 0, _, _, hn => nomatch hn
  | depth + 1, r, n, hn => by
    intro st₀ hgrows
    obtain ⟨c, hc, hkind, -, hslots⟩ := readWithin_succ_iff.mp hn
    obtain ⟨ss, st₁, hrun, hadds, hreads⟩ := copies_mapM
      (fun st (s : Slot Ref) t => s.map (st.readWithin depth) = t.map some)
      (fun hgrows hs => slot_mono (fun _ _ => readWithin_mono hgrows le_rfl) hs)
      (Slot.map Node.cloneDeep)
      ((forall₂_map_eq_iff.mpr hslots).imp fun _ _ hs =>
        copySlot_copies (copyWithin_copies st depth) hs) st₀ hgrows
    have hpush := hadds.push (c := ⟨c.kind, ss, none⟩)
    refine ⟨st₁.cells.length, ⟨st₁.cells ++ [⟨c.kind, ss, none⟩]⟩, ?_, hpush, ?_⟩
    · change (st₀.cell? r).bind _ = _
      rw [hgrows.cell? hc, Option.bind_some, hrun]
      rfl
    · have hnew : Store.cell? ⟨st₁.cells ++ [⟨c.kind, ss, none⟩]⟩ st₁.cells.length =
          some ⟨c.kind, ss, none⟩ := by
        rw [cell?, List.getElem?_concat_length]
      obtain ⟨k, ts, l⟩ := n
      rw [Node.cloneDeep_mk]
      exact readWithin_succ_iff.mpr ⟨_, hnew, hkind, rfl,
        slots_mono (fun _ _ => readWithin_mono ⟨_, rfl⟩ le_rfl) (forall₂_map_eq_iff.mp hreads)⟩

end Slots

/-- **Copying the tree below a cell** adds cells, of which its clone is read. -/
theorem cloneDeep?_copies {r : Ref} {n : Node} (h : st.read? r = some n) :
    ∃ root st', st.cloneDeep? r = some (root, st') ∧ st.Adds st' [root] ∧
      st'.read? root = some n.cloneDeep := by
  obtain ⟨root, st', hrun, hadds, hread⟩ := copyWithin_copies st st.cells.length h st (.refl st)
  have hle : st.cells.length ≤ st'.cells.length := hadds.grows.length_le
  exact ⟨root, st', hrun, hadds, readWithin_mono (.refl st') hle hread⟩

/-! ### Paths among new cells -/

/-- The numbers of the cells that a store has more than another. -/
def newRefs (st st' : Store) : List Ref :=
  List.range' st.cells.length (st'.cells.length - st.cells.length)

theorem mem_newRefs {x : Ref} (h : st.Grows st') :
    x ∈ newRefs st st' ↔ st.cells.length ≤ x ∧ x < st'.cells.length := by
  rw [newRefs, List.mem_range'_1, Nat.add_sub_cancel' h.length_le]

theorem Adds.perm (h : st.Adds st' roots) :
    (roots ++ (newRefs st st').flatMap st'.children).Perm (newRefs st st') := by
  obtain ⟨new, hnew, hperm⟩ := h
  have hrange : newRefs st st' = List.range' st.cells.length new.length := by
    rw [newRefs, hnew, List.length_append, Nat.add_sub_cancel_left]
  have hchildren : (newRefs st st').map st'.children = new.map Cell.children := by
    rw [hrange]
    refine List.ext_getElem (by simp) fun i hi hi' => ?_
    rw [List.length_map, List.length_range'] at hi
    have hcell : st'.cell? (st.cells.length + i) = some new[i] := by
      rw [cell?, hnew, List.getElem?_append_right (by omega), Nat.add_sub_cancel_left,
        List.getElem?_eq_getElem hi]
    rw [List.getElem_map, List.getElem_map, List.getElem_range', Nat.one_mul,
      children_of_cell hcell]
  rw [List.flatMap_def, hchildren, ← List.flatMap_def, hrange]
  exact hperm

variable {x y : Ref}

theorem mem_newRefs_of_mem_children (h : st.Grows st') (hx : st.cells.length ≤ x)
    (hy : y ∈ st'.children x) : x ∈ newRefs st st' := by
  obtain ⟨c, hc, -⟩ := exists_cell_of_mem_children hy
  exact (mem_newRefs h).mpr ⟨hx, lt_of_cell hc⟩

/-- New cells refer to new cells. -/
theorem Adds.child (h : st.Adds st' roots) (hx : st.cells.length ≤ x) (hy : y ∈ st'.children x) :
    y ∈ newRefs st st' :=
  h.perm.subset (List.mem_append_right _
    (List.mem_flatMap.mpr ⟨x, mem_newRefs_of_mem_children h.grows hx hy, hy⟩))

theorem Adds.root_mem (h : st.Adds st' roots) (hroot : root ∈ roots) : root ∈ newRefs st st' :=
  h.perm.subset (List.mem_append_left _ hroot)

theorem Adds.nodup (h : st.Adds st' roots) :
    (roots ++ (newRefs st st').flatMap st'.children).Nodup :=
  h.perm.nodup_iff.mpr List.nodup_range'

/-- No new cell refers to a root. -/
theorem Adds.root_notMem_children (h : st.Adds st' roots) (hroot : root ∈ roots)
    (hx : st.cells.length ≤ x) : root ∉ st'.children x := fun hmem =>
  (List.nodup_append.mp h.nodup).2.2 root hroot root
    (List.mem_flatMap.mpr ⟨x, mem_newRefs_of_mem_children h.grows hx hmem, hmem⟩) rfl

/-- New cells refer to each new cell in one way. -/
theorem Adds.parent_unique (h : st.Adds st' roots) (hx : st.cells.length ≤ x)
    (hy : st.cells.length ≤ y) {i j : Nat} {z : Ref} (hi : (st'.children x)[i]? = some z)
    (hj : (st'.children y)[j]? = some z) : x = y ∧ i = j := by
  obtain ⟨hnodup, hdisjoint⟩ := List.nodup_flatMap.mp (List.nodup_append.mp h.nodup).2.1
  have hx := mem_newRefs_of_mem_children h.grows hx (List.mem_of_getElem? hi)
  have hy := mem_newRefs_of_mem_children h.grows hy (List.mem_of_getElem? hj)
  have hxy : x = y := by
    by_contra hne
    have : Std.Symm (Function.onFun List.Disjoint st'.children) := ⟨fun _ _ h => h.symm⟩
    exact hdisjoint.forall hx hy hne (List.mem_of_getElem? hi) (List.mem_of_getElem? hj)
  subst hxy
  have hlt : i < (st'.children x).length := (List.getElem?_eq_some_iff.mp hi).1
  exact ⟨rfl, (List.getElem?_inj hlt (hnodup x hx)).mp (hi.trans hj.symm)⟩

/-- **Different paths in a copy** lead to different cells. -/
theorem Adds.follow?_injective (h : st.Adds st' [root]) : ∀ {path path' : List Nat} {x : Ref},
    st'.follow? path root = some x → st'.follow? path' root = some x → path = path' := by
  have hroot := ((mem_newRefs h.grows).mp (h.root_mem (List.mem_singleton.mpr rfl))).1
  have hnew : ∀ {path x}, st'.follow? path root = some x → st.cells.length ≤ x :=
    follow?_closed (R := (st.cells.length ≤ ·))
      (fun r hr x hx => ((mem_newRefs h.grows).mp (h.child hr hx)).1) hroot
  -- A path that is not empty does not come back to the root.
  have hback : ∀ {path i}, st'.follow? (path ++ [i]) root ≠ some root := by
    intro path i hroot'
    rw [follow?_concat] at hroot'
    obtain ⟨y, hy, hi⟩ := Option.bind_eq_some_iff.mp hroot'
    exact h.root_notMem_children (List.mem_singleton.mpr rfl) (hnew hy) (List.mem_of_getElem? hi)
  intro path
  induction path using List.reverseRecOn with
  | nil =>
    intro path' x hx hx'
    obtain rfl : root = x := Option.some.inj hx
    rcases List.eq_nil_or_concat path' with rfl | ⟨front, j, rfl⟩
    · rfl
    · exact absurd (List.concat_eq_append ▸ hx') hback
  | append_singleton path i ih =>
    intro path' x hx hx'
    rcases List.eq_nil_or_concat path' with rfl | ⟨front, j, rfl⟩
    · obtain rfl : root = x := Option.some.inj hx'
      exact absurd hx hback
    · rw [List.concat_eq_append] at hx' ⊢
      rw [follow?_concat] at hx hx'
      obtain ⟨y, hy, hi⟩ := Option.bind_eq_some_iff.mp hx
      obtain ⟨y', hy', hj⟩ := Option.bind_eq_some_iff.mp hx'
      obtain ⟨rfl, rfl⟩ := h.parent_unique (hnew hy) (hnew hy') hi hj
      rw [ih hy hy']

end Store

end QueryCheck.Syntax
