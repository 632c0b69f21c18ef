import QueryCheck.Proofs.Syntax.Copied

/-! # Copies that stand apart

The cells of a store are split when none refers to one of the other part. A change made through a
slot touches one cell of the part the slot leads to, so what is read in either part depends on the
changes made in this part alone, whatever changes are made in between in the other. A copy is split
from all that was there before.

* `Store.Splits`, `Store.Agrees`: split stores, and stores that have the same cells in one part.
* `Shelf.run_agrees`: leaving out the changes of one part does not show in the other.
* `Shelf.run_of_clone`: a copy in a slot and all other slots are changed apart.
* `Shelf.clone_independent`: what is copied, and that changes do not meet. -/

namespace QueryCheck.Syntax

/-! ### Changes of a cell -/

/-- A cell after a change, if it can be made. -/
def Cell.edit? (c : Cell) : Edit → Option Cell
  | .setText text =>
    match c.slots with
    | .text _ :: ss => some { c with slots := .text text :: ss }
    | _ => none
  | .dropLast =>
    match c.slots with
    | [.many (x :: xs)] => some { c with slots := [.many (x :: xs).dropLast] }
    | _ => none

/-- A changed cell refers to nothing that it did not refer to before. -/
theorem Cell.children_edit? {c c' : Cell} {e : Edit} (h : c.edit? e = some c') :
    ∀ x ∈ c'.children, x ∈ c.children := by
  cases e with
  | setText text =>
    rw [edit?] at h
    split at h
    · next s ss hss =>
      obtain rfl := Option.some.inj h
      intro x hx
      rw [children, List.flatMap_cons] at hx
      rw [children, hss, List.flatMap_cons]
      exact hx
    · cases h
  | dropLast =>
    rw [edit?] at h
    split at h
    · next y ys hslots =>
      obtain rfl := Option.some.inj h
      intro x hx
      rw [children, List.flatMap_singleton, Slot.children, List.mem_filterMap] at hx
      obtain ⟨a, ha, hx⟩ := hx
      rw [children, hslots, List.flatMap_singleton, Slot.children, List.mem_filterMap]
      exact ⟨a, List.mem_of_mem_dropLast ha, hx⟩
    · cases h

namespace Store

variable {st st' : Store} {r x : Ref}

/-- A change in place is a change of one cell. -/
theorem edit?_eq (st : Store) (r : Ref) (e : Edit) :
    st.edit? r e = (st.cell? r).bind fun c => (c.edit? e).map (st.put r) := by
  cases e with
  | setText text =>
    rw [edit?, setText?]
    refine congrArg _ (funext fun c => ?_)
    obtain ⟨k, ss, l⟩ := c
    rcases ss with _ | ⟨_ | _ | _ | _, ss⟩ <;> rfl
  | dropLast =>
    rw [edit?, dropLast?]
    refine congrArg _ (funext fun c => ?_)
    obtain ⟨k, ss, l⟩ := c
    rcases ss with _ | ⟨_ | _ | _ | (_ | _), _ | _⟩ <;> rfl

@[simp] theorem length_put (c : Cell) : (st.put r c).cells.length = st.cells.length :=
  List.length_set

theorem cell?_put_ne {c : Cell} (h : x ≠ r) : (st.put r c).cell? x = st.cell? x :=
  List.getElem?_set_ne h.symm

theorem cell?_put_self {c : Cell} (h : r < st.cells.length) : (st.put r c).cell? r = some c :=
  List.getElem?_set_self h

/-! ### Parts of a store -/

/-- A store is split when no cell refers to one of the other part. -/
def Splits (R : Ref → Prop) (st : Store) : Prop := ∀ r, ∀ x ∈ st.children r, (R x ↔ R r)

/-- Two stores agree on a part when they have the same cells in it, and equally many in all. -/
structure Agrees (R : Ref → Prop) (st st' : Store) : Prop where
  length : st'.cells.length = st.cells.length
  cell : ∀ r, R r → st'.cell? r = st.cell? r

variable {R : Ref → Prop}

theorem Splits.compl (h : st.Splits R) : st.Splits fun r => ¬R r := fun r x hx =>
  not_congr (h r x hx)

theorem Splits.follow? (h : st.Splits R) {path : List Nat} (hx : st.follow? path r = some x) :
    R x ↔ R r :=
  follow?_closed (R := fun y => R y ↔ R r) (fun y hy z hz => (h y z hz).trans hy) Iff.rfl hx

/-- A store stays split when a cell is replaced by one that refers to no others. -/
theorem Splits.put (h : st.Splits R) {c c' : Cell} (hc : st.cell? r = some c)
    (hc' : ∀ x ∈ c'.children, x ∈ c.children) : (st.put r c').Splits R := by
  intro y x hx
  refine h y x ?_
  by_cases hy : y = r
  · subst hy
    rw [children_of_cell (cell?_put_self (lt_of_cell hc))] at hx
    rw [children_of_cell hc]
    exact hc' x hx
  · rwa [children, cell?_put_ne hy] at hx

theorem Agrees.refl (R : Ref → Prop) (st : Store) : Agrees R st st := ⟨rfl, fun _ _ => rfl⟩

theorem Agrees.trans {st'' : Store} (h : Agrees R st st') (h' : Agrees R st' st'') :
    Agrees R st st'' :=
  ⟨h'.length.trans h.length, fun r hr => (h'.cell r hr).trans (h.cell r hr)⟩

theorem Agrees.symm (h : Agrees R st st') : Agrees R st' st :=
  ⟨h.length.symm, fun r hr => (h.cell r hr).symm⟩

/-- Replacing a cell of the other part does not show. -/
theorem Agrees.put_outside (hr : ¬R r) (c : Cell) : Agrees R st (st.put r c) :=
  ⟨length_put c, fun _ hx => cell?_put_ne fun heq => hr (heq ▸ hx)⟩

/-- Replacing a cell by the same leaves stores in agreement. -/
theorem Agrees.put (h : Agrees R st st') (r : Ref) (c : Cell) :
    Agrees R (st.put r c) (st'.put r c) := by
  refine ⟨by rw [length_put, length_put, h.length], fun x hx => ?_⟩
  by_cases heq : x = r
  · subst heq
    by_cases hlt : x < st.cells.length
    · rw [cell?_put_self hlt, cell?_put_self (h.length ▸ hlt)]
    · rw [cell?_eq_none_iff.mpr (by rw [length_put, h.length]; exact Nat.le_of_not_lt hlt),
        cell?_eq_none_iff.mpr (by rw [length_put]; exact Nat.le_of_not_lt hlt)]
  · rw [cell?_put_ne heq, cell?_put_ne heq, h.cell x hx]

theorem Agrees.children (h : Agrees R st st') (hr : R r) : st'.children r = st.children r := by
  rw [Store.children, h.cell r hr, Store.children]

/-- Paths in a part are the same in stores that agree on it. -/
theorem Agrees.follow? (h : Agrees R st st') (hsplit : st.Splits R) : ∀ {path : List Nat} {r : Ref},
    R r → st'.follow? path r = st.follow? path r
  | [], _, _ => rfl
  | i :: is, r, hr => by
    rw [Store.follow?, Store.follow?, h.children hr]
    cases hx : (st.children r)[i]? with
    | none => rfl
    | some x => exact h.follow? hsplit ((hsplit r x (List.mem_of_getElem? hx)).mpr hr)

/-- **What is read in a part** is the same in stores that agree on it. -/
theorem Agrees.readWithin (h : Agrees R st st') (hsplit : st.Splits R) : ∀ {depth : Nat} {r : Ref},
    R r → st'.readWithin depth r = st.readWithin depth r
  | 0, _, _ => rfl
  | depth + 1, r, hr => by
    refine Option.ext fun n => ?_
    rw [readWithin_succ_iff, readWithin_succ_iff, h.cell r hr]
    refine exists_congr fun c => and_congr_right fun hc => ?_
    have hslots : c.slots.map (Slot.map (st'.readWithin depth)) =
        c.slots.map (Slot.map (st.readWithin depth)) :=
      Slot.map_map_congr fun x hx => h.readWithin hsplit
        ((hsplit r x (children_of_cell hc ▸ hx)).mpr hr)
    rw [hslots]

theorem Agrees.read? (h : Agrees R st st') (hsplit : st.Splits R) (hr : R r) :
    st'.read? r = st.read? r := by
  rw [Store.read?, h.length, h.readWithin hsplit hr, Store.read?]

end Store

/-! ### Changes of a shelf -/

namespace Shelf

open Store

variable {s t : Shelf} {R : Ref → Prop}

/-- A shelf after a change, or as it was if the change cannot be made. -/
def changed (s : Shelf) (c : Change) : Shelf := (s.change? c).getD s

theorem run_cons (s : Shelf) (c : Change) (changes : List Change) :
    s.run (c :: changes) = (s.changed c).run changes := rfl

theorem changed_slots (s : Shelf) (c : Change) : (s.changed c).slots = s.slots := by
  rw [changed, change?]
  cases s.place? c.slot c.path with
  | none => rfl
  | some r =>
    cases hedit : s.store.edit? r c.edit <;> simp [hedit]

theorem run_slots : ∀ (changes : List Change) (s : Shelf), (s.run changes).slots = s.slots
  | [], _ => rfl
  | c :: changes, s => by rw [run_cons, run_slots changes, changed_slots]

/-- What a change does to the store. -/
theorem changed_store (s : Shelf) (c : Change) : (s.changed c).store =
    ((s.place? c.slot c.path).bind fun r => (s.store.cell? r).bind fun d =>
      (d.edit? c.edit).map (s.store.put r)).getD s.store := by
  rw [changed, change?]
  cases s.place? c.slot c.path with
  | none => rfl
  | some r =>
    rw [Option.bind_some, ← edit?_eq]
    cases hedit : s.store.edit? r c.edit <;> simp [hedit]

/-- A change replaces a cell or does nothing. -/
theorem changed_cases (s : Shelf) (c : Change) : (s.changed c).store = s.store ∨
    ∃ r d d', s.place? c.slot c.path = some r ∧ s.store.cell? r = some d ∧
      d.edit? c.edit = some d' ∧ (s.changed c).store = s.store.put r d' := by
  rw [changed_store]
  cases hplace : s.place? c.slot c.path with
  | none => exact .inl rfl
  | some r =>
    cases hd : s.store.cell? r with
    | none => exact .inl (by simp [hd])
    | some d =>
      cases hd' : d.edit? c.edit with
      | none => exact .inl (by simp [hd, hd'])
      | some d' => exact .inr ⟨r, d, d', rfl, hd, hd', by simp [hd, hd']⟩

/-- **A change** leaves a store split. -/
theorem changed_splits (h : s.store.Splits R) (c : Change) : (s.changed c).store.Splits R := by
  rcases s.changed_cases c with hsame | ⟨r, d, d', -, hd, hd', hchanged⟩
  · rwa [hsame]
  · rw [hchanged]
    exact h.put hd (Cell.children_edit? hd')

/-- Whether a slot leads to a part, if it leads anywhere. -/
def LeadsTo (s : Shelf) (slot : String) (R : Ref → Prop) : Prop :=
  ∀ r, s.slots.lookup slot = some r → R r

theorem place?_part (hsplit : s.store.Splits R) {slot : String} (hslot : s.LeadsTo slot R)
    {path : List Nat} {r : Ref} (h : s.place? slot path = some r) : R r := by
  obtain ⟨root, hroot, hr⟩ := Option.bind_eq_some_iff.mp h
  exact (hsplit.follow? hr).mpr (hslot root hroot)

/-- Places in a part are the same in shelves that agree on it. -/
theorem place?_agrees (hslots : t.slots = s.slots) (hsplit : s.store.Splits R)
    (hagrees : Agrees R s.store t.store) {slot : String} (hslot : s.LeadsTo slot R)
    (path : List Nat) : t.place? slot path = s.place? slot path := by
  rw [place?, place?, hslots]
  cases hroot : s.slots.lookup slot with
  | none => rfl
  | some root => exact hagrees.follow? hsplit (hslot root hroot)

/-- **A change in the other part** leaves this part as it is. -/
theorem changed_outside {c : Change} (hsplit : s.store.Splits R)
    (hslot : s.LeadsTo c.slot fun r => ¬R r) : Agrees R s.store (s.changed c).store := by
  rcases s.changed_cases c with hsame | ⟨r, d, d', hplace, -, -, hchanged⟩
  · rw [hsame]
    exact .refl R s.store
  · rw [hchanged]
    exact .put_outside (place?_part hsplit.compl hslot hplace) d'

/-- **A change in a part** is the same in shelves that agree on it. -/
theorem changed_inside {c : Change} (hslots : t.slots = s.slots) (hsplit : s.store.Splits R)
    (hagrees : Agrees R s.store t.store) (hslot : s.LeadsTo c.slot R) :
    Agrees R (s.changed c).store (t.changed c).store := by
  rw [changed_store, changed_store, place?_agrees hslots hsplit hagrees hslot]
  cases hplace : s.place? c.slot c.path with
  | none => exact hagrees
  | some r =>
    rw [Option.bind_some, Option.bind_some, hagrees.cell r (place?_part hsplit hslot hplace)]
    cases s.store.cell? r with
    | none => exact hagrees
    | some d =>
      rw [Option.bind_some, Option.bind_some]
      cases d.edit? c.edit with
      | none => exact hagrees
      | some d' => exact hagrees.put r d'

/-- **A run of changes**: leaving out those made in the other part does not show in this part. -/
theorem run_agrees {mine : String → Bool} : ∀ (changes : List Change) {s t : Shelf},
    t.slots = s.slots → s.store.Splits R → Agrees R s.store t.store →
    (∀ slot, s.LeadsTo slot fun r => R r ↔ mine slot = true) →
    Agrees R (s.run changes).store (t.run (changes.filter fun c => mine c.slot)).store
  | [], _, _, _, _, hagrees, _ => hagrees
  | c :: changes, s, t, hslots, hsplit, hagrees, hmine => by
    have hmine' : ∀ slot, (s.changed c).LeadsTo slot fun r => R r ↔ mine slot = true := by
      unfold LeadsTo at hmine ⊢
      rwa [changed_slots]
    rw [run_cons, List.filter_cons]
    by_cases hc : mine c.slot = true
    · have hslot : s.LeadsTo c.slot R := fun r hr => (hmine c.slot r hr).mpr hc
      rw [if_pos hc, run_cons]
      exact run_agrees changes (by rw [changed_slots, changed_slots, hslots])
        (changed_splits hsplit c) (changed_inside hslots hsplit hagrees hslot) hmine'
    · have hslot : s.LeadsTo c.slot fun r => ¬R r := fun r hr h => hc ((hmine c.slot r hr).mp h)
      rw [if_neg hc]
      exact run_agrees changes (by rw [changed_slots, hslots]) (changed_splits hsplit c)
        ((changed_outside hsplit hslot).symm.trans hagrees) hmine'

theorem run_splits : ∀ (changes : List Change) {s : Shelf}, s.store.Splits R →
    (s.run changes).store.Splits R
  | [], _, h => h
  | c :: changes, s, h => by
    rw [run_cons]
    exact run_splits changes (changed_splits h c)

theorem node?_nil (s : Shelf) (slot : String) :
    s.node? slot [] = (s.slots.lookup slot).bind s.store.read? := by
  rw [node?, place?]
  cases s.slots.lookup slot <;> rfl

/-- **What a slot holds** after a run of changes depends on those made in its part only. -/
theorem node?_run (mine : String → Bool) (hsplit : s.store.Splits R)
    (hmine : ∀ slot, s.LeadsTo slot fun r => R r ↔ mine slot = true) (changes : List Change)
    {slot : String} (hslot : mine slot = true) :
    (s.run changes).node? slot [] = (s.run (changes.filter fun c => mine c.slot)).node? slot [] := by
  have hagrees := run_agrees changes rfl hsplit (.refl R s.store) hmine
  rw [node?_nil, node?_nil, run_slots, run_slots]
  cases hr : s.slots.lookup slot with
  | none => rfl
  | some r => exact (hagrees.read? (run_splits changes hsplit) ((hmine slot r hr).mpr hslot)).symm

/-! ### Copies -/

/-- **Shelves without cycles**, whose slots hold cells. -/
structure Sound (s : Shelf) : Prop where
  store : s.store.Sound
  slots : ∀ slot, s.LeadsTo slot (· < s.store.cells.length)

theorem Sound.place_lt (hs : s.Sound) {slot : String} {path : List Nat} {r : Ref}
    (hr : s.place? slot path = some r) : r < s.store.cells.length := by
  obtain ⟨top, htop, hr⟩ := Option.bind_eq_some_iff.mp hr
  exact follow?_closed (R := (· < s.store.cells.length)) (fun y _ => hs.store.inside y)
    (hs.slots slot top htop) hr

/-- A store that has grown by a copy is split between old and new cells. -/
theorem splits_of_adds {st st' : Store} {roots : List Ref} (hst : st.Sound)
    (h : st.Adds st' roots) : st'.Splits (st.cells.length ≤ ·) := by
  intro r x hx
  by_cases hr : st.cells.length ≤ r
  · exact iff_of_true ((mem_newRefs h.grows).mp (h.child hr hx)).1 hr
  · obtain ⟨c, hc⟩ := exists_cell (Nat.lt_of_not_le hr)
    rw [children_of_cell (h.grows.cell? hc), ← children_of_cell hc] at hx
    exact iff_of_false (Nat.not_le_of_lt (hst.inside r x hx)) hr

/-- Slots that are or are not the one with the copy lead to new or old cells. -/
theorem keep_leadsTo (hs : s.Sound) {st : Store} {root : Ref} (h : s.store.Adds st [root])
    (into slot : String) : (s.keep into (root, st)).LeadsTo slot fun r =>
      s.store.cells.length ≤ r ↔ (slot == into) = true := by
  intro r hr
  rw [keep, List.lookup_cons] at hr
  cases hslot : slot == into with
  | true =>
    rw [hslot] at hr
    obtain rfl := Option.some.inj hr
    exact iff_of_true ((mem_newRefs h.grows).mp (h.root_mem (List.mem_singleton.mpr rfl))).1 rfl
  | false =>
    rw [hslot] at hr
    exact iff_of_false (Nat.not_le_of_lt (hs.slots slot r hr)) Bool.false_ne_true

/-- **A copy and what it was made of are changed apart.** What a slot holds after a run of changes
depends on the changes made through the slot with the copy if it is this slot, and on the others if
not. -/
theorem run_of_clone (hs : s.Sound) {st : Store} {root : Ref} (h : s.store.Adds st [root])
    (into : String) (changes : List Change) (slot : String) :
    ((s.keep into (root, st)).run changes).node? slot [] =
      ((s.keep into (root, st)).run
        (changes.filter fun c => (c.slot == into) == (slot == into))).node? slot [] := by
  refine node?_run (R := fun r => s.store.cells.length ≤ r ↔ (slot == into) = true)
    (fun other => (other == into) == (slot == into)) ?_ ?_ changes (beq_self_eq_true _)
  · exact fun r x hx => iff_congr (splits_of_adds hs.store h r x hx) Iff.rfl
  · intro other r hr
    have hnew : s.store.cells.length ≤ r ↔ (other == into) = true := keep_leadsTo hs h into other r hr
    rw [hnew, ← Bool.eq_iff_iff, beq_iff_eq]

/-- Changes made apart from a slot leave what it holds. -/
theorem node?_run_apart (hs : s.Sound) {st : Store} {root : Ref} (h : s.store.Adds st [root])
    {into slot : String} {changes : List Change}
    (hchanges : ∀ c ∈ changes, ¬(c.slot = into ↔ slot = into)) :
    ((s.keep into (root, st)).run changes).node? slot [] =
      (s.keep into (root, st)).node? slot [] := by
  have hnone : changes.filter (fun c => (c.slot == into) == (slot == into)) = [] := by
    refine List.filter_eq_nil_iff.mpr fun c hc => ?_
    rw [beq_iff_eq, Bool.eq_iff_iff, beq_iff_eq, beq_iff_eq]
    exact hchanges c hc
  rw [run_of_clone hs h, hnone]
  rfl

/-- Filling a slot with a copy leaves what the other slots hold. -/
theorem node?_keep_other (hs : s.Sound) {st : Store} (root : Ref) (h : s.store.Grows st)
    {into other : String} (hother : other ≠ into) {r : Ref} (hr : s.slots.lookup other = some r) :
    ∃ n, s.node? other [] = some n ∧ (s.keep into (root, st)).node? other [] = some n := by
  obtain ⟨n, hn⟩ := hs.store.exists_read? (hs.slots other r hr)
  have hlookup : (s.keep into (root, st)).slots.lookup other = some r := by
    rw [keep, List.lookup_cons, beq_eq_false_iff_ne.mpr hother]
    exact hr
  refine ⟨n, by rw [node?_nil, hr, Option.bind_some, hn], ?_⟩
  rw [node?_nil, hlookup, Option.bind_some]
  exact readWithin_mono h h.length_le hn

/-- **A copy is independent.** In a shelf without cycles every node can be copied into a slot, which
then holds its clone. Changes through this slot leave the structured forms of all others, changes
through others leave that of the copy, and no two paths in the copy lead to one cell. -/
theorem clone_independent (s : Shelf) (slot : String) (path : List Nat) (into : String) {r : Ref}
    (hs : s.Sound) (hr : s.place? slot path = some r) :
    ∃ s', s.clone? slot path into = some s' ∧
      (∃ n, s.node? slot path = some n ∧ s'.node? into [] = some n.cloneDeep ∧
        ∀ changes : List Change, (∀ c ∈ changes, c.slot ≠ into) →
          (s'.run changes).structured? into = some n.cloneDeep.structured) ∧
      (∀ other ≠ into, ∀ x, s.slots.lookup other = some x →
        ∃ v, s.structured? other = some v ∧ s'.structured? other = some v ∧
          ∀ changes : List Change, (∀ c ∈ changes, c.slot = into) →
            (s'.run changes).structured? other = some v) ∧
      ∀ way way' x, s'.place? into way = some x → s'.place? into way' = some x → way = way' := by
  obtain ⟨n, hn⟩ := hs.store.exists_read? (hs.place_lt hr)
  obtain ⟨root, st, hclone, hadds, hread⟩ := cloneDeep?_copies hn
  have hinto : (s.keep into (root, st)).slots.lookup into = some root := by
    rw [keep, List.lookup_cons, beq_self_eq_true]
  have hcopy : (s.keep into (root, st)).node? into [] = some n.cloneDeep := by
    rw [node?_nil, hinto, Option.bind_some]
    exact hread
  refine ⟨s.keep into (root, st), by simp [clone?, hr, hclone], ⟨n, ?_, hcopy, ?_⟩, ?_, ?_⟩
  · rw [node?, hr, Option.bind_some, hn]
  · intro changes hchanges
    rw [structured?, node?_run_apart hs hadds fun c hc h => hchanges c hc (h.mpr rfl), hcopy]
    rfl
  · intro other hother x hx
    obtain ⟨m, hm, hm'⟩ := node?_keep_other hs root hadds.grows hother hx
    refine ⟨m.structured, by rw [structured?, hm]; rfl, by rw [structured?, hm']; rfl, ?_⟩
    intro changes hchanges
    rw [structured?, node?_run_apart hs hadds fun c hc h => hother (h.mp (hchanges c hc)), hm']
    rfl
  · intro way way' x hx hx'
    rw [place?, hinto, Option.bind_some] at hx hx'
    exact hadds.follow?_injective hx hx'

/-- A shelf with a selection set in which one field stands twice; the field is in a slot, too. -/
def sharing : Shelf where
  store := ⟨[⟨.name, [.text "a"], some ⟨2, 3, 1, 3, .document⟩⟩,
    ⟨.field, [.one .absent, .one (.node 0), .many [], .many [], .one .absent], none⟩,
    ⟨.selectionSet, [.many [.node 1, .node 1]], none⟩]⟩
  slots := [("all", 2), ("one", 1)]

theorem sharing_sound : sharing.Sound := by
  refine ⟨Store.Sound.of_descending (by decide), fun slot r hr => ?_⟩
  obtain ⟨before, after, hslots, -⟩ := List.lookup_eq_some_iff.mp hr
  have hmem : (slot, r) ∈ sharing.slots := by rw [hslots]; simp
  exact (by decide : ∀ p ∈ sharing.slots, p.2 < sharing.store.cells.length) _ hmem

/-- In the copy of the selection set the field stands in two cells, and changes of the copy show
neither in the selection set nor in the field. -/
theorem clone_independent_sharing : sharing.Sound ∧ sharing.place? "all" [] = some 2 ∧
    sharing.place? "all" [0] = sharing.place? "all" [1] ∧
    ∃ s', sharing.clone? "all" [] "copy" = some s' ∧
      (∀ x, s'.place? "copy" [0] = some x → s'.place? "copy" [1] ≠ some x) ∧
      ∀ slot ∈ ["all", "one"], ∃ v, sharing.structured? slot = some v ∧
        (s'.run [⟨"copy", [0, 0], .setText "b"⟩, ⟨"copy", [], .dropLast⟩]).structured? slot =
          some v := by
  refine ⟨sharing_sound, rfl, rfl, ?_⟩
  obtain ⟨s', hs', -, hothers, hpaths⟩ :=
    clone_independent sharing "all" [] "copy" sharing_sound rfl
  have hkept : ∀ slot ≠ "copy", ∀ x, sharing.slots.lookup slot = some x →
      ∃ v, sharing.structured? slot = some v ∧
        (s'.run [⟨"copy", [0, 0], .setText "b"⟩, ⟨"copy", [], .dropLast⟩]).structured? slot =
          some v := by
    intro slot hslot x hx
    obtain ⟨v, hv, -, hrun⟩ := hothers slot hslot x hx
    exact ⟨v, hv, hrun _ (by decide)⟩
  refine ⟨s', hs', fun x hx hx' => ?_, fun slot hslot => ?_⟩
  · have hsame := hpaths _ _ _ hx hx'
    simp at hsame
  · rcases List.mem_cons.mp hslot with rfl | hslot
    · exact hkept "all" (by decide) 2 rfl
    · obtain rfl := List.mem_singleton.mp hslot
      exact hkept "one" (by decide) 1 rfl

end Shelf

end QueryCheck.Syntax
