import Kanban.Proofs.Double.Zero
import Kanban.Proofs.Store.Order
import Kanban.Proofs.Tasks.Order
import Kanban.Reorder

/-!
# The order of a shown list

A shown list is sorted by the total order of all doubles and by id (`ReorderList.itemLe_iff`), so
sorting it again changes nothing (`ReorderList.sorted_of_pairwise`).  A sorted list need not ascend
strictly: it does so exactly if of any two keys one is smaller
(`ReorderList.ascending_iff_of_sorted`), and `ReorderList.needsRebalance` says that it does not.  A
stored item that takes the place of the shown one leaves the list sorted
(`ReorderList.pairwise_reconcile`), and one that is shown already moves nothing
(`ReorderList.reconcile_of_mem`).
-/

namespace Kanban

/-- Items of which a single key can be written. -/
class LawfulOrderable (α : Type) [Orderable α] : Prop where
  id_withKey (scope : Scope) (x : Double) (a : α) : Orderable.id (Orderable.withKey scope x a) =
    Orderable.id a
  key_withKey (scope : Scope) (x : Double) (a : α) : Orderable.key scope
    (Orderable.withKey scope x a) = x
  /-- A scope whose keys are not those of another scope is not written with it. -/
  key_withKey_of_ne (scope other : Scope) (h : ∃ a : α,
    Orderable.key other a ≠ Orderable.key scope a) (x : Double)
    (a : α) : Orderable.key other (Orderable.withKey scope x a) = Orderable.key other a

instance : LawfulOrderable Task where
  id_withKey scope x t := Task.id_withKey t scope x
  key_withKey scope x t := Task.key_withKey t scope x
  key_withKey_of_ne scope other h x t := by
    obtain ⟨u, hu⟩ := h
    cases scope <;> cases other
    · exact absurd rfl hu
    · rfl
    · rfl
    · exact absurd rfl hu

instance : LawfulOrderable Bucket where
  id_withKey _ _ _ := rfl
  key_withKey _ _ _ := rfl
  key_withKey_of_ne _ _ h := by
    obtain ⟨b, hb⟩ := h
    exact absurd rfl hb

namespace ReorderList

variable {α : Type} [Orderable α] {scope : Scope} {items : List α} {l : ReorderList α}
  {a b c stored : α}

/-! ### Sorted items -/

/-- Items are ordered by key, and those with the same key by id. -/
theorem itemLe_iff :
    itemLe scope a b = true ↔
      (Orderable.key scope a).rank < (Orderable.key scope b).rank ∨
        (Orderable.key scope a).rank = (Orderable.key scope b).rank ∧
        Orderable.id a ≤ Orderable.id b := by
  rw [itemLe, Double.totalCompare, Ordering.isLE_then_iff_or, compare_lt_iff_lt, compare_eq_iff_eq,
    Int.isLE_compare]

theorem itemLe_trans (hab : itemLe scope a b = true) (hbc : itemLe scope b c = true) :
    itemLe scope a c = true := by
  rw [itemLe_iff] at hab hbc ⊢
  omega

theorem itemLe_total (a b : α) : (itemLe scope a b || itemLe scope b a) = true := by
  rw [Bool.or_eq_true, itemLe_iff, itemLe_iff]
  omega

theorem sorted_perm (scope : Scope) (items : List α) : (sorted scope items).Perm items :=
  List.mergeSort_perm _ _

theorem pairwise_sorted (scope : Scope) (items : List α) :
    (sorted scope items).Pairwise fun a b => itemLe scope a b = true := by
  have htrans : ∀ a b c : α, itemLe scope a b = true → itemLe scope b c = true →
      itemLe scope a c = true :=
    fun _ _ _ => itemLe_trans
  exact List.pairwise_mergeSort htrans itemLe_total items

theorem sorted_of_pairwise (h : items.Pairwise fun a b => itemLe scope a b = true) :
    sorted scope items = items :=
  List.mergeSort_of_pairwise h

/-! ### Lists that ascend -/

/-- The first of two items has the smaller key. -/
def KeyLt (scope : Scope) (a b : α) : Prop := Orderable.key scope a < Orderable.key scope b

instance (scope : Scope) (a b : α) : Decidable (KeyLt scope a b) :=
  inferInstanceAs (Decidable (_ < _))

instance (scope : Scope) : Trans (KeyLt scope) (KeyLt scope) (KeyLt scope : α → α → Prop) :=
  ⟨Double.lt_trans⟩

/-- The keys of the list increase strictly. -/
def Ascending (l : ReorderList α) : Prop := l.items.Pairwise (KeyLt l.scope)

instance (l : ReorderList α) : Decidable l.Ascending :=
  inferInstanceAs (Decidable (List.Pairwise _ _))

/-- Of the keys of two items one is smaller. -/
def Apart (scope : Scope) (a b : α) : Prop := KeyLt scope a b ∨ KeyLt scope b a

instance (scope : Scope) (a b : α) : Decidable (Apart scope a b) :=
  inferInstanceAs (Decidable (_ ∨ _))

theorem Apart.symm (h : Apart scope a b) : Apart scope b a := Or.symm h

/-- An item with a smaller key comes first. -/
theorem itemLe_of_keyLt (h : KeyLt scope a b) :
    itemLe scope a b = true ∧ ¬itemLe scope b a = true := by
  have hrank := Double.rank_lt_of_lt h
  rw [itemLe_iff, itemLe_iff]
  omega

/-- It is enough that neighbors are strictly in order. -/
theorem needsRebalance_eq_false : l.needsRebalance = false ↔ l.Ascending := by
  obtain ⟨items, scope, tag⟩ := l
  show ((items.zip items.tail).any fun p => !decide (KeyLt scope p.1 p.2)) = false ↔
      items.Pairwise (KeyLt scope)
  rw [← List.isChain_iff_pairwise]
  induction items with
  | nil => simp
  | cons a items ih =>
    cases items with
    | nil => simp
    | cons b items =>
      rw [List.isChain_cons_cons, ← ih, List.tail_cons, List.zip_cons_cons, List.any_cons]
      simp

theorem Ascending.pairwise_itemLe (h : l.Ascending) :
    l.items.Pairwise fun a b => itemLe l.scope a b = true :=
  h.imp fun hlt => (itemLe_of_keyLt hlt).1

/-- A sorted list ascends exactly if its keys are apart. -/
theorem ascending_iff_of_sorted (hsorted : l.items.Pairwise fun a b => itemLe l.scope a b = true) :
    l.Ascending ↔ l.items.Pairwise (Apart l.scope) := by
  constructor
  · exact fun h => h.imp Or.inl
  · intro h
    refine h.imp₂ (fun a b hapart hle => ?_) hsorted
    rcases hapart with hlt | hgt
    · exact hlt
    · exact absurd hle (itemLe_of_keyLt hgt).2

/-! ### Moved items -/

theorem move_eq_some {l' : ReorderList α} {source target : Nat} {m : PendingMove} :
    l.move source target = some (m, l') ↔
      source ≠ target ∧ target < l.items.length ∧ ∃ item, l.items[source]? = some item ∧
        place { l with items := l.items.eraseIdx source } item target = (m, l') := by
  rw [move]
  split
  · simp only [reduceCtorEq, false_iff]
    omega
  · rw [Option.map_eq_some_iff]
    have hin : source ≠ target ∧ target < l.items.length := by omega
    simp only [hin.1, hin.2, ne_eq, not_false_eq_true, true_and]

theorem move_eq_none {source target : Nat} :
    l.move source target = none ↔
      source = target ∨ l.items.length ≤ source ∨ l.items.length ≤ target := by
  rw [move]
  split
  · simp only [true_iff]
    omega
  · rw [Option.map_eq_none_iff, List.getElem?_eq_none_iff]
    omega

/-- A moved item is placed among the others. -/
theorem place_of_move {l' : ReorderList α} {source target : Nat} {m : PendingMove}
    (h : l.move source target = some (m, l')) :
    ∃ item, l.items[source]? = some item ∧ target ≤ (l.items.eraseIdx source).length ∧
      place { l with items := l.items.eraseIdx source } item target = (m, l') := by
  obtain ⟨-, htarget, item, hitem, hplace⟩ := move_eq_some.1 h
  have hlength := List.length_eraseIdx_add_one (List.getElem?_eq_some_iff.1 hitem).1
  exact ⟨item, hitem, by omega, hplace⟩

/-! ### Stored items -/

/-- The place of an item is the place of its id. -/
theorem findIdx?_eq_some (hids : (l.items.map Orderable.id).Nodup) {j : Nat}
    (ha : l.items[j]? = some a) (hid : Orderable.id stored = Orderable.id a) :
    l.items.findIdx? (Orderable.id · == Orderable.id stored) = some j := by
  obtain ⟨hj, rfl⟩ := List.getElem?_eq_some_iff.1 ha
  rw [List.findIdx?_eq_some_iff_getElem]
  refine ⟨hj, by rw [hid, beq_self_eq_true], fun k hk heq => ?_⟩
  rw [hid, beq_iff_eq] at heq
  exact List.pairwise_iff_getElem.1 (List.pairwise_map.1 hids) k j (by omega) hj hk heq

/-- Reconciled items are the stored one and those with other ids, in order. -/
theorem reconcile_items (hids : (l.items.map Orderable.id).Nodup) (stored : α) :
    ∃ items, (l.reconcile stored).2 = { l with items := sorted l.scope items } ∧
      items.Perm (stored :: l.items.filter (Orderable.id · != Orderable.id stored)) := by
  cases hfind : l.items.findIdx? (Orderable.id · == Orderable.id stored) with
  | none =>
    refine ⟨l.items ++ [stored], by rw [reconcile, hfind], ?_⟩
    have hothers : l.items.filter (Orderable.id · != Orderable.id stored) = l.items := by
      rw [List.filter_eq_self]
      intro a ha
      rw [bne, List.findIdx?_eq_none_iff.1 hfind a ha, Bool.not_false]
    rw [hothers]
    exact List.perm_append_singleton stored l.items
  | some j =>
    refine ⟨l.items.set j stored, by rw [reconcile, hfind], ?_⟩
    obtain ⟨hj, hid, -⟩ := List.findIdx?_eq_some_iff_getElem.1 hfind
    rw [← beq_iff_eq.1 hid, ← eraseIdx_eq_filter hids (List.getElem?_eq_getElem hj)]
    exact List.set_perm_cons_eraseIdx hj stored

section

variable (hids : (l.items.map Orderable.id).Nodup) (stored : α)

include hids

theorem reconcile_perm :
    (l.reconcile stored).2.items.Perm
      (stored :: l.items.filter (Orderable.id · != Orderable.id stored)) := by
  obtain ⟨items, heq, hperm⟩ := reconcile_items hids stored
  rw [heq]
  exact (sorted_perm _ _).trans hperm

theorem scope_reconcile : (l.reconcile stored).2.scope = l.scope := by
  obtain ⟨items, heq, -⟩ := reconcile_items hids stored
  rw [heq]

theorem pairwise_reconcile :
    (l.reconcile stored).2.items.Pairwise fun a b => itemLe l.scope a b = true := by
  obtain ⟨items, heq, -⟩ := reconcile_items hids stored
  rw [heq]
  exact pairwise_sorted _ _

theorem nodup_reconcile : ((l.reconcile stored).2.items.map Orderable.id).Nodup := by
  rw [((reconcile_perm hids stored).map _).nodup_iff, List.map_cons, List.nodup_cons]
  refine ⟨fun hmem => ?_, hids.sublist (List.filter_sublist.map _)⟩
  obtain ⟨a, ha, heq⟩ := List.mem_map.1 hmem
  simpa [heq] using (List.mem_filter.1 ha).2

end

/-- In a sorted list an item takes its own place, and nothing moves. -/
theorem reconcile_of_mem (hids : (l.items.map Orderable.id).Nodup)
    (hsorted : l.items.Pairwise fun a b => itemLe l.scope a b = true) (h : stored ∈ l.items) :
    l.reconcile stored = (false, l) := by
  obtain ⟨j, hj, rfl⟩ := List.getElem_of_mem h
  have hfind := findIdx?_eq_some hids (List.getElem?_eq_getElem hj) rfl
  simp only [reconcile, hfind, List.set_getElem_self, sorted_of_pairwise hsorted,
    List.getElem?_eq_getElem hj]
  simp

/-- The same answer twice is the same as once. -/
theorem reconcile_reconcile (hids : (l.items.map Orderable.id).Nodup) (stored : α) :
    (l.reconcile stored).2.reconcile stored = (false, (l.reconcile stored).2) := by
  refine reconcile_of_mem (nodup_reconcile hids stored) ?_ ?_
  · rw [scope_reconcile hids stored]
    exact pairwise_reconcile hids stored
  · exact (reconcile_perm hids stored).mem_iff.2 List.mem_cons_self

/-- After an answer a list that ascended does so again exactly if the key of the stored item is
apart from the others. -/
theorem ascending_reconcile_iff (hids : (l.items.map Orderable.id).Nodup) (h : l.Ascending) :
    (l.reconcile stored).2.Ascending ↔
      ∀ a ∈ l.items, Orderable.id a ≠ Orderable.id stored → Apart l.scope stored a := by
  have hscope := scope_reconcile hids stored
  have hothers : (l.items.filter (Orderable.id · != Orderable.id stored)).Pairwise
      (Apart l.scope) :=
    (h.imp Or.inl).filter _
  rw [ascending_iff_of_sorted (by rw [hscope]; exact pairwise_reconcile hids stored), hscope,
    (reconcile_perm hids stored).pairwise_iff Apart.symm, List.pairwise_cons, and_iff_left hothers]
  simp only [List.mem_filter, bne_iff_ne, ne_eq, and_imp]

end ReorderList

end Kanban
