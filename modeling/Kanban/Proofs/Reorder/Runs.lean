import Kanban.Proofs.Position.Finite
import Kanban.Proofs.Reorder.Items
import Kanban.Proofs.Tasks.Arrangement

/-!
# Runs on a shown list

Whatever is done to a shown list, one change after the other (`ReorderList.Run`), its items stay
different and every change does what it should (`ReorderList.run_sound`): a moved or inserted item
stands at its index among the others, which keep their order, and the pending move names the items
around it (`ReorderList.place_putAt`).  In a list that ascends, the pending move tells whether the
list still does (`ReorderList.needsRebalance_place`), since a key that is strictly between its
neighbors is finite.  So a list goes on ascending as long as moves leave room and stored keys are
apart from the others (`ReorderList.ascending_change_iff`); the second condition is needed
(`ReorderList.run_level`), as the list takes over whatever key is stored.
-/

namespace Kanban

/-- What is done to a shown list. -/
inductive Change (α : Type) where
  | move (source target : Nat)
  | insert (item : α) (index : Nat)
  | remove (id : Int)
  | reconcile (stored : α)

namespace ReorderList

open Store (mem_of_itemBefore)

variable {α : Type} [Orderable α] {l l' : ReorderList α} {item : α} {j source target : Nat}
  {m : PendingMove}

/-! ### Runs -/

/-- The list after a change; one that cannot be made changes nothing. -/
def change (l : ReorderList α) : Change α → ReorderList α
  | .move source target => ((l.move source target).map Prod.snd).getD l
  | .insert item index => (l.insert item index).2
  | .remove id => ((l.remove id).map Prod.snd).getD l
  | .reconcile stored => (l.reconcile stored).2

/-- The move that is to be stored after a change. -/
def pending (l : ReorderList α) : Change α → Option PendingMove
  | .move source target => (l.move source target).map Prod.fst
  | .insert item index => some (l.insert item index).1
  | .remove _ => none
  | .reconcile _ => none

/-- Only new items are inserted. -/
def Admits (l : ReorderList α) : Change α → Prop
  | .insert item _ => Orderable.id item ∉ l.items.map Orderable.id
  | _ => True

/-- The neighbors of a moved item leave room for it. -/
def LeavesRoom (l : ReorderList α) (c : Change α) : Prop :=
  ∀ m ∈ l.pending c, m.needsRebalance = false

/-- The key of a stored item is apart from those of the other items. -/
def KeepsApart (l : ReorderList α) : Change α → Prop
  | .reconcile stored => ∀ a ∈ l.items, Orderable.id a ≠ Orderable.id stored →
      Apart l.scope stored a
  | _ => True

/-- The lists that come out of a list by changes of some kind. -/
inductive Run (allowed : ReorderList α → Change α → Prop) (l : ReorderList α) : ReorderList α →
    Prop where
  | start : Run allowed l l
  | next {l' : ReorderList α} {c : Change α} (hrun : Run allowed l l')
      (hc : allowed l' c) : Run allowed l (l'.change c)

/-- The item has been put at an index of the others, and the pending move says so. -/
structure PutAt (others : List α) (item : α) (j : Nat) (m : PendingMove)
    (l : ReorderList α) : Prop where
  placed : l.items[j]? = some (Orderable.withKey l.scope m.position item)
  rest : l.items.eraseIdx j = others
  id : m.id = Orderable.id item
  before : m.before = (itemBefore l.items j).map Orderable.id
  after : m.after = l.items[j + 1]?.map Orderable.id
  bucket : m.bucketId = l.bucketId
  scope : m.scope = l.scope

/-! ### Placing an item -/

theorem place_putAt (item : α) (hj : j ≤ l.items.length) :
    PutAt l.items item j (l.place item j).1 (l.place item j).2 where
  placed := by
    show (l.items.insertIdx j _)[j]? = _
    rw [List.getElem?_insertIdx_self, if_pos hj]
    rfl
  rest := List.eraseIdx_insertIdx_self _
  id := rfl
  before := by
    show (itemBefore l.items j).map Orderable.id =
        (itemBefore (l.items.insertIdx j _) j).map Orderable.id
    unfold itemBefore
    split
    · rfl
    · rw [List.getElem?_insertIdx_of_lt (by omega)]
  after := by
    show l.items[j]?.map Orderable.id = (l.items.insertIdx j _)[j + 1]?.map Orderable.id
    rw [List.getElem?_insertIdx_of_gt (by omega), Nat.add_sub_cancel]
  bucket := rfl
  scope := rfl

/-- Placing an item adds it to what does not depend on its key. -/
theorem map_place_perm {β : Type} {f : α → β} (hf : ∀ x a, f (Orderable.withKey l.scope x a) = f a)
    (item : α) (hj : j ≤ l.items.length) :
    ((l.place item j).2.items.map f).Perm (f item :: l.items.map f) := by
  rw [← hf (l.place item j).1.position item, ← List.map_cons]
  exact (List.perm_insertIdx _ _ hj).map f

/-! ### Moved items -/

section

variable (hmove : l.move source target = some (m, l'))

include hmove

theorem move_putAt :
    ∃ item, l.items[source]? = some item ∧ PutAt (l.items.eraseIdx source) item target m l' := by
  obtain ⟨item, hitem, htarget, hplace⟩ := place_of_move hmove
  have hput := place_putAt (l := { l with items := l.items.eraseIdx source }) item htarget
  rw [hplace] at hput
  exact ⟨item, hitem, hput⟩

/-- A move neither adds nor takes away what does not depend on the key. -/
theorem map_move_perm {β : Type} {f : α → β} (hf : ∀ x a, f (Orderable.withKey l.scope x a) = f a) :
    (l'.items.map f).Perm (l.items.map f) := by
  obtain ⟨item, hitem, htarget, hplace⟩ := place_of_move hmove
  obtain ⟨hsource, rfl⟩ := List.getElem?_eq_some_iff.1 hitem
  have hperm :=
    map_place_perm (l := { l with items := l.items.eraseIdx source }) hf l.items[source] htarget
  rw [hplace, ← List.map_cons] at hperm
  exact hperm.trans ((List.getElem_cons_eraseIdx_perm hsource).map f)

end

/-! ### Removed items -/

theorem remove_eq_none {id : Int} : l.remove id = none ↔ id ∉ l.items.map Orderable.id := by
  rw [remove, Option.map_eq_none_iff, List.find?_eq_none]
  simp

theorem remove_eq_some {id : Int} (h : l.remove id = some (item, l')) :
    ∃ j : Nat, l.items[j]? = some item ∧ Orderable.id item = id ∧
    l' = { l with items := l.items.eraseIdx j } := by
  obtain ⟨found, hfind, heq⟩ := Option.map_eq_some_iff.1 h
  obtain ⟨rfl, rfl⟩ := Prod.mk.inj heq
  rw [List.find?_eq_some_iff_getElem] at hfind
  obtain ⟨hid, j, hj, hitem, hfirst⟩ := hfind
  have hindex : l.items.findIdx? (Orderable.id · == id) = some j := by
    rw [List.findIdx?_eq_some_iff_getElem]
    exact ⟨hj, hitem ▸ hid, fun k hk => by simpa using hfirst k hk⟩
  refine ⟨j, by rw [List.getElem?_eq_getElem hj, hitem], by simpa using hid, ?_⟩
  rw [List.eraseP_eq_eraseIdx, hindex]

theorem change_remove (l : ReorderList α) (id : Int) :
    ∃ items, items.Sublist l.items ∧ l.change (.remove id) = { l with items := items } := by
  rw [change]
  cases hremove : l.remove id with
  | none => exact ⟨l.items, List.Sublist.refl _, rfl⟩
  | some r =>
    obtain ⟨j, -, -, heq⟩ := remove_eq_some hremove
    exact ⟨_, List.eraseIdx_sublist l.items j, heq⟩

variable [LawfulOrderable α]

/-! ### One change -/

theorem nodup_place (hids : (l.items.map Orderable.id).Nodup)
    (hitem : Orderable.id item ∉ l.items.map Orderable.id) (hj : j ≤ l.items.length) :
    ((l.place item j).2.items.map Orderable.id).Nodup := by
  rw [(map_place_perm (LawfulOrderable.id_withKey l.scope) item hj).nodup_iff]
  exact List.nodup_cons.2 ⟨hitem, hids⟩

/-- A change keeps the items different. -/
theorem nodup_change {c : Change α} (hids : (l.items.map Orderable.id).Nodup) (hc : l.Admits c) :
    ((l.change c).items.map Orderable.id).Nodup := by
  cases c with
  | move source target =>
    cases hmove : l.move source target with
    | none => rwa [change, hmove]
    | some r =>
      rw [change, hmove]
      exact (map_move_perm hmove (LawfulOrderable.id_withKey l.scope)).nodup_iff.2 hids
  | insert item index => exact nodup_place hids hc (Nat.min_le_right ..)
  | remove id =>
    obtain ⟨items, hsublist, heq⟩ := l.change_remove id
    rw [heq]
    exact hids.sublist (hsublist.map _)
  | reconcile stored => exact nodup_reconcile hids stored

/-- In a list that ascends, the pending move tells whether it still does. -/
theorem needsRebalance_place (h : l.Ascending) (item : α) (hj : j ≤ l.items.length) :
    (l.place item j).2.needsRebalance = (l.place item j).1.needsRebalance := by
  have htrans : ∀ a b c : α, KeyLt l.scope a b → KeyLt l.scope b c → KeyLt l.scope a c :=
    fun _ _ _ => Double.lt_trans
  have hroom : (l.place item j).2.needsRebalance = false ↔
      (l.place item j).1.needsRebalance = false := by
    refine needsRebalance_eq_false.trans ((pairwise_insertIdx_iff htrans h hj).trans ?_)
    refine Iff.trans ?_ Position.needsRebalance_allocate_eq_false.symm
    simp only [KeyLt, LawfulOrderable.key_withKey]
    simp only [Option.map_eq_some_iff, forall_exists_index, and_imp, forall_apply_eq_imp_iff₂]
    refine and_congr_left fun _ => ⟨fun hbefore b hb => ?_, fun hbefore b hj0 hb => hbefore b ?_⟩
    · obtain ⟨hj0, hb⟩ := mem_of_itemBefore hb
      exact hbefore b hj0 hb
    · rw [itemBefore, if_neg hj0, hb]
  rwa [← not_iff_not, Bool.not_eq_false, Bool.not_eq_false, ← Bool.eq_iff_iff] at hroom

theorem needsRebalance_move (hmove : l.move source target = some (m, l')) (h : l.Ascending) :
    l'.needsRebalance = m.needsRebalance := by
  obtain ⟨item, -, htarget, hplace⟩ := place_of_move hmove
  have hothers : Ascending { l with items := l.items.eraseIdx source } :=
    h.sublist (List.eraseIdx_sublist ..)
  have hroom := needsRebalance_place hothers item htarget
  rwa [hplace] at hroom

/-- A list that ascends does so after a change exactly if the pending move has found room and a
stored key is apart from the others. -/
theorem ascending_change_iff {c : Change α} (hids : (l.items.map Orderable.id).Nodup)
    (h : l.Ascending) :
    (l.change c).Ascending ↔ l.LeavesRoom c ∧ l.KeepsApart c := by
  cases c with
  | move source target =>
    rw [LeavesRoom, pending, change]
    cases hmove : l.move source target with
    | none => simpa [KeepsApart] using h
    | some r => simp [KeepsApart, ← needsRebalance_eq_false, needsRebalance_move hmove h]
  | insert item index =>
    have hroom := needsRebalance_place h item (Nat.min_le_right index _)
    rw [LeavesRoom, pending, change, ← needsRebalance_eq_false, insert, hroom]
    simp [KeepsApart]
  | remove id =>
    obtain ⟨items, hsublist, heq⟩ := l.change_remove id
    have hrest : (l.change (.remove id)).Ascending := heq ▸ h.sublist hsublist
    simpa [LeavesRoom, pending, KeepsApart] using hrest
  | reconcile stored =>
    show (l.reconcile stored).2.Ascending ↔ _
    simpa [LeavesRoom, pending, KeepsApart] using ascending_reconcile_iff hids h

/-! ### All changes -/

theorem Run.nodup (hids : (l.items.map Orderable.id).Nodup) (hrun : Run Admits l l') :
    (l'.items.map Orderable.id).Nodup := by
  induction hrun with
  | start => exact hids
  | next _ hc ih => exact nodup_change ih hc

/-- As long as moves leave room and stored keys are apart from the others, the list ascends. -/
theorem Run.ascending (hids : (l.items.map Orderable.id).Nodup) (h : l.Ascending)
    (hrun : Run (fun l c => l.Admits c ∧ l.LeavesRoom c ∧ l.KeepsApart c) l l') :
    (l'.items.map Orderable.id).Nodup ∧ l'.Ascending := by
  induction hrun with
  | start => exact ⟨hids, h⟩
  | next _ hc ih => exact ⟨nodup_change ih.1 hc.1, (ascending_change_iff ih.1 ih.2).2 hc.2⟩

/-- A list whose items are different, and which every change treats as it should. -/
structure Sound (l : ReorderList α) : Prop where
  ids : (l.items.map Orderable.id).Nodup
  /-- A move is refused if nothing moves or an index is not in the list. -/
  refused : ∀ source target,
    l.move source target = none ↔
      source = target ∨ l.items.length ≤ source ∨ l.items.length ≤ target
  /-- The other items keep their order, no item is lost or doubled, and keys of another scope stay
  as they are. -/
  moved : ∀ source target m l', l.move source target = some (m, l') →
    (∃ item, l.items[source]? = some item ∧ PutAt (l.items.eraseIdx source) item target m l') ∧
    (l'.items.map Orderable.id).Perm (l.items.map Orderable.id) ∧
    (∀ other, (∃ a : α, Orderable.key other a ≠ Orderable.key l.scope a) →
      (l'.items.map fun a => (Orderable.id a, Orderable.key other a)).Perm
        (l.items.map fun a => (Orderable.id a, Orderable.key other a))) ∧
    (l.Ascending → l'.needsRebalance = m.needsRebalance)
  /-- An index beyond the list stands for its end. -/
  inserted : ∀ item index,
    PutAt l.items item (min index l.items.length) (l.insert item index).1 (l.insert item index).2 ∧
    (l.Ascending → (l.insert item index).2.needsRebalance = (l.insert item index).1.needsRebalance)
  removed : ∀ id,
    (l.remove id = none ↔ id ∉ l.items.map Orderable.id) ∧
    ∀ item l', l.remove id = some (item, l') →
      ∃ j : Nat, l.items[j]? = some item ∧ Orderable.id item = id ∧
      l' = { l with items := l.items.eraseIdx j }
  /-- The stored item takes the place of the shown one in a sorted list; the same answer once more
  changes nothing. -/
  reconciled : ∀ stored,
    (l.reconcile stored).2.items.Perm
      (stored :: l.items.filter (Orderable.id · != Orderable.id stored)) ∧
    ((l.reconcile stored).2.items.Pairwise fun a b =>
      (Orderable.key l.scope a).rank < (Orderable.key l.scope b).rank ∨
        (Orderable.key l.scope a).rank = (Orderable.key l.scope b).rank ∧
        Orderable.id a ≤ Orderable.id b) ∧
    (l.reconcile stored).2.reconcile stored = (false, (l.reconcile stored).2)
  /-- A change that takes the order away is told by its pending move, or it stores a key that is not
  apart. -/
  ascends : l.Ascending → ∀ c, (l.change c).Ascending ↔ l.LeavesRoom c ∧ l.KeepsApart c
  /-- Until then the list ascends, and its own items come back without effect. -/
  goesOn : l.Ascending → ∀ l', Run (fun l c => l.Admits c ∧ l.LeavesRoom c ∧ l.KeepsApart c) l l' →
    l'.Ascending ∧ ∀ a ∈ l'.items, l'.reconcile a = (false, l')

theorem sound_of_nodup (hids : (l.items.map Orderable.id).Nodup) : l.Sound where
  ids := hids
  refused _ _ := move_eq_none
  moved source target m l' hmove := by
    refine ⟨move_putAt hmove, map_move_perm hmove (LawfulOrderable.id_withKey l.scope),
      fun other hother => ?_, needsRebalance_move hmove⟩
    refine map_move_perm hmove fun x a => ?_
    rw [LawfulOrderable.id_withKey, LawfulOrderable.key_withKey_of_ne l.scope other hother]
  inserted item index :=
    ⟨place_putAt item (Nat.min_le_right ..),
      fun h => needsRebalance_place h item (Nat.min_le_right ..)⟩
  removed _ := ⟨remove_eq_none, fun _ _ => remove_eq_some⟩
  reconciled stored :=
    ⟨reconcile_perm hids stored, (pairwise_reconcile hids stored).imp itemLe_iff.1,
      reconcile_reconcile hids stored⟩
  ascends h _ := ascending_change_iff hids h
  goesOn h l' hrun := by
    obtain ⟨hids', h'⟩ := hrun.ascending hids h
    exact ⟨h', fun a ha => reconcile_of_mem hids' h'.pairwise_itemLe ha⟩

/-- Lists of different items are sound at every point of every run. -/
theorem run_sound {items : List α} (hids : (items.map Orderable.id).Nodup) (scope : Scope)
    (tag : Option Int) (hrun : Run Admits (ofItems items scope tag) l) : l.Sound :=
  sound_of_nodup (hrun.nodup (((sorted_perm scope items).map _).nodup_iff.2 hids))

/-- Three tasks of a bucket, the third one dragged between the others. -/
def dragged : ReorderList Task := (ofItems Store.sample.tasks .kanban (some 1)).change (.move 2 1)

/-- The stored copy of the dragged task, with the key of the first one. -/
def stale : Task := { (Store.sample.task? 3).getD {} with kanbanPosition := Position.spacing }

/-- The stored copy comes back to the list. -/
theorem run_sound_stale :
    (Store.sample.tasks.map Orderable.id).Nodup ∧
      Run Admits (ofItems Store.sample.tasks .kanban (some 1)) (dragged.change (.reconcile stale)) ∧
      (dragged.change (.reconcile stale)).Sound := by
  have hids : (Store.sample.tasks.map Orderable.id).Nodup := by decide +kernel
  have hrun : Run Admits (ofItems Store.sample.tasks .kanban (some 1))
      (dragged.change (.reconcile stale)) :=
    .next (.next .start trivial) trivial
  exact ⟨hids, hrun, run_sound hids .kanban (some 1) hrun⟩

/-- No pending move of this run is without room, and yet the list does not ascend any more. -/
theorem run_level :
    (Store.sample.tasks.map Orderable.id).Nodup ∧
    (∀ t ∈ Store.sample.tasks, (t.key .kanban).isFinite = true) ∧
      (ofItems Store.sample.tasks .kanban (some 1)).Ascending ∧
      Run (fun l c => l.Admits c ∧ l.LeavesRoom c) (ofItems Store.sample.tasks .kanban (some 1))
        (dragged.change (.reconcile stale)) ∧
      (dragged.change (.reconcile stale)).needsRebalance = true := by
  have hids : (Store.sample.tasks.map Orderable.id).Nodup := by decide +kernel
  have hitems : ofItems Store.sample.tasks .kanban (some 1) =
      ⟨Store.sample.tasks, .kanban, some 1⟩ := by
    rw [ofItems, sorted_of_pairwise (by decide +kernel)]
  have hascending : (ofItems Store.sample.tasks .kanban (some 1)).Ascending := by
    rw [hitems]
    decide +kernel
  have hroom : (ofItems Store.sample.tasks .kanban (some 1)).LeavesRoom (.move 2 1) := by
    rw [hitems, LeavesRoom]
    decide +kernel
  have hids' : (dragged.items.map Orderable.id).Nodup := by
    rw [dragged, hitems]
    decide +kernel
  have hdragged : dragged.Ascending := by
    rw [dragged, hitems]
    decide +kernel
  have hlevel : ¬dragged.KeepsApart (.reconcile stale) := by
    rw [dragged, hitems, KeepsApart]
    decide +kernel
  refine ⟨hids, by decide +kernel, hascending,
    .next (.next .start ⟨trivial, hroom⟩) ⟨trivial, nofun⟩, ?_⟩
  rw [← Bool.not_eq_false, needsRebalance_eq_false]
  exact fun h => hlevel ((ascending_change_iff hids' hdragged).1 h).2

end ReorderList

end Kanban
