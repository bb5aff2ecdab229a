import Kanban.Proofs.Reorder.Items
import Kanban.Proofs.Store.Write

/-!
# Lists in step with the store

A shown list is in step with the store when it has the ids and the keys of the tasks of its scope in
their order (`ReorderList.Synced`).  A list that is made of the stored tasks is in step
(`ReorderList.synced_ofItems`), and a stored task that takes the place of the shown one with its id
and key moves nothing (`ReorderList.reconcile_of_entry`).
-/

namespace Kanban

/-- What orders a task in a scope: its id and its key. -/
def Task.entry (scope : Scope) (t : Task) : Int × Double := (t.id, t.key scope)

/-- A row without a negative zero as its key has the same entry as the task. -/
theorem Task.entry_stored {scope : Scope} {t : Task} {id : Int} {key : Double}
    (h : t.entry scope = (id, key)) (hkey : key.unsignZero = key) :
    t.stored.entry scope = (id, key) := by
  obtain ⟨rfl, rfl⟩ := Prod.mk.inj h
  rw [Task.entry, Task.id_stored, Task.key_stored, hkey]

namespace ReorderList

/-- The list shows the tasks of the scope, in their order and with their keys, and sends its moves
to the scope. -/
structure Synced (l : ReorderList Task) (s : Store) (p : Place) : Prop where
  scope : l.scope = p.scope
  bucket : l.bucketId = match p.scope with | .kanban => some p.id | .list => none
  entries : l.items.map (Task.entry p.scope) = (s.orderedIn p.scope p.id).map (Task.entry p.scope)

variable {l : ReorderList Task} {s : Store} {p : Place}

/-- The list of the stored tasks of a scope. -/
def shown (s : Store) (p : Place) : ReorderList Task where
  items := s.orderedIn p.scope p.id
  scope := p.scope
  bucketId := match p.scope with | .kanban => some p.id | .list => none

theorem synced_shown (s : Store) (p : Place) : (shown s p).Synced s p := ⟨rfl, rfl, rfl⟩

theorem ids_of_entries {scope : Scope} {L L' : List Task}
    (h : L.map (Task.entry scope) = L'.map (Task.entry scope)) : L.map (·.id) = L'.map (·.id) := by
  have hfst := congrArg (List.map Prod.fst) h
  rwa [List.map_map, List.map_map] at hfst

theorem keys_of_entries {scope : Scope} {L L' : List Task}
    (h : L.map (Task.entry scope) = L'.map (Task.entry scope)) :
    L.map (·.key scope) = L'.map (·.key scope) := by
  have hsnd := congrArg (List.map Prod.snd) h
  rwa [List.map_map, List.map_map] at hsnd

theorem Synced.ids (h : l.Synced s p) :
    l.items.map (·.id) = (s.orderedIn p.scope p.id).map (·.id) :=
  ids_of_entries h.entries

/-! ### The order of the list -/

/-- Items whose keys are numbers without a negative zero are ordered by their spots. -/
theorem itemLe_iff_spot {α : Type} [Orderable α] {scope : Scope} {x y : α}
    (hx : (Orderable.key scope x).isNaN = false)
    (hx0 : (Orderable.key scope x).unsignZero = Orderable.key scope x)
    (hy : (Orderable.key scope y).isNaN = false)
    (hy0 : (Orderable.key scope y).unsignZero = Orderable.key scope y) :
    itemLe scope x y = true ↔
      spot (Orderable.key scope x) (Orderable.id x) ≤ spot (Orderable.key scope y)
        (Orderable.id y) := by
  unfold itemLe
  rw [Double.compare_rank hx hx0 hy hy0, Ordering.isLE_then_iff_or, compare_lt_iff_lt,
    compare_eq_iff_eq, Int.isLE_compare, spot_le_iff]

theorem unsignZero_key (hs : s.Regular) {t : Task} (ht : t ∈ s.tasks) (scope : Scope) :
    (t.key scope).unsignZero = t.key scope := by
  rw [← Task.key_stored, (hs.taskRows t ht).1]

private theorem itemLe_iff_of_mem (hs : s.Regular) {scope : Scope} {t u : Task} (ht : t ∈ s.tasks)
    (hu : u ∈ s.tasks) :
    itemLe scope t u = true ↔ t.spot scope ≤ u.spot scope :=
  itemLe_iff_spot ((hs.taskRows t ht).2 scope) (unsignZero_key hs ht scope)
    ((hs.taskRows u hu).2 scope)
    (unsignZero_key hs hu scope)

/-- Items with the ids and keys of the ordered tasks are in order. -/
theorem sorted_eq_self (hs : s.Regular) {scope : Scope} {id : Int} {items : List Task}
    (h : items.map (Task.entry scope) = (s.orderedIn scope id).map (Task.entry scope)) :
    sorted scope items = items := by
  have hmem : ∀ t ∈ s.orderedIn scope id, t ∈ s.tasks := fun t ht =>
    Store.mem_tasks_of_mem_tasksIn ((s.orderedIn_perm scope id).mem_iff.1 ht)
  have hordered : ((s.orderedIn scope id).map (Task.entry scope)).Pairwise fun x y =>
      ((x.2.totalCompare y.2).then (compare x.1 y.1)).isLE = true := by
    rw [List.pairwise_map]
    refine (Store.orderedIn_increasing hs.tasks.nodup
      (fun t ht => (hs.taskRows t ht).2 scope) id).imp_of_mem ?_
    intro t u ht hu hlt
    exact (itemLe_iff_of_mem hs (hmem t ht) (hmem u hu)).2 hlt.le
  rw [← h, List.pairwise_map] at hordered
  exact sorted_of_pairwise hordered

/-- A list that is made of the stored tasks of a scope, in whatever order, is in step. -/
theorem synced_ofItems (hs : s.Regular) {items : List Task}
    (h : (items.map (Task.entry p.scope)).Perm
      ((s.tasksIn p.scope p.id).map (Task.entry p.scope))) :
    (ofItems items p.scope
      (match p.scope with | .kanban => some p.id | .list => none)).Synced s p := by
  refine ⟨rfl, rfl, ?_⟩
  -- Only ids and keys decide about the order of the items.
  have hmap := List.map_mergeSort (f := Task.entry p.scope) (r := itemLe p.scope)
    (s := fun x y => ((x.2.totalCompare y.2).then (compare x.1 y.1)).isLE)
      (l := items) fun _ _ _ _ => rfl
  show (items.mergeSort (itemLe p.scope)).map _ = _
  rw [hmap]
  refine mergeSort_eq_of_increasing (f := fun e => spot e.2 e.1) ?_ ?_ ?_
  · intro x hx y hy
    obtain ⟨t, ht, rfl⟩ := List.mem_map.1 (h.mem_iff.1 hx)
    obtain ⟨u, hu, rfl⟩ := List.mem_map.1 (h.mem_iff.1 hy)
    exact itemLe_iff_of_mem hs (Store.mem_tasks_of_mem_tasksIn ht)
      (Store.mem_tasks_of_mem_tasksIn hu)
  · exact ((s.orderedIn_perm p.scope p.id).map _).trans h.symm
  · rw [List.pairwise_map]
    exact Store.orderedIn_increasing hs.tasks.nodup (fun t ht => (hs.taskRows t ht).2 p.scope) p.id

/-! ### Answers -/

/-- A stored task with the id and key of the shown one takes its place, and nothing moves. -/
theorem reconcile_of_entry (hs : s.Regular) {scope : Scope} (hscope : l.scope = scope) {id : Int}
    {j : Nat} {x u : Task}
    (h : l.items.map (Task.entry scope) = (s.orderedIn scope id).map (Task.entry scope))
    (hx : l.items[j]? = some x) (hu : u.entry scope = x.entry scope) :
    l.reconcile u = (false, { l with items := l.items.set j u }) ∧
      (l.items.set j u).map (Task.entry scope) = l.items.map (Task.entry scope) := by
  subst hscope
  obtain ⟨hj, rfl⟩ := List.getElem?_eq_some_iff.1 hx
  have hids : (l.items.map (·.id)).Nodup := by
    rw [ids_of_entries h]
    exact Store.nodup_orderedIn hs.tasks.nodup l.scope id
  have hfind : l.items.findIdx? (fun y => Orderable.id y == Orderable.id u) = some j :=
    findIdx?_eq_some hids hx (congrArg Prod.fst hu)
  have hset : (l.items.set j u).map (Task.entry l.scope) = l.items.map (Task.entry l.scope) := by
    rw [List.map_set, hu, ← List.getElem_map (Task.entry l.scope) (h := by simpa using hj),
      List.set_getElem_self]
  have hsorted : sorted l.scope (l.items.set j u) = l.items.set j u :=
    sorted_eq_self hs (hset.trans h)
  have hself : (l.items.set j u)[j]? = some u := by simp [hj]
  refine ⟨?_, hset⟩
  simp only [reconcile, hfind, hsorted, hself]
  simp

end ReorderList

end Kanban
