import Kanban.Proofs.Operation.Buckets
import Kanban.Proofs.Tasks.Move
import Kanban.Reorder

/-!
# Moves to an index

A move that names the two neighbors of an index succeeds and puts the task at this index of its
scope (`Store.moveTask_arranges`).  When the keys of the neighbors leave room, the task gets the key
between them and no other key changes (`Store.place_at_of_room`).
-/

namespace Kanban.Store

open ReorderList (itemBefore)

variable {s s' : Store} {p : Place} {moving : Int} {t : Task} {j : Nat}

/-! ### Neighbors of an index -/

theorem itemBefore_map {α β : Type} (f : α → β) (L : List α) (j : Nat) :
    itemBefore (L.map f) j = (itemBefore L j).map f := by
  unfold itemBefore
  split <;> simp

theorem mem_of_itemBefore {α : Type} {L : List α} {y : α} (h : itemBefore L j = some y) :
    j ≠ 0 ∧ L[j - 1]? = some y := by
  unfold itemBefore at h
  split at h
  · simp at h
  · exact ⟨‹_›, h⟩

section

variable (hids : (s.tasks.map (·.id)).Nodup) (hnum : ∀ t ∈ s.tasks, (t.key p.scope).isNaN = false)

include hids hnum

/-- The neighbors of an index fit. -/
theorem fits_at (j : Nat) :
    s.Fits p moving ((itemBefore (s.rankedIn p moving) j).map (·.id))
      ((s.rankedIn p moving)[j]?.map (·.id)) := by
  constructor
  · intro id hid
    obtain ⟨y, hy, rfl⟩ := Option.map_eq_some_iff.1 hid
    exact ⟨y, mem_rankedIn.1 (List.mem_of_getElem? (mem_of_itemBefore hy).2), rfl⟩
  · intro id hid
    obtain ⟨y, hy, rfl⟩ := Option.map_eq_some_iff.1 hid
    exact ⟨y, mem_rankedIn.1 (List.mem_of_getElem? hy), rfl⟩
  · intro x hx y hy hbefore hafter
    obtain ⟨x', hx', hxid⟩ := Option.map_eq_some_iff.1 hbefore
    obtain ⟨y', hy', hyid⟩ := Option.map_eq_some_iff.1 hafter
    obtain ⟨hj, hx'⟩ := mem_of_itemBefore hx'
    have hxmem := mem_rankedIn.1 (List.mem_of_getElem? hx')
    have hymem := mem_rankedIn.1 (List.mem_of_getElem? hy')
    obtain rfl := eq_of_mem_othersIn hids hxmem hx hxid
    obtain rfl := eq_of_mem_othersIn hids hymem hy hyid
    rw [Task.precedes_iff_spot (hnum _ (mem_othersIn.1 hx).1) (hnum _ (mem_othersIn.1 hy).1)]
    obtain ⟨hlx, rfl⟩ := List.getElem?_eq_some_iff.1 hx'
    obtain ⟨hly, rfl⟩ := List.getElem?_eq_some_iff.1 hy'
    exact List.pairwise_iff_getElem.1 (rankedIn_increasing hids hnum moving) _ _ hlx hly (by omega)

omit hnum in
/-- The keys of the neighbors of an index are found; at the only index of an empty scope there are
none. -/
theorem neighborKeys_at (hj : j ≤ (s.rankedIn p moving).length) :
    s.neighborKeys p moving ((itemBefore (s.rankedIn p moving) j).map (·.id))
        ((s.rankedIn p moving)[j]?.map (·.id)) =
      .ok ((itemBefore (s.rankedIn p moving) j).map (·.key p.scope),
        (s.rankedIn p moving)[j]?.map (·.key p.scope)) := by
  have hkey : ∀ o : Option Task, (∀ y, o = some y → y ∈ s.othersIn p moving) →
      s.optionalKey p moving (o.map (·.id)) = .ok (o.map (·.key p.scope)) := by
    rintro (- | y) h
    · rfl
    · exact optionalKey_of_mem hids (h y rfl)
  have hbefore := hkey (itemBefore (s.rankedIn p moving) j) fun y hy =>
    mem_rankedIn.1 (List.mem_of_getElem? (mem_of_itemBefore hy).2)
  have hafter := hkey (s.rankedIn p moving)[j]? fun y hy => mem_rankedIn.1 (List.mem_of_getElem? hy)
  refine neighborKeys_eq_ok.2 ?_
  by_cases hnone : (itemBefore (s.rankedIn p moving) j).map (·.id) = none ∧
      (s.rankedIn p moving)[j]?.map (·.id) = none
  · -- Without neighbors the scope is empty, so there is no greatest key either.
    refine .inl ⟨hnone.1, hnone.2, ?_, ?_⟩
    · simp only [Option.map_eq_none_iff, List.getElem?_eq_none_iff] at hnone
      have hempty : s.rankedIn p moving = [] := by
        have hj0 : j = 0 := by
          by_contra hj0
          have := hnone.1
          rw [itemBefore, if_neg hj0, List.getElem?_eq_none_iff] at this
          omega
        exact List.length_eq_zero_iff.1 (by omega)
      have hothers : s.othersIn p moving = [] := (hempty ▸ s.rankedIn_perm p moving).nil_eq.symm
      rw [tailKey, hothers, hnone.1]
      rfl
    · simpa using hnone.2
  · exact .inr ⟨hnone, hbefore, hafter⟩

omit hnum in
/-- Where the keys of the neighbors leave room, the key between them is taken. -/
theorem place_at_of_room (hj : j ≤ (s.rankedIn p moving).length) {b a : Option Double}
    (hb : b = (itemBefore (s.rankedIn p moving) j).map (·.key p.scope))
    (ha : a = (s.rankedIn p moving)[j]?.map (·.key p.scope))
    (hroom : Position.needsRebalance b a (Position.allocate b a) = false) :
    s.place p moving ((itemBefore (s.rankedIn p moving) j).map (·.id))
      ((s.rankedIn p moving)[j]?.map (·.id)) =
      .ok (Position.allocate b a, s) := by
  subst hb ha
  refine place_eq_ok.2 ⟨_, _, neighborKeys_at hids hj,
    .inl ⟨keyBetween?_eq_ok.2 ⟨fun x y hx hy hlt => ?_, ?_⟩, rfl⟩⟩
  · obtain ⟨-, hbelow, habove⟩ := Position.needsRebalance_eq_false.1 hroom
    exact Double.lt_asymm hlt (Double.lt_trans (hbelow x hx) (habove y hy))
  · rw [hroom]
    rfl

/-- The other tasks of the scope keep their ranks while a place is sought. -/
theorem ids_rankedIn_place (hfew : (s.othersIn p moving).length < 2 ^ 50)
    {before after : Option Int} {key : Double} (h : s.place p moving before after = .ok (key, s')) :
    (s'.rankedIn p moving).map (·.id) = (s.rankedIn p moving).map (·.id) := by
  obtain rfl | rfl := store_of_place h
  · rfl
  · rw [rankedIn_rebalance hids hnum hfew, List.map_map]
    exact List.map_congr_left fun u _ => Task.id_rekeyed

/-- A task whose key lies between those of the neighbors of an index stands at this index. -/
theorem orderedIn_setTask (ht : t ∈ s.tasks) {moved : Task} (hid : moved.id = t.id)
    (hin : p.contains moved = true) (hkey : (moved.key p.scope).isNaN = false)
    (hj : j ≤ (s.rankedIn p t.id).length)
    (hbefore : ∀ y, j ≠ 0 → (s.rankedIn p t.id)[j - 1]? = some y →
      y.key p.scope < moved.key p.scope)
    (hafter : ∀ y, (s.rankedIn p t.id)[j]? = some y → moved.key p.scope < y.key p.scope) :
    (s.tick.setTask moved).orderedIn p.scope p.id =
      (s.rankedIn p t.id).insertIdx j moved.stored := by
  have hspot : ∀ y ∈ s.rankedIn p t.id, (y.key p.scope).isNaN = false := fun y hy =>
    hnum y (mem_othersIn.1 (mem_rankedIn.1 hy)).1
  have hids' := nodup_setTask hids moved
  have hrow := stored_mem_setTask ht hid
  have hnum' := isNaN_key_setTask hnum hkey
  refine orderedIn_eq hnum' ?_ ?_
  · have hothers := othersIn_setTask s p moved
    rw [tasksIn_eq]
    refine (List.perm_insertIdx _ _ hj).trans (List.Perm.symm ?_)
    refine (filter_perm_cons hids' hrow (by simpa using hin)).trans (List.Perm.cons _ ?_)
    have hsame : (s.tick.setTask moved).tasks.filter
        (fun r => p.contains r && r.id != moved.stored.id) =
        s.othersIn p t.id := by
      rw [← hid, ← hothers]
      rfl
    rw [hsame]
    exact (s.rankedIn_perm p t.id).symm
  · refine increasing_insertIdx (rankedIn_increasing hids hnum t.id) hj
      (fun y hj0 hy => ?_) fun y hy => ?_
    · have hlt := hbefore y hj0 hy
      rw [Double.lt_iff_place (hspot y (List.mem_of_getElem? hy)) hkey] at hlt
      rw [Task.spot_stored]
      exact spot_lt_iff.2 (.inl hlt)
    · have hlt := hafter y hy
      rw [Double.lt_iff_place hkey (hspot y (List.mem_of_getElem? hy))] at hlt
      rw [Task.spot_stored]
      exact spot_lt_iff.2 (.inl hlt)

end

/-! ### Moves to an index -/

theorem contains_moved {s : Store} {q : Project} {t : Task} {m : TaskMove} {key : Double}
    (ht : t.projectId = q.id) :
    (Place.forMove q (m.target t) m.scope).contains (s.moved q t m key) = true := by
  cases hscope : m.scope <;> simp [Place.forMove, Place.contains, ht]

theorem scope_forMove (q : Project) (target : Int) (scope : Scope) :
    (Place.forMove q target scope).scope = scope := by
  cases scope <;> rfl

section

variable {q : Project} {m : TaskMove} {actor : Int} (hids : (s.tasks.map (·.id)).Nodup)
  (hnum : ∀ scope, ∀ t ∈ s.tasks, (t.key scope).isNaN = false) (ht : t ∈ s.tasks)
  (hq : s.projectFor .write actor t.projectId = .ok q) (hentry : s.MayEnter q t (m.target t))
  (hplace : p = .forMove q (m.target t) m.scope) (hj : j ≤ (s.rankedIn p t.id).length)
  (hbefore : m.beforeId = (itemBefore (s.rankedIn p t.id) j).map (·.id))
  (hafter : m.afterId = (s.rankedIn p t.id)[j]?.map (·.id))

include hids hnum ht hq hentry hplace hj hbefore hafter

/-- Once a key is found between the neighbors of an index, the moved task stands at this index. -/
theorem moveTask_of_place (hfew : (s.othersIn p t.id).length < 2 ^ 50) {key : Double}
    {placed : Store} (h : s.place p t.id m.beforeId m.afterId = .ok (key, placed)) :
    s.moveTask actor t.id m = .ok (placed.detail (placed.moved q t m key),
      placed.tick.setTask (placed.moved q t m key)) ∧
      (placed.tick.setTask (placed.moved q t m key)).orderedIn p.scope p.id =
        (placed.rankedIn p t.id).insertIdx j (placed.moved q t m key).stored := by
  have hscope : p.scope = m.scope := by rw [hplace, scope_forMove]
  have hranks := ids_rankedIn_place hids (hnum _) hfew h
  have hbetween := between_of_place hids hfew (hnum _) h
  have hids' := nodup_place hids h
  have hnum' := isNaN_key_place hids (hnum _) h
  have hkey : (placed.moved q t m key).key p.scope = key := by rw [hscope, key_moved]
  have hrank : ∀ k : Nat, (placed.rankedIn p t.id)[k]?.map (·.id) =
      (s.rankedIn p t.id)[k]?.map (·.id) := fun k => by
    rw [← List.getElem?_map, hranks, List.getElem?_map]
  have hlength : (placed.rankedIn p t.id).length = (s.rankedIn p t.id).length := by
    simpa using congrArg List.length hranks
  constructor
  · exact moveTask_eq_ok.2 ⟨t, q, key, placed, (getTask_eq_ok hids).2 ⟨ht, rfl⟩, hq, hentry,
      hplace ▸ h, rfl, rfl⟩
  · refine orderedIn_setTask hids' hnum' (mem_tasks_place hids h ht) (id_moved ..) ?_ ?_
      (hlength ▸ hj) ?_ ?_
    · rw [hplace]
      exact contains_moved (mem_of_projectFor hq).2.symm
    · rw [hkey]
      exact Double.isNaN_of_isFinite hbetween.finite
    · intro y hj0 hy
      rw [hkey]
      refine hbetween.above y (mem_rankedIn.1 (List.mem_of_getElem? hy)) ?_
      rw [hbefore, itemBefore, if_neg hj0, ← hrank, hy]
      rfl
    · intro y hy
      rw [hkey]
      refine hbetween.below y (mem_rankedIn.1 (List.mem_of_getElem? hy)) ?_
      rw [hafter, ← hrank, hy]
      rfl

/-- A move that names the neighbors of an index succeeds and puts the task at this index. -/
theorem moveTask_arranges (hfew : (s.othersIn p t.id).length < 2 ^ 50) :
    ∃ d s', s.moveTask actor t.id m = .ok (d, s') ∧
      (s'.orderedIn p.scope p.id).map (·.id) =
        ((s.rankedIn p t.id).map (·.id)).insertIdx j t.id := by
  have hfits : s.Fits p t.id m.beforeId m.afterId := by
    rw [hbefore, hafter]
    exact fits_at hids (hnum _) j
  obtain ⟨key, placed, h⟩ := exists_place hids hfew (hnum _) hfits
  obtain ⟨hmove, horder⟩ := moveTask_of_place hids hnum ht hq hentry hplace hj hbefore hafter hfew h
  refine ⟨_, _, hmove, ?_⟩
  rw [horder, List.map_insertIdx, ids_rankedIn_place hids (hnum _) hfew h, Task.id_stored, id_moved]

end

end Kanban.Store
