import Kanban.Buckets
import Kanban.Proofs.Position.Tail
import Kanban.Proofs.Store.Regular
import Kanban.Proofs.Tasks.Placement

/-!
# Tasks appended to a bucket

Moving all tasks of a bucket behind those of another one changes these tasks and no other row
(`Store.moveAllTasks_eq`).  As long as the keys in the other bucket are small enough for their
spacing to count, its order is then its old order followed by that of the tasks that came
(`Store.orderedIn_moveAllTasks`).
-/

namespace Kanban

/-! ### The moved tasks -/

/-- The task in another bucket with a key there; the bucket of done tasks makes it done. -/
def Task.appended (target : Int) (intoDone : Bool) (time : Instant) (key : Double) (t : Task) :
    Task :=
  { t with
    bucketId := target
    kanbanPosition := key
    done := intoDone || t.done
    doneAt := if intoDone && !t.done then some time else t.doneAt
    updated := time }

namespace Store

variable {s : Store} {source target : Int}

/-- Appending tasks gives them keys one after the other. -/
theorem appendTasks_eq (hids : (s.tasks.map (·.id)).Nodup) (intoDone : Bool) (time : Instant)
    (tail : Option Double) {ts : List Task} (hts : ∀ t ∈ ts, t ∈ s.tasks)
    (hnodup : (ts.map (·.id)).Nodup) :
    s.appendTasks target intoDone time tail ts =
      { s with
        tasks := s.tasks.map (changed (·.id)
          (fun key t => (t.appended target intoDone time key).stored)
          ((ts.map (·.id)).zip (Position.behind tail ts.length))) } := by
  induction ts generalizing s tail with
  | nil =>
    have hsame : s.tasks.map (changed (·.id)
        (fun key t => (t.appended target intoDone time key).stored) []) =
        s.tasks := List.map_id _
    rw [List.map_nil, List.zip_nil_left, hsame]
    rfl
  | cons t ts ih =>
    rw [List.map_cons, List.nodup_cons] at hnodup
    have hstep := setTask_eq hids (hts t (List.mem_cons_self ..))
      (f := Task.appended target intoDone time (Position.allocate tail none)) rfl
    have hids' :
        ((s.setTask (t.appended target intoDone time (Position.allocate tail none))).tasks.map
          (·.id)).Nodup := by
      rw [setTask, map_key_replace (Task.id_stored _)]
      exact hids
    have hts' : ∀ u ∈ ts,
        u ∈ (s.setTask (t.appended target intoDone time (Position.allocate tail none))).tasks :=
      fun u hu => mem_replace.2 (.inl ⟨hts u (List.mem_cons_of_mem _ hu), fun heq =>
        hnodup.1 (List.mem_map.2 ⟨u, hu, heq⟩)⟩)
    rw [List.map_cons, List.length_cons, Position.behind, List.zip_cons_cons]
    refine (ih hids' (some (Position.allocate tail none)) hts' hnodup.2).trans ?_
    rw [hstep, List.map_map]
    congr 1
    apply List.map_congr_left
    intro u _
    rw [Function.comp_apply]
    refine changed_cons (fun key v => ?_) (fun hmem => hnodup.1 ?_) _ u
    · rfl
    · obtain ⟨⟨i, x⟩, hix, rfl⟩ := List.mem_map.1 hmem
      exact (List.of_mem_zip hix).1

/-- The keys that the tasks of a bucket get, in their order, behind those of another one. -/
def keysBehind (s : Store) (source target : Int) : List Double :=
  Position.behind (greatest? ((s.tasksIn .kanban target).map (·.kanbanPosition)))
    (s.orderedIn .kanban source).length

/-- The row of a task after all tasks of a bucket were moved behind those of another one. -/
def rowBehind (s : Store) (p : Project) (source target : Int) : Task → Task :=
  changed (·.id) (fun key t =>
    (t.appended target (decide (target = p.doneBucketId)) s.now key).stored)
    (((s.orderedIn .kanban source).map (·.id)).zip (s.keysBehind source target))

theorem mem_orderedIn_kanban {id : Int} {t : Task} :
    t ∈ s.orderedIn .kanban id ↔ t ∈ s.tasks ∧ t.bucketId = id := by
  rw [(s.orderedIn_perm .kanban id).mem_iff]
  simp [tasksIn]

/-- Moving all tasks of a bucket changes their rows and nothing else, the clock aside. -/
theorem moveAllTasks_eq (hids : (s.tasks.map (·.id)).Nodup) (p : Project) (source target : Int) :
    ∃ clock, s.moveAllTasks p source target =
      { s with tasks := s.tasks.map (s.rowBehind p source target), clock := clock } := by
  unfold moveAllTasks
  by_cases hempty : (s.orderedIn .kanban source).isEmpty = true
  · have hsame : s.tasks.map (s.rowBehind p source target) = s.tasks := by
      rw [rowBehind, List.isEmpty_iff.1 hempty]
      exact List.map_id _
    refine ⟨s.clock, ?_⟩
    rw [if_pos hempty, hsame]
  · refine ⟨s.clock + 1, ?_⟩
    rw [if_neg hempty]
    exact appendTasks_eq (s := s.tick) hids _ _ _ (fun t ht => (mem_orderedIn_kanban.1 ht).1)
      (nodup_orderedIn hids .kanban source)

section

variable (hids : (s.tasks.map (·.id)).Nodup) (p : Project)

include hids

theorem rowBehind_of_ne {t : Task} (ht : t ∈ s.tasks) (hne : t.bucketId ≠ source) :
    s.rowBehind p source target t = t := by
  unfold rowBehind
  refine changed_eq_self fun hmem => hne ?_
  obtain ⟨⟨i, x⟩, hix, heq⟩ := List.mem_map.1 hmem
  obtain ⟨u, hu, rfl⟩ := List.mem_map.1 (List.of_mem_zip hix).1
  obtain ⟨hu, hbucket⟩ := mem_orderedIn_kanban.1 hu
  rwa [eq_of_key_eq hids hu ht heq] at hbucket

/-- The task that comes at some place gets the key of this place. -/
theorem rowBehind_of_getElem? (target : Int) {n : Nat} {t : Task}
    (ht : (s.orderedIn .kanban source)[n]? = some t) :
    ∃ key, (s.keysBehind source target)[n]? = some key ∧
      s.rowBehind p source target t =
        (t.appended target (decide (target = p.doneBucketId)) s.now key).stored := by
  have hn : n < (s.keysBehind source target).length := by
    rw [keysBehind, Position.length_behind]
    exact (List.getElem?_eq_some_iff.1 ht).1
  refine ⟨_, List.getElem?_eq_getElem hn, ?_⟩
  unfold rowBehind
  refine changed_of_lookup ?_
  refine lookup_zip (nodup_orderedIn hids .kanban source) (i := n) ?_ (List.getElem?_eq_getElem hn)
  rw [List.getElem?_map, ht]
  rfl

theorem rowBehind_of_eq (target : Int) {t : Task} (ht : t ∈ s.tasks) (heq : t.bucketId = source) :
    ∃ key ∈ s.keysBehind source target,
      s.rowBehind p source target t =
        (t.appended target (decide (target = p.doneBucketId)) s.now key).stored := by
  obtain ⟨n, hn⟩ := List.mem_iff_getElem?.1 (mem_orderedIn_kanban.2 ⟨ht, heq⟩)
  obtain ⟨key, hkey, hrow⟩ := rowBehind_of_getElem? hids p target hn
  exact ⟨key, List.mem_of_getElem? hkey, hrow⟩

/-! ### The order in the other bucket -/

/-- The tasks that came stand at the places of their new keys, in their old order. -/
theorem place_rowBehind (source target : Int) :
    ((s.orderedIn .kanban source).map (s.rowBehind p source target)).map (·.kanbanPosition.place) =
      (s.keysBehind source target).map (·.place) := by
  refine List.ext_getElem? fun n => ?_
  rw [List.getElem?_map, List.getElem?_map, List.getElem?_map]
  cases ht : (s.orderedIn .kanban source)[n]? with
  | none =>
    have hn : (s.orderedIn .kanban source).length ≤ n := List.getElem?_eq_none_iff.1 ht
    rw [List.getElem?_eq_none_iff.2 (by rwa [keysBehind, Position.length_behind])]
    rfl
  | some t =>
    obtain ⟨key, hkey, hrow⟩ := rowBehind_of_getElem? hids p target ht
    rw [hkey]
    have hplace : (s.rowBehind p source target t).kanbanPosition.place = key.place := by
      rw [hrow]
      exact Double.place_unsignZero key
    exact congrArg some hplace

theorem mem_tasksIn_rowBehind (hne : target ≠ source) {t : Task} :
    t ∈ (s.tasks.map (s.rowBehind p source target)).filter (·.bucketId == target) ↔
      t ∈ s.orderedIn .kanban target ∨
      t ∈ (s.orderedIn .kanban source).map (s.rowBehind p source target) := by
  simp only [List.mem_filter, List.mem_map, beq_iff_eq, mem_orderedIn_kanban]
  constructor
  · rintro ⟨⟨u, hu, rfl⟩, hbucket⟩
    by_cases hsource : u.bucketId = source
    · exact .inr ⟨u, ⟨hu, hsource⟩, rfl⟩
    · rw [rowBehind_of_ne hids p hu hsource] at hbucket ⊢
      exact .inl ⟨hu, hbucket⟩
  · rintro (⟨ht, rfl⟩ | ⟨u, ⟨hu, hsource⟩, rfl⟩)
    · exact ⟨⟨t, ht, rowBehind_of_ne hids p ht hne⟩, rfl⟩
    · obtain ⟨key, -, hrow⟩ := rowBehind_of_eq hids p target hu hsource
      exact ⟨⟨u, hu, rfl⟩, by rw [hrow]; rfl⟩

end

/-- No key of the other bucket exceeds those behind it. -/
theorem keysBehind_increasing (hs : s.Regular)
    (hsmall : ∀ t ∈ s.tasks, t.bucketId = target →
      Double.ofInt (-2 ^ 60) < t.kanbanPosition ∧ t.kanbanPosition < Double.ofInt (2 ^ 60))
    (hfew : (s.orderedIn .kanban source).length < 2 ^ 40) :
    (∀ key ∈ s.keysBehind source target, key.isFinite = true ∧
        ∀ t ∈ s.tasks, t.bucketId = target → t.kanbanPosition.place < key.place) ∧
      (s.keysBehind source target).Pairwise (·.place < ·.place) := by
  have hnum : ∀ x ∈ (s.tasksIn .kanban target).map (·.kanbanPosition), x.isNaN = false := by
    intro x hx
    obtain ⟨t, ht, rfl⟩ := List.mem_map.1 hx
    exact (hs.taskRows t (mem_tasks_of_mem_tasksIn ht)).2 .kanban
  have hroom : ∀ x, greatest? ((s.tasksIn .kanban target).map (·.kanbanPosition)) = some x →
      Position.HasRoom x (s.orderedIn .kanban source).length := by
    intro x hx
    obtain ⟨t, ht, rfl⟩ := List.mem_map.1 (greatest?_eq_some hnum hx).1
    obtain ⟨ht, hbucket⟩ := mem_orderedIn_kanban.1 ((s.orderedIn_perm .kanban target).mem_iff.2 ht)
    exact Position.hasRoom_of_lt (hsmall t ht hbucket).1 (hsmall t ht hbucket).2 hfew
  obtain ⟨hall, hpairwise⟩ := Position.behind_increasing hroom hfew
  refine ⟨fun key hkey => ⟨(hall key hkey).1, fun t ht hbucket => ?_⟩, hpairwise⟩
  have hmem : t.kanbanPosition ∈ (s.tasksIn .kanban target).map (·.kanbanPosition) :=
    List.mem_map_of_mem ((s.orderedIn_perm .kanban target).mem_iff.1
      (mem_orderedIn_kanban.2 ⟨ht, hbucket⟩))
  cases htail : greatest? ((s.tasksIn .kanban target).map (·.kanbanPosition)) with
  | none => simp [greatest?_eq_none.1 htail] at hmem
  | some x =>
    exact lt_of_le_of_lt ((greatest?_eq_some hnum htail).2 _ hmem) ((hall key hkey).2 x htail)

/-- The tasks that came stand behind those that were there, all of them in their old order. -/
theorem orderedIn_moveAllTasks (hs : s.Regular) (p : Project) (hne : target ≠ source)
    (hsmall : ∀ t ∈ s.tasks, t.bucketId = target → Double.ofInt (-2 ^ 60) < t.kanbanPosition ∧
      t.kanbanPosition < Double.ofInt (2 ^ 60))
    (hfew : (s.orderedIn .kanban source).length < 2 ^ 40) :
    (s.moveAllTasks p source target).orderedIn .kanban target =
      s.orderedIn .kanban target ++ (s.orderedIn .kanban source).map
        (s.rowBehind p source target) := by
  have hids := hs.tasks.nodup
  obtain ⟨hkeys, hincreasing⟩ := keysBehind_increasing hs hsmall hfew
  have hnum : ∀ t ∈ s.tasks, (t.key .kanban).isNaN = false :=
    fun t ht => (hs.taskRows t ht).2 .kanban
  have hnum' : ∀ t ∈ s.tasks.map (s.rowBehind p source target), (t.key .kanban).isNaN = false := by
    intro t ht
    obtain ⟨u, hu, rfl⟩ := List.mem_map.1 ht
    by_cases hsource : u.bucketId = source
    · obtain ⟨key, hkey, hrow⟩ := rowBehind_of_eq hids p target hu hsource
      rw [hrow, Task.key_stored, Double.isNaN_unsignZero]
      exact Double.isNaN_of_isFinite (hkeys key hkey).1
    · rw [rowBehind_of_ne hids p hu hsource]
      exact hnum u hu
  have hsorted : (s.orderedIn .kanban target ++
      (s.orderedIn .kanban source).map (s.rowBehind p source target)).Pairwise
        (·.spot .kanban < ·.spot .kanban) := by
    refine List.pairwise_append.2 ⟨orderedIn_increasing hids hnum target, ?_, ?_⟩
    · have hplaces := place_rowBehind hids p source target
      have hpairwise := List.pairwise_map.2 hincreasing
      rw [← hplaces, List.pairwise_map] at hpairwise
      exact hpairwise.imp fun h => spot_lt_iff.2 (.inl h)
    · intro t ht u hu
      obtain ⟨ht, hbucket⟩ := mem_orderedIn_kanban.1 ht
      obtain ⟨v, hv, rfl⟩ := List.mem_map.1 hu
      obtain ⟨hv, hsource⟩ := mem_orderedIn_kanban.1 hv
      obtain ⟨key, hkey, hrow⟩ := rowBehind_of_eq hids p target hv hsource
      rw [hrow, Task.spot_stored]
      exact spot_lt_iff.2 (.inl ((hkeys key hkey).2 t ht hbucket))
  obtain ⟨clock, hmoved⟩ := moveAllTasks_eq hids p source target
  rw [hmoved]
  refine orderedIn_eq hnum' ?_ hsorted
  -- Both lists have no task twice, and the same tasks.
  have hnodup : (s.tasks.map (s.rowBehind p source target)).Nodup := by
    refine List.Nodup.of_map (·.id) ?_
    rw [List.map_map]
    refine (List.map_congr_left fun t ht => ?_) ▸ hids
    by_cases hsource : t.bucketId = source
    · obtain ⟨key, -, hrow⟩ := rowBehind_of_eq hids p target ht hsource
      rw [Function.comp_apply, hrow]
      rfl
    · rw [Function.comp_apply, rowBehind_of_ne hids p ht hsource]
  refine (List.perm_ext_iff_of_nodup (hsorted.imp fun h heq => (heq ▸ h).false)
    (hnodup.filter _)).2 fun t => ?_
  rw [mem_tasksIn_rowBehind hids p hne, List.mem_append]

end Store

end Kanban
