import Kanban.Proofs.Buckets.Order
import Kanban.Proofs.Import.Grown

/-!
# The order of imported rows

An imported bucket stands last on the board of its project (`Store.bucketsOf_importedBucket`).
Tasks that were imported into a bucket or project without tasks stand in the order in which they
were added (`Store.Grown.orderedIn_eq`): their keys come from their ids, so they do not decrease,
and where they are equal the ids decide.
-/

namespace Kanban.Store

variable {s s' : Store}

/-! ### Ids not given out yet -/

theorem Fit.tasksIn_kanban_eq_nil (h : s.Fit) {id : Int} (hid : s.lastBucket < id) :
    s.tasksIn .kanban id = [] := by
  rw [tasksIn, List.filter_eq_nil_iff]
  intro t ht
  have := (h.tasks t ht).1
  rw [beq_iff_eq]
  omega

theorem Fit.tasksIn_list_eq_nil (h : s.Fit) {id : Int} (hid : s.lastProject < id) :
    s.tasksIn .list id = [] := by
  rw [tasksIn, List.filter_eq_nil_iff]
  intro t ht
  have := (h.tasks t ht).2
  rw [beq_iff_eq]
  omega

theorem Fit.bucketsOf_eq_nil (h : s.Fit) {id : Int} (hid : s.lastProject < id) :
    s.bucketsOf id = [] := by
  have hnone : s.buckets.filter (·.projectId == id) = [] := by
    rw [List.filter_eq_nil_iff]
    intro b hb
    have := h.buckets b hb
    rw [beq_iff_eq]
    omega
  rw [bucketsOf, hnone, List.mergeSort_nil]

theorem Fit.labelIdsOf_eq_nil (h : s.Fit) {id : Int} (hid : s.lastTask < id) :
    s.labelIdsOf id = [] := by
  rw [labelIdsOf, List.map_eq_nil_iff, List.filter_eq_nil_iff]
  intro k hk
  have := h.links k hk
  rw [beq_iff_eq]
  omega

/-! ### Buckets -/

/-- Without a given position, a bucket stands behind the others or where the last one stands. -/
theorem place_le_newBucketPosition (hs : s.Regular) {projectId : Int} {b : Bucket}
    (hb : b ∈ s.buckets) (hproject : b.projectId = projectId) :
    b.position.place ≤ (s.newBucketPosition projectId .zero).place := by
  have hmem : b.position ∈ (s.buckets.filter (·.projectId == projectId)).map (·.position) :=
    List.mem_map_of_mem (List.mem_filter.2 ⟨hb, beq_iff_eq.2 hproject⟩)
  have hnum : ∀ x ∈ (s.buckets.filter (·.projectId == projectId)).map (·.position),
      x.isNaN = false := fun x hx => by
    obtain ⟨c, hc, rfl⟩ := List.mem_map.1 hx
    exact (hs.bucketRows c (List.mem_of_mem_filter hc)).2
  rw [newBucketPosition, if_pos Double.isZero_zero]
  cases hgreatest : greatest? ((s.buckets.filter (·.projectId == projectId)).map (·.position)) with
  | none =>
    rw [greatest?_eq_none.1 hgreatest] at hmem
    cases hmem
  | some tail =>
    obtain ⟨htail, hle⟩ := greatest?_eq_some hnum hgreatest
    exact (hle _ hmem).trans (Position.place_le_allocate_tail (hnum tail htail))

/-- A bucket that is added without a given position stands last on the board of its project. -/
theorem bucketsOf_addBucket (hs : s.Regular) {b : Bucket}
    (hposition : b.position = s.newBucketPosition b.projectId .zero) (id : Int) :
    (s.addBucket b).2.bucketsOf id =
      s.bucketsOf id ++ [(s.addBucket b).1].filter (·.projectId == id) := by
  have hnum : b.position.isNaN = false := hposition ▸ isNaN_newBucketPosition hs Double.isNaN_zero
  refine bucketsOf_eq (hs.addBucket hnum) ?_ ?_
  · simp only [addBucket, List.filter_append]
    exact (s.bucketsOf_perm id).append_right _
  · refine List.pairwise_append.2
      ⟨bucketsOf_increasing hs id, (List.pairwise_singleton _ _).filter _, fun x hx y hy => ?_⟩
    obtain ⟨hy, hproject⟩ := List.mem_filter.1 hy
    obtain rfl := List.mem_singleton.1 hy
    obtain ⟨hx, hxproject⟩ := List.mem_filter.1 ((s.bucketsOf_perm id).mem_iff.1 hx)
    have hproject : b.projectId = id := beq_iff_eq.1 hproject
    have hplace := place_le_newBucketPosition hs hx ((beq_iff_eq.1 hxproject).trans hproject.symm)
    have hid := hs.buckets.le x.id (List.mem_map_of_mem hx)
    have hrow : (s.addBucket b).1.spot =
        spot (s.newBucketPosition b.projectId .zero) (s.lastBucket + 1) := by
      simp [Bucket.spot, Kanban.spot, addBucket, Bucket.stored, hposition]
    rw [hrow, Bucket.spot, spot_lt_iff]
    omega

variable {p : Project}

/-- An imported bucket stands last on the board. -/
theorem bucketsOf_importedBucket (hs : s.Regular) (owner : User) (i : BucketImport) :
    (s.addBucket (s.importedBucket p owner i)).2.bucketsOf p.id =
      s.bucketsOf p.id ++ [(s.addBucket (s.importedBucket p owner i)).1] := by
  have hrow : [(s.addBucket (s.importedBucket p owner i)).1].filter (·.projectId == p.id) =
      [(s.addBucket (s.importedBucket p owner i)).1] :=
    List.filter_cons_of_pos (beq_self_eq_true p.id)
  rw [bucketsOf_addBucket hs rfl, hrow]

/-! ### Tasks -/

variable {bucket project : Int} {index index' : LabelIndex}

/-- Where there was no task before, tasks stand in the order of the table. -/
theorem Grown.orderedIn_eq (h : Grown bucket project s index s' index') {scope : Scope} {id : Int}
    (hnone : s.tasksIn scope id = []) : s'.orderedIn scope id = s'.tasksIn scope id := by
  have hs' := h.fit.regular
  obtain ⟨new, htasks, hnew⟩ := h.tasks
  refine Store.orderedIn_eq (fun t ht => (hs'.taskRows t ht).2 scope) (.refl _) ?_
  rw [tasksIn_eq s ⟨scope, id⟩] at hnone
  rw [tasksIn_eq s' ⟨scope, id⟩, htasks.rows_eq, List.filter_append, hnone, List.nil_append]
  refine (htasks.growing.imp_of_mem fun {t u} ht hu hlt => ?_).filter _
  have hpos := (htasks.fresh t ht).1
  have hmono := Position.place_initial_mono (show 0 ≤ t.id by omega) hlt.le
  rw [Task.spot, Task.spot, spot_lt_iff, (hnew t ht).2.2, (hnew u hu).2.2]
  omega

/-- The order of a bucket up to the bound stays. -/
theorem Grown.orderedIn_kanban (h : Grown bucket project s index s' index') {id : Int}
    (hid : id ≤ bucket) :
    s'.orderedIn .kanban id = s.orderedIn .kanban id := by
  rw [orderedIn, h.tasksIn_kanban hid, orderedIn]

theorem Grown.orderedIn_list (h : Grown bucket project s index s' index') {id : Int}
    (hid : id ≤ project) :
    s'.orderedIn .list id = s.orderedIn .list id := by
  rw [orderedIn, h.tasksIn_list hid, orderedIn]

theorem Grown.bucketsOf (h : Grown bucket project s index s' index') {id : Int}
    (hid : id ≤ project) :
    s'.bucketsOf id = s.bucketsOf id := by
  rw [Store.bucketsOf, h.board hid, Store.bucketsOf]

end Kanban.Store
