import Mathlib.Data.List.Perm.Subperm
import Kanban.Listing.Query
import Kanban.Proofs.Success

/-!
# The tasks of a page and what belongs to them

The rows of a list and of a board are tasks of the project (`Store.mem_select`,
`Store.mem_boardTasks`), each at most once (`Store.boardTasks_subperm`).  Their labels and users are
looked up by statements that name every task, and every user once.  These are carried out exactly if
there are not too many of either (`Store.acceptDetails_eq`), and then they are for part of the tasks
as well (`Store.FitsStatements.mono`).
-/

namespace Kanban

variable {s : Store} {t : Task}

/-! ### Rows -/

theorem map_subperm {α β : Type} {l l' : List α} (f : α → β) (h : l.Subperm l') :
    (l.map f).Subperm (l'.map f) := by
  obtain ⟨rest, hperm, hsub⟩ := h
  exact ⟨rest.map f, hperm.map f, hsub.map f⟩

namespace BoardRow

theorem map_task_numbered (selected before rest : List Task) :
    (numbered selected before rest).map (·.task) = rest := by
  induction rest generalizing before with
  | nil => rfl
  | cons t rest ih => rw [numbered, List.map_cons, ih]

theorem returned_subperm (p : Page) (selected : List Task) :
    (returned p selected).Subperm (numbered selected [] selected) :=
  (List.mergeSort_perm _ _).subperm.trans List.filter_sublist.subperm

end BoardRow

namespace Store

theorem mem_select {projectId : Int} {plan : Plan} (ht : t ∈ s.select projectId plan) :
    t ∈ s.tasks ∧ t.projectId = projectId := by
  obtain ⟨hmem, hcond⟩ := List.mem_filter.1 ((List.mergeSort_perm _ _).mem_iff.1 ht)
  rw [Bool.and_eq_true, Bool.and_eq_true, beq_iff_eq] at hcond
  exact ⟨hmem, hcond.1.1⟩

theorem mem_selectAny {projectId : Int} {plans : List (Int × Plan)}
    (ht : t ∈ s.selectAny projectId plans) :
    t ∈ s.tasks ∧ t.projectId = projectId := by
  cases plans with
  | nil => simp [selectAny] at ht
  | cons plan plans =>
    obtain ⟨hmem, hcond⟩ := List.mem_filter.1 ((List.mergeSort_perm _ _).mem_iff.1 ht)
    rw [Bool.and_eq_true, Bool.and_eq_true, beq_iff_eq] at hcond
    exact ⟨hmem, hcond.1.1⟩

theorem selectAny_subperm (s : Store) (projectId : Int) (plans : List (Int × Plan)) :
    (s.selectAny projectId plans).Subperm s.tasks := by
  cases plans with
  | nil => exact List.nil_subperm
  | cons plan plans => exact (List.mergeSort_perm _ _).subperm.trans List.filter_sublist.subperm

theorem boardTasks_subperm (s : Store) (projectId : Int) (plans : List (Int × Plan)) :
    (s.boardTasks projectId plans).tasks.Subperm (s.selectAny projectId plans) := by
  cases plans with
  | nil => exact List.nil_subperm
  | cons plan plans =>
    have hrows :=
      map_subperm (·.task) (BoardRow.returned_subperm plan.2.page
        (s.selectAny projectId (plan :: plans)))
    rw [BoardRow.map_task_numbered] at hrows
    exact (List.filter_sublist.map _).subperm.trans hrows

theorem mem_boardTasks {projectId : Int} {plans : List (Int × Plan)}
    (ht : t ∈ (s.boardTasks projectId plans).tasks) :
    t ∈ s.tasks ∧ t.projectId = projectId :=
  mem_selectAny ((s.boardTasks_subperm projectId plans).subset ht)

end Store

/-! ### Statements for what belongs to tasks -/

theorem nodup_eraseDups (ids : List Int) : ids.eraseDups.Nodup := by
  cases ids with
  | nil => simp
  | cons i ids =>
    rw [List.eraseDups_cons, List.nodup_cons]
    exact ⟨by simp [List.mem_eraseDups], nodup_eraseDups _⟩
termination_by ids.length
decreasing_by
  rw [List.length_cons]
  exact Nat.lt_succ_of_le (List.length_filter_le ..)

namespace Store

/-- Neither the tasks nor their users are too many for one statement. -/
def FitsStatements (ds : List TaskDetail) : Prop :=
  ds.length ≤ Extent.maxPlaceholders ∧
  (ds.flatMap (·.userIds)).eraseDups.length ≤ Extent.maxPlaceholders

instance (ds : List TaskDetail) : Decidable (FitsStatements ds) :=
  inferInstanceAs (Decidable (_ ∧ _))

theorem acceptDetails_eq (ds : List TaskDetail) :
    acceptDetails ds = if FitsStatements ds then .ok () else .error .storage := by
  unfold acceptDetails acceptIds FitsStatements
  rw [List.length_map]
  by_cases htasks : ds.length ≤ Extent.maxPlaceholders
  · simp only [htasks, true_and]
    rfl
  · simp only [htasks, false_and, if_false]
    rfl

theorem FitsStatements.mono {ds ds' : List TaskDetail} (h : FitsStatements ds')
    (hsub : ds.Subperm ds') :
    FitsStatements ds := by
  have husers : (ds.flatMap (·.userIds)).eraseDups ⊆ (ds'.flatMap (·.userIds)).eraseDups := by
    intro i hi
    rw [List.mem_eraseDups, List.mem_flatMap] at hi ⊢
    obtain ⟨d, hd, hi⟩ := hi
    exact ⟨d, hsub.subset hd, hi⟩
  exact ⟨Nat.le_trans hsub.length_le h.1,
    Nat.le_trans ((nodup_eraseDups _).length_le_of_subset husers) h.2⟩

/-- Tasks of one creator that nobody is assigned to need no more room than for themselves. -/
theorem fitsStatements_iff {ds : List TaskDetail} {creator : Int}
    (halone : ∀ d ∈ ds, d.userIds = [creator]) :
    FitsStatements ds ↔ ds.length ≤ Extent.maxPlaceholders := by
  have husers : (ds.flatMap (·.userIds)).eraseDups ⊆ [creator] := fun i hi => by
    rw [List.mem_eraseDups, List.mem_flatMap] at hi
    obtain ⟨d, hd, hi⟩ := hi
    exact halone d hd ▸ hi
  refine ⟨And.left, fun h => ⟨h, ?_⟩⟩
  exact Nat.le_trans ((nodup_eraseDups _).length_le_of_subset husers)
    (show 1 ≤ Extent.maxPlaceholders by decide)

/-- A store with few tasks and few users never refuses a board for what belongs to its tasks. -/
theorem fitsStatements_boardTasks (h : FitsStatements (s.tasks.map s.detail)) (projectId : Int)
    (plans : List (Int × Plan)) :
    FitsStatements ((s.boardTasks projectId plans).tasks.map s.detail) :=
  h.mono (map_subperm s.detail
    ((s.boardTasks_subperm projectId plans).trans (s.selectAny_subperm projectId plans)))

end Store

end Kanban
