import Kanban.Proofs.Store.Order
import Kanban.Tasks.Placement

/-!
# The order of the tasks in a scope

A task precedes another one in a scope if its key is smaller, or if the keys are equal and its id is
smaller (`Task.Precedes`).  Listing the tasks of a scope in order yields its one arrangement in
which every task precedes all later ones (`Store.orderedIn_increasing`, `Store.orderedIn_eq`).
-/

namespace Kanban

namespace Task

/-! ### Rows -/

@[simp] theorem id_stored (t : Task) : t.stored.id = t.id := rfl

@[simp] theorem projectId_stored (t : Task) : t.stored.projectId = t.projectId := rfl

@[simp] theorem bucketId_stored (t : Task) : t.stored.bucketId = t.bucketId := rfl

@[simp] theorem key_stored (t : Task) (scope : Scope) :
    t.stored.key scope = (t.key scope).unsignZero := by
  cases scope <;> rfl

@[simp] theorem stored_stored (t : Task) : t.stored.stored = t.stored := by
  simp [stored]

@[simp] theorem id_withKey (t : Task) (scope : Scope) (x : Double) :
    (t.withKey scope x).id = t.id := by
  cases scope <;> rfl

@[simp] theorem projectId_withKey (t : Task) (scope : Scope) (x : Double) :
    (t.withKey scope x).projectId = t.projectId := by
  cases scope <;> rfl

@[simp] theorem bucketId_withKey (t : Task) (scope : Scope) (x : Double) :
    (t.withKey scope x).bucketId = t.bucketId := by
  cases scope <;> rfl

@[simp] theorem key_withKey (t : Task) (scope : Scope) (x : Double) :
    (t.withKey scope x).key scope = x := by
  cases scope <;> rfl

/-! ### Order -/

/-- The task stands ahead of the other one: its key is smaller, or it has the smaller id. -/
def Precedes (scope : Scope) (t u : Task) : Prop :=
  t.key scope < u.key scope ∨ ¬u.key scope < t.key scope ∧ t.id < u.id

instance (scope : Scope) (t u : Task) : Decidable (t.Precedes scope u) :=
  inferInstanceAs (Decidable (_ ∨ ¬_ ∧ _))

/-- Where the task stands in the order of the scope. -/
def spot (scope : Scope) (t : Task) : Int ×ₗ Int := Kanban.spot (t.key scope) t.id

variable {scope : Scope} {t u : Task}

theorem precedes_iff_spot (ht : (t.key scope).isNaN = false) (hu : (u.key scope).isNaN = false) :
    t.Precedes scope u ↔ t.spot scope < u.spot scope := by
  simp only [Precedes, spot, spot_lt_iff, Double.lt_iff_place ht hu, Double.lt_iff_place hu ht]
  omega

@[simp] theorem spot_stored (t : Task) (scope : Scope) : t.stored.spot scope = t.spot scope := by
  simp [spot, Kanban.spot]

@[simp] theorem precedes_stored : t.Precedes scope u.stored ↔ t.Precedes scope u := by
  simp only [Precedes, key_stored, id_stored, Double.lt_unsignZero, Double.unsignZero_lt]

@[simp] theorem stored_precedes : t.stored.Precedes scope u ↔ t.Precedes scope u := by
  simp only [Precedes, key_stored, id_stored, Double.lt_unsignZero, Double.unsignZero_lt]

/-- Where a task stands depends on its key and its id only. -/
theorem precedes_congr {t' : Task} (hkey : t'.key scope = t.key scope) (hid : t'.id = t.id) :
    (t'.Precedes scope u ↔ t.Precedes scope u) ∧ (u.Precedes scope t' ↔ u.Precedes scope t) := by
  simp only [Precedes, hkey, hid, and_self]

end Task

namespace Place

@[simp] theorem contains_stored (p : Place) (t : Task) : p.contains t.stored = p.contains t := by
  rcases p with ⟨scope, id⟩
  cases scope <;> rfl

@[simp] theorem contains_withKey (p : Place) (t : Task) (scope : Scope) (x : Double) :
    p.contains (t.withKey scope x) = p.contains t := by
  rcases p with ⟨_ | _, id⟩ <;> simp [contains]

end Place

namespace Store

variable {s : Store}

theorem tasksIn_eq (s : Store) (p : Place) :
    s.tasksIn p.scope p.id = s.tasks.filter p.contains := by
  rcases p with ⟨_ | _, id⟩ <;> rfl

theorem orderedIn_perm (s : Store) (scope : Scope) (id : Int) :
    (s.orderedIn scope id).Perm (s.tasksIn scope id) :=
  List.mergeSort_perm _ _

theorem mem_orderedIn {p : Place} {t : Task} :
    t ∈ s.orderedIn p.scope p.id ↔ t ∈ s.tasks ∧ p.contains t = true := by
  rw [(s.orderedIn_perm p.scope p.id).mem_iff, tasksIn_eq, List.mem_filter]

theorem mem_tasks_of_mem_tasksIn {scope : Scope} {id : Int} {t : Task}
    (h : t ∈ s.tasksIn scope id) : t ∈ s.tasks := by
  cases scope <;> exact List.mem_of_mem_filter h

theorem tasksIn_sublist (s : Store) (scope : Scope) (id : Int) :
    (s.tasksIn scope id).Sublist s.tasks := by
  cases scope <;> exact List.filter_sublist

/-- No two tasks stand at one spot. -/
theorem nodup_spot {tasks : List Task} (h : (tasks.map (·.id)).Nodup) (scope : Scope) :
    (tasks.map (Task.spot scope)).Nodup := by
  rw [List.Nodup, List.pairwise_map] at h ⊢
  exact h.imp fun hne heq => hne (eq_of_spot_eq heq)

section

variable {scope : Scope} (hids : (s.tasks.map (·.id)).Nodup)
  (hnum : ∀ t ∈ s.tasks, (t.key scope).isNaN = false)

include hnum in
private theorem keyLe_tasksIn {id : Int} : ∀ t ∈ s.tasksIn scope id, ∀ u ∈ s.tasksIn scope id,
    keyLe (t.key scope) t.id (u.key scope) u.id = true ↔ t.spot scope ≤ u.spot scope :=
  fun _ ht _ hu =>
    keyLe_iff_spot (hnum _ (mem_tasks_of_mem_tasksIn ht)) (hnum _ (mem_tasks_of_mem_tasksIn hu))

include hids in
theorem nodup_orderedIn (scope : Scope) (id : Int) : ((s.orderedIn scope id).map (·.id)).Nodup :=
  ((s.orderedIn_perm scope id).map _).nodup_iff.2
    (hids.sublist ((s.tasksIn_sublist scope id).map _))

include hids hnum in
/-- Every listed task precedes all later ones. -/
theorem orderedIn_increasing (id : Int) :
    (s.orderedIn scope id).Pairwise (·.spot scope < ·.spot scope) :=
  increasing_mergeSort (keyLe_tasksIn hnum)
    (nodup_spot (hids.sublist ((s.tasksIn_sublist scope id).map _)) scope)

include hnum in
theorem orderedIn_eq {id : Int} {L : List Task} (hperm : L.Perm (s.tasksIn scope id))
    (h : L.Pairwise (·.spot scope < ·.spot scope)) : s.orderedIn scope id = L :=
  mergeSort_eq_of_increasing (keyLe_tasksIn hnum) hperm h

end

end Store

end Kanban
