import Kanban.Proofs.Position.Spread
import Kanban.Proofs.Store.Table
import Kanban.Proofs.Tasks.Order
import Kanban.Store.Direct

/-!
# Regular stores

The ids of every table were given out one after the other, and every key is a number and, if zero,
has no sign (`Store.Regular`).  The empty store is regular, and each of the writes to single rows
keeps a store regular as long as no key is written that is not a number.
-/

namespace Kanban

/-- Ids were given out one after the other, rows are as they are stored, and keys are numbers. -/
structure Store.Regular (s : Store) : Prop where
  users : Serial s.lastUser (s.users.map (·.id))
  projects : Serial s.lastProject (s.projects.map (·.id))
  buckets : Serial s.lastBucket (s.buckets.map (·.id))
  tasks : Serial s.lastTask (s.tasks.map (·.id))
  labels : Serial s.lastLabel (s.labels.map (·.id))
  bucketRows : ∀ b ∈ s.buckets, b.stored = b ∧ b.position.isNaN = false
  taskRows : ∀ t ∈ s.tasks, t.stored = t ∧ ∀ scope, (t.key scope).isNaN = false

@[simp] theorem Bucket.id_stored (b : Bucket) : b.stored.id = b.id := rfl

@[simp] theorem Bucket.projectId_stored (b : Bucket) : b.stored.projectId = b.projectId := rfl

@[simp] theorem Bucket.stored_stored (b : Bucket) : b.stored.stored = b.stored := by
  simp [Bucket.stored]

namespace Store.Regular

variable {s : Store}

theorem empty : Regular {} :=
  ⟨Serial.nil, Serial.nil, Serial.nil, Serial.nil, Serial.nil, by simp, by simp⟩

/-! ### New rows -/

private theorem serial_append {α : Type} {last : Nat} {key : α → Int} {rows : List α} {row : α}
    (h : Serial last (rows.map key)) (hrow : key row = last + 1) :
    Serial (last + 1) ((rows ++ [row]).map key) := by
  rw [List.map_append, List.map_singleton, hrow]
  exact h.append_next

theorem tick (h : s.Regular) : s.tick.Regular := { h with }

theorem addUser (h : s.Regular) (username name : String) : (s.addUser username name).2.Regular :=
  { h with users := serial_append h.users rfl }

theorem addProject (h : s.Regular) (title description : String) (ownerId : Int) :
    (s.addProject title description ownerId).2.Regular :=
  { h with projects := serial_append h.projects rfl }

theorem addBucket (h : s.Regular) {b : Bucket} (hb : b.position.isNaN = false) :
    (s.addBucket b).2.Regular :=
  { h with
    buckets := serial_append h.buckets rfl
    bucketRows := by
      intro x hx
      rcases List.mem_append.1 hx with hx | hx
      · exact h.bucketRows x hx
      · obtain rfl := List.mem_singleton.1 hx
        simp [Bucket.stored, hb] }

theorem addTask (h : s.Regular) {t : Task} (ht : ∀ scope, (t.key scope).isNaN = false) :
    (s.addTask t).2.Regular :=
  { h with
    tasks := serial_append h.tasks rfl
    taskRows := by
      intro x hx
      rcases List.mem_append.1 hx with hx | hx
      · exact h.taskRows x hx
      · obtain rfl := List.mem_singleton.1 hx
        refine ⟨by simp [Task.stored], ?_⟩
        rintro (_ | _)
        · simpa [Task.key, Task.stored] using ht .kanban
        · simpa [Task.key, Task.stored] using ht .list }

theorem addLabel (h : s.Regular) (title hexColor : String) (createdById : Int) :
    (s.addLabel title hexColor createdById).2.Regular :=
  { h with labels := serial_append h.labels rfl }

/-! ### Links and shares -/

theorem linkLabel (h : s.Regular) (taskId labelId : Int) :
    (s.linkLabel taskId labelId).Regular := by
  unfold Store.linkLabel
  split
  · exact h
  · exact { h with }

theorem putShare (h : s.Regular) (x : Share) : (s.putShare x).Regular := by
  unfold Store.putShare
  split <;> exact { h with }

/-! ### Changed rows -/

theorem setProject (h : s.Regular) (p : Project) : (s.setProject p).Regular :=
  { h with projects := by rw [Store.setProject, map_key_replace rfl]; exact h.projects }

theorem setBucket (h : s.Regular) {b : Bucket} (hb : b.position.isNaN = false) :
    (s.setBucket b).Regular :=
  { h with
    buckets := by rw [Store.setBucket, map_key_replace (Bucket.id_stored b)]; exact h.buckets
    bucketRows := by
      intro x hx
      rcases mem_replace.1 hx with ⟨hx, -⟩ | ⟨rfl, -⟩
      · exact h.bucketRows x hx
      · simp [Bucket.stored, hb] }

theorem setTask (h : s.Regular) {t : Task} (ht : ∀ scope, (t.key scope).isNaN = false) :
    (s.setTask t).Regular :=
  { h with
    tasks := by rw [Store.setTask, map_key_replace (Task.id_stored t)]; exact h.tasks
    taskRows := by
      intro x hx
      rcases mem_replace.1 hx with ⟨hx, -⟩ | ⟨rfl, -⟩
      · exact h.taskRows x hx
      · exact ⟨by simp, fun scope => by simpa using ht scope⟩ }

/-! ### Removed rows -/

theorem removeBucket (h : s.Regular) (id : Int) : (s.removeBucket id).Regular :=
  { h with
    buckets := h.buckets.sublist (List.filter_sublist.map _)
    bucketRows := fun b hb => h.bucketRows b (List.mem_of_mem_filter hb) }

theorem removeTask (h : s.Regular) (id : Int) : (s.removeTask id).Regular :=
  { h with
    tasks := h.tasks.sublist (List.filter_sublist.map _)
    taskRows := fun t ht => h.taskRows t (List.mem_of_mem_filter ht) }

/-! ### Direct writes -/

theorem editTask (h : s.Regular) {id : Int} {f : Task → Task}
    (hf : ∀ t ∈ s.tasks, t.id = id → ∀ scope, ((f t).key scope).isNaN = false) :
    (s.editTask id f).2.Regular := by
  unfold Store.editTask
  split
  · rename_i t ht
    obtain ⟨hmem, hid⟩ := (find?_key_eq_some h.tasks.nodup).1 ht
    exact h.setTask (hf t hmem hid)
  · exact h

private theorem editTask_row (h : s.Regular) {id : Int} {f : Task → Task}
    (hf : ∀ t scope, (f t).key scope = t.key scope) : (s.editTask id f).2.Regular :=
  h.editTask fun t ht _ scope => by rw [hf]; exact (h.taskRows t ht).2 scope

theorem editBucket (h : s.Regular) {id : Int} {f : Bucket → Bucket}
    (hf : ∀ b ∈ s.buckets, b.id = id → (f b).position.isNaN = false) :
    (s.editBucket id f).2.Regular := by
  unfold Store.editBucket
  split
  · rename_i b hb
    obtain ⟨hmem, hid⟩ := (find?_key_eq_some h.buckets.nodup).1 hb
    exact h.setBucket (hf b hmem hid)
  · exact h

theorem editProject (h : s.Regular) (id : Int) (f : Project → Project) :
    (s.editProject id f).2.Regular := by
  unfold Store.editProject
  split
  · exact h.setProject _
  · exact h

private theorem unlessNaN_eq_some {x : Double} {result r : Nat × Store}
    (h : unlessNaN x result = some r) :
    r = result ∧ (x.isNaN = false ∨ result.1 = 0) := by
  unfold unlessNaN at h
  split at h
  · simp at h
  · rename_i hx
    refine ⟨(Option.some.inj h).symm, ?_⟩
    cases hn : x.isNaN
    · exact .inl rfl
    · exact .inr (by simp only [hn, true_and] at hx; omega)

/-- A key that is not a number is written to no row. -/
private theorem editTask_key (h : s.Regular) {id : Int} {scope : Scope} {x : Double}
    (hx : x.isNaN = false ∨ (s.editTask id (·.withKey scope x)).1 = 0) :
    (s.editTask id (·.withKey scope x)).2.Regular := by
  rcases hx with hx | hx
  · refine h.editTask fun t ht _ other => ?_
    have hrow := (h.taskRows t ht).2
    cases scope <;> cases other
    exacts [hx, hrow .list, hrow .kanban, hx]
  · unfold Store.editTask at hx ⊢
    split at hx
    · simp at hx
    · exact h

/-- Direct writes keep a store regular. -/
theorem edit (h : s.Regular) {e : Edit} {r : Nat × Store} (hr : s.edit e = some r) :
    r.2.Regular := by
  cases e with
  | taskPosition id x =>
    obtain ⟨rfl, hx⟩ := unlessNaN_eq_some hr
    exact h.editTask_key hx
  | taskKanbanPosition id x =>
    obtain ⟨rfl, hx⟩ := unlessNaN_eq_some hr
    exact h.editTask_key hx
  | bucketPosition id x =>
    obtain ⟨rfl, hx⟩ := unlessNaN_eq_some hr
    rcases hx with hx | hx
    · exact h.editBucket fun _ _ _ => hx
    · unfold Store.editBucket at hx ⊢
      split at hx
      · simp at hx
      · exact h
  | taskBucket id bucketId =>
    obtain rfl := Option.some.inj hr
    exact h.editTask_row fun t scope => by cases scope <;> rfl
  | taskCreator id userId =>
    obtain rfl := Option.some.inj hr
    exact h.editTask_row fun t scope => by cases scope <;> rfl
  | bucketCreator id userId =>
    obtain rfl := Option.some.inj hr
    exact h.editBucket fun b hb _ => (h.bucketRows b hb).2
  | projectDefaultBucket id bucketId =>
    obtain rfl := Option.some.inj hr
    exact h.editProject _ _
  | projectDoneBucket id bucketId =>
    obtain rfl := Option.some.inj hr
    exact h.editProject _ _
  | removeBucket id =>
    obtain rfl := Option.some.inj hr
    exact h.removeBucket id
  | addLabel title hexColor =>
    obtain rfl := Option.some.inj hr
    exact h.addLabel title hexColor 1
  | linkLabel taskId labelId =>
    simp only [Store.edit] at hr
    split at hr
    · obtain rfl := Option.some.inj hr
      exact h.linkLabel taskId labelId
    · simp at hr
  | assign taskId userId =>
    simp only [Store.edit] at hr
    split at hr
    · obtain rfl := Option.some.inj hr
      exact { h with }
    · simp at hr
  | share projectId userId right =>
    simp only [Store.edit] at hr
    split at hr
    · obtain rfl := Option.some.inj hr
      exact h.putShare _
    · simp at hr

end Store.Regular

end Kanban
