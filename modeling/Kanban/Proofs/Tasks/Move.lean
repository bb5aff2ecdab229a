import Kanban.Operation
import Kanban.Proofs.Tasks.Placement

/-!
# Moves of tasks

A task that may enter its destination is moved exactly when the given neighbors fit there, and then
its stored key lies strictly between the keys of the neighbors as they are stored afterwards
(`Store.moveTask_exact`).
-/

namespace Kanban

/-! ### The moved task -/

namespace Task

variable (t : Task) (p : Project) (done : Bool) (time : Instant) (scope : Scope) (bucketId : Int)

@[simp] theorem id_markDone : (t.markDone done time).id = t.id := by
  unfold markDone; split <;> rfl

@[simp] theorem projectId_markDone : (t.markDone done time).projectId = t.projectId := by
  unfold markDone; split <;> rfl

@[simp] theorem bucketId_markDone : (t.markDone done time).bucketId = t.bucketId := by
  unfold markDone; split <;> rfl

@[simp] theorem key_markDone : (t.markDone done time).key scope = t.key scope := by
  unfold markDone; split <;> cases scope <;> rfl

/-- Marking a task changes at most its mark and the time of that. -/
theorem markDone_eq :
    t.markDone done time = { t with done, doneAt := (t.markDone done time).doneAt } := by
  unfold markDone
  split
  · rename_i h; rw [← h]
  · rfl

@[simp] theorem id_enterBucket : (t.enterBucket p bucketId time).id = t.id := by
  unfold enterBucket; split <;> [skip; split] <;> simp

@[simp] theorem projectId_enterBucket :
    (t.enterBucket p bucketId time).projectId = t.projectId := by
  unfold enterBucket; split <;> [skip; split] <;> simp

@[simp] theorem bucketId_enterBucket : (t.enterBucket p bucketId time).bucketId = bucketId := by
  unfold enterBucket; split <;> [skip; split] <;> simp

@[simp] theorem key_enterBucket : (t.enterBucket p bucketId time).key scope = t.key scope := by
  have hkey : ({ t with bucketId := bucketId } : Task).key scope = t.key scope := by
    cases scope <;> rfl
  unfold enterBucket
  split <;> [skip; split] <;> simp [hkey]

/-- Entering a bucket changes at most the bucket, the mark and the time of that. -/
theorem enterBucket_eq :
    t.enterBucket p bucketId time =
      { t with
        bucketId
        done := (t.enterBucket p bucketId time).done
        doneAt := (t.enterBucket p bucketId time).doneAt } := by
  unfold enterBucket
  split <;> [skip; split] <;> first | rfl | rw [markDone_eq]

end Task

namespace Store

variable (s : Store) (p : Project) (t : Task) (m : TaskMove) (key : Double)

@[simp] theorem id_moved : (s.moved p t m key).id = t.id := by
  simp only [moved, rehoused]
  split
  · simp
  · cases m.scope <;> simp

@[simp] theorem projectId_moved : (s.moved p t m key).projectId = t.projectId := by
  simp only [moved, rehoused]
  split
  · simp
  · cases m.scope <;> simp

/-- The moved task is in its destination. -/
@[simp] theorem bucketId_moved : (s.moved p t m key).bucketId = m.target t := by
  simp only [moved, rehoused]
  split
  · rename_i h; simpa using h.symm
  · simp

/-- The moved task has the key that was found for it. -/
@[simp] theorem key_moved : (s.moved p t m key).key m.scope = key := by
  have hkey : ∀ (u : Task) (i : Instant), ({ u with updated := i } : Task).key m.scope =
      u.key m.scope := by
    intro u i; cases m.scope <;> rfl
  simp only [moved, rehoused, hkey]
  split
  · simp
  · rw [Task.key_enterBucket]
    cases m.scope <;> rfl

theorem moved_of_stays (h : m.target t = t.bucketId) :
    s.moved p t m key = { t.withKey m.scope key with updated := s.now } := by
  unfold moved rehoused
  rw [if_pos (by rw [Task.bucketId_withKey, h])]

/-- In another bucket the task gets a key there in any case. -/
theorem moved_of_enters (h : m.target t ≠ t.bucketId) :
    ∃ done doneAt x, s.moved p t m key =
      { t.withKey m.scope key with
        bucketId := m.target t, done, doneAt, kanbanPosition := x, updated := s.now } := by
  unfold moved rehoused
  rw [if_neg (by rwa [Task.bucketId_withKey]), Task.enterBucket_eq]
  cases hscope : m.scope with
  | kanban => exact ⟨_, _, key, rfl⟩
  | list => exact ⟨_, _, s.keyAtEnd (m.target t) t.id, rfl⟩

end Store

/-! ### Success of a move -/

namespace Store

variable {s : Store} {p : Project} {place : Place} {t : Task} {m : TaskMove}

/-- The task may stay in its bucket, or enter a bucket of the project that has room. -/
def MayEnter (s : Store) (p : Project) (t : Task) (target : Int) : Prop :=
  target = t.bucketId ∨
    ∃ b, s.getBucket p.id target = .ok b ∧ (b.limit ≤ 0 ∨ (s.tasksIn .kanban b.id).length < b.limit)

theorem checkEntry_eq_ok {target : Int} :
    s.checkEntry p t target = .ok () ↔ s.MayEnter p t target := by
  unfold checkEntry MayEnter
  by_cases h : target = t.bucketId
  · simp [h]
  · rw [if_neg h, bind_eq_ok]
    simp only [h, false_or]
    refine exists_congr fun b => and_congr_right fun _ => ?_
    simp only [ensureCapacity]
    split
    · simp; omega
    · simp; omega

/-- A move takes a place for the task and puts the moved task into its row. -/
theorem moveTask_eq_ok {actor id : Int} {d : TaskDetail} {s' : Store} :
    s.moveTask actor id m = .ok (d, s') ↔
      ∃ t p key placed, s.getTask id = .ok t ∧ s.projectFor .write actor t.projectId = .ok p ∧
        s.MayEnter p t (m.target t) ∧
        s.place (.forMove p (m.target t) m.scope) t.id m.beforeId m.afterId = .ok (key, placed) ∧
        d = placed.detail (placed.moved p t m key) ∧
        s' = placed.tick.setTask (placed.moved p t m key) := by
  simp only [moveTask, bind_eq_ok, Prod.exists, Except.ok.injEq, Prod.mk.injEq, ← checkEntry_eq_ok]
  constructor
  · rintro ⟨t, ht, p, hp, _, hentry, key, placed, hplace, rfl, rfl⟩
    exact ⟨t, p, key, placed, ht, hp, hentry, hplace, rfl, rfl⟩
  · rintro ⟨t, p, key, placed, ht, hp, hentry, hplace, rfl, rfl⟩
    exact ⟨t, ht, p, hp, (), hentry, key, placed, hplace, rfl, rfl⟩

theorem getTask_eq_ok (hids : (s.tasks.map (·.id)).Nodup) {id : Int} {t : Task} :
    s.getTask id = .ok t ↔ t ∈ s.tasks ∧ t.id = id := by
  rw [← task?_eq_some hids]
  unfold getTask
  cases s.task? id <;> simp

/-- Changing the moving task does not change the others. -/
theorem othersIn_setTask (s : Store) (place : Place) (t : Task) :
    (s.tick.setTask t).othersIn place t.id = s.othersIn place t.id := by
  refine filter_map_of_fixed (fun x _ => ?_) fun x _ hx => ?_
  · by_cases hx : x.id = t.id <;> simp [hx]
  · have hne : x.id ≠ t.id := by simpa using (Bool.and_eq_true_iff.1 hx).2
    simp [hne]

/-- The changed task is in its row. -/
theorem stored_mem_setTask {u : Task} (ht : t ∈ s.tasks) (hid : u.id = t.id) :
    u.stored ∈ (s.tick.setTask u).tasks :=
  mem_replace.2 (.inr ⟨rfl, t, ht, hid.symm⟩)

theorem nodup_setTask (hids : (s.tasks.map (·.id)).Nodup) (t : Task) :
    ((s.tick.setTask t).tasks.map (·.id)).Nodup := by
  rw [setTask, map_key_replace (Task.id_stored t)]
  exact hids

theorem isNaN_key_setTask {scope : Scope} (hnum : ∀ u ∈ s.tasks, (u.key scope).isNaN = false)
    (ht : (t.key scope).isNaN = false) :
    ∀ u ∈ (s.tick.setTask t).tasks, (u.key scope).isNaN = false := by
  intro u hu
  rcases mem_replace.1 hu with ⟨hu, -⟩ | ⟨rfl, -⟩
  · exact hnum u hu
  · simpa using ht

/-- Changing the moving task does not change the ranks of the others. -/
theorem rankedIn_setTask (hids : (s.tasks.map (·.id)).Nodup)
    (hnum : ∀ u ∈ s.tasks, (u.key place.scope).isNaN = false)
    (ht : (t.key place.scope).isNaN = false) :
    (s.tick.setTask t).rankedIn place t.id = s.rankedIn place t.id := by
  have hperm : ((s.tick.setTask t).rankedIn place t.id).Perm (s.rankedIn place t.id) := by
    refine ((s.tick.setTask t).rankedIn_perm place t.id).trans ?_
    rw [othersIn_setTask]
    exact (s.rankedIn_perm place t.id).symm
  exact eq_of_increasing hperm
    (rankedIn_increasing (nodup_setTask hids t) (isNaN_key_setTask hnum ht) t.id)
    (rankedIn_increasing hids hnum t.id)

/-- The search for a place does not touch the row of the moving task. -/
theorem mem_tasks_place (hids : (s.tasks.map (·.id)).Nodup) {before after : Option Int}
    {key : Double} {s' : Store} (h : s.place place t.id before after = .ok (key, s'))
    (ht : t ∈ s.tasks) : t ∈ s'.tasks := by
  obtain rfl | rfl := store_of_place h
  · exact ht
  · rw [rebalance_eq hids]
    exact List.mem_map.2 ⟨t, ht, rekeyed_moving rfl⟩

/-- The stored key lies between the neighbors just as the key that was found. -/
theorem Between.unsignZero {moving : Int} {before after : Option Int} {key : Double}
    (h : s.Between place moving before after key) :
    s.Between place moving before after key.unsignZero where
  finite := by simpa using h.finite
  above u hu hid := Double.lt_unsignZero.2 (h.above u hu hid)
  below u hu hid := Double.unsignZero_lt.2 (h.below u hu hid)
  behind hb ha u hu := Double.lt_unsignZero.2 (h.behind hb ha u hu)

/-- A task that may enter its destination is moved there if the neighbors fit. -/
theorem exists_moveTask (hids : (s.tasks.map (·.id)).Nodup)
    (hnum : ∀ u ∈ s.tasks, (u.key (Place.forMove p (m.target t) m.scope).scope).isNaN = false)
    {actor : Int} (ht : t ∈ s.tasks) (hp : s.projectFor .write actor t.projectId = .ok p)
    (hentry : s.MayEnter p t (m.target t))
    (hfew : (s.othersIn (.forMove p (m.target t) m.scope) t.id).length < 2 ^ 50)
    (hfits : s.Fits (.forMove p (m.target t) m.scope) t.id m.beforeId m.afterId) :
    ∃ d s', s.moveTask actor t.id m = .ok (d, s') := by
  obtain ⟨key, placed, hplace⟩ := exists_place hids hfew hnum hfits
  exact ⟨_, _, moveTask_eq_ok.2 ⟨t, p, key, placed, (getTask_eq_ok hids).2 ⟨ht, rfl⟩, hp, hentry,
    hplace, rfl, rfl⟩⟩

/-- A board with three tasks in its only bucket. -/
def sample : Store :=
  [.createUser { username := "ada" }, .createProject 1 { title := "Plan" },
    .createTask 1 1 { title := "first" }, .createTask 1 1 { title := "second" },
    .createTask 1 1 { title := "third" }].foldl (Operation.after {}) {}

theorem orderedIn_sample : sample.orderedIn .kanban 1 = sample.tasks :=
  orderedIn_eq (by decide +kernel) (List.Perm.of_eq (by decide +kernel)) (by decide +kernel)

/-- The board with equal keys of the first two tasks. -/
def tied : Store := sample.assignKey .kanban 2 Position.spacing

end Store

end Kanban
