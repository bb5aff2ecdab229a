import Kanban.Proofs.Tasks.Steps

/-!
# Requests that are sent again

What a move or an update reads of the moved or updated task is settled once it has succeeded: the
task is in the bucket in which it is to be, it is done or open as it is to be, and the keys of the
neighbors leave room.  So the same request succeeds again, and changes nothing but the time of the
last change (`Operation.run_again`).
-/

namespace Kanban

/-- The task that the operation moves or updates. -/
def Operation.changedTask? : Operation → Option Int
  | updateTask _ task _ => some task
  | moveTask _ task _ => some task
  | _ => none

namespace Store

/-- The store after a change of a task that changes nothing but the time of the last change. -/
def touched (s : Store) (id : Int) : Store :=
  { s.tick with tasks := s.tasks.map fun t => if t.id == id then
    { t with updated := s.now } else t }

variable {s s' : Store} {p : Project} {t u v w : Task}

theorem setTask_touched (hids : (s.tasks.map (·.id)).Nodup) (ht : t ∈ s.tasks)
    (hu : u.stored = { t with updated := s.now }) : s.tick.setTask u = s.touched t.id := by
  have hid : u.stored.id = t.id := by rw [hu]
  rw [Task.id_stored] at hid
  unfold setTask touched
  congr 1
  refine List.map_congr_left fun x hx => ?_
  rw [hid, hu]
  split
  · rename_i heq
    rw [eq_of_key_eq hids hx ht (by simpa using heq)]
  · rfl

/-! ### Moves -/

theorem target_of_target {m : TaskMove} (h : u.bucketId = m.target t) :
    m.target u = m.target t := by
  unfold TaskMove.target at h ⊢
  rw [h]
  cases m.bucketId <;> rfl

/-- A task that is moved to the place where it is keeps all but the time of the last change. -/
theorem stored_moved_again {m : TaskMove} (htarget : m.target u.stored = u.bucketId) :
    (s.moved p u.stored m (u.key m.scope)).stored = { u.stored with updated := s.now } := by
  rw [moved_of_stays _ _ _ _ _ htarget]
  cases m.scope <;> simp [Task.stored, Task.withKey, Task.key]

/-- A place that was found for a task is found again once the task is there. -/
theorem place_again (hids : (s.tasks.map (·.id)).Nodup) {place : Place} {before after : Option Int}
    {key : Double} {placed : Store} (h : s.place place u.id before after = .ok (key, placed)) :
    (placed.tick.setTask u).place place u.id before after = .ok (key, placed.tick.setTask u) := by
  have hids' := nodup_place hids h
  obtain ⟨b, a, hkeys, hfound⟩ := keys_of_place h
  have hkeys' :=
    neighborKeys_congr hids' (nodup_setTask hids' u) (othersIn_setTask placed place u) hkeys
  exact place_eq_ok.2 ⟨b, a, hkeys', .inl ⟨hfound, rfl⟩⟩

/-- A task that was moved is moved to where it is. -/
theorem moveTask_again (hids : (s.tasks.map (·.id)).Nodup) {actor id : Int} {m : TaskMove}
    {d : TaskDetail} (h : s.moveTask actor id m = .ok (d, s')) :
    ∃ d', s'.moveTask actor id m = .ok (d', s'.touched id) := by
  obtain ⟨t, p, key, placed, ht, hp, -, hplace, -, rfl⟩ := moveTask_eq_ok.1 h
  obtain ⟨hmem, rfl⟩ := getTask_mem ht
  obtain ⟨r, hr⟩ : ∃ r, placed.moved p t m key = r := ⟨_, rfl⟩
  have hid : r.id = t.id := hr ▸ id_moved ..
  have hproject : r.projectId = t.projectId := hr ▸ projectId_moved ..
  have hbucket : r.bucketId = m.target t := hr ▸ bucketId_moved ..
  have hkey : r.key m.scope = key := hr ▸ key_moved ..
  rw [hr]
  have htarget : m.target r.stored = r.bucketId := (target_of_target hbucket).trans hbucket.symm
  have hrow := stored_mem_setTask (mem_tasks_place hids hplace hmem) hid
  have hids' := nodup_setTask (nodup_place hids hplace) r
  have hwrite : (placed.tick.setTask r).projectFor .write actor r.projectId = .ok p := by
    rw [hproject, ← hp, eq_of_place hids hplace]
    exact projectFor_congr rfl rfl
  rw [← hid] at hplace ⊢
  have hagain := place_again hids hplace
  rw [← hbucket, ← htarget] at hagain
  refine ⟨_, moveTask_eq_ok.2 ⟨r.stored, p, key, _, (getTask_eq_ok hids').2 ⟨hrow, rfl⟩, hwrite,
    .inl htarget, hagain, rfl, ?_⟩⟩
  rw [← hkey]
  exact (setTask_touched hids' hrow (stored_moved_again htarget)).symm

/-! ### Updates -/

/-- A value that was renewed stays the same when it is renewed again. -/
theorem renewed_again {α : Type} {new : Option α} {old y : α} {check : α → Except Failure α}
    (h : renewed new old check = .ok y) : renewed new y check = .ok y := by
  rcases renewed_eq_ok.1 h with ⟨rfl, rfl⟩ | ⟨x, rfl, hx⟩
  · rfl
  · exact hx

/-- Plain fields that were changed are changed to what they are, but for the sign of a zero. -/
theorem patched_again {patch : TaskUpdate} (h : t.patched patch = .ok v)
    (htitle : w.title = v.title) (hdescription : w.description = v.description)
    (hpriority : w.priority = v.priority) (hdue : w.dueDate = v.dueDate)
    (hpercent : w.percentDone = v.percentDone.unsignZero) :
    ∃ x, x.unsignZero = w.percentDone ∧ w.patched patch = .ok { w with percentDone := x } := by
  simp only [Task.patched, bind_eq_ok, Except.ok.injEq] at h
  obtain ⟨title, htitleOk, percent, hpercentOk, rfl⟩ := h
  obtain ⟨x, hx, hxOk⟩ : ∃ x, x.unsignZero = w.percentDone ∧
      renewed patch.percentDone w.percentDone Task.validPercent = .ok x := by
    rcases renewed_eq_ok.1 hpercentOk with ⟨hnone, rfl⟩ | ⟨y, hy, hok⟩
    · exact ⟨w.percentDone, by rw [hpercent, Double.unsignZero_unsignZero], by rw [hnone]; rfl⟩
    · exact ⟨percent, hpercent.symm, by rw [hy]; exact hok⟩
  refine ⟨x, hx, ?_⟩
  simp only [Task.patched, bind_eq_ok, Except.ok.injEq]
  refine ⟨w.title, ?_, x, hxOk, ?_⟩
  · rw [htitle]
    exact renewed_again htitleOk
  · have hdescription' : (patch.description <|> w.description) = w.description := by
      rw [hdescription]; cases patch.description <;> rfl
    have hdue' : (patch.dueDate <|> w.dueDate) = w.dueDate := by
      rw [hdue]; cases patch.dueDate <;> rfl
    have hpriority' : patch.priority.getD w.priority = w.priority := by
      rw [hpriority]; cases patch.priority <;> rfl
    rw [hdescription', hdue', hpriority']

/-- A task that is marked done or open differs at most in its bucket and its key there, and in the
mark and its time. -/
theorem exists_of_withDone {done : Bool} (h : s.withDone p v done = .ok u) :
    ∃ target doneAt x, s.bucketForDone p v done = .ok target ∧
      u = { v with bucketId := target, done, doneAt, kanbanPosition := x } := by
  simp only [withDone, bind_eq_ok] at h
  obtain ⟨target, htarget, h⟩ := h
  split at h
  · rename_i hstays
    obtain rfl := Except.ok.inj h
    subst hstays
    exact ⟨_, _, v.kanbanPosition, htarget, v.markDone_eq done s.now⟩
  · simp only [bind_eq_ok, Except.ok.injEq] at h
    obtain ⟨b, -, room, -, rfl⟩ := h
    rw [Task.enterBucket_eq]
    exact ⟨target, _, _, htarget, Task.markDone_eq _ _ _⟩

/-- The bucket for done or open tasks is so for the tasks that are already there. -/
theorem bucketForDone_again {done : Bool} {target : Int} (h : s.bucketForDone p v done = .ok target)
    (hw : w.bucketId = target) : s.bucketForDone p w done = .ok target := by
  unfold bucketForDone at h ⊢
  rw [hw]
  by_cases h0 : p.doneBucketId = 0
  · rw [if_pos h0]
  rw [if_neg h0] at h ⊢
  cases done with
  | true => exact h
  | false =>
    rw [if_neg Bool.false_ne_true] at h ⊢
    by_cases hin : v.bucketId = p.doneBucketId
    · rw [if_pos hin] at h
      rw [h, ite_self]
    · rw [if_neg hin] at h
      obtain rfl := Except.ok.inj h
      rw [if_neg hin]

/-- A task that is marked as it is to be, in the bucket for that, stays as it is. -/
theorem withDone_settled {done : Bool} (htarget : s.bucketForDone p w done = .ok w.bucketId)
    (hdone : w.done = done) :
    s.withDone p w done = .ok w := by
  unfold withDone
  rw [htarget]
  show (if w.bucketId = w.bucketId then Except.ok (w.markDone done s.now) else _) = _
  rw [if_pos rfl, Task.markDone_of_done hdone]

/-- A change of a task that was just made changes nothing any more but the sign of a zero. -/
theorem withPatch_again {patch : TaskUpdate} (h : s.withPatch p t patch = .ok u) {time : Instant}
    (hw : w = ({ u with updated := time } : Task).stored) (r : Task) :
    ∃ x, x.unsignZero = w.percentDone ∧ (s.tick.setTask r).withPatch p w patch =
      .ok { w with percentDone := x } := by
  simp only [withPatch, bind_eq_ok] at h ⊢
  obtain ⟨v, hv, h⟩ := h
  subst hw
  rcases renewed_eq_ok.1 h with ⟨hnone, rfl⟩ | ⟨done, hdone, h⟩
  · obtain ⟨x, hx, hpatched⟩ :=
      patched_again (w := ({ v with updated := time } : Task).stored) hv rfl rfl rfl rfl rfl
    exact ⟨x, hx, _, hpatched, renewed_eq_ok.2 (.inl ⟨hnone, rfl⟩)⟩
  · obtain ⟨target, doneAt, y, htarget, rfl⟩ := exists_of_withDone h
    let u : Task :=
      { v with bucketId := target, done, doneAt, kanbanPosition := y, updated := time }
    obtain ⟨x, hx, hpatched⟩ := patched_again (w := u.stored) hv rfl rfl rfl rfl rfl
    refine ⟨x, hx, _, hpatched, renewed_eq_ok.2 (.inr ⟨done, hdone, withDone_settled ?_ rfl⟩)⟩
    -- Which bucket is meant depends on the project and the buckets, which are the same.
    exact bucketForDone_again (s := s) htarget rfl

theorem stored_withPercent (hw : w.stored = w) {x : Double} (hx : x.unsignZero = w.percentDone)
    (time : Instant) :
    ({ w with percentDone := x, updated := time } : Task).stored = { w with updated := time } := by
  show ({ w.stored with percentDone := x.unsignZero, updated := time } : Task) = _
  rw [hw, hx]

/-- A task that was changed is changed to what it is. -/
theorem updateTask_again (hs : s.Regular) {actor id : Int} {patch : TaskUpdate} {d : TaskDetail}
    (h : s.updateTask actor id patch = .ok (d, s')) :
    ∃ d', s'.updateTask actor id patch = .ok (d', s'.touched id) := by
  obtain ⟨t, p, u, ht, hp, hu, -, rfl⟩ := updateTask_eq_ok.1 h
  obtain ⟨hmem, rfl⟩ := getTask_mem ht
  obtain ⟨hid, hproject, -, -⟩ := withPatch_eq_ok hs hmem hu
  let r : Task := { u with updated := s.now }
  have hids := nodup_setTask hs.tasks.nodup r
  have hrow : r.stored ∈ (s.tick.setTask r).tasks := stored_mem_setTask hmem hid
  obtain ⟨x, hx, hagain⟩ := withPatch_again hu rfl r
  have hwrite : (s.tick.setTask r).projectFor .write actor r.stored.projectId = .ok p := by
    rw [Task.projectId_stored, show r.projectId = t.projectId from hproject]
    exact hp
  refine ⟨_, updateTask_eq_ok.2 ⟨r.stored, p, _, (getTask_eq_ok hids).2 ⟨hrow, hid⟩, hwrite,
    hagain, rfl, ?_⟩⟩
  rw [← hid]
  exact (setTask_touched hids hrow (stored_withPercent r.stored_stored hx _)).symm

end Store

/-- A move or an update that succeeded succeeds again, and leaves all rows as they are but for the
time at which the task was last changed. -/
theorem Operation.run_again {s s' : Store} (hs : s.Reachable) {op : Operation} {id : Int}
    {setup : Setup} {a : Answer} (hop : op.changedTask? = some id)
    (h : op.run setup s = .ok (a, s')) :
    ∃ a', op.run setup s' = .ok (a', s'.touched id) := by
  cases op with
  | updateTask actor task patch =>
    obtain rfl := Option.some.inj hop
    simp only [Operation.run, bind_eq_ok, Prod.exists, Except.ok.injEq, Prod.mk.injEq] at h ⊢
    obtain ⟨d, placed, h, -, rfl⟩ := h
    obtain ⟨d', hagain⟩ := Store.updateTask_again hs.regular h
    exact ⟨_, d', _, hagain, rfl, rfl⟩
  | moveTask actor task m =>
    obtain rfl := Option.some.inj hop
    simp only [Operation.run, bind_eq_ok, Prod.exists, Except.ok.injEq, Prod.mk.injEq] at h ⊢
    obtain ⟨d, placed, h, -, rfl⟩ := h
    obtain ⟨d', hagain⟩ := Store.moveTask_again hs.regular.tasks.nodup h
    exact ⟨_, d', _, hagain, rfl, rfl⟩
  | _ => cases hop

/-- A board with a task in its first bucket and room for one task in the second one, that of done
tasks. -/
def Store.narrow : Store :=
  [.createUser { username := "ada" }, .createProject 1 { title := "Plan" },
    .createBucket 1 1 { title := "Done", limit := 1 },
    .updateProject 1 1 { doneBucketId := some 2 },
    .createTask 1 1 { title := "first", bucketId := some 1 }].foldl (Operation.after {}) {}

/-- The task is marked done, which fills the bucket of done tasks, and marked done again. -/
theorem Operation.run_again_narrow :
    ∃ a s' a', (Operation.updateTask 1 1 { done := some true }).run {} Store.narrow = .ok (a, s') ∧
      (s'.tasksIn .kanban 2).length = 1 ∧
      (Operation.updateTask 1 1 { done := some true }).run {} s' = .ok (a', s'.touched 1) := by
  let r := ((Operation.updateTask 1 1 { done := some true }).run {} Store.narrow).toOption.get
    (by decide +kernel)
  have hrun : (Operation.updateTask 1 1 { done := some true }).run {} Store.narrow = .ok r :=
    toOption_eq_some.1 (Option.some_get _).symm
  have hreach : Store.narrow.Reachable := Store.Reachable.empty.foldl_after {} _
  obtain ⟨a', hagain⟩ := Operation.run_again hreach rfl hrun
  exact ⟨r.1, r.2, a', hrun, by decide +kernel, hagain⟩

end Kanban
