import Kanban.Proofs.Operation.Buckets
import Kanban.Proofs.Tasks.Move

/-!
# What operations on tasks write

Every successful operation on tasks is a sequence of writes.  A task changes its bucket only for one
of its project (`Store.withPatch_eq_ok`, `Store.moveTask_writes`), and new keys are numbers.
-/

namespace Kanban.Store

variable {s s' : Store}

/-! ### New tasks -/

/-- A task with one key for both scopes. -/
theorem key_eq {t : Task} {x : Double} (hlist : t.position = x) (hkanban : t.kanbanPosition = x) :
    ∀ scope, t.key scope = x := by
  rintro (_ | _)
  exacts [hkanban, hlist]

/-- Inserting a task adds one to the bucket, with keys that grow with its id. -/
theorem insertTask_eq_ok {p : Project} {b : Bucket} {creator : User} {new : NewTask} {done : Bool}
    {t : Task} (h : s.insertTask p b creator new done = .ok (t, s')) :
    ∃ x : Task, x.projectId = p.id ∧ x.bucketId = b.id ∧
      (∀ scope, x.key scope = Position.initial (s.lastTask + 1) .zero) ∧ s.addTask x = (t, s') := by
  simp only [insertTask, bind_eq_ok, Except.ok.injEq] at h
  obtain ⟨title, -, percentDone, -, h⟩ := h
  exact ⟨_, rfl, rfl, key_eq rfl rfl, h⟩

theorem insertTask_writes {p : Project} {b : Bucket} {creator : User} {new : NewTask} {done : Bool}
    {t : Task} (hb : s.HasBucket p.id b.id) (h : s.insertTask p b creator new done = .ok (t, s')) :
    s.Write s' := by
  obtain ⟨x, hproject, hbucket, hkey, hadd⟩ := insertTask_eq_ok h
  have hwrite := Write.newTask (s := s) (t := x) (by rw [hproject, hbucket]; exact hb)
    (fun scope => by rw [hkey]; exact Position.isNaN_initial _)
  rwa [hadd] at hwrite

theorem createTask_writes {actor projectId : Int} {new : NewTask} {d : TaskDetail}
    (h : s.createTask actor projectId new = .ok (d, s')) : s.Writes s' := by
  simp only [createTask, bind_eq_ok, Prod.exists, Except.ok.injEq, Prod.mk.injEq] at h
  obtain ⟨p, -, creator, -, bucketId, -, b, hb, _, -, t, placed, ht, -, rfl⟩ := h
  obtain ⟨hmem, -, hproject⟩ := getBucket_eq_ok hb
  exact .single (insertTask_writes ⟨b, hmem, rfl, hproject⟩ ht)

theorem deleteTask_writes {actor id : Int} (h : s.deleteTask actor id = .ok s') : s.Writes s' := by
  simp only [deleteTask, bind_eq_ok, Except.ok.injEq] at h
  obtain ⟨t, -, p, -, rfl⟩ := h
  exact .single (.dropTask _)

/-! ### Changed tasks -/

theorem getTask_mem {id : Int} {t : Task} (h : s.getTask id = .ok t) : t ∈ s.tasks ∧ t.id = id := by
  unfold getTask at h
  split at h
  · rename_i u hu
    obtain rfl := Except.ok.inj h
    exact ⟨List.mem_of_find?_eq_some hu, by simpa using List.find?_some hu⟩
  · simp at h

theorem isNaN_key_withKey {t : Task} (ht : ∀ scope, (t.key scope).isNaN = false) (scope : Scope)
    {x : Double} (hx : x.isNaN = false) :
    ∀ other, ((t.withKey scope x).key other).isNaN = false := by
  rintro (_ | _) <;> cases scope
  exacts [hx, ht .kanban, ht .list, hx]

theorem isNaN_keyAtEnd (hs : s.Regular) (bucketId moving : Int) :
    (s.keyAtEnd bucketId moving).isNaN = false := by
  refine Position.isNaN_allocate_tail (isNaN_greatest? fun x hx => ?_)
  obtain ⟨t, ht, rfl⟩ := List.mem_map.1 hx
  exact (hs.taskRows t (mem_othersIn.1 ht).1).2 _

theorem taskPatched_eq_ok {t t' : Task} {patch : TaskUpdate} (h : t.patched patch = .ok t') :
    t'.id = t.id ∧ t'.projectId = t.projectId ∧ t'.bucketId = t.bucketId ∧ ∀ scope,
    t'.key scope = t.key scope := by
  simp only [Task.patched, bind_eq_ok, Except.ok.injEq] at h
  obtain ⟨title, -, percentDone, -, rfl⟩ := h
  exact ⟨rfl, rfl, rfl, fun scope => by cases scope <;> rfl⟩

theorem withDone_eq_ok (hs : s.Regular) {p : Project} {t t' : Task} {done : Bool}
    (ht : ∀ scope, (t.key scope).isNaN = false) (h : s.withDone p t done = .ok t') :
    t'.id = t.id ∧ t'.projectId = t.projectId ∧
    (t'.bucketId = t.bucketId ∨ s.HasBucket p.id t'.bucketId) ∧
      ∀ scope, (t'.key scope).isNaN = false := by
  simp only [withDone, bind_eq_ok] at h
  obtain ⟨target, -, h⟩ := h
  split at h
  · obtain rfl := Except.ok.inj h
    exact ⟨by simp, by simp, by simp, by simpa using ht⟩
  · simp only [bind_eq_ok, Except.ok.injEq] at h
    obtain ⟨b, hb, _, -, rfl⟩ := h
    refine ⟨by simp, by simp, .inr (by simpa using hasBucket_of_getBucket hb), fun scope => ?_⟩
    rw [Task.key_markDone, Task.key_enterBucket]
    exact isNaN_key_withKey ht .kanban (isNaN_keyAtEnd hs _ _) scope

/-- A changed task stays in its project, and in its bucket or another one of the project. -/
theorem withPatch_eq_ok (hs : s.Regular) {p : Project} {t t' : Task} {patch : TaskUpdate}
    (ht : t ∈ s.tasks) (h : s.withPatch p t patch = .ok t') :
    t'.id = t.id ∧ t'.projectId = t.projectId ∧
    (t'.bucketId = t.bucketId ∨ s.HasBucket p.id t'.bucketId) ∧
      ∀ scope, (t'.key scope).isNaN = false := by
  simp only [withPatch, bind_eq_ok] at h
  obtain ⟨u, hu, h⟩ := h
  obtain ⟨hid, hproject, hbucket, hkey⟩ := taskPatched_eq_ok hu
  have hnum : ∀ scope, (u.key scope).isNaN = false := fun scope => by
    rw [hkey]; exact (hs.taskRows t ht).2 scope
  rcases renewed_eq_ok.1 h with ⟨-, rfl⟩ | ⟨done, -, h⟩
  · exact ⟨hid, hproject, .inl hbucket, hnum⟩
  · obtain ⟨hid', hproject', hbucket', hnum'⟩ := withDone_eq_ok hs hnum h
    exact ⟨hid'.trans hid, hproject'.trans hproject, hbucket'.imp_left (·.trans hbucket), hnum'⟩

theorem updateTask_writes (hs : s.Regular) {actor id : Int} {patch : TaskUpdate} {d : TaskDetail}
    (h : s.updateTask actor id patch = .ok (d, s')) : s.Writes s' := by
  simp only [updateTask, bind_eq_ok, Except.ok.injEq, Prod.mk.injEq] at h
  obtain ⟨t, ht, p, hp, t', ht', -, rfl⟩ := h
  obtain ⟨hmem, -⟩ := getTask_mem ht
  obtain ⟨hid, hproject, hbucket, hnum⟩ := withPatch_eq_ok hs hmem ht'
  refine .tail (.single .clock) (.task hmem hid hproject (hbucket.imp_right ?_) ?_)
  · intro hb
    rw [(mem_of_projectFor hp).2, ← hproject] at hb
    exact hb
  · rintro (_ | _)
    exacts [hnum .kanban, hnum .list]

/-! ### Moved tasks -/

theorem assignKeys_writes (hs : s.Regular) {scope : Scope} {keys : List (Int × Double)}
    (hkeys : ∀ k ∈ keys, k.2.isNaN = false) : s.Writes (s.assignKeys scope keys) := by
  induction keys generalizing s with
  | nil => exact .refl
  | cons k keys ih =>
    have hstep : s.Writes (s.assignKey scope k.1 k.2) := by
      unfold assignKey
      split
      · rename_i t ht
        have hmem := List.mem_of_find?_eq_some ht
        refine .single (.task hmem (by simp) (by simp) (by simp) ?_)
        exact isNaN_key_withKey (hs.taskRows t hmem).2 scope (hkeys k (List.mem_cons_self ..))
      · exact .refl
    exact hstep.trans (ih (hstep.regular hs) fun k hk => hkeys k (List.mem_cons_of_mem _ hk))

theorem place_writes (hs : s.Regular) {place : Place} {moving : Int} {before after : Option Int}
    {key : Double} (h : s.place place moving before after = .ok (key, s')) :
    s.Writes s' ∧ key.isNaN = false := by
  obtain ⟨b, a, -, ⟨hkey, rfl⟩ | ⟨-, rfl, b', a', -, hkey⟩⟩ := place_eq_ok.1 h
  · exact ⟨.refl, Double.isNaN_of_isFinite (keyBetween?_eq_some hkey).1⟩
  · refine ⟨assignKeys_writes hs fun k hk => ?_,
      Double.isNaN_of_isFinite (keyBetween?_eq_some hkey).1⟩
    exact Position.isNaN_rebalanced _ (List.of_mem_zip hk).2

theorem isNaN_key_moved (hs : s.Regular) {p : Project} {t : Task} {m : TaskMove} {key : Double}
    (ht : ∀ scope, (t.key scope).isNaN = false) (hkey : key.isNaN = false) :
    ∀ scope, ((s.moved p t m key).key scope).isNaN = false := by
  have hupdated : ∀ (u : Task) (i : Instant) (scope : Scope),
      ({ u with updated := i } : Task).key scope = u.key scope := by
    intro u i scope; cases scope <;> rfl
  have hnew := isNaN_key_withKey ht m.scope hkey
  intro scope
  simp only [moved, rehoused, hupdated]
  split
  · exact hnew scope
  · rw [Task.key_enterBucket]
    split
    · exact hnew scope
    · exact isNaN_key_withKey hnew .kanban (isNaN_keyAtEnd hs _ _) scope

theorem moveTask_writes (hs : s.Regular) {actor id : Int} {m : TaskMove} {d : TaskDetail}
    (h : s.moveTask actor id m = .ok (d, s')) : s.Writes s' := by
  obtain ⟨t, p, key, placed, ht, hp, hentry, hplace, -, rfl⟩ := moveTask_eq_ok.1 h
  obtain ⟨hmem, -⟩ := getTask_mem ht
  obtain ⟨hwrites, hkey⟩ := place_writes hs hplace
  have hs' := hwrites.regular hs
  have hbuckets : placed.buckets = s.buckets := by rw [eq_of_place hs.tasks.nodup hplace]
  have hrow : t ∈ placed.tasks := mem_tasks_place hs.tasks.nodup hplace hmem
  refine .tail (hwrites.tail .clock) (.task (s := placed.tick) hrow (by simp) (by simp) ?_
    (isNaN_key_moved hs' (hs.taskRows t hmem).2 hkey))
  rw [projectId_moved, bucketId_moved]
  rcases hentry with heq | ⟨b, hb, -⟩
  · exact .inl heq
  · obtain ⟨x, hx, hid, hproject⟩ := hasBucket_of_getBucket hb
    exact .inr ⟨x, hbuckets ▸ hx, hid, hproject.trans (mem_of_projectFor hp).2⟩

end Kanban.Store
