import Kanban.Proofs.Access.View
import Kanban.Proofs.Position.Finite
import Kanban.Proofs.Tasks.Steps

/-!
# Stored keys are finite

Keys that are not checked before they are written were made of finite keys and of ids, so they are
finite as long as ids are below `2 ^ 63` (`Store.KeepsFinite`).  Answers show rows as they are in
the store after the operation (`Operation.run_shownIn`).  So no operation ever stores or answers a
key that is not finite (`Store.Reachable.isFinite_keys`).
-/

namespace Kanban

namespace Store

/-- All keys of buckets and tasks are finite. -/
structure FiniteKeys (s : Store) : Prop where
  buckets : ∀ b ∈ s.buckets, b.position.isFinite = true
  tasks : ∀ t ∈ s.tasks, ∀ scope, (t.key scope).isFinite = true

/-- The ids given out to buckets and tasks so far are below `2 ^ 63`. -/
structure IdsFit (s : Store) : Prop where
  buckets : s.lastBucket < 2 ^ 63
  tasks : s.lastTask < 2 ^ 63

/-- Ids are not taken back, and finite keys stay finite if ids fit. -/
structure KeepsFinite (s s' : Store) : Prop where
  lastBucket : s.lastBucket ≤ s'.lastBucket
  lastTask : s.lastTask ≤ s'.lastTask
  keys : s'.IdsFit → s.FiniteKeys → s'.FiniteKeys

variable {s s' s'' : Store}

/-! ### Keys made of others -/

theorem isFinite_greatest? {xs : List Double} (h : ∀ x ∈ xs, x.isFinite = true) :
    ∀ x, greatest? xs = some x → x.isFinite = true := fun _ hx =>
  h _ (greatest?_eq_some (fun y hy => Double.isNaN_of_isFinite (h y hy)) hx).1

theorem FiniteKeys.keyAtEnd (h : s.FiniteKeys) (bucketId moving : Int) :
    (s.keyAtEnd bucketId moving).isFinite = true := by
  refine Position.isFinite_allocate_tail (isFinite_greatest? fun x hx => ?_)
  obtain ⟨t, ht, rfl⟩ := List.mem_map.1 hx
  exact h.tasks t (mem_othersIn.1 ht).1 _

theorem FiniteKeys.newBucketPosition (h : s.FiniteKeys) (hid : s.lastBucket + 1 < 2 ^ 63)
    {projectId : Int} {given : Double} (hgiven : given.isFinite = true) :
    (s.newBucketPosition projectId given).isFinite = true := by
  unfold Store.newBucketPosition
  split
  · split
    · rename_i tail htail
      refine Position.isFinite_add_spacing (isFinite_greatest? (fun x hx => ?_) tail htail)
      obtain ⟨b, hb, rfl⟩ := List.mem_map.1 hx
      exact h.buckets b (List.mem_of_mem_filter hb)
    · exact Position.isFinite_initial (by omega)
  · exact hgiven

theorem isFinite_validPosition {x y : Double} (h : Bucket.validPosition x = .ok y) :
    y.isFinite = true := by
  unfold Bucket.validPosition at h
  split at h
  · obtain rfl := Except.ok.inj h
    assumption
  · cases h

theorem isFinite_key_withKey {t : Task} (ht : ∀ scope, (t.key scope).isFinite = true)
    (scope : Scope) {x : Double} (hx : x.isFinite = true) :
    ∀ other, ((t.withKey scope x).key other).isFinite = true := by
  rintro (_ | _) <;> cases scope
  exacts [hx, ht .kanban, ht .list, hx]

/-! ### Written rows -/

namespace KeepsFinite

theorem refl (s : Store) : s.KeepsFinite s := ⟨le_rfl, le_rfl, fun _ h => h⟩

theorem trans (h : s.KeepsFinite s') (h' : s'.KeepsFinite s'') : s.KeepsFinite s'' where
  lastBucket := h.lastBucket.trans h'.lastBucket
  lastTask := h.lastTask.trans h'.lastTask
  keys fit hs :=
    h'.keys fit (h.keys ⟨h'.lastBucket.trans_lt fit.buckets, h'.lastTask.trans_lt fit.tasks⟩ hs)

/-- No other id is given out. -/
theorem of_last (hbucket : s'.lastBucket = s.lastBucket) (htask : s'.lastTask = s.lastTask)
    (hkeys : s'.IdsFit → s.FiniteKeys → s'.FiniteKeys) : s.KeepsFinite s' :=
  ⟨hbucket.ge, htask.ge, hkeys⟩

/-- The tables of buckets and tasks are the same. -/
theorem of_tables (hbucket : s'.lastBucket = s.lastBucket) (htask : s'.lastTask = s.lastTask)
    (hbuckets : s'.buckets = s.buckets) (htasks : s'.tasks = s.tasks) : s.KeepsFinite s' :=
  of_last hbucket htask fun _ h => ⟨hbuckets ▸ h.buckets, htasks ▸ h.tasks⟩

theorem addBucket {b : Bucket}
    (hb : s.lastBucket + 1 < 2 ^ 63 → s.FiniteKeys → b.position.isFinite = true) :
    s.KeepsFinite (s.addBucket b).2 where
  lastBucket := Nat.le_succ _
  lastTask := le_rfl
  keys fit h := by
    refine ⟨fun x hx => ?_, h.tasks⟩
    rcases List.mem_append.1 hx with hx | hx
    · exact h.buckets x hx
    · obtain rfl := List.mem_singleton.1 hx
      rw [← Double.isFinite_unsignZero] at hb
      exact hb fit.buckets h

theorem addTask {t : Task} (ht : s.lastTask + 1 < 2 ^ 63 → ∀ scope, (t.key scope).isFinite = true) :
    s.KeepsFinite (s.addTask t).2 where
  lastBucket := le_rfl
  lastTask := Nat.le_succ _
  keys fit h := by
    refine ⟨h.buckets, fun x hx => ?_⟩
    rcases List.mem_append.1 hx with hx | hx
    · exact h.tasks x hx
    · obtain rfl := List.mem_singleton.1 hx
      rintro (_ | _)
      · exact (Double.isFinite_unsignZero _).trans (ht fit.tasks .kanban)
      · exact (Double.isFinite_unsignZero _).trans (ht fit.tasks .list)

end KeepsFinite

theorem FiniteKeys.setBucket (h : s.FiniteKeys) {b : Bucket} (hb : b.position.isFinite = true) :
    (s.setBucket b).FiniteKeys := by
  refine ⟨fun x hx => ?_, h.tasks⟩
  rcases mem_replace.1 hx with ⟨hx, -⟩ | ⟨rfl, -⟩
  · exact h.buckets x hx
  · exact (Double.isFinite_unsignZero _).trans hb

theorem FiniteKeys.setTask (h : s.FiniteKeys) {t : Task}
    (ht : ∀ scope, (t.key scope).isFinite = true) :
    (s.setTask t).FiniteKeys := by
  refine ⟨h.buckets, fun x hx scope => ?_⟩
  rcases mem_replace.1 hx with ⟨hx, -⟩ | ⟨rfl, -⟩
  · exact h.tasks x hx scope
  · rw [Task.key_stored, Double.isFinite_unsignZero]
    exact ht scope

/-! ### Projects and buckets -/

theorem insertBucket_keepsFinite {projectId : Int} {new : NewBucket} {creator : User} {b : Bucket}
    (h : s.insertBucket projectId new creator = .ok (b, s')) : s.KeepsFinite s' := by
  simp only [insertBucket, bind_eq_ok, Except.ok.injEq] at h
  obtain ⟨title, -, limit, -, given, hgiven, h⟩ := h
  obtain ⟨-, rfl⟩ := Prod.mk.inj h
  exact .addBucket fun hid hs => hs.newBucketPosition hid (isFinite_validPosition hgiven)

theorem addProject_keepsFinite (s : Store) (title description : String) (ownerId : Int) :
    s.KeepsFinite (s.addProject title description ownerId).2 := .of_tables rfl rfl rfl rfl

theorem createProject_keepsFinite {actor : Int} {new : NewProject} {p : Project}
    (h : s.createProject actor new = .ok (p, s')) : s.KeepsFinite s' := by
  obtain ⟨owner, title, b, -, hb⟩ := createProject_eq_ok h
  exact (addProject_keepsFinite s title new.description owner.id).trans
    (insertBucket_keepsFinite hb)

theorem createBucket_keepsFinite {actor projectId : Int} {new : NewBucket} {d : BucketDetail}
    (h : s.createBucket actor projectId new = .ok (d, s')) : s.KeepsFinite s' := by
  obtain ⟨p, creator, -, -, hb⟩ := createBucket_eq_ok h
  exact insertBucket_keepsFinite hb

theorem isFinite_patched {b b' : Bucket} {patch : BucketUpdate} (h : b.patched patch = .ok b')
    (hb : b.position.isFinite = true) : b'.position.isFinite = true := by
  simp only [Bucket.patched, bind_eq_ok, Except.ok.injEq] at h
  obtain ⟨title, -, limit, -, position, hposition, rfl⟩ := h
  rcases renewed_eq_ok.1 hposition with ⟨-, rfl⟩ | ⟨x, -, hx⟩
  · exact hb
  · exact isFinite_validPosition hx

theorem updateBucket_keepsFinite {actor projectId id : Int} {patch : BucketUpdate}
    {d : BucketDetail} (h : s.updateBucket actor projectId id patch = .ok (d, s')) :
    s.KeepsFinite s' := by
  simp only [updateBucket, bind_eq_ok, Except.ok.injEq, Prod.mk.injEq] at h
  obtain ⟨p, -, old, hold, b, hb, -, rfl⟩ := h
  refine .of_last rfl rfl fun _ hs => ?_
  have hposition := isFinite_patched hb (hs.buckets old (getBucket_eq_ok hold).1)
  exact FiniteKeys.setBucket (s := s.tick) { hs with } hposition

/-! ### Deletion of a bucket -/

/-- Every appended key is a spacing behind a finite one. -/
theorem FiniteKeys.appendTasks (h : s.FiniteKeys) (target : Int) (intoDone : Bool) (time : Instant)
    {tail : Option Double} {ts : List Task} (htail : ∀ x, tail = some x → x.isFinite = true)
    (hts : ∀ t ∈ ts, (t.key .list).isFinite = true) :
    (s.appendTasks target intoDone time tail ts).FiniteKeys := by
  induction ts generalizing s tail with
  | nil => exact h
  | cons t ts ih =>
    rw [List.forall_mem_cons] at hts
    have hkey := Position.isFinite_allocate_tail htail
    refine ih (h.setTask ?_) (fun x hx => Option.some.inj hx ▸ hkey) hts.2
    rintro (_ | _)
    exacts [hkey, hts.1]

theorem last_appendTasks (s : Store) (target : Int) (intoDone : Bool) (time : Instant)
    (tail : Option Double) (ts : List Task) :
    (s.appendTasks target intoDone time tail ts).lastBucket = s.lastBucket ∧
      (s.appendTasks target intoDone time tail ts).lastTask = s.lastTask := by
  induction ts generalizing s tail with
  | nil => exact ⟨rfl, rfl⟩
  | cons t ts ih => exact ih _ _

theorem moveAllTasks_keepsFinite (s : Store) (p : Project) (source target : Int) :
    s.KeepsFinite (s.moveAllTasks p source target) := by
  unfold moveAllTasks
  by_cases hempty : (s.orderedIn .kanban source).isEmpty
  · rw [if_pos hempty]
    exact .refl s
  · rw [if_neg hempty]
    obtain ⟨hbucket, htask⟩ :=
      s.tick.last_appendTasks target (decide (target = p.doneBucketId)) s.now
      (greatest? ((s.tasksIn .kanban target).map (·.kanbanPosition))) (s.orderedIn .kanban source)
    refine .of_last hbucket htask fun _ hs => ?_
    refine FiniteKeys.appendTasks (s := s.tick) { hs with } _ _ _
      (isFinite_greatest? fun x hx => ?_) fun t ht => ?_
    · obtain ⟨t, ht, rfl⟩ := List.mem_map.1 hx
      exact hs.tasks t (mem_tasks_of_mem_tasksIn ht) .kanban
    · exact hs.tasks t (mem_tasks_of_mem_tasksIn
        ((s.orderedIn_perm .kanban source).mem_iff.1 ht)) .list

theorem deleteBucket_keepsFinite {actor projectId id : Int}
    (h : s.deleteBucket actor projectId id = .ok s') :
    s.KeepsFinite s' := by
  simp only [deleteBucket, bind_eq_ok] at h
  obtain ⟨p, -, b, -, h⟩ := h
  split at h
  · cases h
  simp only [bind_eq_ok, Except.ok.injEq] at h
  obtain ⟨fallback, -, rfl⟩ := h
  have hrefs : s.KeepsFinite (s.dropBucketRefs p b.id) := by
    unfold dropBucketRefs
    split
    · exact .of_tables rfl rfl rfl rfl
    · exact .refl s
  refine hrefs.trans ((moveAllTasks_keepsFinite _ (clearBucketRefs p b.id) b.id fallback).trans ?_)
  exact .of_last rfl rfl fun _ hs =>
    ⟨fun x hx => hs.buckets x (List.mem_of_mem_filter hx), hs.tasks⟩

/-! ### Tasks -/

theorem insertTask_keepsFinite {p : Project} {b : Bucket} {creator : User} {new : NewTask}
    {done : Bool} {t : Task} (h : s.insertTask p b creator new done = .ok (t, s')) :
    s.KeepsFinite s' := by
  obtain ⟨x, -, -, hkey, hadd⟩ := insertTask_eq_ok h
  obtain ⟨-, rfl⟩ := Prod.mk.inj hadd
  refine .addTask fun hid scope => ?_
  rw [hkey]
  exact Position.isFinite_initial (by omega)

theorem createTask_keepsFinite {actor projectId : Int} {new : NewTask} {d : TaskDetail}
    (h : s.createTask actor projectId new = .ok (d, s')) : s.KeepsFinite s' := by
  simp only [createTask, bind_eq_ok, Prod.exists, Except.ok.injEq, Prod.mk.injEq] at h
  obtain ⟨p, -, creator, -, bucketId, -, b, -, _, -, t, placed, ht, -, rfl⟩ := h
  exact insertTask_keepsFinite ht

theorem deleteTask_keepsFinite {actor id : Int} (h : s.deleteTask actor id = .ok s') :
    s.KeepsFinite s' := by
  simp only [deleteTask, bind_eq_ok, Except.ok.injEq] at h
  obtain ⟨t, -, p, -, rfl⟩ := h
  exact .of_last rfl rfl fun _ hs => ⟨hs.buckets,
    fun x hx => hs.tasks x (List.mem_of_mem_filter hx)⟩

theorem FiniteKeys.withPatch (h : s.FiniteKeys) {p : Project} {t u : Task} {patch : TaskUpdate}
    (ht : t ∈ s.tasks) (hu : s.withPatch p t patch = .ok u) :
    ∀ scope, (u.key scope).isFinite = true := by
  simp only [Store.withPatch, bind_eq_ok] at hu
  obtain ⟨v, hv, hu⟩ := hu
  have hfin : ∀ scope, (v.key scope).isFinite = true := fun scope => by
    rw [(taskPatched_eq_ok hv).2.2.2]
    exact h.tasks t ht scope
  rcases renewed_eq_ok.1 hu with ⟨-, rfl⟩ | ⟨done, -, hu⟩
  · exact hfin
  simp only [withDone, bind_eq_ok] at hu
  obtain ⟨target, -, hu⟩ := hu
  split at hu
  · obtain rfl := Except.ok.inj hu
    simpa using hfin
  · simp only [bind_eq_ok, Except.ok.injEq] at hu
    obtain ⟨b, -, _, -, rfl⟩ := hu
    intro scope
    rw [Task.key_markDone, Task.key_enterBucket]
    exact isFinite_key_withKey hfin .kanban (h.keyAtEnd _ _) scope

theorem updateTask_keepsFinite {actor id : Int} {patch : TaskUpdate} {d : TaskDetail}
    (h : s.updateTask actor id patch = .ok (d, s')) : s.KeepsFinite s' := by
  obtain ⟨t, p, u, ht, -, hu, -, rfl⟩ := updateTask_eq_ok.1 h
  refine .of_last rfl rfl fun _ hs => ?_
  have hkey := hs.withPatch (getTask_mem ht).1 hu
  refine FiniteKeys.setTask (s := s.tick) { hs with } ?_
  rintro (_ | _)
  exacts [hkey .kanban, hkey .list]

theorem FiniteKeys.rebalance (h : s.FiniteKeys) (hs : s.Regular) (hfit : s.lastTask < 2 ^ 63)
    (place : Place) (moving : Int) : (s.rebalance place moving).FiniteKeys := by
  -- There are no more tasks than ids given out.
  have hfew : (s.rankedIn place moving).length ≤ 2 ^ 63 := by
    have hothers : (s.othersIn place moving).length ≤ s.tasks.length := List.length_filter_le _ _
    have hids := hs.tasks.length_le
    rw [List.length_map] at hids
    rw [(s.rankedIn_perm place moving).length_eq]
    omega
  rw [rebalance_eq hs.tasks.nodup]
  refine ⟨h.buckets, fun t ht => ?_⟩
  obtain ⟨u, hu, rfl⟩ := List.mem_map.1 ht
  unfold Task.rekeyed
  split
  · rename_i x hx
    have hmem := (List.of_mem_zip (mem_of_lookup hx)).2
    rw [List.length_map] at hmem
    intro scope
    rw [Task.key_stored, Double.isFinite_unsignZero]
    exact isFinite_key_withKey (h.tasks u hu) place.scope
      (Position.isFinite_rebalanced hfew x hmem) scope
  · exact h.tasks u hu

theorem FiniteKeys.moved (h : s.FiniteKeys) (p : Project) {t : Task} (m : TaskMove) {key : Double}
    (ht : ∀ scope, (t.key scope).isFinite = true) (hkey : key.isFinite = true) :
    ∀ scope, ((s.moved p t m key).key scope).isFinite = true := by
  have hupdated : ∀ (u : Task) (i : Instant) (scope : Scope),
      ({ u with updated := i } : Task).key scope = u.key scope := by
    intro u i scope; cases scope <;> rfl
  have hnew := isFinite_key_withKey ht m.scope hkey
  intro scope
  simp only [Store.moved, rehoused, hupdated]
  split
  · exact hnew scope
  · rw [Task.key_enterBucket]
    split
    · exact hnew scope
    · exact isFinite_key_withKey hnew .kanban (h.keyAtEnd _ _) scope

theorem moveTask_keepsFinite (hs : s.Regular) {actor id : Int} {m : TaskMove} {d : TaskDetail}
    (h : s.moveTask actor id m = .ok (d, s')) : s.KeepsFinite s' := by
  obtain ⟨t, p, key, placed, ht, -, -, hplace, -, rfl⟩ := moveTask_eq_ok.1 h
  have hlast : placed.lastBucket = s.lastBucket ∧ placed.lastTask = s.lastTask := by
    rw [eq_of_place hs.tasks.nodup hplace]
    exact ⟨rfl, rfl⟩
  refine .of_last hlast.1 hlast.2 fun fit hfin => ?_
  have hplaced : placed.FiniteKeys := by
    obtain rfl | rfl := store_of_place hplace
    · exact hfin
    · exact hfin.rebalance hs (hlast.2 ▸ fit.tasks) _ _
  have hkey : key.isFinite = true := by
    obtain ⟨b, a, -, hfound⟩ := keys_of_place hplace
    exact (keyBetween?_eq_some hfound).1
  have hmoved := hplaced.moved p m (hfin.tasks t (getTask_mem ht).1) hkey
  exact FiniteKeys.setTask (s := placed.tick) { hplaced with } hmoved

/-! ### Import -/

section

variable {index index' : LabelIndex} {owner : User} {p : Project}

theorem importLabels_keepsFinite (s : Store) (index : LabelIndex) (owner : User) (taskId : Int)
    (ls : List LabelImport) :
    s.KeepsFinite (s.importLabels index owner taskId ls).2 := by
  induction ls generalizing s index with
  | nil => exact .refl s
  | cons l ls ih =>
    have hresolve : s.KeepsFinite (s.resolveLabel index owner l).2.2 := by
      simp only [resolveLabel]
      split
      · exact .refl s
      · exact .of_tables rfl rfl rfl rfl
    have hlink : ∀ (s : Store) (labelId : Int), s.KeepsFinite (s.linkLabel taskId labelId) := by
      intro s labelId
      unfold linkLabel
      split
      · exact .refl s
      · exact .of_tables rfl rfl rfl rfl
    exact hresolve.trans ((hlink _ _).trans (ih _ _))

theorem importTasks_keepsFinite {b : Bucket} {ts : List TaskImport}
    (h : s.importTasks index owner p b ts = .ok (index', s')) : s.KeepsFinite s' := by
  induction ts generalizing s index with
  | nil =>
    obtain ⟨-, rfl⟩ := Prod.mk.inj (Except.ok.inj h)
    exact .refl s
  | cons t ts ih =>
    obtain ⟨task, s₁, htask, h⟩ := importTasks_cons.1 h
    exact (insertTask_keepsFinite htask).trans
      ((importLabels_keepsFinite s₁ index owner task.id t.labels).trans (ih h))

theorem importBuckets_keepsFinite {bs : List BucketImport}
    (h : s.importBuckets index owner p bs = .ok (index', s')) : s.KeepsFinite s' := by
  induction bs generalizing s index with
  | nil =>
    obtain ⟨-, rfl⟩ := Prod.mk.inj (Except.ok.inj h)
    exact .refl s
  | cons b bs ih =>
    obtain ⟨bucket, s₁, index₂, s₂, hbucket, htasks, h⟩ := importBuckets_cons.1 h
    exact (insertBucket_keepsFinite hbucket).trans ((importTasks_keepsFinite htasks).trans (ih h))

theorem importProjects_keepsFinite {is : List ProjectImport} {ps : List Project}
    (h : s.importProjects index owner is = .ok (ps, s')) : s.KeepsFinite s' := by
  induction is generalizing s index ps with
  | nil =>
    obtain ⟨-, rfl⟩ := Prod.mk.inj (Except.ok.inj h)
    exact .refl s
  | cons i is ih =>
    obtain ⟨-, index₂, s₂, ps', hbuckets, hrest, -⟩ := importProjects_cons.1 h
    exact (addProject_keepsFinite s (Text.trimmed i.title) i.description owner.id).trans
      ((importBuckets_keepsFinite hbuckets).trans (ih hrest))

end

end Store

/-! ### All operations -/

theorem Operation.run_keepsFinite {setup : Setup} {s s' : Store} {op : Operation} {a : Answer}
    (hs : s.Regular) (h : op.run setup s = .ok (a, s')) : s.KeepsFinite s' := by
  cases run_effect h with
  | createUser hop =>
    obtain ⟨username, name, rfl⟩ := Store.createUser_eq_ok hop
    exact .of_tables rfl rfl rfl rfl
  | createProject hop => exact Store.createProject_keepsFinite hop
  | updateProject hop =>
    simp only [Store.updateProject, bind_eq_ok, Except.ok.injEq, Prod.mk.injEq] at hop
    obtain ⟨old, -, title, -, defaultBucketId, -, doneBucketId, -, -, rfl⟩ := hop
    exact .of_tables rfl rfl rfl rfl
  | shareProject hop =>
    simp only [Store.shareProject, bind_eq_ok] at hop
    obtain ⟨right, -, p, -, hop⟩ := hop
    split at hop
    · simp only [bind_eq_ok, Except.ok.injEq] at hop
      obtain ⟨u, -, rfl⟩ := hop
      unfold Store.putShare
      split
      · exact .of_tables rfl rfl rfl rfl
      · exact .of_tables rfl rfl rfl rfl
    · cases hop
  | createBucket hop => exact Store.createBucket_keepsFinite hop
  | updateBucket hop => exact Store.updateBucket_keepsFinite hop
  | deleteBucket hop => exact Store.deleteBucket_keepsFinite hop
  | createTask hop => exact Store.createTask_keepsFinite hop
  | updateTask hop => exact Store.updateTask_keepsFinite hop
  | deleteTask hop => exact Store.deleteTask_keepsFinite hop
  | moveTask hop => exact Store.moveTask_keepsFinite hs hop
  | importProjects hop => exact Store.importProjects_keepsFinite hop
  | read hop =>
    subst hop
    exact .refl _

/-! ### Answers -/

namespace Answer

def bucketDetails : Answer → List BucketDetail
  | bucket b => [b]
  | buckets bs => bs
  | _ => []

/-- The tasks that are shown, those in buckets included. -/
def taskDetails : Answer → List TaskDetail
  | task t => [t]
  | page p => p.tasks
  | a => a.bucketDetails.flatMap (·.tasks)

/-- All positions that are shown. -/
def positions (a : Answer) : List Double :=
  a.bucketDetails.map (·.bucket.position) ++ a.taskDetails.flatMap fun d => [d.task.position,
    d.task.kanbanPosition]

/-- Every row that is shown is stored. -/
structure ShownIn (s : Store) (a : Answer) : Prop where
  buckets : ∀ d ∈ a.bucketDetails, d.bucket.stored ∈ s.buckets
  tasks : ∀ d ∈ a.taskDetails, d.task.stored ∈ s.tasks

theorem ShownIn.isFinite {s : Store} {a : Answer} (h : a.ShownIn s) (hs : s.FiniteKeys) :
    ∀ x ∈ a.positions, x.isFinite = true := by
  intro x hx
  rcases List.mem_append.1 hx with hx | hx
  · obtain ⟨d, hd, rfl⟩ := List.mem_map.1 hx
    have := hs.buckets _ (h.buckets d hd)
    rwa [Bucket.stored, Double.isFinite_unsignZero] at this
  · obtain ⟨d, hd, hx⟩ := List.mem_flatMap.1 hx
    have hkey : ∀ scope, (d.task.key scope).isFinite = true := fun scope => by
      have := hs.tasks _ (h.tasks d hd) scope
      rwa [Task.key_stored, Double.isFinite_unsignZero] at this
    rcases List.mem_pair.1 hx with rfl | rfl
    exacts [hkey .list, hkey .kanban]

variable {s : Store}

theorem shownIn_bucket {d : BucketDetail} (hb : d.bucket.stored ∈ s.buckets)
    (htasks : d.tasks = []) :
    (bucket d).ShownIn s := by
  refine ⟨by simpa [bucketDetails] using hb, ?_⟩
  simp [taskDetails, bucketDetails, htasks]

theorem shownIn_task {d : TaskDetail} (ht : d.task.stored ∈ s.tasks) : (task d).ShownIn s :=
  ⟨by simp [bucketDetails], by simpa [taskDetails] using ht⟩

end Answer

namespace Store

variable {s s' : Store}

/-- Rows that are read are shown as they are stored. -/
private theorem stored_mem (hs : s.Regular) :
    (∀ b ∈ s.buckets, b.stored ∈ s.buckets) ∧ ∀ t ∈ s.tasks, t.stored ∈ s.tasks :=
  ⟨fun b hb => by rwa [(hs.bucketRows b hb).1], fun t ht => by rwa [(hs.taskRows t ht).1]⟩

theorem readBoard_shownIn (hs : s.Regular) {setup : Setup} {actor projectId : Int} {o : ListOptions}
    {ds : List BucketDetail} (h : s.readBoard setup actor projectId o = .ok ds) :
    (Answer.buckets ds).ShownIn s := by
  simp only [readBoard, bind_eq_ok, Except.ok.injEq] at h
  obtain ⟨p, -, _, -, plans, -, _, -, _, -, rfl⟩ := h
  constructor
  · intro d hd
    obtain ⟨b, hb, rfl⟩ := List.mem_map.1 hd
    exact (stored_mem hs).1 b (mem_bucketsOf.1 hb).1
  · intro d hd
    obtain ⟨c, hc, hd⟩ := List.mem_flatMap.1 hd
    obtain ⟨b, -, rfl⟩ := List.mem_map.1 hc
    obtain ⟨t, ht, rfl⟩ := List.mem_map.1 hd
    exact (stored_mem hs).2 t (mem_boardTasks (List.mem_of_mem_filter ht)).1

theorem listBuckets_shownIn (hs : s.Regular) {actor projectId : Int} {ds : List BucketDetail}
    (h : s.listBuckets actor projectId = .ok ds) : (Answer.buckets ds).ShownIn s := by
  simp only [listBuckets, bind_eq_ok, Except.ok.injEq] at h
  obtain ⟨p, -, rfl⟩ := h
  constructor
  · intro d hd
    obtain ⟨b, hb, rfl⟩ := List.mem_map.1 hd
    exact (stored_mem hs).1 b (mem_bucketsOf.1 hb).1
  · simp [Answer.taskDetails, Answer.bucketDetails]

theorem readBucket_shownIn (hs : s.Regular) {actor projectId id : Int} {d : BucketDetail}
    (h : s.readBucket actor projectId id = .ok d) : (Answer.bucket d).ShownIn s := by
  simp only [readBucket, bind_eq_ok, Except.ok.injEq] at h
  obtain ⟨p, -, b, hb, rfl⟩ := h
  exact Answer.shownIn_bucket ((stored_mem hs).1 b (getBucket_eq_ok hb).1) rfl

theorem listTasks_shownIn (hs : s.Regular) {setup : Setup} {actor projectId : Int} {o : ListOptions}
    {page : TaskPage} (h : s.listTasks setup actor projectId o = .ok page) :
    (Answer.page page).ShownIn s := by
  simp only [listTasks, bind_eq_ok, Except.ok.injEq] at h
  obtain ⟨plan, -, p, -, _, -, _, -, rfl⟩ := h
  refine ⟨by simp [Answer.bucketDetails], fun d hd => ?_⟩
  obtain ⟨t, ht, rfl⟩ := List.mem_map.1 hd
  exact (stored_mem hs).2 t (mem_select (List.mem_of_mem_drop (List.mem_of_mem_take ht))).1

theorem readTask_shownIn (hs : s.Regular) {actor id : Int} {d : TaskDetail}
    (h : s.readTask actor id = .ok d) :
    (Answer.task d).ShownIn s := by
  simp only [readTask, bind_eq_ok, Except.ok.injEq] at h
  obtain ⟨t, ht, p, -, rfl⟩ := h
  exact Answer.shownIn_task ((stored_mem hs).2 t (getTask_mem ht).1)

theorem createBucket_shownIn {actor projectId : Int} {new : NewBucket} {d : BucketDetail}
    (h : s.createBucket actor projectId new = .ok (d, s')) : (Answer.bucket d).ShownIn s' := by
  simp only [createBucket, insertBucket, bind_eq_ok, Prod.exists, Except.ok.injEq,
    Prod.mk.injEq] at h
  obtain ⟨p, -, creator, -, b, placed, ⟨title, -, limit, -, given, -, hb⟩, rfl, rfl⟩ := h
  obtain ⟨rfl, rfl⟩ := Prod.mk.inj hb
  refine Answer.shownIn_bucket (List.mem_append_right _ (List.mem_singleton.2 ?_)) rfl
  simp [Bucket.stored]

theorem updateBucket_shownIn {actor projectId id : Int} {patch : BucketUpdate} {d : BucketDetail}
    (h : s.updateBucket actor projectId id patch = .ok (d, s')) : (Answer.bucket d).ShownIn s' := by
  simp only [updateBucket, Bucket.patched, bind_eq_ok, Except.ok.injEq, Prod.mk.injEq] at h
  obtain ⟨p, -, old, hold, b, ⟨title, -, limit, -, position, -, rfl⟩, rfl, rfl⟩ := h
  exact Answer.shownIn_bucket (mem_replace.2 (.inr ⟨rfl, old, (getBucket_eq_ok hold).1, rfl⟩)) rfl

theorem createTask_shownIn {actor projectId : Int} {new : NewTask} {d : TaskDetail}
    (h : s.createTask actor projectId new = .ok (d, s')) : (Answer.task d).ShownIn s' := by
  simp only [createTask, insertTask, bind_eq_ok, Prod.exists, Except.ok.injEq, Prod.mk.injEq] at h
  obtain ⟨p, -, creator, -, bucketId, -, b, -, _, -, t, placed,
    ⟨title, -, percentDone, -, ht⟩, rfl, rfl⟩ := h
  obtain ⟨rfl, rfl⟩ := Prod.mk.inj ht
  refine Answer.shownIn_task (List.mem_append_right _ (List.mem_singleton.2 ?_))
  simp [detail, Task.stored]

theorem updateTask_shownIn {actor id : Int} {patch : TaskUpdate} {d : TaskDetail}
    (h : s.updateTask actor id patch = .ok (d, s')) : (Answer.task d).ShownIn s' := by
  obtain ⟨t, p, u, ht, -, hu, rfl, rfl⟩ := updateTask_eq_ok.1 h
  have hid : u.id = t.id := by
    rcases state_withPatch hu with ⟨-, hstate⟩ | ⟨_, _, -, -, -, ⟨-, hstate⟩ | ⟨-, hstate⟩⟩
    · exact congrArg TaskState.id hstate
    · exact (Task.of_state_markDone hstate).1
    · exact (Task.of_state_enterBucket hstate).1
  exact Answer.shownIn_task (mem_replace.2 (.inr ⟨rfl, t, (getTask_mem ht).1, hid.symm⟩))

theorem moveTask_shownIn (hs : s.Regular) {actor id : Int} {m : TaskMove} {d : TaskDetail}
    (h : s.moveTask actor id m = .ok (d, s')) : (Answer.task d).ShownIn s' := by
  obtain ⟨t, p, key, placed, ht, -, -, hplace, rfl, rfl⟩ := moveTask_eq_ok.1 h
  have hrow := mem_tasks_place hs.tasks.nodup hplace (getTask_mem ht).1
  exact Answer.shownIn_task (mem_replace.2 (.inr ⟨rfl, t, hrow, (id_moved placed p t m key).symm⟩))

end Store

/-- Answers show rows as they are after the operation. -/
theorem Operation.run_shownIn {setup : Setup} {s s' : Store} {op : Operation} {a : Answer}
    (hs : s.Regular) (h : op.run setup s = .ok (a, s')) : a.ShownIn s' := by
  have hnone : ∀ a : Answer, a.bucketDetails = [] → a.taskDetails = [] → a.ShownIn s' := by
    intro a hb ht
    exact ⟨by rw [hb]; exact List.forall_mem_nil _, by rw [ht]; exact List.forall_mem_nil _⟩
  cases op with
  | readBoard =>
    simp only [run, bind_eq_ok, Except.ok.injEq, Prod.mk.injEq] at h
    obtain ⟨ds, h, rfl, rfl⟩ := h
    exact Store.readBoard_shownIn hs h
  | listBuckets =>
    simp only [run, bind_eq_ok, Except.ok.injEq, Prod.mk.injEq] at h
    obtain ⟨ds, h, rfl, rfl⟩ := h
    exact Store.listBuckets_shownIn hs h
  | readBucket =>
    simp only [run, bind_eq_ok, Except.ok.injEq, Prod.mk.injEq] at h
    obtain ⟨d, h, rfl, rfl⟩ := h
    exact Store.readBucket_shownIn hs h
  | listTasks =>
    simp only [run, bind_eq_ok, Except.ok.injEq, Prod.mk.injEq] at h
    obtain ⟨page, h, rfl, rfl⟩ := h
    exact Store.listTasks_shownIn hs h
  | readTask =>
    simp only [run, bind_eq_ok, Except.ok.injEq, Prod.mk.injEq] at h
    obtain ⟨d, h, rfl, rfl⟩ := h
    exact Store.readTask_shownIn hs h
  | createBucket =>
    simp only [run, bind_eq_ok, Prod.exists, Except.ok.injEq, Prod.mk.injEq] at h
    obtain ⟨d, placed, h, rfl, rfl⟩ := h
    exact Store.createBucket_shownIn h
  | updateBucket =>
    simp only [run, bind_eq_ok, Prod.exists, Except.ok.injEq, Prod.mk.injEq] at h
    obtain ⟨d, placed, h, rfl, rfl⟩ := h
    exact Store.updateBucket_shownIn h
  | createTask =>
    simp only [run, bind_eq_ok, Prod.exists, Except.ok.injEq, Prod.mk.injEq] at h
    obtain ⟨d, placed, h, rfl, rfl⟩ := h
    exact Store.createTask_shownIn h
  | updateTask =>
    simp only [run, bind_eq_ok, Prod.exists, Except.ok.injEq, Prod.mk.injEq] at h
    obtain ⟨d, placed, h, rfl, rfl⟩ := h
    exact Store.updateTask_shownIn h
  | moveTask =>
    simp only [run, bind_eq_ok, Prod.exists, Except.ok.injEq, Prod.mk.injEq] at h
    obtain ⟨d, placed, h, rfl, rfl⟩ := h
    exact Store.moveTask_shownIn hs h
  | readProject | defaultBucket | shareProject | deleteBucket | deleteTask =>
    simp only [run, bind_eq_ok, Except.ok.injEq, Prod.mk.injEq] at h
    obtain ⟨_, -, rfl, -⟩ := h
    exact hnone _ rfl rfl
  | createUser | createProject | updateProject | importProjects =>
    simp only [run, bind_eq_ok, Prod.exists, Except.ok.injEq, Prod.mk.injEq] at h
    obtain ⟨_, _, -, rfl, -⟩ := h
    exact hnone _ rfl rfl

/-! ### Reachable stores -/

namespace Store

theorem Reachable.finiteKeys {s : Store} (h : s.Reachable) (hfit : s.IdsFit) : s.FiniteKeys := by
  induction h with
  | empty => exact ⟨by simp, by simp⟩
  | after setup op hs ih =>
    unfold Operation.after at hfit ⊢
    split at hfit
    · rename_i a s' hrun
      have hkeeps := Operation.run_keepsFinite hs.regular hrun
      exact hkeeps.keys hfit (ih ⟨hkeeps.lastBucket.trans_lt hfit.buckets,
        hkeeps.lastTask.trans_lt hfit.tasks⟩)
    · exact ih hfit

/-- As long as ids are below `2 ^ 63`, every stored key is finite, and so is every position in an
answer. -/
theorem Reachable.isFinite_keys {s : Store} (h : s.Reachable) (hfit : s.IdsFit) :
    s.FiniteKeys ∧ ∀ setup op a s', Operation.run setup s op = .ok (a, s') → s'.IdsFit →
      ∀ x ∈ a.positions, x.isFinite = true := by
  have hs := h.finiteKeys hfit
  refine ⟨hs, fun setup op a s' hrun hfit' => ?_⟩
  exact (Operation.run_shownIn h.regular hrun).isFinite
    ((Operation.run_keepsFinite h.regular hrun).keys hfit' hs)

/-- A board whose last bucket has the largest position of all. -/
def outermost : Store :=
  [.createUser { username := "ada" }, .createProject 1 { title := "Plan" },
    .createBucket 1 1
      { title := "Last", position := .ofMagnitude false (Double.limit - 2 ^ 2045) }].foldl
    (Operation.after {}) {}

/-- A bucket that is added behind the last one gets a finite position. -/
theorem isFinite_keys_outermost :
    outermost.FiniteKeys ∧ ∃ d s', outermost.createBucket 1 1 { title := "Next" } = .ok (d, s') ∧
      d.bucket.position.isFinite = true := by
  have hreach : outermost.Reachable := Reachable.empty.foldl_after {} _
  obtain ⟨hkeys, hanswers⟩ := hreach.isFinite_keys ⟨by decide +kernel, by decide +kernel⟩
  obtain ⟨⟨d, s'⟩, hcreate⟩ : ∃ r, outermost.createBucket 1 1 { title := "Next" } = .ok r :=
    exists_of_isOk (by decide +kernel)
  have hrun : (Operation.createBucket 1 1 { title := "Next" }).run {} outermost =
      .ok (.bucket d, s') := by
    rw [Operation.run, hcreate]
    rfl
  have hfit : ((Operation.createBucket 1 1 { title := "Next" }).after {} outermost).IdsFit :=
    ⟨by decide +kernel, by decide +kernel⟩
  rw [Operation.after, hrun] at hfit
  exact ⟨hkeys, d, s', hcreate, hanswers {} _ _ s' hrun hfit _ (List.mem_cons_self ..)⟩

end Store

end Kanban
