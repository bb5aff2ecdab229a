import Kanban.Proofs.Access.Spared

/-!
# Writes stay in projects that the user may write

An operation changes rows of no project on which the user who acts does not hold the right to write,
and shares of no project on which this user is not an admin (`Store.after_isolated`).  Each
operation writes to one project only, for which it asks before, or to projects that it adds; ids of
buckets and tasks in its arguments do not lead out of it.
-/

namespace Kanban

namespace Store

/-- There is no project with the id that the user may write, nor will a new project get it. -/
structure Barred (s : Store) (actor q : Int) : Prop where
  old : q ≤ s.lastProject
  refused : ∀ p, s.projectFor .write actor q ≠ .ok p

variable {s s' : Store} {actor q : Int}

theorem Barred.ne (h : s.Barred actor q) {id : Int} {p : Project}
    (hp : s.projectFor .write actor id = .ok p) :
    p.id ≠ q := by
  rw [(mem_of_projectFor hp).2]
  rintro rfl
  exact h.refused p hp

/-! ### Projects and buckets -/

theorem spares_insertBucket (hs : s.Regular) {projectId : Int} (hne : projectId ≠ q)
    {new : NewBucket} {creator : User} {b : Bucket}
    (h : s.insertBucket projectId new creator = .ok (b, s')) : s.Spares q s' := by
  obtain ⟨x, rfl, -, hadd⟩ := insertBucket_eq_ok hs h
  obtain ⟨-, rfl⟩ := Prod.mk.inj hadd
  exact spares_addBucket hne

theorem createBucket_spares (hs : s.Regular) (hq : s.Barred actor q) {projectId : Int}
    {new : NewBucket} {d : BucketDetail} (h : s.createBucket actor projectId new = .ok (d, s')) :
    s.Spares q s' := by
  obtain ⟨p, creator, hp, -, hb⟩ := createBucket_eq_ok h
  exact spares_insertBucket hs (hq.ne hp) hb

theorem updateBucket_spares (hs : s.Regular) (hq : s.Barred actor q) {projectId id : Int}
    {patch : BucketUpdate} {d : BucketDetail}
    (h : s.updateBucket actor projectId id patch = .ok (d, s')) : s.Spares q s' := by
  simp only [updateBucket, bind_eq_ok, Except.ok.injEq, Prod.mk.injEq] at h
  obtain ⟨p, hp, old, hold, b, hb, -, rfl⟩ := h
  obtain ⟨hmem, -, hold⟩ := getBucket_eq_ok hold
  obtain ⟨hid, hproject, -⟩ := patched_eq_ok hb (hs.bucketRows old hmem).2
  refine (spares_tick s q).trans
    (spares_setBucket hs.tick.buckets.nodup hmem ?_ ?_ (hold ▸ hq.ne hp))
  · exact hid
  · exact hproject

theorem spares_dropBucketRefs {p : Project} (hne : p.id ≠ q) (id : Int) :
    s.Spares q (s.dropBucketRefs p id) := by
  unfold dropBucketRefs
  split
  · exact (spares_tick s q).trans (spares_setProject hne)
  · exact .refl s q

theorem deleteBucket_spares (hs : s.Regular) (hi : s.Integral) (hq : s.Barred actor q)
    {projectId id : Int} (h : s.deleteBucket actor projectId id = .ok s') : s.Spares q s' := by
  simp only [deleteBucket, bind_eq_ok] at h
  obtain ⟨p, hp, b, hb, h⟩ := h
  split at h
  · simp at h
  simp only [bind_eq_ok, Except.ok.injEq] at h
  obtain ⟨fallback, -, rfl⟩ := h
  obtain ⟨hmem, -, hproject⟩ := getBucket_eq_ok hb
  have hne := hq.ne hp
  obtain ⟨hclear, hbuckets, -⟩ :=
    dropBucketRefs_writes hs (mem_of_projectFor hp).1
      (hs.buckets.pos b.id (List.mem_map_of_mem hmem)).ne'
  obtain ⟨hs₁, hi₁⟩ := hclear.integral hs hi
  have hmem₁ : b ∈ (s.dropBucketRefs p b.id).buckets := hbuckets ▸ hmem
  have hmove :=
    spares_moveAllTasks hs₁ hi₁ ⟨b, hmem₁, rfl, hproject⟩ hne (clearBucketRefs p b.id) fallback
  -- The tasks that move are written one by one; the rows of buckets stay.
  obtain ⟨clock, hmoved⟩ := moveAllTasks_eq hs₁.tasks.nodup (clearBucketRefs p b.id) b.id fallback
  refine ((spares_dropBucketRefs hne b.id).trans hmove).trans ?_
  rw [hmoved]
  refine spares_removeBucket ?_ ?_ (hproject ▸ hne)
  · exact hs₁.buckets.nodup
  · exact hmem₁

theorem updateProject_spares (hq : s.Barred actor q) {id : Int} {patch : ProjectUpdate}
    {p : Project} (h : s.updateProject actor id patch = .ok (p, s')) : s.Spares q s' := by
  simp only [updateProject, bind_eq_ok, Except.ok.injEq, Prod.mk.injEq] at h
  obtain ⟨old, hold, title, -, defaultBucketId, -, doneBucketId, -, -, rfl⟩ := h
  have hne : old.id ≠ q := hq.ne hold
  exact (spares_tick s q).trans (spares_setProject hne)

theorem createProject_spares (hs : s.Regular) (hq : s.Barred actor q) {new : NewProject}
    {p : Project} (h : s.createProject actor new = .ok (p, s')) : s.Spares q s' := by
  obtain ⟨owner, title, b, rfl, hb⟩ := createProject_eq_ok h
  have hnew : (s.lastProject + 1 : Int) ≠ q := by have := hq.old; omega
  exact (spares_addProject hq.old _ _ _).trans (spares_insertBucket (hs.addProject _ _ _) hnew hb)

/-- Sharing changes the shares of a project whose admin the user is, and no rows. -/
theorem shareProject_eq_ok {id : Int} {x : NewShare} (h : s.shareProject actor id x = .ok s') :
    (∀ q, s'.rowsOf q = s.rowsOf q) ∧
      ∃ p, s.getProject id = .ok p ∧ s.allows actor p .admin = true ∧ ∀ q, p.id ≠ q →
      s'.sharesOf q = s.sharesOf q := by
  simp only [shareProject, bind_eq_ok] at h
  obtain ⟨right, -, p, hp, h⟩ := h
  split at h
  · rename_i hadmin
    simp only [bind_eq_ok, Except.ok.injEq] at h
    obtain ⟨u, -, rfl⟩ := h
    exact ⟨rowsOf_putShare s.tick _, p, hp, hadmin, fun q hne => sharesOf_putShare s.tick hne⟩
  · simp at h

/-! ### Tasks -/

theorem createTask_spares (hq : s.Barred actor q) {projectId : Int} {new : NewTask} {d : TaskDetail}
    (h : s.createTask actor projectId new = .ok (d, s')) : s.Spares q s' := by
  simp only [createTask, bind_eq_ok, Prod.exists, Except.ok.injEq, Prod.mk.injEq] at h
  obtain ⟨p, hp, creator, -, bucketId, -, b, -, _, -, t, placed, ht, -, rfl⟩ := h
  obtain ⟨x, hproject, -, -, hadd⟩ := insertTask_eq_ok ht
  obtain ⟨-, rfl⟩ := Prod.mk.inj hadd
  exact spares_addTask (hproject ▸ hq.ne hp)

theorem updateTask_spares (hs : s.Regular) (hq : s.Barred actor q) {id : Int} {patch : TaskUpdate}
    {d : TaskDetail} (h : s.updateTask actor id patch = .ok (d, s')) : s.Spares q s' := by
  simp only [updateTask, bind_eq_ok, Except.ok.injEq, Prod.mk.injEq] at h
  obtain ⟨t, ht, p, hp, t', ht', -, rfl⟩ := h
  obtain ⟨hmem, -⟩ := getTask_mem ht
  obtain ⟨hid, hproject, -, -⟩ := withPatch_eq_ok hs hmem ht'
  have hne : t.projectId ≠ q := (mem_of_projectFor hp).2 ▸ hq.ne hp
  refine (spares_tick s q).trans (spares_setTask hs.tick.tasks.nodup hmem ?_ ?_ hne)
  · exact hid
  · exact hproject

theorem deleteTask_spares (hs : s.Regular) (hq : s.Barred actor q) {id : Int}
    (h : s.deleteTask actor id = .ok s') :
    s.Spares q s' := by
  simp only [deleteTask, bind_eq_ok, Except.ok.injEq] at h
  obtain ⟨t, ht, p, hp, rfl⟩ := h
  exact spares_removeTask hs.tasks.nodup (getTask_mem ht).1 ((mem_of_projectFor hp).2 ▸ hq.ne hp)

/-- The destination of a move and with it the tasks whose keys may change are in the project of the
task. -/
theorem moveTask_spares (hs : s.Regular) (hi : s.Integral) (hq : s.Barred actor q) {id : Int}
    {m : TaskMove} {d : TaskDetail} (h : s.moveTask actor id m = .ok (d, s')) : s.Spares q s' := by
  obtain ⟨t, p, key, placed, ht, hp, hentry, hplace, -, rfl⟩ := moveTask_eq_ok.1 h
  obtain ⟨hmem, -⟩ := getTask_mem ht
  have hne : p.id ≠ q := hq.ne hp
  have hproject := (mem_of_projectFor hp).2
  have htarget : s.HasBucket p.id (m.target t) := by
    rcases hentry with heq | ⟨b, hb, -⟩
    · rw [heq, hproject]
      exact hi.taskBucket t hmem
    · exact hasBucket_of_getBucket hb
  have hspared : s.Spares q placed := by
    obtain rfl | rfl := store_of_place hplace
    · exact .refl _ q
    · exact spares_rebalance hs hi (belongsTo_forMove htarget m.scope) hne t.id
  have hs' : placed.Regular := (place_writes hs hplace).1.regular hs
  have hrow : t ∈ placed.tasks := mem_tasks_place hs.tasks.nodup hplace hmem
  refine (hspared.trans (spares_tick placed q)).trans
    (spares_setTask hs'.tick.tasks.nodup hrow ?_ ?_ (hproject ▸ hne))
  · exact id_moved placed p t m key
  · exact projectId_moved placed p t m key

/-! ### Imports -/

theorem importLabels_spares {taskId : Int} (h : s.ownsTask q taskId = false) (index : LabelIndex)
    (owner : User) (ls : List LabelImport) :
    s.Spares q (s.importLabels index owner taskId ls).2 := by
  induction ls generalizing s index with
  | nil => exact .refl s q
  | cons l ls ih =>
    have hresolve : s.Spares q (s.resolveLabel index owner l).2.2 := by
      simp only [resolveLabel]
      split
      · exact .refl s q
      · exact spares_addLabel s q _ _ _
    rw [importLabels]
    generalize s.resolveLabel index owner l = resolved at hresolve
    have hlink := hresolve.trans (spares_linkLabel ((hresolve.ownsTask taskId).trans h) resolved.1)
    exact hlink.trans (ih ((hlink.ownsTask taskId).trans h) resolved.2.1)

section

variable {index index' : LabelIndex} {owner : User} {p : Project}

/-- A new task is none of the project, so neither are its links. -/
theorem importTasks_spares (hs : s.Regular) {b : Bucket} (hb : s.HasBucket p.id b.id)
    (hne : p.id ≠ q) {ts : List TaskImport}
    (h : s.importTasks index owner p b ts = .ok (index', s')) : s.Spares q s' := by
  induction ts generalizing s index with
  | nil =>
    obtain ⟨-, rfl⟩ := Prod.mk.inj (Except.ok.inj h)
    exact .refl s q
  | cons t ts ih =>
    obtain ⟨task, s₁, htask, h⟩ := importTasks_cons.1 h
    have hs₁ : s₁.Regular := (insertTask_writes hb htask).regular hs
    obtain ⟨x, hproject, -, -, hadd⟩ := insertTask_eq_ok htask
    obtain ⟨rfl, rfl⟩ := Prod.mk.inj hadd
    have hrow : (s.addTask x).1 ∈ (s.addTask x).2.tasks :=
      List.mem_append_right _ (List.mem_singleton_self _)
    have hnew := ownsTask_eq_false (q := q) hs₁.tasks.nodup hrow (hproject ▸ hne)
    obtain ⟨hlabelWrites, hlabelBuckets, -⟩ :=
      importLabels_writes (hasTask_addTask (s := s) x) index owner t.labels
    have hspared :=
      (spares_addTask (hproject ▸ hne)).trans (importLabels_spares hnew index owner t.labels)
    have hb' : ((s.addTask x).2.importLabels index owner (s.addTask x).1.id t.labels).2.HasBucket
        p.id b.id := by
      unfold HasBucket
      rw [hlabelBuckets]
      exact hb
    exact hspared.trans (ih (hlabelWrites.regular hs₁) hb' h)

theorem importBuckets_spares (hs : s.Regular) (hp : ∃ x ∈ s.projects, x.id = p.id) (hne : p.id ≠ q)
    {bs : List BucketImport} (h : s.importBuckets index owner p bs = .ok (index', s')) :
    s.Spares q s' := by
  induction bs generalizing s index with
  | nil =>
    obtain ⟨-, rfl⟩ := Prod.mk.inj (Except.ok.inj h)
    exact .refl s q
  | cons b bs ih =>
    obtain ⟨bucket, s₁, index₂, s₂, hbucket, htasks, h⟩ := importBuckets_cons.1 h
    have hs₁ : s₁.Regular := (insertBucket_write hs hp hbucket).regular hs
    obtain ⟨hhas, hprojects⟩ := hasBucket_insertBucket hs hbucket
    obtain ⟨hwrites, -, hprojects'⟩ := importTasks_writes hhas htasks
    have hspared :=
      (spares_insertBucket hs hne hbucket).trans (importTasks_spares hs₁ hhas hne htasks)
    exact hspared.trans (ih (hwrites.regular hs₁) (by rw [hprojects', hprojects]; exact hp) h)

end

/-- Imported projects are new ones. -/
theorem importProjects_spares (hs : s.Regular) (hq : q ≤ s.lastProject) {index : LabelIndex}
    {owner : User} {is : List ProjectImport} {ps : List Project}
    (h : s.importProjects index owner is = .ok (ps, s')) :
    s.Spares q s' := by
  induction is generalizing s index ps with
  | nil =>
    obtain ⟨-, rfl⟩ := Prod.mk.inj (Except.ok.inj h)
    exact .refl s q
  | cons i is ih =>
    obtain ⟨-, index₂, s₂, ps', hbuckets, hrest, -⟩ := importProjects_cons.1 h
    have hs₁ := hs.addProject (Text.trimmed i.title) i.description owner.id
    have hexists : ∃ x ∈ (s.addProject (Text.trimmed i.title) i.description owner.id).2.projects,
        x.id = (s.addProject (Text.trimmed i.title) i.description owner.id).1.id :=
      ⟨_, List.mem_append_right _ (List.mem_singleton_self _), rfl⟩
    have hnew : (s.lastProject + 1 : Int) ≠ q := by omega
    have hspared := (spares_addProject hq (Text.trimmed i.title) i.description owner.id).trans
      (importBuckets_spares hs₁ hexists hnew hbuckets)
    have hs₂ := (importBuckets_writes hs₁ hexists hbuckets).regular hs₁
    have hlater : q ≤ s₂.lastProject := hq.trans (by exact_mod_cast hspared.lastProject)
    exact hspared.trans (ih hs₂ hlater hrest)

end Store

/-! ### All operations -/

/-- An operation other than sharing spares the projects that its user may not write. -/
theorem Operation.run_spares {setup : Setup} {s s' : Store} {actor q : Int} {op : Operation}
    {a : Answer} (hs : s.Regular) (hi : s.Integral) (hactor : ∀ x ∈ op.actor?, x = actor)
    (hq : s.Barred actor q) (hshare : ∀ x id share, op ≠ .shareProject x id share)
    (h : op.run setup s = .ok (a, s')) : s.Spares q s' := by
  cases run_effect h with
  | createUser hop =>
    obtain ⟨username, name, rfl⟩ := Store.createUser_eq_ok hop
    exact Store.spares_addUser s q username name
  | createProject hop =>
    obtain rfl := hactor _ rfl
    exact Store.createProject_spares hs hq hop
  | updateProject hop =>
    obtain rfl := hactor _ rfl
    exact Store.updateProject_spares hq hop
  | shareProject hop => exact absurd rfl (hshare _ _ _)
  | createBucket hop =>
    obtain rfl := hactor _ rfl
    exact Store.createBucket_spares hs hq hop
  | updateBucket hop =>
    obtain rfl := hactor _ rfl
    exact Store.updateBucket_spares hs hq hop
  | deleteBucket hop =>
    obtain rfl := hactor _ rfl
    exact Store.deleteBucket_spares hs hi hq hop
  | createTask hop =>
    obtain rfl := hactor _ rfl
    exact Store.createTask_spares hq hop
  | updateTask hop =>
    obtain rfl := hactor _ rfl
    exact Store.updateTask_spares hs hq hop
  | deleteTask hop =>
    obtain rfl := hactor _ rfl
    exact Store.deleteTask_spares hs hq hop
  | moveTask hop =>
    obtain rfl := hactor _ rfl
    exact Store.moveTask_spares hs hi hq hop
  | importProjects hop => exact Store.importProjects_spares hs hq.old hop
  | read hop =>
    subst hop
    exact .refl _ q

namespace Store

variable {s : Store} {actor : Int} {op : Operation}

/-- Whatever a user does, the rows of a project on which this user may not write stay as they are,
and shares change only on projects whose admin the user is. -/
theorem after_isolated (h : s.Reachable) (setup : Setup) (hactor : ∀ x ∈ op.actor?, x = actor) :
    (∀ p ∈ s.projects, s.allows actor p .write = false →
      (op.after setup s).rowsOf p.id = s.rowsOf p.id) ∧
      ∀ q, (op.after setup s).sharesOf q ≠ s.sharesOf q →
        ∃ p ∈ s.projects, p.id = q ∧ s.allows actor p .admin = true := by
  have hs := h.regular
  unfold Operation.after
  split
  case h_2 => exact ⟨fun _ _ _ => rfl, fun q hne => absurd rfl hne⟩
  rename_i a s' hrun
  by_cases hshare : ∃ x id share, op = .shareProject x id share
  · obtain ⟨x, id, share, rfl⟩ := hshare
    obtain rfl := hactor x rfl
    simp only [Operation.run, bind_eq_ok, Except.ok.injEq, Prod.mk.injEq] at hrun
    obtain ⟨placed, hrun, -, rfl⟩ := hrun
    obtain ⟨hrows, p, hp, hadmin, hshares⟩ := shareProject_eq_ok hrun
    refine ⟨fun q _ _ => hrows q.id, fun q hne => ⟨p, (getProject_eq_ok hp).1, ?_, hadmin⟩⟩
    by_contra hpq
    exact hne (hshares q hpq)
  · have hother : ∀ x id share, op ≠ .shareProject x id share :=
      fun x id share heq => hshare ⟨x, id, share, heq⟩
    constructor
    · intro p hp hforbidden
      refine (Operation.run_spares hs h.integral hactor ⟨?_, fun x hx => ?_⟩ hother hrun).rows
      · exact hs.projects.le p.id (List.mem_map_of_mem hp)
      · obtain ⟨hx, hallowed⟩ := projectFor_eq_ok.1 hx
        obtain ⟨hmem, hid⟩ := getProject_eq_ok hx
        rw [eq_of_key_eq hs.projects.nodup hmem hp hid, hforbidden] at hallowed
        exact Bool.false_ne_true hallowed
    · -- No project has the id zero, so operations other than sharing change no share at all.
      have hbarred : s.Barred actor 0 := by
        refine ⟨Int.natCast_nonneg _, fun x hx => ?_⟩
        obtain ⟨hmem, hid⟩ := mem_of_projectFor hx
        exact (hs.projects.pos x.id (List.mem_map_of_mem hmem)).ne' hid
      intro q hne
      have hshares := (Operation.run_spares hs h.integral hactor hbarred hother hrun).shares
      exact absurd (by simp only [sharesOf, hshares]) hne

/-- Two projects; the user of the second one may read the first one. -/
def lent : Store :=
  [.createUser { username := "ada" }, .createUser { username := "grace" },
    .createProject 1 { title := "Plan" }, .createProject 2 { title := "Draft" },
    .createTask 1 1 { title := "first" }, .createTask 2 2 { title := "second" },
    .createTask 2 2 { title := "third" }, .shareProject 1 1 { userId := 2 }].foldl
      (Operation.after {}) {}

/-- Moving a task in one project leaves the rows of the other one alone. -/
theorem after_isolated_lent :
    ((Operation.moveTask 2 3 { afterId := some 2 }).after {} lent).rowsOf 1 = lent.rowsOf 1 := by
  have hreach : lent.Reachable := Reachable.empty.foldl_after {} _
  let p := (lent.project? 1).get (by decide +kernel)
  have hp : p ∈ lent.projects := by decide +kernel
  have hid : p.id = 1 := by decide +kernel
  have hactor : ∀ x ∈ (Operation.moveTask 2 3 { afterId := some 2 }).actor?, x = 2 := by decide
  exact hid ▸ (after_isolated hreach {} hactor).1 p hp (by decide +kernel)

end Store

end Kanban
