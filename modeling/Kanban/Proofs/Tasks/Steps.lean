import Kanban.Proofs.Buckets.Deletion

/-!
# What operations do to tasks

Where a task is, whether it is done and since when make up its state (`Task.state`).  A successful
operation leaves the state of a task as it was, marks the task done or open in its bucket, or puts
it into another bucket and makes it as done as this bucket says (`Operation.TaskStep`).  Tasks that
do not come from an old one in this way are new (`Store.IsNew`), and only an update of its project
makes another bucket the one of done tasks.  This holds of every operation (`Operation.run_steps`),
so what follows from it is shown step by step.
-/

namespace Kanban

/-- Where a task is, whether it is done and since when. -/
structure TaskState where
  id : Int
  projectId : Int
  bucketId : Int
  done : Bool
  doneAt : Option Instant

namespace Task

def state (t : Task) : TaskState := ⟨t.id, t.projectId, t.bucketId, t.done, t.doneAt⟩

variable {t u : Task} {p : Project} {done : Bool} {target : Int} {time : Instant}

theorem state_eq_iff : u.state = t.state ↔
    u.id = t.id ∧ u.projectId = t.projectId ∧ u.bucketId = t.bucketId ∧ u.done = t.done ∧
    u.doneAt = t.doneAt := by
  simp only [state, TaskState.mk.injEq]

@[simp] theorem state_stored (t : Task) : t.stored.state = t.state := rfl

theorem state_withKey (t : Task) (scope : Scope) (key : Double) :
    (t.withKey scope key).state = t.state := by
  cases scope <;> rfl

@[simp] theorem state_rekeyed {scope : Scope} {keys : List (Int × Double)} :
    (t.rekeyed scope keys).state = t.state := by
  unfold rekeyed
  split
  · exact state_withKey t scope _
  · rfl

theorem done_markDone (t : Task) (done : Bool) (time : Instant) :
    (t.markDone done time).done = done := by
  unfold markDone
  split
  · assumption
  · rfl

theorem markDone_of_done (h : t.done = done) : t.markDone done time = t := if_pos h

theorem state_markDone (h : u.state = t.state) :
    (u.markDone done time).state = (t.markDone done time).state := by
  obtain ⟨hid, hproject, hbucket, hdone, -⟩ := state_eq_iff.1 h
  unfold markDone
  rw [hdone]
  split
  · exact h
  · exact state_eq_iff.2 ⟨hid, hproject, hbucket, rfl, rfl⟩

theorem state_enterBucket (h : u.state = t.state) :
    (u.enterBucket p target time).state = (t.enterBucket p target time).state := by
  obtain ⟨hid, hproject, hbucket, hdone, hdoneAt⟩ := state_eq_iff.1 h
  have hentered : ({ u with bucketId := target } : Task).state =
      ({ t with bucketId := target } : Task).state :=
    state_eq_iff.2 ⟨hid, hproject, rfl, hdone, hdoneAt⟩
  unfold enterBucket
  rw [hbucket]
  split
  · exact state_markDone hentered
  · split
    · exact state_markDone hentered
    · exact hentered

theorem of_state_markDone (h : u.state = (t.markDone done time).state) :
    u.id = t.id ∧ u.projectId = t.projectId ∧ u.bucketId = t.bucketId ∧ u.done = done := by
  obtain ⟨hid, hproject, hbucket, hdone, -⟩ := state_eq_iff.1 h
  rw [id_markDone] at hid
  rw [projectId_markDone] at hproject
  rw [bucketId_markDone] at hbucket
  rw [done_markDone] at hdone
  exact ⟨hid, hproject, hbucket, hdone⟩

theorem of_state_enterBucket (h : u.state = (t.enterBucket p target time).state) :
    u.id = t.id ∧ u.projectId = t.projectId ∧ u.bucketId = target := by
  obtain ⟨hid, hproject, hbucket, -, -⟩ := state_eq_iff.1 h
  rw [id_enterBucket] at hid
  rw [projectId_enterBucket] at hproject
  rw [bucketId_enterBucket] at hbucket
  exact ⟨hid, hproject, hbucket⟩

theorem enterBucket_congr {q : Project} (h : p.doneBucketId = q.doneBucketId) :
    t.enterBucket p target time = t.enterBucket q target time := by
  unfold enterBucket
  rw [h]

/-- A task in the bucket of done tasks is done. -/
theorem done_enterBucket (t : Task) (time : Instant) (h0 : p.doneBucketId ≠ 0) :
    (t.enterBucket p p.doneBucketId time).done = true := by
  rw [enterBucket, if_pos ⟨h0, rfl⟩]
  exact done_markDone _ _ _

end Task

/-! ### One task -/

namespace Store

variable {s s' : Store} {p : Project} {t u : Task}

/-- A task that is marked done or open goes to the bucket for that, where it needs no other mark. -/
theorem markDone_enterBucket {done : Bool} {target : Int}
    (h : s.bucketForDone p t done = .ok target) (hne : target ≠ t.bucketId) (time : Instant) :
    (t.enterBucket p target time).markDone done time = t.enterBucket p target time := by
  refine Task.markDone_of_done ?_
  unfold bucketForDone at h
  split at h
  · exact absurd (Except.ok.inj h).symm hne
  rename_i h0
  split at h
  · rename_i hdone
    obtain rfl := Except.ok.inj h
    rw [Task.done_enterBucket t time h0, hdone]
  rename_i hopen
  split at h
  · -- The task leaves the bucket of done tasks.
    rename_i hleaves
    have htarget : target ≠ p.doneBucketId := fun heq => hne (heq.trans hleaves.symm)
    rw [Task.enterBucket, if_neg (fun hin => htarget hin.2), if_pos ⟨h0, hleaves⟩,
      Task.done_markDone]
    exact (Bool.eq_false_of_not_eq_true hopen).symm
  · exact absurd (Except.ok.inj h).symm hne

/-- A task that is opened in the bucket of done tasks goes where tasks go by default. -/
theorem bucketForDone_opened (s : Store) (h0 : p.doneBucketId ≠ 0)
    (h : t.bucketId = p.doneBucketId) :
    s.bucketForDone p t false = s.resolveBucket p none := by
  rw [bucketForDone, if_neg h0, if_neg Bool.false_ne_true, if_pos h]

theorem bucketForDone_congr (s : Store) (p : Project) (h : u.bucketId = t.bucketId) (done : Bool) :
    s.bucketForDone p u done = s.bucketForDone p t done := by
  simp only [bucketForDone, h]

/-- A changed task is in the same state, or it was marked done or open, in its bucket or on the way
to another one that has room for it. -/
theorem state_withPatch {patch : TaskUpdate} (h : s.withPatch p t patch = .ok u) :
    (patch.done = none ∧ u.state = t.state) ∨
      ∃ done target, patch.done = some done ∧ s.bucketForDone p t done = .ok target ∧
      s.MayEnter p t target ∧
        ((target = t.bucketId ∧ u.state = (t.markDone done s.now).state) ∨
          (target ≠ t.bucketId ∧ u.state = (t.enterBucket p target s.now).state)) := by
  simp only [withPatch, bind_eq_ok] at h
  obtain ⟨v, hv, h⟩ := h
  have hstate : v.state = t.state := by
    simp only [Task.patched, bind_eq_ok, Except.ok.injEq] at hv
    obtain ⟨title, -, percentDone, -, rfl⟩ := hv
    rfl
  have hbucket : v.bucketId = t.bucketId := congrArg TaskState.bucketId hstate
  rcases renewed_eq_ok.1 h with ⟨hnone, rfl⟩ | ⟨done, hdone, h⟩
  · exact .inl ⟨hnone, hstate⟩
  simp only [withDone, bind_eq_ok] at h
  obtain ⟨target, htarget, h⟩ := h
  have htarget' : s.bucketForDone p t done = .ok target := by
    rw [← bucketForDone_congr s p hbucket done]
    exact htarget
  refine .inr ⟨done, target, hdone, htarget', ?_⟩
  by_cases heq : target = t.bucketId
  · rw [if_pos (heq.trans hbucket.symm)] at h
    obtain rfl := Except.ok.inj h
    exact ⟨.inl heq, .inl ⟨heq, Task.state_markDone hstate⟩⟩
  · rw [if_neg (fun h => heq (h.trans hbucket))] at h
    simp only [bind_eq_ok, Except.ok.injEq] at h
    obtain ⟨b, hb, room, hroom, rfl⟩ := h
    have hentry : s.checkEntry p t target = .ok () := by
      rw [checkEntry, if_neg heq]
      exact bind_eq_ok.2 ⟨b, hb, hroom⟩
    refine ⟨checkEntry_eq_ok.1 hentry, .inr ⟨heq, ?_⟩⟩
    have hmoved : ({ v with kanbanPosition := s.keyAtEnd target v.id } : Task).state = t.state :=
      hstate
    rw [Task.state_markDone (Task.state_enterBucket hmoved), markDone_enterBucket htarget' heq]

/-- A task that stays in its bucket is only marked. -/
theorem state_withPatch_of_stays {patch : TaskUpdate} {done : Bool} (hdone : patch.done = some done)
    (hstays : s.bucketForDone p t done = .ok t.bucketId) (h : s.withPatch p t patch = .ok u) :
    u.state = (t.markDone done s.now).state := by
  rcases state_withPatch h with ⟨hnone, -⟩ | ⟨done', target, hdone', htarget, -, hcases⟩
  · rw [hdone] at hnone
    cases hnone
  · obtain rfl := Option.some.inj (hdone.symm.trans hdone')
    obtain rfl := Except.ok.inj (hstays.symm.trans htarget)
    rcases hcases with ⟨-, hstate⟩ | ⟨hne, -⟩
    · exact hstate
    · exact absurd rfl hne

theorem state_moved (s : Store) (p : Project) (t : Task) (m : TaskMove) (key : Double) :
    (s.moved p t m key).state =
      (if m.target t = t.bucketId then t else t.enterBucket p (m.target t) s.now).state := by
  have hkey : (t.withKey m.scope key).state = t.state := Task.state_withKey t m.scope key
  have hbucket : (t.withKey m.scope key).bucketId = t.bucketId := congrArg TaskState.bucketId hkey
  show (s.rehoused p (t.withKey m.scope key) m.scope (m.target t)).state = _
  unfold rehoused
  by_cases heq : m.target t = t.bucketId
  · rw [if_pos (heq.trans hbucket.symm), if_pos heq]
    exact hkey
  · rw [if_neg (fun h => heq (h.trans hbucket)), if_neg heq]
    refine Task.state_enterBucket ?_
    split
    · exact hkey
    · exact hkey

/-- A task of a deleted bucket enters the other bucket like a task that is moved there. -/
theorem state_appended {target : Int} (hne : target ≠ 0) (hleft : p.doneBucketId ≠ t.bucketId)
    (time : Instant) (key : Double) :
    (t.appended target (decide (target = p.doneBucketId)) time key).state =
      (t.enterBucket p target time).state := by
  unfold Task.enterBucket
  by_cases hdone : target = p.doneBucketId
  · rw [if_pos ⟨hdone ▸ hne, hdone⟩, decide_eq_true hdone, Task.markDone]
    cases ht : t.done <;> simp [Task.appended, Task.state, ht]
  · rw [if_neg (fun h => hdone h.2), if_neg (fun h => hleft h.2.symm), decide_eq_false hdone]
    simp [Task.appended, Task.state]

end Store

/-! ### Rows of tasks -/

/-- What a successful operation makes of a task. -/
inductive Operation.TaskStep (s s' : Store) : Operation → Task → Task → Prop where
  | kept {op : Operation} {t t' : Task} (h : t'.state = t.state) : TaskStep s s' op t t'
  | marked {actor : Int} {t t' : Task} {p : Project} {patch : TaskUpdate} {done : Bool}
      (hp : p ∈ s.projects) (hproject : p.id = t.projectId) (hdone : patch.done = some done)
      (htarget : s.bucketForDone p t done = .ok t.bucketId)
      (h : t'.state = (t.markDone done s.now).state) :
      TaskStep s s' (.updateTask actor t.id patch) t t'
  | entered {op : Operation} {t t' : Task} {p : Project} {target : Int} {time : Instant}
      (hp : p ∈ s'.projects)
      (hproject : p.id = t.projectId) (hne : target ≠ t.bucketId)
      (h : t'.state = (t.enterBucket p target time).state) : TaskStep s s' op t t'

namespace Store

/-- The task was not there before.  It has a time exactly if it is done, and in the bucket of done
tasks it is. -/
structure IsNew (s s' : Store) (t : Task) : Prop where
  id : (s.lastTask : Int) < t.id
  time : t.doneAt.isSome = t.done
  done : ∀ p ∈ s'.projects, p.id = t.projectId → p.doneBucketId ≠ 0 →
    t.bucketId = p.doneBucketId → t.done = true

/-- The references to buckets of done tasks are old ones or lead nowhere. -/
def DoneRefsKept (s s' : Store) : Prop :=
  ∀ q ∈ s'.projects, q.doneBucketId = 0 ∨ ∃ p ∈ s.projects,
  p.id = q.id ∧ p.doneBucketId = q.doneBucketId

theorem doneRefsKept_of_projects {s s' : Store} (h : s'.projects = s.projects) :
    s.DoneRefsKept s' :=
  fun q hq => .inr ⟨q, h ▸ hq, rfl, rfl⟩

end Store

/-- What a successful operation makes of tasks and of references to buckets of done tasks. -/
structure Operation.Steps (s s' : Store) (op : Operation) : Prop where
  tasks : ∀ t' ∈ s'.tasks, (∃ t ∈ s.tasks, op.TaskStep s s' t t') ∨ s.IsNew s' t'
  doneRefs : (∀ actor project patch, op ≠ .updateProject actor project patch) → s.DoneRefsKept s'

namespace Store

variable {s s' : Store}

/-- The task is a new row at the end, in the bucket and the project, and nothing else is new. -/
structure Inserted (s s' : Store) (p : Project) (b : Bucket) (t : Task) : Prop where
  tasks : s'.tasks = s.tasks ++ [t]
  projects : s'.projects = s.projects
  buckets : s'.buckets = s.buckets
  lastTask : s'.lastTask = s.lastTask + 1
  lastProject : s'.lastProject = s.lastProject
  id : t.id = s.lastTask + 1
  project : t.projectId = p.id
  bucket : t.bucketId = b.id
  time : t.doneAt.isSome = t.done
  done : p.doneBucketId ≠ 0 → b.id = p.doneBucketId → t.done = true

theorem inserted_of_insertTask {p : Project} {b : Bucket} {creator : User} {new : NewTask}
    {done : Bool} {t : Task} (h : s.insertTask p b creator new done = .ok (t, s')) :
    s.Inserted s' p b t := by
  simp only [insertTask, bind_eq_ok, Except.ok.injEq] at h
  obtain ⟨title, -, percentDone, -, h⟩ := h
  obtain ⟨rfl, rfl⟩ := Prod.mk.inj h
  refine ⟨rfl, rfl, rfl, rfl, rfl, rfl, rfl, rfl, ?_, fun h0 heq => ?_⟩
  · show (Option.isSome (if _ then _ else _)) = _
    split
    · rename_i hdone
      exact hdone.symm
    · rename_i hopen
      exact (Bool.eq_false_of_not_eq_true hopen).symm
  · simp [Task.stored, h0, heq]

theorem createTask_steps (hs : s.Regular) {actor projectId : Int} {new : NewTask} {d : TaskDetail}
    (h : s.createTask actor projectId new = .ok (d, s')) :
    Operation.Steps s s' (.createTask actor projectId new) := by
  simp only [createTask, bind_eq_ok, Prod.exists, Except.ok.injEq, Prod.mk.injEq] at h
  obtain ⟨p, hp, creator, -, bucketId, -, b, -, _, -, x, placed, hx, -, rfl⟩ := h
  have hnew := inserted_of_insertTask hx
  refine ⟨fun t' ht' => ?_, fun _ => doneRefsKept_of_projects hnew.projects⟩
  rw [hnew.tasks] at ht'
  rcases List.mem_append.1 ht' with ht' | ht'
  · exact .inl ⟨t', ht', .kept rfl⟩
  obtain rfl := List.mem_singleton.1 ht'
  have hid := hnew.id
  refine .inr ⟨by omega, hnew.time, fun q hq hqid h0 hqdone => ?_⟩
  rw [hnew.projects] at hq
  obtain rfl := eq_of_key_eq hs.projects.nodup hq (mem_of_projectFor hp).1 (hqid.trans hnew.project)
  exact hnew.done h0 (hnew.bucket.symm.trans hqdone)

theorem updateTask_eq_ok {actor id : Int} {patch : TaskUpdate} {d : TaskDetail} :
    s.updateTask actor id patch = .ok (d, s') ↔
      ∃ t p u, s.getTask id = .ok t ∧ s.projectFor .write actor t.projectId = .ok p ∧
      s.withPatch p t patch = .ok u ∧
        d = s.detail { u with updated := s.now } ∧
        s' = s.tick.setTask { u with updated := s.now } := by
  simp only [updateTask, bind_eq_ok, Except.ok.injEq, Prod.mk.injEq]
  constructor
  · rintro ⟨t, ht, p, hp, u, hu, rfl, rfl⟩
    exact ⟨t, p, u, ht, hp, hu, rfl, rfl⟩
  · rintro ⟨t, p, u, ht, hp, hu, rfl, rfl⟩
    exact ⟨t, ht, p, hp, u, hu, rfl, rfl⟩

theorem updateTask_steps {actor id : Int} {patch : TaskUpdate} {d : TaskDetail}
    (h : s.updateTask actor id patch = .ok (d, s')) :
    Operation.Steps s s' (.updateTask actor id patch) := by
  obtain ⟨t, p, u, ht, hp, hu, -, rfl⟩ := updateTask_eq_ok.1 h
  obtain ⟨hmem, rfl⟩ := getTask_mem ht
  obtain ⟨hp, hproject⟩ := mem_of_projectFor hp
  refine ⟨fun t' ht' => .inl ?_, fun _ => doneRefsKept_of_projects rfl⟩
  rcases mem_replace.1 ht' with ⟨ht', -⟩ | ⟨rfl, -⟩
  · exact ⟨t', ht', .kept rfl⟩
  refine ⟨t, hmem, ?_⟩
  rcases state_withPatch hu with
    ⟨-, hstate⟩ | ⟨done, target, hdone, htarget, -, ⟨rfl, hstate⟩ | ⟨hne, hstate⟩⟩
  · exact .kept hstate
  · exact .marked hp hproject hdone htarget hstate
  · exact .entered hp hproject hne hstate

theorem moveTask_steps (hs : s.Regular) {actor id : Int} {m : TaskMove} {d : TaskDetail}
    (h : s.moveTask actor id m = .ok (d, s')) : Operation.Steps s s' (.moveTask actor id m) := by
  obtain ⟨t, p, key, placed, ht, hp, -, hplace, -, rfl⟩ := moveTask_eq_ok.1 h
  obtain ⟨hmem, rfl⟩ := getTask_mem ht
  obtain ⟨hp, hproject⟩ := mem_of_projectFor hp
  -- Spreading out keys changes the state of no task.
  have hplaced : placed.projects = s.projects ∧ ∀ x ∈ placed.tasks, ∃ y ∈ s.tasks,
      x.state = y.state := by
    obtain rfl | rfl := store_of_place hplace
    · exact ⟨rfl, fun x hx => ⟨x, hx, rfl⟩⟩
    · rw [rebalance_eq hs.tasks.nodup]
      refine ⟨rfl, fun x hx => ?_⟩
      obtain ⟨y, hy, rfl⟩ := List.mem_map.1 hx
      exact ⟨y, hy, Task.state_rekeyed⟩
  obtain ⟨hprojects, hrows⟩ := hplaced
  refine ⟨fun t' ht' => .inl ?_, fun _ => doneRefsKept_of_projects hprojects⟩
  rcases mem_replace.1 ht' with ⟨ht', -⟩ | ⟨rfl, -⟩
  · obtain ⟨y, hy, hstate⟩ := hrows t' ht'
    exact ⟨y, hy, .kept hstate⟩
  refine ⟨t, hmem, ?_⟩
  have hstate := state_moved placed p t m key
  split at hstate
  · exact .kept hstate
  · rename_i hne
    refine .entered (p := p) ?_ hproject hne hstate
    show p ∈ placed.projects
    rw [hprojects]
    exact hp

/-- When a bucket is deleted, its project may lose its reference to it, and no other reference
changes. -/
theorem dropBucketRefs_done {p : Project} (hp : p ∈ s.projects) (id : Int) :
    (s.dropBucketRefs p id).tasks = s.tasks ∧ s.DoneRefsKept (s.dropBucketRefs p id) ∧
      ∃ q ∈ (s.dropBucketRefs p id).projects,
      q.id = p.id ∧ q.doneBucketId = (clearBucketRefs p id).doneBucketId := by
  unfold dropBucketRefs
  split
  · refine ⟨rfl, fun q hq => ?_, ⟨_, mem_replace.2 (.inr ⟨rfl, p, hp, rfl⟩), rfl, rfl⟩⟩
    rcases mem_replace.1 hq with ⟨hq, -⟩ | ⟨rfl, -⟩
    · exact .inr ⟨q, hq, rfl, rfl⟩
    · by_cases hdone : p.doneBucketId = id
      · exact .inl (if_pos hdone)
      · exact .inr ⟨p, hp, rfl, (if_neg hdone).symm⟩
  · rename_i hrefs
    obtain ⟨-, hdone⟩ := not_or.1 hrefs
    exact ⟨rfl, doneRefsKept_of_projects rfl, p, hp, rfl, (if_neg hdone).symm⟩

theorem deleteBucket_steps (hs : s.Regular) (hi : s.Integral) {actor projectId id : Int}
    (h : s.deleteBucket actor projectId id = .ok s') :
    Operation.Steps s s' (.deleteBucket actor projectId id) := by
  obtain ⟨p, b, f, hp, hb, hproject, hf, rfl⟩ := exists_of_deleteBucket hs hi h
  obtain ⟨hrows, hkept, q, hq, hqid, hqdone⟩ := dropBucketRefs_done hp b.id
  have hids := (regular_dropBucketRefs hs hp hb).tasks.nodup
  obtain ⟨clock, hmoved⟩ := moveAllTasks_eq hids (clearBucketRefs p b.id) b.id f
  have hpos : ∀ c ∈ s.buckets, 0 < c.id := fun c hc => hs.buckets.pos c.id (List.mem_map_of_mem hc)
  have hf0 : f ≠ 0 := by
    obtain ⟨c, hc, rfl, -⟩ := hf.exists_other.1
    exact (hpos c hc).ne'
  rw [hmoved]
  refine ⟨fun t' ht' => .inl ?_, fun _ => hkept⟩
  obtain ⟨t, ht, rfl⟩ := List.mem_map.1 ht'
  have hmem : t ∈ s.tasks := hrows ▸ ht
  refine ⟨t, hmem, ?_⟩
  by_cases hsource : t.bucketId = b.id
  · obtain ⟨key, -, hrow⟩ := rowBehind_of_eq hids (clearBucketRefs p b.id) f ht hsource
    -- The task belongs to the project of the deleted bucket.
    obtain ⟨c, hc, hcid, hcproject⟩ := hi.taskBucket t hmem
    obtain rfl := eq_of_key_eq hs.buckets.nodup hc hb (hcid.trans hsource)
    have hleft : (clearBucketRefs p c.id).doneBucketId ≠ t.bucketId := by
      have hc0 := hpos c hc
      show (if p.doneBucketId = c.id then 0 else p.doneBucketId) ≠ t.bucketId
      split <;> omega
    have hstate : ((s.dropBucketRefs p c.id).rowBehind (clearBucketRefs p c.id) c.id f t).state =
        (t.enterBucket q f (s.dropBucketRefs p c.id).now).state := by
      rw [hrow, Task.state_stored, state_appended hf0 hleft, Task.enterBucket_congr hqdone]
    exact .entered hq (hqid.trans (hproject.symm.trans hcproject))
      (hsource ▸ hf.exists_other.2) hstate
  · rw [rowBehind_of_ne hids _ ht hsource]
    exact .kept rfl

theorem updateProject_steps {actor id : Int} {patch : ProjectUpdate} {p : Project}
    (h : s.updateProject actor id patch = .ok (p, s')) :
    Operation.Steps s s' (.updateProject actor id patch) := by
  simp only [updateProject, bind_eq_ok, Except.ok.injEq, Prod.mk.injEq] at h
  obtain ⟨old, -, title, -, defaultBucketId, -, doneBucketId, -, -, rfl⟩ := h
  exact ⟨fun t ht => .inl ⟨t, ht, .kept rfl⟩, fun hop => absurd rfl (hop actor id patch)⟩

/-! ### Stores that lose or gain whole rows -/

/-- Tasks and projects of the later store are old ones, or new projects without a bucket of done
tasks and their tasks. -/
structure Extends (s s' : Store) : Prop where
  projects : ∀ p ∈ s'.projects, p ∈ s.projects ∨ ((s.lastProject : Int) < p.id ∧ p.doneBucketId = 0)
  tasks : ∀ t ∈ s'.tasks, t ∈ s.tasks ∨
    ((s.lastTask : Int) < t.id ∧ (s.lastProject : Int) < t.projectId ∧ t.doneAt.isSome = t.done)
  lastProject : s.lastProject ≤ s'.lastProject
  lastTask : s.lastTask ≤ s'.lastTask

namespace Extends

variable {index index' : LabelIndex} {owner : User} {p : Project}

theorem refl (s : Store) : s.Extends s := ⟨fun _ => .inl, fun _ => .inl, le_rfl, le_rfl⟩

theorem addProject (h : s.Extends s') (title description : String) (ownerId : Int) :
    s.Extends (s'.addProject title description ownerId).2 := by
  refine ⟨fun p hp => ?_, h.tasks, Nat.le_succ_of_le h.lastProject, h.lastTask⟩
  rcases List.mem_append.1 hp with hp | hp
  · exact h.projects p hp
  · obtain rfl := List.mem_singleton.1 hp
    have := h.lastProject
    exact .inr ⟨by show (s.lastProject : Int) < s'.lastProject + 1; omega, rfl⟩

theorem insertBucket (h : s.Extends s') {projectId : Int} {new : NewBucket} {b : Bucket}
    {s'' : Store} (hb : s'.insertBucket projectId new owner = .ok (b, s'')) : s.Extends s'' := by
  simp only [Store.insertBucket, bind_eq_ok, Except.ok.injEq] at hb
  obtain ⟨title, -, limit, -, given, -, hb⟩ := hb
  obtain ⟨-, rfl⟩ := Prod.mk.inj hb
  exact { h with }

theorem insertTask (h : s.Extends s') (hp : (s.lastProject : Int) < p.id) {b : Bucket}
    {new : NewTask} {done : Bool} {t : Task} {s'' : Store}
    (ht : s'.insertTask p b owner new done = .ok (t, s'')) : s.Extends s'' := by
  have hnew := inserted_of_insertTask ht
  have hlast := h.lastTask
  have hlast' := hnew.lastTask
  refine ⟨hnew.projects ▸ h.projects, fun u hu => ?_, hnew.lastProject ▸ h.lastProject, by omega⟩
  rw [hnew.tasks] at hu
  rcases List.mem_append.1 hu with hu | hu
  · exact h.tasks u hu
  · obtain rfl := List.mem_singleton.1 hu
    have hid := hnew.id
    have hproject := hnew.project
    exact .inr ⟨by omega, by omega, hnew.time⟩

theorem linkLabel (h : s.Extends s') (taskId labelId : Int) :
    s.Extends (s'.linkLabel taskId labelId) := by
  unfold Store.linkLabel
  split
  · exact h
  · exact { h with }

theorem importLabels (h : s.Extends s') (taskId : Int) (ls : List LabelImport) :
    s.Extends (s'.importLabels index owner taskId ls).2 := by
  induction ls generalizing s' index with
  | nil => exact h
  | cons l ls ih =>
    have hresolve : s.Extends (s'.resolveLabel index owner l).2.2 := by
      simp only [resolveLabel]
      split
      · exact h
      · exact { h with }
    rw [Store.importLabels]
    generalize s'.resolveLabel index owner l = resolved at hresolve
    exact ih (hresolve.linkLabel taskId resolved.1)

theorem importTasks (h : s.Extends s') (hp : (s.lastProject : Int) < p.id) {b : Bucket}
    {ts : List TaskImport} {s'' : Store}
    (hts : s'.importTasks index owner p b ts = .ok (index', s'')) : s.Extends s'' := by
  induction ts generalizing s' index with
  | nil =>
    obtain ⟨rfl, rfl⟩ := Prod.mk.inj (Except.ok.inj hts)
    exact h
  | cons t ts ih =>
    obtain ⟨task, s₁, htask, hts⟩ := importTasks_cons.1 hts
    exact ih ((h.insertTask hp htask).importLabels task.id t.labels) hts

theorem importBuckets (h : s.Extends s') (hp : (s.lastProject : Int) < p.id)
    {bs : List BucketImport} {s'' : Store}
    (hbs : s'.importBuckets index owner p bs = .ok (index', s'')) : s.Extends s'' := by
  induction bs generalizing s' index with
  | nil =>
    obtain ⟨rfl, rfl⟩ := Prod.mk.inj (Except.ok.inj hbs)
    exact h
  | cons b bs ih =>
    obtain ⟨bucket, s₁, index₂, s₂, hbucket, htasks, hbs⟩ := importBuckets_cons.1 hbs
    exact ih ((h.insertBucket hbucket).importTasks hp htasks) hbs

theorem importProjects (h : s.Extends s') {is : List ProjectImport} {ps : List Project}
    {s'' : Store} (his : s'.importProjects index owner is = .ok (ps, s'')) : s.Extends s'' := by
  induction is generalizing s' index ps with
  | nil =>
    obtain ⟨-, rfl⟩ := Prod.mk.inj (Except.ok.inj his)
    exact h
  | cons i is ih =>
    obtain ⟨-, index₂, s₂, ps', hbuckets, hrest, -⟩ := importProjects_cons.1 his
    have hnew : (s.lastProject : Int) <
        (s'.addProject (Text.trimmed i.title) i.description owner.id).1.id := by
      have := h.lastProject
      show (s.lastProject : Int) < s'.lastProject + 1
      omega
    exact ih ((h.addProject (Text.trimmed i.title) i.description owner.id).importBuckets hnew
      hbuckets) hrest

theorem createProject (h : s.Extends s') {actor : Int} {new : NewProject} {s'' : Store}
    (hp : s'.createProject actor new = .ok (p, s'')) : s.Extends s'' := by
  obtain ⟨owner, title, b, -, hb⟩ := createProject_eq_ok hp
  exact (h.addProject title new.description owner.id).insertBucket hb

theorem createBucket (h : s.Extends s') {actor projectId : Int} {new : NewBucket} {d : BucketDetail}
    {s'' : Store} (hb : s'.createBucket actor projectId new = .ok (d, s'')) : s.Extends s'' := by
  obtain ⟨p, creator, -, -, hb⟩ := createBucket_eq_ok hb
  exact h.insertBucket hb

theorem updateBucket (h : s.Extends s') {actor projectId id : Int} {patch : BucketUpdate}
    {d : BucketDetail} {s'' : Store}
    (hb : s'.updateBucket actor projectId id patch = .ok (d, s'')) : s.Extends s'' := by
  simp only [Store.updateBucket, bind_eq_ok, Except.ok.injEq, Prod.mk.injEq] at hb
  obtain ⟨p, -, old, -, b, -, -, rfl⟩ := hb
  exact { h with }

theorem shareProject (h : s.Extends s') {actor id : Int} {x : NewShare} {s'' : Store}
    (hx : s'.shareProject actor id x = .ok s'') : s.Extends s'' := by
  simp only [Store.shareProject, bind_eq_ok] at hx
  obtain ⟨right, -, p, -, hx⟩ := hx
  split at hx
  · simp only [bind_eq_ok, Except.ok.injEq] at hx
    obtain ⟨u, -, rfl⟩ := hx
    unfold putShare
    split
    · exact { h with }
    · exact { h with }
  · simp at hx

theorem deleteTask (h : s.Extends s') {actor id : Int} {s'' : Store}
    (ht : s'.deleteTask actor id = .ok s'') :
    s.Extends s'' := by
  simp only [Store.deleteTask, bind_eq_ok, Except.ok.injEq] at ht
  obtain ⟨t, -, p, -, rfl⟩ := ht
  exact { h with tasks := fun u hu => h.tasks u (List.mem_of_mem_filter hu) }

/-- Old projects have old ids, so new tasks are in new projects. -/
theorem steps (h : s.Extends s') (hs : s.Regular) {op : Operation} : op.Steps s s' := by
  constructor
  · intro t ht
    refine (h.tasks t ht).imp (fun ht => ⟨t, ht, .kept rfl⟩)
      fun ⟨hid, hproject, htime⟩ => ⟨hid, htime, ?_⟩
    intro p hp hpid h0
    rcases h.projects p hp with hp | ⟨-, hp0⟩
    · have := hs.projects.le p.id (List.mem_map_of_mem hp)
      omega
    · exact absurd hp0 h0
  · intro _ q hq
    rcases h.projects q hq with hq | ⟨-, hq⟩
    · exact .inr ⟨q, hq, rfl, rfl⟩
    · exact .inl hq

end Extends

end Store

/-! ### All operations -/

/-- A task after an operation is one from before, to which one of three things happened, or it is
new. -/
theorem Operation.run_steps {setup : Setup} {s s' : Store} {op : Operation} {a : Answer}
    (hs : s.Regular) (hi : s.Integral) (h : op.run setup s = .ok (a, s')) : op.Steps s s' := by
  have hrefl := Store.Extends.refl s
  cases run_effect h with
  | createUser hop =>
    obtain ⟨username, name, rfl⟩ := Store.createUser_eq_ok hop
    have hext : s.Extends (s.addUser username name).2 := { hrefl with }
    exact hext.steps hs
  | createProject hop => exact (hrefl.createProject hop).steps hs
  | updateProject hop => exact Store.updateProject_steps hop
  | shareProject hop => exact (hrefl.shareProject hop).steps hs
  | createBucket hop => exact (hrefl.createBucket hop).steps hs
  | updateBucket hop => exact (hrefl.updateBucket hop).steps hs
  | deleteBucket hop => exact Store.deleteBucket_steps hs hi hop
  | createTask hop => exact Store.createTask_steps hs hop
  | updateTask hop => exact Store.updateTask_steps hop
  | deleteTask hop => exact (hrefl.deleteTask hop).steps hs
  | moveTask hop => exact Store.moveTask_steps hs hop
  | importProjects hop => exact (hrefl.importProjects hop).steps hs
  | read hop =>
    subst hop
    exact hrefl.steps hs

end Kanban
