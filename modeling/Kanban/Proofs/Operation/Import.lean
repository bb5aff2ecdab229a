import Kanban.Import.Basic
import Kanban.Proofs.Operation.Tasks

/-!
# What an import writes

An import is a sequence of writes, too.  Along it every new bucket has its project and every new
task its bucket, since neither labels nor tasks change the tables of buckets and projects
(`Store.importTasks_writes`, `Store.importBuckets_writes`).
-/

namespace Kanban

/-- The task to add to a bucket. -/
def TaskImport.new (t : TaskImport) (bucketId : Int) : NewTask where
  title := t.title
  description := Checklist.describe t.description t.checklists
  bucketId := some bucketId
  dueDate := t.dueDate

namespace Store

variable {s s' : Store} {index index' : LabelIndex} {owner : User}

theorem linkLabel_tables (s : Store) (taskId labelId : Int) :
    (s.linkLabel taskId labelId).buckets = s.buckets ∧
    (s.linkLabel taskId labelId).projects = s.projects ∧
      (s.linkLabel taskId labelId).tasks = s.tasks := by
  unfold linkLabel
  split <;> exact ⟨rfl, rfl, rfl⟩

theorem resolveLabel_writes (s : Store) (index : LabelIndex) (owner : User) (l : LabelImport) :
    s.Writes (s.resolveLabel index owner l).2.2 ∧
    (s.resolveLabel index owner l).2.2.buckets = s.buckets ∧
      (s.resolveLabel index owner l).2.2.projects = s.projects ∧
      (s.resolveLabel index owner l).2.2.tasks = s.tasks := by
  simp only [resolveLabel]
  split
  · exact ⟨.refl, rfl, rfl, rfl⟩
  · exact ⟨.single (.newLabel _ _ _), rfl, rfl, rfl⟩

theorem importLabels_writes {taskId : Int} (ht : s.HasTask taskId) (index : LabelIndex)
    (owner : User) (ls : List LabelImport) :
    s.Writes (s.importLabels index owner taskId ls).2 ∧
      (s.importLabels index owner taskId ls).2.buckets = s.buckets ∧
      (s.importLabels index owner taskId ls).2.projects = s.projects := by
  induction ls generalizing s index with
  | nil => exact ⟨.refl, rfl, rfl⟩
  | cons l ls ih =>
    obtain ⟨hresolve, hbuckets, hprojects, htasks⟩ := resolveLabel_writes s index owner l
    rw [importLabels]
    generalize s.resolveLabel index owner l = resolved at hresolve hbuckets hprojects htasks
    obtain ⟨hlinkBuckets, hlinkProjects, hlinkTasks⟩ :=
      linkLabel_tables resolved.2.2 taskId resolved.1
    have htResolved : resolved.2.2.HasTask taskId := by unfold HasTask; rw [htasks]; exact ht
    have htLinked : (resolved.2.2.linkLabel taskId resolved.1).HasTask taskId := by
      unfold HasTask; rw [hlinkTasks]; exact htResolved
    obtain ⟨hwrites, hbuckets', hprojects'⟩ := ih htLinked resolved.2.1
    refine ⟨(hresolve.tail (.link resolved.1 htResolved)).trans hwrites, ?_, ?_⟩
    · exact hbuckets'.trans (hlinkBuckets.trans hbuckets)
    · exact hprojects'.trans (hlinkProjects.trans hprojects)

theorem hasTask_addTask (t : Task) : (s.addTask t).2.HasTask (s.addTask t).1.id :=
  ⟨_, List.mem_append_right _ (List.mem_singleton_self _), rfl⟩

/-- A task is inserted, and then the labels on it. -/
theorem importTasks_cons {p : Project} {b : Bucket} {t : TaskImport} {ts : List TaskImport} :
    s.importTasks index owner p b (t :: ts) = .ok (index', s') ↔
      ∃ task s₁, s.insertTask p b owner (t.new b.id) t.done = .ok (task, s₁) ∧
        (s₁.importLabels index owner task.id t.labels).2.importTasks
          (s₁.importLabels index owner task.id t.labels).1
          owner p b ts = .ok (index', s') := by
  simp only [importTasks, bind_eq_ok, Prod.exists]
  rfl

theorem importTasks_writes {p : Project} {b : Bucket} {ts : List TaskImport}
    (hb : s.HasBucket p.id b.id) (h : s.importTasks index owner p b ts = .ok (index', s')) :
    s.Writes s' ∧ s'.buckets = s.buckets ∧ s'.projects = s.projects := by
  induction ts generalizing s index with
  | nil =>
    obtain ⟨rfl, rfl⟩ := Prod.mk.inj (Except.ok.inj h)
    exact ⟨.refl, rfl, rfl⟩
  | cons t ts ih =>
    obtain ⟨task, s₁, htask, h⟩ := importTasks_cons.1 h
    have hwrite := insertTask_writes hb htask
    obtain ⟨x, -, -, -, hadd⟩ := insertTask_eq_ok htask
    obtain ⟨rfl, rfl⟩ := Prod.mk.inj hadd
    obtain ⟨hlabelWrites, hbuckets, hprojects⟩ :=
      importLabels_writes (hasTask_addTask (s := s) x) index owner t.labels
    have hb' : ((s.addTask x).2.importLabels index owner (s.addTask x).1.id t.labels).2.HasBucket
        p.id b.id := by
      unfold HasBucket
      rw [hbuckets]
      exact hb
    obtain ⟨hwrites, hbuckets', hprojects'⟩ := ih hb' h
    exact ⟨.head hwrite (hlabelWrites.trans hwrites), hbuckets'.trans hbuckets,
      hprojects'.trans hprojects⟩

/-- A bucket is inserted, and then the tasks in it. -/
theorem importBuckets_cons {p : Project} {b : BucketImport} {bs : List BucketImport} :
    s.importBuckets index owner p (b :: bs) = .ok (index', s') ↔
      ∃ bucket s₁ index₂ s₂, s.insertBucket p.id { title := b.title, limit := b.limit } owner =
        .ok (bucket, s₁) ∧
        s₁.importTasks index owner p bucket b.tasks = .ok (index₂, s₂) ∧
        s₂.importBuckets index₂ owner p bs = .ok (index', s') := by
  simp only [importBuckets, bind_eq_ok, Prod.exists]
  constructor
  · rintro ⟨bucket, s₁, hbucket, index₂, s₂, htasks, h⟩
    exact ⟨bucket, s₁, index₂, s₂, hbucket, htasks, h⟩
  · rintro ⟨bucket, s₁, index₂, s₂, hbucket, htasks, h⟩
    exact ⟨bucket, s₁, hbucket, index₂, s₂, htasks, h⟩

theorem hasBucket_insertBucket (hs : s.Regular) {projectId : Int} {new : NewBucket}
    {bucket : Bucket} (h : s.insertBucket projectId new owner = .ok (bucket, s')) :
    s'.HasBucket projectId bucket.id ∧ s'.projects = s.projects := by
  obtain ⟨x, rfl, -, hadd⟩ := insertBucket_eq_ok hs h
  obtain ⟨rfl, rfl⟩ := Prod.mk.inj hadd
  exact ⟨hasBucket_addBucket_self x, rfl⟩

theorem importBuckets_writes (hs : s.Regular) {p : Project} {bs : List BucketImport}
    (hp : ∃ q ∈ s.projects, q.id = p.id) (h : s.importBuckets index owner p bs = .ok (index', s')) :
    s.Writes s' := by
  induction bs generalizing s index with
  | nil =>
    obtain ⟨rfl, rfl⟩ := Prod.mk.inj (Except.ok.inj h)
    exact .refl
  | cons b bs ih =>
    obtain ⟨bucket, s₁, index₂, s₂, hbucket, htasks, h⟩ := importBuckets_cons.1 h
    obtain ⟨hhas, hprojects⟩ := hasBucket_insertBucket hs hbucket
    have hwrite := insertBucket_write hs hp hbucket
    obtain ⟨hwrites, -, hprojects'⟩ := importTasks_writes hhas htasks
    have hs₂ := hwrites.regular (hwrite.regular hs)
    exact .head hwrite (hwrites.trans (ih hs₂ (by rw [hprojects', hprojects]; exact hp) h))

theorem projectTitle_eq_ok {title trimmed : String} :
    Project.validTitle title = .ok trimmed ↔
      Text.trimmed title ≠ "" ∧ Text.trimmed title = trimmed := by
  simp only [Project.validTitle, String.isEmpty_iff]
  split <;> simp [*]

/-- A project is added, and then its buckets. -/
theorem importProjects_cons {i : ProjectImport} {is : List ProjectImport} {ps : List Project} :
    s.importProjects index owner (i :: is) = .ok (ps, s') ↔
      Text.trimmed i.title ≠ "" ∧ ∃ index₂ s₂ ps',
        (s.addProject (Text.trimmed i.title) i.description owner.id).2.importBuckets index owner
          (s.addProject (Text.trimmed i.title) i.description owner.id).1 i.bucketsToAdd =
            .ok (index₂, s₂) ∧
        s₂.importProjects index₂ owner is = .ok (ps', s') ∧
        (s.addProject (Text.trimmed i.title) i.description owner.id).1 :: ps' = ps := by
  simp only [importProjects, insertProject, bind_eq_ok, Prod.exists, Except.ok.injEq, Prod.mk.injEq,
    projectTitle_eq_ok]
  constructor
  · rintro ⟨p, added, ⟨title, ⟨htitle, rfl⟩, hp⟩, index₂, s₂, hbuckets, ps', s₃, hrest, hps, rfl⟩
    obtain ⟨rfl, rfl⟩ := Prod.mk.inj hp
    exact ⟨htitle, index₂, s₂, ps', hbuckets, hrest, hps⟩
  · rintro ⟨htitle, index₂, s₂, ps', hbuckets, hrest, hps⟩
    exact ⟨_, _, ⟨_, ⟨htitle, rfl⟩, rfl⟩, index₂, s₂, hbuckets, ps', s', hrest, hps, rfl⟩

/-- A project is added together with its first bucket; it never goes without one. -/
theorem importProjects_writes (hs : s.Regular) {is : List ProjectImport} {ps : List Project}
    (h : s.importProjects index owner is = .ok (ps, s')) : s.Writes s' := by
  induction is generalizing s index ps with
  | nil =>
    obtain ⟨-, rfl⟩ := Prod.mk.inj (Except.ok.inj h)
    exact .refl
  | cons i is ih =>
    obtain ⟨-, index₃, s₃, ps', hbuckets, hrest, -⟩ := importProjects_cons.1 h
    have hsAdded := hs.addProject (Text.trimmed i.title) i.description owner.id
    -- Without listed buckets one is added all the same, so the list begins with a bucket.
    obtain ⟨b, bs, hcons⟩ : ∃ b bs, i.bucketsToAdd = b :: bs := by
      unfold ProjectImport.bucketsToAdd
      split
      · exact ⟨_, _, rfl⟩
      · rename_i hne
        exact List.exists_cons_of_ne_nil fun h => hne (List.isEmpty_iff.2 h)
    rw [hcons] at hbuckets
    obtain ⟨bucket, s₁, index₂, s₂, hbucket, htasks, hbuckets⟩ := importBuckets_cons.1 hbuckets
    obtain ⟨hhas, hprojects⟩ := hasBucket_insertBucket hsAdded hbucket
    have hwrite := insertProject_write hs rfl hbucket
    obtain ⟨hwrites, -, hprojects'⟩ := importTasks_writes hhas htasks
    have hs₂ := hwrites.regular (hwrite.regular hs)
    have hexists : ∃ q ∈ s₂.projects,
        q.id = (s.addProject (Text.trimmed i.title) i.description owner.id).1.id := by
      rw [hprojects', hprojects]
      exact ⟨_, List.mem_append_right _ (List.mem_singleton_self _), rfl⟩
    have hwrites' := importBuckets_writes hs₂ hexists hbuckets
    exact .head hwrite (hwrites.trans (hwrites'.trans (ih (hwrites'.regular hs₂) hrest)))

end Store

end Kanban
