import Mathlib.Logic.Relation
import Kanban.Proofs.Store.Regular

/-!
# What operations write

Operations change the store by a few kinds of writes, and they make sure of something before each of
them (`Store.Write`): a new bucket belongs to a project, a task stays in its bucket or gets into
another one of its project, a bucket is removed only when nothing refers to it, a label is put on a
task that exists.  Properties of all stores that operations make are shown write by write
(`Store.Writes.regular`).
-/

namespace Kanban.Store

/-- The bucket exists and belongs to the project. -/
def HasBucket (s : Store) (projectId id : Int) : Prop :=
  ∃ b ∈ s.buckets, b.id = id ∧ b.projectId = projectId

/-- The task exists. -/
def HasTask (s : Store) (id : Int) : Prop := ∃ t ∈ s.tasks, t.id = id

/-- A write to the store, with what is made sure of before it. -/
inductive Write (s : Store) : Store → Prop where
  | clock : Write s s.tick
  | newUser (username name : String) : Write s (s.addUser username name).2
  /-- A project is added together with its first bucket. -/
  | newProject (title description : String) (ownerId : Int) {b : Bucket}
      (hb : b.projectId = s.lastProject + 1) (hnum : b.position.isNaN = false) :
      Write s ((s.addProject title description ownerId).2.addBucket b).2
  | project {old p : Project} (hold : old ∈ s.projects) (hid : p.id = old.id)
      (hdefault : p.defaultBucketId = old.defaultBucketId ∨ p.defaultBucketId = 0 ∨
        s.HasBucket p.id p.defaultBucketId)
      (hdone : p.doneBucketId = old.doneBucketId ∨ p.doneBucketId = 0 ∨
        s.HasBucket p.id p.doneBucketId) :
      Write s (s.setProject p)
  | share (h : Share) : Write s (s.putShare h)
  | newBucket {b : Bucket} (hp : ∃ p ∈ s.projects, p.id = b.projectId)
      (hnum : b.position.isNaN = false) : Write s (s.addBucket b).2
  | bucket {old b : Bucket} (hold : old ∈ s.buckets) (hid : b.id = old.id)
      (hproject : b.projectId = old.projectId) (hnum : b.position.isNaN = false) :
      Write s (s.setBucket b)
  /-- A bucket is removed when it is empty, not the last one and not referred to. -/
  | dropBucket {b other : Bucket} (hb : b ∈ s.buckets) (hother : other ∈ s.buckets)
      (hne : other.id ≠ b.id) (hproject : other.projectId = b.projectId)
      (htasks : ∀ t ∈ s.tasks, t.bucketId ≠ b.id)
      (hrefs : ∀ p ∈ s.projects, p.id = b.projectId →
        p.defaultBucketId ≠ b.id ∧ p.doneBucketId ≠ b.id) :
      Write s (s.removeBucket b.id)
  | newTask {t : Task} (hb : s.HasBucket t.projectId t.bucketId)
      (hnum : ∀ scope, (t.key scope).isNaN = false) : Write s (s.addTask t).2
  | task {old t : Task} (hold : old ∈ s.tasks) (hid : t.id = old.id)
      (hproject : t.projectId = old.projectId)
      (hb : t.bucketId = old.bucketId ∨ s.HasBucket t.projectId t.bucketId)
      (hnum : ∀ scope, (t.key scope).isNaN = false) : Write s (s.setTask t)
  | dropTask (id : Int) : Write s (s.removeTask id)
  | newLabel (title hexColor : String) (createdById : Int) :
      Write s (s.addLabel title hexColor createdById).2
  | link {taskId : Int} (labelId : Int) (ht : s.HasTask taskId) :
      Write s (s.linkLabel taskId labelId)

/-- Any number of writes, one after the other. -/
abbrev Writes : Store → Store → Prop := Relation.ReflTransGen Write

variable {s s' : Store}

theorem Write.regular (h : s.Write s') (hs : s.Regular) : s'.Regular := by
  cases h with
  | clock => exact hs.tick
  | newUser username name => exact hs.addUser username name
  | newProject title description ownerId _ hnum =>
    exact (hs.addProject title description ownerId).addBucket hnum
  | project => exact hs.setProject _
  | share h => exact hs.putShare h
  | newBucket _ hnum => exact hs.addBucket hnum
  | bucket _ _ _ hnum => exact hs.setBucket hnum
  | dropBucket => exact hs.removeBucket _
  | newTask _ hnum => exact hs.addTask hnum
  | task _ _ _ _ hnum => exact hs.setTask hnum
  | dropTask id => exact hs.removeTask id
  | newLabel title hexColor createdById => exact hs.addLabel title hexColor createdById
  | link labelId => exact hs.linkLabel _ labelId

/-- What every write keeps, given that the store is regular, any number of writes keep. -/
theorem Writes.invariant {P : Store → Prop} (hstep : ∀ {s s'}, Write s s' → s.Regular → P s → P s')
    (h : s.Writes s') (hs : s.Regular) (hP : P s) : s'.Regular ∧ P s' := by
  induction h with
  | refl => exact ⟨hs, hP⟩
  | tail _ hwrite ih => exact ⟨hwrite.regular ih.1, hstep hwrite ih.1 ih.2⟩

theorem Writes.regular (h : s.Writes s') (hs : s.Regular) : s'.Regular :=
  (h.invariant (P := fun _ => True) (fun _ _ _ => trivial) hs trivial).1

/-! ### Buckets that stay -/

theorem hasBucket_addBucket {b : Bucket} {projectId id : Int} (h : s.HasBucket projectId id) :
    (s.addBucket b).2.HasBucket projectId id := by
  obtain ⟨x, hx, hid, hproject⟩ := h
  exact ⟨x, List.mem_append_left _ hx, hid, hproject⟩

theorem hasBucket_addBucket_self (b : Bucket) :
    (s.addBucket b).2.HasBucket b.projectId (s.lastBucket + 1) :=
  ⟨(s.addBucket b).1, List.mem_append_right _ (List.mem_singleton_self _), rfl, rfl⟩

theorem hasBucket_setBucket (hs : s.Regular) {old b : Bucket} (hold : old ∈ s.buckets)
    (hid : b.id = old.id) (hproject : b.projectId = old.projectId) {projectId id : Int}
    (h : s.HasBucket projectId id) :
    (s.setBucket b).HasBucket projectId id := by
  obtain ⟨x, hx, rfl, rfl⟩ := h
  by_cases hxb : x.id = b.id
  · obtain rfl := eq_of_key_eq hs.buckets.nodup hx hold (hxb.trans hid)
    exact ⟨b.stored, mem_replace.2 (.inr ⟨rfl, x, hx, hxb⟩), hid, hproject⟩
  · exact ⟨x, mem_replace.2 (.inl ⟨hx, hxb⟩), rfl, rfl⟩

theorem hasBucket_removeBucket {removed projectId id : Int} (h : s.HasBucket projectId id)
    (hne : id ≠ removed) :
    (s.removeBucket removed).HasBucket projectId id := by
  obtain ⟨x, hx, rfl, rfl⟩ := h
  exact ⟨x, List.mem_filter.2 ⟨hx, by simpa using hne⟩, rfl, rfl⟩

end Kanban.Store
