import Kanban.Proofs.Operation.Import

/-!
# Imports that succeed

An import fails for a blank title or a negative limit only, at whatever depth it occurs and whatever
is in the store (`Store.importProjects_succeeds`).  The titles of labels and the number of tasks in
a bucket do not matter.
-/

namespace Kanban

/-! ### Entries without faults -/

/-- The title is not blank. -/
def TaskImport.Valid (t : TaskImport) : Prop := Text.trimmed t.title ≠ ""

/-- The title of the bucket and those of its tasks are not blank, and its limit is not negative. -/
structure BucketImport.Valid (b : BucketImport) : Prop where
  title : Text.trimmed b.title ≠ ""
  limit : 0 ≤ b.limit
  tasks : ∀ t ∈ b.tasks, t.Valid

/-- The title of the project is not blank, and its buckets have no faults. -/
structure ProjectImport.Valid (i : ProjectImport) : Prop where
  title : Text.trimmed i.title ≠ ""
  buckets : ∀ b ∈ i.buckets, b.Valid

instance : DecidablePred TaskImport.Valid :=
  fun t => inferInstanceAs (Decidable (Text.trimmed t.title ≠ ""))

instance : DecidablePred BucketImport.Valid := fun b =>
  decidable_of_iff (Text.trimmed b.title ≠ "" ∧ 0 ≤ b.limit ∧ ∀ t ∈ b.tasks, t.Valid)
    ⟨fun h => ⟨h.1, h.2.1, h.2.2⟩, fun h => ⟨h.title, h.limit, h.tasks⟩⟩

instance : DecidablePred ProjectImport.Valid := fun i =>
  decidable_of_iff (Text.trimmed i.title ≠ "" ∧ ∀ b ∈ i.buckets, b.Valid)
    ⟨fun h => ⟨h.1, h.2⟩, fun h => ⟨h.title, h.buckets⟩⟩

/-- The bucket that is added for want of others has no faults. -/
theorem ProjectImport.valid_bucketsToAdd {i : ProjectImport} :
    (∀ b ∈ i.bucketsToAdd, b.Valid) ↔ ∀ b ∈ i.buckets, b.Valid := by
  unfold bucketsToAdd
  split
  · rename_i hempty
    rw [List.isEmpty_iff.1 hempty]
    have hfirst : BucketImport.Valid { title := Project.firstBucketTitle } :=
      ⟨by decide +kernel, le_rfl, List.forall_mem_nil _⟩
    simpa using hfirst
  · rfl

namespace Store

variable {s s' : Store} {index index' : LabelIndex} {owner : User} {p : Project}

/-! ### Single rows -/

/-- The task that is added for an entry. -/
def importedTask (s : Store) (p : Project) (b : Bucket) (owner : User) (i : TaskImport) : Task where
  title := Text.trimmed i.title
  description := Checklist.describe i.description i.checklists
  done := i.done || (p.doneBucketId ≠ 0 && b.id = p.doneBucketId)
  dueDate := i.dueDate
  projectId := p.id
  bucketId := b.id
  position := Position.initial (s.lastTask + 1) .zero
  kanbanPosition := Position.initial (s.lastTask + 1) .zero
  createdById := owner.id

/-- The bucket that is added for an entry. -/
def importedBucket (s : Store) (p : Project) (owner : User) (i : BucketImport) : Bucket where
  title := Text.trimmed i.title
  projectId := p.id
  limit := i.limit
  position := s.newBucketPosition p.id .zero
  createdById := owner.id

theorem insertTask_new_eq_ok {b : Bucket} {i : TaskImport} {r : Task × Store} :
    s.insertTask p b owner (i.new b.id) i.done = .ok r ↔
      i.Valid ∧ s.addTask (s.importedTask p b owner i) = r := by
  have hpercent : Task.validPercent .zero = .ok .zero := by decide +kernel
  have htitle : ∀ title, Task.validTitle i.title = .ok title ↔
      i.Valid ∧ Text.trimmed i.title = title := fun title => by
    simp only [Task.validTitle, String.isEmpty_iff, TaskImport.Valid]
    split <;> simp [*]
  simp only [insertTask, bind_eq_ok, Except.ok.injEq, TaskImport.new, htitle, hpercent]
  constructor
  · rintro ⟨title, ⟨hvalid, rfl⟩, _, rfl, h⟩
    exact ⟨hvalid, h⟩
  · rintro ⟨hvalid, h⟩
    exact ⟨_, ⟨hvalid, rfl⟩, _, rfl, h⟩

theorem insertBucket_new_eq_ok {i : BucketImport} {r : Bucket × Store} :
    s.insertBucket p.id { title := i.title, limit := i.limit } owner = .ok r ↔
      Text.trimmed i.title ≠ "" ∧ 0 ≤ i.limit ∧ s.addBucket (s.importedBucket p owner i) = r := by
  have hposition : Bucket.validPosition .zero = .ok .zero := if_pos Double.isFinite_zero
  have htitle : ∀ title, Bucket.validTitle i.title = .ok title ↔
      Text.trimmed i.title ≠ "" ∧ Text.trimmed i.title = title := fun title => by
    simp only [Bucket.validTitle, String.isEmpty_iff]
    split <;> simp [*]
  have hlimit : ∀ limit, Bucket.validLimit i.limit = .ok limit ↔ 0 ≤ i.limit ∧ i.limit = limit := by
    intro limit
    unfold Bucket.validLimit
    split
    · rename_i hneg
      simp [Int.not_le.2 hneg]
    · rename_i hpos
      simp [Int.not_lt.1 hpos]
  simp only [insertBucket, bind_eq_ok, Except.ok.injEq, htitle, hlimit, hposition]
  constructor
  · rintro ⟨title, ⟨htitle, rfl⟩, limit, ⟨hlimit, rfl⟩, _, rfl, h⟩
    exact ⟨htitle, hlimit, h⟩
  · rintro ⟨htitle, hlimit, h⟩
    exact ⟨_, ⟨htitle, rfl⟩, _, ⟨hlimit, rfl⟩, _, rfl, h⟩

/-! ### Whole imports -/

theorem importTasks_succeeds {b : Bucket} {ts : List TaskImport} :
    (∃ r, s.importTasks index owner p b ts = .ok r) ↔ ∀ t ∈ ts, t.Valid := by
  induction ts generalizing s index with
  | nil => simp [importTasks]
  | cons t ts ih =>
    rw [List.forall_mem_cons]
    constructor
    · rintro ⟨⟨index', s'⟩, h⟩
      obtain ⟨task, s₁, htask, h⟩ := importTasks_cons.1 h
      exact ⟨(insertTask_new_eq_ok.1 htask).1, ih.1 ⟨_, h⟩⟩
    · rintro ⟨ht, hts⟩
      obtain ⟨⟨index', s'⟩, h⟩ := ih.2 hts
      exact ⟨_, importTasks_cons.2 ⟨_, _, insertTask_new_eq_ok.2 ⟨ht, rfl⟩, h⟩⟩

theorem importBuckets_succeeds {bs : List BucketImport} :
    (∃ r, s.importBuckets index owner p bs = .ok r) ↔ ∀ b ∈ bs, b.Valid := by
  induction bs generalizing s index with
  | nil => simp [importBuckets]
  | cons b bs ih =>
    rw [List.forall_mem_cons]
    constructor
    · rintro ⟨⟨index', s'⟩, h⟩
      obtain ⟨bucket, s₁, index₂, s₂, hbucket, htasks, h⟩ := importBuckets_cons.1 h
      obtain ⟨htitle, hlimit, -⟩ := insertBucket_new_eq_ok.1 hbucket
      exact ⟨⟨htitle, hlimit, importTasks_succeeds.1 ⟨_, htasks⟩⟩, ih.1 ⟨_, h⟩⟩
    · rintro ⟨hb, hbs⟩
      obtain ⟨⟨index₂, s₂⟩, htasks⟩ := importTasks_succeeds.2 hb.tasks
      obtain ⟨⟨index', s'⟩, h⟩ := ih.2 hbs
      exact ⟨_, importBuckets_cons.2
        ⟨_, _, index₂, s₂, insertBucket_new_eq_ok.2 ⟨hb.title, hb.limit, rfl⟩, htasks, h⟩⟩

/-- An import fails for faults of its entries only. -/
theorem importProjects_succeeds {is : List ProjectImport} :
    (∃ r, s.importProjects index owner is = .ok r) ↔ ∀ i ∈ is, i.Valid := by
  induction is generalizing s index with
  | nil => simp [importProjects]
  | cons i is ih =>
    rw [List.forall_mem_cons]
    constructor
    · rintro ⟨⟨ps, s'⟩, h⟩
      obtain ⟨htitle, index₂, s₂, ps', hbuckets, hrest, -⟩ := importProjects_cons.1 h
      have hvalid := importBuckets_succeeds.1 ⟨_, hbuckets⟩
      exact ⟨⟨htitle, ProjectImport.valid_bucketsToAdd.1 hvalid⟩, ih.1 ⟨_, hrest⟩⟩
    · rintro ⟨hi, his⟩
      obtain ⟨⟨index₂, s₂⟩, hbuckets⟩ :=
        importBuckets_succeeds.2 (ProjectImport.valid_bucketsToAdd.2 hi.buckets)
      obtain ⟨⟨ps', s'⟩, hrest⟩ := ih.2 his
      exact ⟨_, importProjects_cons.2 ⟨hi.title, index₂, s₂, ps', hbuckets, hrest, rfl⟩⟩

end Store

end Kanban
