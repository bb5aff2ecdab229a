import Kanban.Proofs.Store.Write

/-!
# Integrity of references

Every project has a bucket, the buckets to which it refers are buckets of its own, and every task is
in a bucket of its project (`Store.Integral`).  Every write keeps this (`Store.Write.integral`).  A
bucket can be removed since its project does not refer to it any more and no other project ever did.
The tasks in a scope of a project are tasks of the project (`Store.Integral.projectId_of_contains`),
even though those of a bucket are selected by the bucket alone.
-/

namespace Kanban

/-- The scope belongs to the project. -/
def Place.BelongsTo (p : Place) (s : Store) (q : Project) : Prop :=
  match p.scope with
  | .kanban => s.HasBucket q.id p.id
  | .list => p.id = q.id

namespace Store

/-- No reference to a bucket leads nowhere. -/
structure Integral (s : Store) : Prop where
  hasBucket : ∀ p ∈ s.projects, ∃ id, s.HasBucket p.id id
  defaultRef : ∀ p ∈ s.projects, p.defaultBucketId = 0 ∨ s.HasBucket p.id p.defaultBucketId
  doneRef : ∀ p ∈ s.projects, p.doneBucketId = 0 ∨ s.HasBucket p.id p.doneBucketId
  taskBucket : ∀ t ∈ s.tasks, s.HasBucket t.projectId t.bucketId

namespace Integral

variable {s s' : Store}

theorem empty : Integral {} := ⟨by simp, by simp, by simp, by simp⟩

/-- Buckets may be added and changed as long as none of them leaves its project. -/
private theorem of_hasBucket (h : s.Integral) (hprojects : s'.projects = s.projects)
    (htasks : s'.tasks = s.tasks)
    (hbuckets : ∀ {projectId id}, s.HasBucket projectId id → s'.HasBucket projectId id) :
    s'.Integral where
  hasBucket p hp := (h.hasBucket p (hprojects ▸ hp)).imp fun _ => hbuckets
  defaultRef p hp := (h.defaultRef p (hprojects ▸ hp)).imp_right hbuckets
  doneRef p hp := (h.doneRef p (hprojects ▸ hp)).imp_right hbuckets
  taskBucket t ht := hbuckets (h.taskBucket t (htasks ▸ ht))

theorem addBucket (h : s.Integral) (b : Bucket) : (s.addBucket b).2.Integral :=
  h.of_hasBucket rfl rfl hasBucket_addBucket

/-- A new project has its first bucket and refers to none. -/
theorem newProject (h : s.Integral) (title description : String) (ownerId : Int) {b : Bucket}
    (hb : b.projectId = s.lastProject + 1) :
    ((s.addProject title description ownerId).2.addBucket b).2.Integral where
  hasBucket p hp := by
    rcases List.mem_append.1 hp with hp | hp
    · exact (h.hasBucket p hp).imp fun _ hid => hasBucket_addBucket hid
    · obtain rfl := List.mem_singleton.1 hp
      exact ⟨s.lastBucket + 1, hb ▸ hasBucket_addBucket_self b⟩
  defaultRef p hp := by
    rcases List.mem_append.1 hp with hp | hp
    · exact (h.defaultRef p hp).imp_right fun hid => hasBucket_addBucket hid
    · obtain rfl := List.mem_singleton.1 hp
      exact .inl rfl
  doneRef p hp := by
    rcases List.mem_append.1 hp with hp | hp
    · exact (h.doneRef p hp).imp_right fun hid => hasBucket_addBucket hid
    · obtain rfl := List.mem_singleton.1 hp
      exact .inl rfl
  taskBucket t ht := hasBucket_addBucket (h.taskBucket t ht)

theorem setProject (h : s.Integral) {old p : Project} (hold : old ∈ s.projects)
    (hid : p.id = old.id)
    (hdefault : p.defaultBucketId = old.defaultBucketId ∨ p.defaultBucketId = 0 ∨
      s.HasBucket p.id p.defaultBucketId)
    (hdone : p.doneBucketId = old.doneBucketId ∨ p.doneBucketId = 0 ∨
      s.HasBucket p.id p.doneBucketId) :
    (s.setProject p).Integral where
  hasBucket x hx := by
    rcases mem_replace.1 hx with ⟨hx, -⟩ | ⟨rfl, -⟩
    · exact h.hasBucket x hx
    · rw [hid]; exact h.hasBucket old hold
  defaultRef x hx := by
    rcases mem_replace.1 hx with ⟨hx, -⟩ | ⟨rfl, -⟩
    · exact h.defaultRef x hx
    · rcases hdefault with heq | href
      · rw [heq, hid]; exact h.defaultRef old hold
      · exact href
  doneRef x hx := by
    rcases mem_replace.1 hx with ⟨hx, -⟩ | ⟨rfl, -⟩
    · exact h.doneRef x hx
    · rcases hdone with heq | href
      · rw [heq, hid]; exact h.doneRef old hold
      · exact href
  taskBucket := h.taskBucket

/-- A removed bucket was the one of no task and of no project: of its own since this is made sure
of, of others since their references lead to buckets of their own. -/
theorem removeBucket (h : s.Integral) (hs : s.Regular) {b other : Bucket} (hb : b ∈ s.buckets)
    (hother : other ∈ s.buckets) (hne : other.id ≠ b.id) (hproject : other.projectId = b.projectId)
    (htasks : ∀ t ∈ s.tasks, t.bucketId ≠ b.id)
    (hrefs : ∀ p ∈ s.projects, p.id = b.projectId →
      p.defaultBucketId ≠ b.id ∧ p.doneBucketId ≠ b.id) :
    (s.removeBucket b.id).Integral := by
  -- The bucket belongs to one project, so references of the others lead elsewhere.
  have hforeign : ∀ {projectId : Int}, projectId ≠ b.projectId → ∀ {id}, s.HasBucket projectId id →
      id ≠ b.id := by
    rintro projectId hp id ⟨x, hx, rfl, rfl⟩ heq
    exact hp (congrArg Bucket.projectId (eq_of_key_eq hs.buckets.nodup hx hb heq))
  constructor
  · intro p hp
    by_cases hpb : p.id = b.projectId
    · exact ⟨other.id, hasBucket_removeBucket ⟨other, hother, rfl, hproject.trans hpb.symm⟩ hne⟩
    · exact (h.hasBucket p hp).imp fun id hid => hasBucket_removeBucket hid (hforeign hpb hid)
  · intro p hp
    refine (h.defaultRef p hp).imp_right fun hid => hasBucket_removeBucket hid ?_
    by_cases hpb : p.id = b.projectId
    · exact (hrefs p hp hpb).1
    · exact hforeign hpb hid
  · intro p hp
    refine (h.doneRef p hp).imp_right fun hid => hasBucket_removeBucket hid ?_
    by_cases hpb : p.id = b.projectId
    · exact (hrefs p hp hpb).2
    · exact hforeign hpb hid
  · intro t ht
    exact hasBucket_removeBucket (h.taskBucket t ht) (htasks t ht)

theorem addTask (h : s.Integral) {t : Task} (hb : s.HasBucket t.projectId t.bucketId) :
    (s.addTask t).2.Integral :=
  { h with
    taskBucket := by
      intro x hx
      rcases List.mem_append.1 hx with hx | hx
      · exact h.taskBucket x hx
      · obtain rfl := List.mem_singleton.1 hx
        exact hb }

theorem setTask (h : s.Integral) {old t : Task} (hold : old ∈ s.tasks)
    (hproject : t.projectId = old.projectId)
    (hb : t.bucketId = old.bucketId ∨ s.HasBucket t.projectId t.bucketId) :
    (s.setTask t).Integral :=
  { h with
    taskBucket := by
      intro x hx
      rcases mem_replace.1 hx with ⟨hx, -⟩ | ⟨rfl, -⟩
      · exact h.taskBucket x hx
      · rcases hb with heq | hb
        · show s.HasBucket t.projectId t.bucketId
          rw [heq, hproject]
          exact h.taskBucket old hold
        · exact hb }

end Integral

variable {s s' : Store}

/-- No write makes a reference lead nowhere. -/
theorem Write.integral (h : s.Write s') (hs : s.Regular) (hi : s.Integral) : s'.Integral := by
  cases h with
  | clock | newUser | newLabel => exact { hi with }
  | newProject title description ownerId hb => exact hi.newProject title description ownerId hb
  | project hold hid hdefault hdone => exact hi.setProject hold hid hdefault hdone
  | share h =>
    unfold putShare
    split <;> exact { hi with }
  | newBucket => exact hi.addBucket _
  | bucket hold hid hproject =>
    exact hi.of_hasBucket rfl rfl (hasBucket_setBucket hs hold hid hproject)
  | dropBucket hb hother hne hproject htasks hrefs =>
    exact hi.removeBucket hs hb hother hne hproject htasks hrefs
  | newTask hb => exact hi.addTask hb
  | task hold _ hproject hb => exact hi.setTask hold hproject hb
  | dropTask id =>
    exact { hi with taskBucket := fun t ht => hi.taskBucket t (List.mem_of_mem_filter ht) }
  | link =>
    unfold linkLabel
    split
    · exact hi
    · exact { hi with }

theorem Writes.integral (h : s.Writes s') (hs : s.Regular) (hi : s.Integral) :
    s'.Regular ∧ s'.Integral :=
  h.invariant Write.integral hs hi

/-! ### Scopes of a project -/

variable {p : Project} {place : Place}

theorem belongsTo_bucket {id : Int} (h : s.HasBucket p.id id) : Place.BelongsTo ⟨.kanban, id⟩ s p :=
  h

theorem belongsTo_project (s : Store) (p : Project) : Place.BelongsTo ⟨.list, p.id⟩ s p := rfl

/-- A move to a bucket of the project has a scope of the project. -/
theorem belongsTo_forMove {target : Int} (h : s.HasBucket p.id target) (scope : Scope) :
    (Place.forMove p target scope).BelongsTo s p := by
  cases scope with
  | kanban => exact h
  | list => exact belongsTo_project s p

/-- A task in a scope of the project is one of the project. -/
theorem Integral.projectId_of_contains (hi : s.Integral) (hs : s.Regular)
    (hplace : place.BelongsTo s p) {t : Task} (ht : t ∈ s.tasks) (hin : place.contains t = true) :
    t.projectId = p.id := by
  rcases place with ⟨_ | _, id⟩
  · obtain ⟨b, hb, hid, hproject⟩ := hplace
    obtain ⟨c, hc, hcid, hcproject⟩ := hi.taskBucket t ht
    have hbucket : t.bucketId = id := by simpa [Place.contains] using hin
    rw [← hcproject, ← hproject,
      eq_of_key_eq hs.buckets.nodup hc hb (hcid.trans (hbucket.trans hid.symm))]
  · have hproject : t.projectId = id := by simpa [Place.contains] using hin
    exact hproject.trans hplace

end Store

end Kanban
