import Kanban.Projects
import Kanban.Proofs.Position.Numbers
import Kanban.Proofs.Store.Integrity
import Kanban.Proofs.Success
import Kanban.Proofs.Tasks.Placement

/-!
# What operations on projects and buckets write

Every successful operation on projects and buckets is a sequence of writes.  Deleting a bucket first
clears the references of its project to it and moves its tasks to another bucket of the project
(`Store.appendTasks_writes`), so the bucket can be removed (`Store.deleteBucket_writes`).
-/

namespace Kanban.Store

variable {s s' : Store}

/-! ### Rows that are found -/

theorem getProject_eq_ok {id : Int} {p : Project} (h : s.getProject id = .ok p) :
    p ∈ s.projects ∧ p.id = id := by
  unfold getProject at h
  split at h
  · rename_i q hq
    obtain rfl := Except.ok.inj h
    exact ⟨List.mem_of_find?_eq_some hq, by simpa using List.find?_some hq⟩
  · simp at h

theorem projectFor_eq_ok {needed : Right} {actor id : Int} {p : Project} :
    s.projectFor needed actor id = .ok p ↔
      s.getProject id = .ok p ∧ s.allows actor p needed = true := by
  unfold projectFor
  rw [bind_eq_ok]
  constructor
  · rintro ⟨q, hq, h⟩
    split at h
    · obtain rfl := Except.ok.inj h
      exact ⟨hq, ‹_›⟩
    · simp at h
  · rintro ⟨hp, h⟩
    exact ⟨p, hp, if_pos h⟩

theorem mem_of_projectFor {needed : Right} {actor id : Int} {p : Project}
    (h : s.projectFor needed actor id = .ok p) :
    p ∈ s.projects ∧ p.id = id :=
  getProject_eq_ok (projectFor_eq_ok.1 h).1

/-- Every right includes that to read. -/
theorem allows_read {actor : Int} {p : Project} {needed : Right}
    (h : s.allows actor p needed = true) :
    s.allows actor p .read = true := by
  unfold allows at h ⊢
  cases hright : s.right? actor p with
  | none => simp [hright] at h
  | some held => cases held <;> rfl

/-- Rights are read from the tables of projects and shares. -/
theorem projectFor_congr (hprojects : s'.projects = s.projects) (hshares : s'.shares = s.shares)
    {needed : Right} {actor id : Int} :
    s'.projectFor needed actor id = s.projectFor needed actor id := by
  have hget : s'.getProject id = s.getProject id := by
    unfold getProject project?
    rw [hprojects]
  have hallows : ∀ q, s'.allows actor q needed = s.allows actor q needed := fun q => by
    unfold allows right? share?
    rw [hshares]
  simp only [projectFor, hget, hallows]

theorem getBucket_eq_ok {projectId id : Int} {b : Bucket} (h : s.getBucket projectId id = .ok b) :
    b ∈ s.buckets ∧ b.id = id ∧ b.projectId = projectId := by
  unfold getBucket at h
  split at h
  · rename_i x hx
    obtain rfl := Except.ok.inj h
    have hprop := List.find?_some hx
    simp only [Bool.and_eq_true, beq_iff_eq] at hprop
    exact ⟨List.mem_of_find?_eq_some hx, hprop⟩
  · simp at h

theorem hasBucket_of_getBucket {projectId id : Int} {b : Bucket}
    (h : s.getBucket projectId id = .ok b) :
    s.HasBucket projectId id :=
  ⟨b, getBucket_eq_ok h⟩

theorem isNaN_greatest? {xs : List Double} (hnum : ∀ x ∈ xs, x.isNaN = false) :
    ∀ x, greatest? xs = some x → x.isNaN = false := fun _ hx => hnum _ (greatest?_eq_some hnum hx).1

/-! ### New buckets -/

theorem isNaN_newBucketPosition (hs : s.Regular) {projectId : Int} {given : Double}
    (hgiven : given.isNaN = false) :
    (s.newBucketPosition projectId given).isNaN = false := by
  unfold newBucketPosition
  split
  · split
    · rename_i tail htail
      refine Position.isNaN_allocate_tail fun x hx => ?_
      obtain rfl := Option.some.inj hx
      refine isNaN_greatest? (fun y hy => ?_) tail htail
      obtain ⟨b, hb, rfl⟩ := List.mem_map.1 hy
      exact (hs.bucketRows b (List.mem_of_mem_filter hb)).2
    · exact Position.isNaN_initial _
  · exact hgiven

theorem isNaN_validPosition {x y : Double} (h : Bucket.validPosition x = .ok y) :
    y.isNaN = false := by
  unfold Bucket.validPosition at h
  split at h
  · obtain rfl := Except.ok.inj h
    exact Double.isNaN_of_isFinite ‹_›
  · simp at h

/-- Inserting a bucket adds one to the project. -/
theorem insertBucket_eq_ok (hs : s.Regular) {projectId : Int} {new : NewBucket} {creator : User}
    {b : Bucket} (h : s.insertBucket projectId new creator = .ok (b, s')) :
    ∃ x : Bucket, x.projectId = projectId ∧ x.position.isNaN = false ∧ s.addBucket x = (b, s') := by
  simp only [insertBucket, bind_eq_ok, Except.ok.injEq] at h
  obtain ⟨title, -, limit, -, given, hgiven, h⟩ := h
  exact ⟨_, rfl, isNaN_newBucketPosition hs (isNaN_validPosition hgiven), h⟩

theorem insertBucket_write (hs : s.Regular) {projectId : Int} {new : NewBucket} {creator : User}
    {b : Bucket} (hp : ∃ p ∈ s.projects, p.id = projectId)
    (h : s.insertBucket projectId new creator = .ok (b, s')) :
    s.Write s' := by
  obtain ⟨x, hx, hnum, hadd⟩ := insertBucket_eq_ok hs h
  have hwrite := Write.newBucket (s := s) (b := x) (hx ▸ hp) hnum
  rwa [hadd] at hwrite

theorem createBucket_eq_ok {actor projectId : Int} {new : NewBucket} {d : BucketDetail}
    (h : s.createBucket actor projectId new = .ok (d, s')) :
    ∃ p creator, s.projectFor .write actor projectId = .ok p ∧ s.actor actor = .ok creator ∧
      s.insertBucket p.id new creator = .ok (d.bucket, s') := by
  simp only [createBucket, bind_eq_ok, Prod.exists, Except.ok.injEq, Prod.mk.injEq] at h
  obtain ⟨p, hp, creator, hcreator, b, placed, hb, rfl, rfl⟩ := h
  exact ⟨p, creator, hp, hcreator, hb⟩

theorem createBucket_writes (hs : s.Regular) {actor projectId : Int} {new : NewBucket}
    {d : BucketDetail} (h : s.createBucket actor projectId new = .ok (d, s')) : s.Writes s' := by
  obtain ⟨p, creator, hp, -, hb⟩ := createBucket_eq_ok h
  exact .single (insertBucket_write hs ⟨p, (mem_of_projectFor hp).1, rfl⟩ hb)

/-! ### Changed buckets -/

theorem patched_eq_ok {b b' : Bucket} {patch : BucketUpdate} (h : b.patched patch = .ok b')
    (hnum : b.position.isNaN = false) :
    b'.id = b.id ∧ b'.projectId = b.projectId ∧ b'.position.isNaN = false := by
  simp only [Bucket.patched, bind_eq_ok, Except.ok.injEq] at h
  obtain ⟨title, -, limit, -, position, hposition, rfl⟩ := h
  refine ⟨rfl, rfl, ?_⟩
  rcases renewed_eq_ok.1 hposition with ⟨-, rfl⟩ | ⟨x, -, hx⟩
  · exact hnum
  · exact isNaN_validPosition hx

theorem updateBucket_writes (hs : s.Regular) {actor projectId id : Int} {patch : BucketUpdate}
    {d : BucketDetail} (h : s.updateBucket actor projectId id patch = .ok (d, s')) :
    s.Writes s' := by
  simp only [updateBucket, bind_eq_ok, Except.ok.injEq, Prod.mk.injEq] at h
  obtain ⟨p, -, old, hold, b, hb, -, rfl⟩ := h
  obtain ⟨hmem, -, -⟩ := getBucket_eq_ok hold
  obtain ⟨hid, hproject, hnum⟩ := patched_eq_ok hb (hs.bucketRows old hmem).2
  exact .tail (.single .clock) (.bucket hmem hid hproject hnum)

/-! ### New and changed projects -/

/-- A project and its first bucket are added by one write, so no project is ever without a
bucket. -/
theorem insertProject_write (hs : s.Regular) {title description : String} {ownerId : Int}
    {p : Project} {added : Store} (hp : s.addProject title description ownerId = (p, added))
    {new : NewBucket} {creator : User} {b : Bucket}
    (h : added.insertBucket p.id new creator = .ok (b, s')) : s.Write s' := by
  obtain ⟨rfl, rfl⟩ := Prod.mk.inj hp
  obtain ⟨x, hx, hnum, hadd⟩ := insertBucket_eq_ok (hs.addProject title description ownerId) h
  have hwrite := Write.newProject (s := s) title description ownerId hx hnum
  rwa [hadd] at hwrite

theorem createProject_eq_ok {actor : Int} {new : NewProject} {p : Project}
    (h : s.createProject actor new = .ok (p, s')) :
    ∃ (owner : User) (title : String) (b : Bucket),
      p = (s.addProject title new.description owner.id).1 ∧
      (s.addProject title new.description owner.id).2.insertBucket p.id
        { title := Project.firstBucketTitle } owner = .ok (b, s') := by
  simp only [createProject, insertProject, bind_eq_ok, Prod.exists, Except.ok.injEq,
    Prod.mk.injEq] at h
  obtain ⟨owner, -, q, added, ⟨title, -, hq⟩, b, placed, hb, rfl, rfl⟩ := h
  obtain ⟨rfl, rfl⟩ := Prod.mk.inj hq
  exact ⟨owner, title, b, rfl, hb⟩

theorem createProject_writes (hs : s.Regular) {actor : Int} {new : NewProject} {p : Project}
    (h : s.createProject actor new = .ok (p, s')) : s.Writes s' := by
  obtain ⟨owner, title, b, rfl, hb⟩ := createProject_eq_ok h
  exact .single (insertProject_write hs rfl hb)

theorem bucketRef_eq_ok {projectId bucketId r : Int} (h : s.bucketRef projectId bucketId = .ok r) :
    r = 0 ∨ s.HasBucket projectId r := by
  unfold bucketRef at h
  split at h
  · exact .inl (Except.ok.inj h).symm
  · simp only [bind_eq_ok, Except.ok.injEq] at h
    obtain ⟨b, hb, rfl⟩ := h
    obtain ⟨hmem, -, hproject⟩ := getBucket_eq_ok hb
    exact .inr ⟨b, hmem, rfl, hproject⟩

theorem updateProject_writes {actor id : Int} {patch : ProjectUpdate} {p : Project}
    (h : s.updateProject actor id patch = .ok (p, s')) : s.Writes s' := by
  simp only [updateProject, bind_eq_ok, Except.ok.injEq, Prod.mk.injEq] at h
  obtain ⟨old, hold, title, -, defaultBucketId, hdefault, doneBucketId, hdone, -, rfl⟩ := h
  have href : ∀ {new : Option Int} {ref r : Int}, renewed new ref (s.bucketRef old.id) = .ok r →
      r = ref ∨ r = 0 ∨ s.HasBucket old.id r := by
    intro new ref r h
    rcases renewed_eq_ok.1 h with ⟨-, rfl⟩ | ⟨x, -, hx⟩
    · exact .inl rfl
    · exact .inr (bucketRef_eq_ok hx)
  exact .tail (.single .clock)
    (.project (mem_of_projectFor hold).1 rfl (href hdefault) (href hdone))

theorem shareProject_writes {actor id : Int} {x : NewShare}
    (h : s.shareProject actor id x = .ok s') : s.Writes s' := by
  simp only [shareProject, bind_eq_ok] at h
  obtain ⟨right, -, p, -, h⟩ := h
  split at h
  · simp only [bind_eq_ok, Except.ok.injEq] at h
    obtain ⟨u, -, rfl⟩ := h
    exact .tail (.single .clock) (.share _)
  · simp at h

/-! ### Deletion of a bucket -/

/-- Appending tasks to a bucket writes their rows.  Of the other tasks no row changes. -/
theorem appendTasks_writes {target : Int} (intoDone : Bool) (time : Instant) {tail : Option Double}
    {ts : List Task} (hs : s.Regular) (htail : ∀ x, tail = some x → x.isNaN = false)
    (hts : ∀ t ∈ ts, t ∈ s.tasks) (hids : (ts.map (·.id)).Nodup)
    (htarget : ∀ t ∈ ts, s.HasBucket t.projectId target) :
    s.Writes (s.appendTasks target intoDone time tail ts) ∧
      (s.appendTasks target intoDone time tail ts).buckets = s.buckets ∧
      (s.appendTasks target intoDone time tail ts).projects = s.projects ∧
      ∀ x ∈ (s.appendTasks target intoDone time tail ts).tasks,
        (x ∈ s.tasks ∧ x.id ∉ ts.map (·.id)) ∨ x.bucketId = target := by
  induction ts generalizing s tail with
  | nil => exact ⟨.refl, rfl, rfl, fun x hx => .inl ⟨hx, by simp⟩⟩
  | cons t ts ih =>
    rw [List.map_cons, List.nodup_cons] at hids
    have hkey := Position.isNaN_allocate_tail htail
    rw [appendTasks]
    generalize hmoved : ({ t with
      bucketId := target
      kanbanPosition := Position.allocate tail none
      done := intoDone || t.done
      doneAt := if intoDone && !t.done then some time else t.doneAt
      updated := time } : Task) = moved
    have hid : moved.id = t.id := hmoved ▸ rfl
    have hwrite : s.Write (s.setTask moved) := by
      refine .task (hts t (List.mem_cons_self ..)) hid (hmoved ▸ rfl) (.inr ?_) ?_
      · rw [← hmoved]; exact htarget t (List.mem_cons_self ..)
      · rw [← hmoved]
        rintro (_ | _)
        · exact hkey
        · exact (hs.taskRows t (hts t (List.mem_cons_self ..))).2 .list
    have htail' : ∀ x, some (Position.allocate tail none) = some x → x.isNaN = false := fun x hx =>
      Option.some.inj hx ▸ hkey
    -- The remaining tasks have other ids, so their rows are still there.
    obtain ⟨hrest, hbuckets, hprojects, htasks⟩ := ih (hwrite.regular hs) htail'
      (fun u hu => mem_replace.2 (.inl ⟨hts u (List.mem_cons_of_mem _ hu), fun heq =>
        hids.1 (List.mem_map.2 ⟨u, hu, heq.trans hid⟩)⟩))
      hids.2 (fun u hu => htarget u (List.mem_cons_of_mem _ hu))
    refine ⟨.head hwrite hrest, hbuckets, hprojects, fun x hx => ?_⟩
    rcases htasks x hx with ⟨hx, hnot⟩ | hx
    · rcases mem_replace.1 hx with ⟨hx, hne⟩ | ⟨rfl, -⟩
      · refine .inl ⟨hx, ?_⟩
        simp only [List.map_cons, List.mem_cons, not_or]
        exact ⟨hid ▸ hne, hnot⟩
      · rw [Task.bucketId_stored, ← hmoved]
        exact .inr rfl
    · exact .inr hx

/-- Moving all tasks out of a bucket leaves none there. -/
theorem moveAllTasks_writes (hs : s.Regular) (hi : s.Integral) {p : Project} {source target : Int}
    {b : Bucket} (hb : b ∈ s.buckets) (hid : b.id = source)
    (htarget : s.HasBucket b.projectId target) (hne : target ≠ source) :
    s.Writes (s.moveAllTasks p source target) ∧
    (s.moveAllTasks p source target).buckets = s.buckets ∧
      (s.moveAllTasks p source target).projects = s.projects ∧
      ∀ t ∈ (s.moveAllTasks p source target).tasks, t.bucketId ≠ source := by
  have hmem : ∀ t, t ∈ s.orderedIn .kanban source ↔ t ∈ s.tasks ∧ t.bucketId = source := by
    intro t
    rw [(s.orderedIn_perm .kanban source).mem_iff]
    simp [tasksIn]
  unfold moveAllTasks
  by_cases hempty : (s.orderedIn .kanban source).isEmpty
  · rw [if_pos hempty]
    refine ⟨.refl, rfl, rfl, fun t ht heq => ?_⟩
    have := (hmem t).2 ⟨ht, heq⟩
    simp [List.isEmpty_iff.1 hempty] at this
  · rw [if_neg hempty]
    have htail : ∀ x, greatest? ((s.tasksIn .kanban target).map (·.kanbanPosition)) = some x →
        x.isNaN = false := by
      refine isNaN_greatest? fun x hx => ?_
      obtain ⟨t, ht, rfl⟩ := List.mem_map.1 hx
      exact (hs.taskRows t (mem_tasks_of_mem_tasksIn ht)).2 .kanban
    have hids := nodup_orderedIn hs.tasks.nodup .kanban source
    have hproject : ∀ t ∈ s.orderedIn .kanban source, s.HasBucket t.projectId target := by
      intro t ht
      obtain ⟨ht, hbucket⟩ := (hmem t).1 ht
      obtain ⟨x, hx, hxid, hxproject⟩ := hi.taskBucket t ht
      obtain rfl := eq_of_key_eq hs.buckets.nodup hx hb (hxid.trans (hbucket.trans hid.symm))
      exact hxproject ▸ htarget
    obtain ⟨hwrites, hbuckets, hprojects, htasks⟩ := appendTasks_writes (s := s.tick)
      (decide (target = p.doneBucketId)) s.now hs.tick htail
        (fun t ht => ((hmem t).1 ht).1) hids hproject
    refine ⟨.head .clock hwrites, hbuckets, hprojects, fun t ht heq => ?_⟩
    rcases htasks t ht with ⟨ht, hnot⟩ | htarget'
    · exact hnot (List.mem_map_of_mem ((hmem t).2 ⟨ht, heq⟩))
    · exact hne (htarget'.symm.trans heq)

/-- The fallback bucket is another one of the project. -/
theorem resolveBucket_eq_ok {p : Project} {excluded : Option Int} {id : Int}
    (hdefault : p.defaultBucketId = 0 ∨ s.HasBucket p.id p.defaultBucketId)
    (h : s.resolveBucket p excluded = .ok id) :
    s.HasBucket p.id id ∧ some id ≠ excluded := by
  unfold resolveBucket at h
  split at h
  · rename_i hcond
    obtain rfl := Except.ok.inj h
    exact ⟨hdefault.resolve_left hcond.1, hcond.2⟩
  · split at h
    · rename_i b hb
      obtain rfl := Except.ok.inj h
      have hmem := List.mem_filter.1 (List.mem_of_mem_head? hb)
      have hb' := List.mem_filter.1 ((List.mergeSort_perm _ _).mem_iff.1 hmem.1)
      refine ⟨⟨b, hb'.1, rfl, by simpa using hb'.2⟩, ?_⟩
      rintro rfl
      simp at hmem
    · simp at h

/-- A cleared reference is the old one to another bucket, or none. -/
private theorem cleared_cases (ref id : Int) :
    ((if ref = id then 0 else ref) = ref ∧ ref ≠ id) ∨ (if ref = id then 0 else ref) = 0 := by
  split
  · exact .inr rfl
  · exact .inl ⟨rfl, ‹_›⟩

private theorem cleared_ne {id : Int} (hid : id ≠ 0) (ref : Int) :
    (if ref = id then 0 else ref) ≠ id := by
  rcases cleared_cases ref id with ⟨heq, hne⟩ | heq
  · rwa [heq]
  · rw [heq]
    exact hid.symm

theorem dropBucketRefs_writes (hs : s.Regular) {p : Project} (hp : p ∈ s.projects) {id : Int}
    (hid : id ≠ 0) :
    s.Writes (s.dropBucketRefs p id) ∧ (s.dropBucketRefs p id).buckets = s.buckets ∧
      ∀ q ∈ (s.dropBucketRefs p id).projects, q.id = p.id →
      q.defaultBucketId ≠ id ∧ q.doneBucketId ≠ id := by
  unfold dropBucketRefs
  split
  · have hcleared : ∀ ref : Int, (if ref = id then 0 else ref) = ref ∨
        (if ref = id then 0 else ref) = 0 :=
      fun ref => (cleared_cases ref id).imp_left And.left
    refine ⟨.tail (.single .clock) (.project hp rfl ?_ ?_), rfl, fun q hq hqid => ?_⟩
    · exact (hcleared p.defaultBucketId).imp_right .inl
    · exact (hcleared p.doneBucketId).imp_right .inl
    · rcases mem_replace.1 hq with ⟨-, hne⟩ | ⟨rfl, -⟩
      · exact absurd hqid hne
      · exact ⟨cleared_ne hid p.defaultBucketId, cleared_ne hid p.doneBucketId⟩
  · rename_i hrefs
    refine ⟨.refl, rfl, fun q hq hqid => ?_⟩
    rw [eq_of_key_eq hs.projects.nodup hq hp hqid]
    exact not_or.1 hrefs

theorem deleteBucket_writes (hs : s.Regular) (hi : s.Integral) {actor projectId id : Int}
    (h : s.deleteBucket actor projectId id = .ok s') : s.Writes s' := by
  simp only [deleteBucket, bind_eq_ok] at h
  obtain ⟨p, hp, b, hb, h⟩ := h
  split at h
  · simp at h
  simp only [bind_eq_ok, Except.ok.injEq] at h
  obtain ⟨fallback, hfallback, rfl⟩ := h
  obtain ⟨hp, -⟩ := mem_of_projectFor hp
  obtain ⟨hb, -, hproject⟩ := getBucket_eq_ok hb
  have hpos : 0 < b.id := hs.buckets.pos b.id (List.mem_map_of_mem hb)
  obtain ⟨hclear, hbuckets, hrefs⟩ := dropBucketRefs_writes hs hp hpos.ne'
  obtain ⟨hs', hi'⟩ := hclear.integral hs hi
  -- The cleared project refers to a default bucket that is still there, or to none.
  have hdefault : (clearBucketRefs p b.id).defaultBucketId = 0 ∨
      (s.dropBucketRefs p b.id).HasBucket p.id (clearBucketRefs p b.id).defaultBucketId := by
    rcases cleared_cases p.defaultBucketId b.id with ⟨heq, -⟩ | heq
    · rw [show (clearBucketRefs p b.id).defaultBucketId = p.defaultBucketId from heq]
      refine (hi.defaultRef p hp).imp_right ?_
      rintro ⟨x, hx, hxid⟩
      exact ⟨x, hbuckets ▸ hx, hxid⟩
    · exact .inl heq
  obtain ⟨htarget, hne⟩ := resolveBucket_eq_ok (p := clearBucketRefs p b.id) hdefault hfallback
  have hne : fallback ≠ b.id := fun heq => hne (congrArg some heq)
  obtain ⟨hmove, hbuckets', hprojects', htasks⟩ :=
    moveAllTasks_writes (p := clearBucketRefs p b.id) hs' hi'
    (b := b) (hbuckets ▸ hb) rfl (hproject ▸ htarget) hne
  obtain ⟨other, hother, hotherId, hotherProject⟩ := htarget
  refine (hclear.trans hmove).tail ?_
  have hb' : b ∈ ((s.dropBucketRefs p b.id).moveAllTasks
      (clearBucketRefs p b.id) b.id fallback).buckets := by
    rw [hbuckets', hbuckets]; exact hb
  refine .dropBucket hb' (hbuckets' ▸ hother) ?_ ?_ htasks ?_
  · rw [hotherId]; exact hne
  · exact hotherProject.trans hproject.symm
  · intro q hq hqid
    rw [hprojects'] at hq
    exact hrefs q hq (hqid.trans hproject)

end Kanban.Store
