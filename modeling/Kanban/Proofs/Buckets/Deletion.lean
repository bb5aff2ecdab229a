import Kanban.Proofs.Buckets.Append
import Kanban.Proofs.Operation.Run

/-!
# Deletion of a bucket

A bucket that is not the last one of its project can be deleted.  Its row goes, its project refers
to it no more, and its tasks are in a fallback bucket (`Store.IsFallback`); all other rows stay, and
of the tasks that moved no more changes than it must (`Store.Deletion`).  In the fallback bucket the
tasks that came stand behind those that were there, all of them in their old order
(`Store.deleteBucket_exact`).
-/

namespace Kanban

/-! ### What becomes of the rows -/

/-- A project before and after a bucket of one project is deleted: this project refers to the bucket
no more. -/
structure Project.Forgets (projectId bucketId : Int) (p p' : Project) : Prop where
  others : p.id ≠ projectId → p' = p
  refs : p.id = projectId →
    p' = { p with
      defaultBucketId := if p.defaultBucketId = bucketId then 0 else p.defaultBucketId
      doneBucketId := if p.doneBucketId = bucketId then 0 else p.doneBucketId
      updated := p'.updated }

/-- A task before and after all tasks of the bucket `source` moved to the bucket `target`: it is as
it was, or it changed its bucket and its key there.  Tasks that come into the bucket of done tasks
are done. -/
structure Task.Rehomed (source target : Int) (intoDone : Bool) (t t' : Task) : Prop where
  others : t.bucketId ≠ source → t' = t
  bucket : t.bucketId = source → t'.bucketId = target
  fields : t.bucketId = source →
    t' = { t with
      bucketId := t'.bucketId, kanbanPosition := t'.kanbanPosition, updated := t'.updated
      done := t'.done, doneAt := t'.doneAt }
  keepsDone : t.bucketId = source → intoDone = false ∨ t.done = true →
    t'.done = t.done ∧ t'.doneAt = t.doneAt
  becomesDone : t.bucketId = source → intoDone = true → t'.done = true

namespace Store

variable {s s' : Store} {p : Project} {b : Bucket} {f : Int}

/-- The bucket to which the tasks of a deleted bucket go: the default one of the project unless it
is deleted itself, else the first of the remaining buckets. -/
structure IsFallback (s : Store) (p : Project) (b : Bucket) (f : Int) : Prop where
  exists_other : s.HasBucket p.id f ∧ f ≠ b.id
  default : p.defaultBucketId ≠ 0 → p.defaultBucketId ≠ b.id → f = p.defaultBucketId
  first : p.defaultBucketId = 0 ∨ p.defaultBucketId = b.id →
    ∃ c ∈ s.buckets, c.id = f ∧ ∀ d ∈ s.buckets, d.projectId = p.id → d.id ≠ b.id →
      keyLe c.position c.id d.position d.id = true

/-- The store before and after the bucket `b` of the project `p` is deleted, and its tasks moved to
the bucket `f`. -/
structure Deletion (s s' : Store) (p : Project) (b : Bucket) (f : Int) : Prop where
  buckets : s'.buckets = s.buckets.filter (·.id != b.id)
  projects : List.Forall₂ (Project.Forgets p.id b.id) s.projects s'.projects
  tasks : List.Forall₂ (Task.Rehomed b.id f (decide (f = p.doneBucketId))) s.tasks s'.tasks
  links : s'.labelLinks = s.labelLinks ∧ s'.assignments = s.assignments
  others : s'.users = s.users ∧ s'.shares = s.shares ∧ s'.labels = s.labels

/-! ### References -/

theorem getBucket_of_mem (hs : s.Regular) (hb : b ∈ s.buckets) {projectId : Int}
    (hproject : b.projectId = projectId) :
    s.getBucket projectId b.id = .ok b := by
  unfold getBucket
  cases hfind : s.buckets.find? fun c => c.id == b.id && c.projectId == projectId with
  | none =>
    rw [List.find?_eq_none] at hfind
    exact absurd (by simp [hproject]) (hfind b hb)
  | some c =>
    have hprop := List.find?_some hfind
    simp only [Bool.and_eq_true, beq_iff_eq] at hprop
    rw [eq_of_key_eq hs.buckets.nodup (List.mem_of_find?_eq_some hfind) hb hprop.1]

/-- Dropping the references to a bucket changes its project and nothing else, the clock aside. -/
theorem dropBucketRefs_eq (hs : s.Regular) (hp : p ∈ s.projects) (id : Int) :
    ∃ projects clock, s.dropBucketRefs p id = { s with projects := projects, clock := clock } ∧
      List.Forall₂ (Project.Forgets p.id id) s.projects projects := by
  unfold dropBucketRefs
  split
  · refine ⟨_, s.clock + 1, rfl, List.forall₂_map_right_iff.2 (List.forall₂_same.2 fun q hq => ?_)⟩
    by_cases hid : q.id = p.id
    · obtain rfl := eq_of_key_eq hs.projects.nodup hq hp hid
      rw [if_pos (by simp [clearBucketRefs])]
      exact ⟨fun hne => absurd rfl hne, fun _ => rfl⟩
    · rw [if_neg (by simpa [clearBucketRefs] using hid)]
      exact ⟨fun _ => rfl, fun heq => absurd heq hid⟩
  · rename_i hrefs
    obtain ⟨hdefault, hdone⟩ := not_or.1 hrefs
    refine ⟨s.projects, s.clock, rfl, List.forall₂_same.2 fun q hq => ⟨fun _ => rfl, fun heq => ?_⟩⟩
    rw [eq_of_key_eq hs.projects.nodup hq hp heq, if_neg hdefault, if_neg hdone]

/-! ### The fallback bucket -/

theorem mem_bucketsOf {projectId : Int} {c : Bucket} :
    c ∈ s.bucketsOf projectId ↔ c ∈ s.buckets ∧ c.projectId = projectId := by
  unfold bucketsOf
  rw [(List.mergeSort_perm _ _).mem_iff]
  simp

/-- The first of the buckets that are left is the least one. -/
theorem head?_bucketsOf (hs : s.Regular) {projectId : Int} {q : Bucket → Bool} {c : Bucket}
    (h : ((s.bucketsOf projectId).filter q).head? = some c) :
    ∀ d ∈ s.buckets, d.projectId = projectId → q d = true →
    keyLe c.position c.id d.position d.id = true := by
  intro d hd hproject hq
  have hnum : ∀ x ∈ s.buckets.filter (·.projectId == projectId), x.position.isNaN = false :=
    fun x hx => (hs.bucketRows x (List.mem_of_mem_filter hx)).2
  have hle : ∀ x ∈ s.buckets.filter (·.projectId == projectId),
      ∀ y ∈ s.buckets.filter (·.projectId == projectId),
      keyLe x.position x.id y.position y.id = true ↔ spot x.position x.id ≤ spot y.position y.id :=
    fun x hx y hy => keyLe_iff_spot (hnum x hx) (hnum y hy)
  have hsorted := (sorted_mergeSort hle).filter q
  obtain ⟨rest, hrest⟩ := List.head?_eq_some_iff.1 h
  rw [← bucketsOf, hrest, List.pairwise_cons] at hsorted
  have hmem : ∀ x, x ∈ c :: rest ↔
      (x ∈ s.buckets ∧ x.projectId = projectId) ∧ q x = true := fun x => by
    rw [← hrest, List.mem_filter, mem_bucketsOf]
  obtain ⟨⟨hc, hcproject⟩, -⟩ := (hmem c).1 (List.mem_cons_self ..)
  refine (keyLe_iff_spot (hs.bucketRows c hc).2 (hs.bucketRows d hd).2).2 ?_
  rcases List.mem_cons.1 ((hmem d).2 ⟨⟨hd, hproject⟩, hq⟩) with rfl | hd
  · exact le_refl _
  · exact hsorted.1 d hd

/-- Tasks of a project that has another bucket find a fallback. -/
theorem exists_fallback (hs : s.Regular) (hi : s.Integral) (hp : p ∈ s.projects)
    (hb : b ∈ s.buckets) (hmany : 2 ≤ (s.bucketsOf p.id).length) :
    ∃ f, s.resolveBucket (clearBucketRefs p b.id) (some b.id) = .ok f ∧ s.IsFallback p b f := by
  have hpos : 0 < b.id := hs.buckets.pos b.id (List.mem_map_of_mem hb)
  by_cases hdefault : p.defaultBucketId = 0 ∨ p.defaultBucketId = b.id
  · have hcleared : (clearBucketRefs p b.id).defaultBucketId = 0 := by
      rcases hdefault with h | h
      · simp [clearBucketRefs, h]
      · simp [clearBucketRefs, h]
    -- Not all buckets of the project are the deleted one.
    obtain ⟨c, hc⟩ : ∃ c, ((s.bucketsOf p.id).filter (·.id != b.id)).head? = some c := by
      cases hlist : (s.bucketsOf p.id).filter (·.id != b.id) with
      | cons c rest => exact ⟨c, rfl⟩
      | nil =>
        have hids : ((s.bucketsOf p.id).map (·.id)).Nodup :=
          ((List.mergeSort_perm _ _).map _).nodup_iff.2
            (hs.buckets.nodup.sublist (List.filter_sublist.map _))
        have hsame : ∀ d ∈ s.bucketsOf p.id, d = b := fun d hd => by
          have hid : d.id = b.id := by simpa using List.filter_eq_nil_iff.1 hlist d hd
          exact eq_of_key_eq hs.buckets.nodup (mem_bucketsOf.1 hd).1 hb hid
        rw [List.eq_replicate_of_mem hsame, List.map_replicate, List.nodup_replicate] at hids
        omega
    have hmem := List.mem_filter.1 (List.mem_of_mem_head? hc)
    obtain ⟨hc', hcproject⟩ := mem_bucketsOf.1 hmem.1
    refine ⟨c.id, ?_, ⟨⟨c, hc', rfl, hcproject⟩, by simpa using hmem.2⟩,
      fun h0 hne => ?_, fun _ => ?_⟩
    · have hfirst : ((s.bucketsOf (clearBucketRefs p b.id).id).filter
          fun d => d.id != (some b.id).getD 0).head? = some c := hc
      rw [resolveBucket, if_neg (by simp [hcleared]), hfirst]
    · exact absurd hdefault (not_or.2 ⟨h0, hne⟩)
    · exact ⟨c, hc', rfl, fun d hd hdp hdb => head?_bucketsOf hs hc d hd hdp (by simpa using hdb)⟩
  · obtain ⟨h0, hne⟩ := not_or.1 hdefault
    have hcleared : (clearBucketRefs p b.id).defaultBucketId = p.defaultBucketId := by
      simp [clearBucketRefs, hne]
    refine ⟨p.defaultBucketId, ?_, ⟨(hi.defaultRef p hp).resolve_left h0, hne⟩,
      fun _ _ => rfl, fun h => ?_⟩
    · rw [resolveBucket, hcleared, if_pos ⟨h0, fun h => hne (Option.some.inj h)⟩]
    · exact absurd h hdefault

/-! ### The moved tasks -/

theorem rehomed_rowBehind (hs : s.Regular) {source : Int} (target : Int) {t : Task}
    (ht : t ∈ s.tasks) :
    t.Rehomed source target (decide (target = p.doneBucketId)) (s.rowBehind p source target t) := by
  have hids := hs.tasks.nodup
  by_cases hsource : t.bucketId = source
  · obtain ⟨key, -, hrow⟩ := rowBehind_of_eq hids p target ht hsource
    have hstored := (hs.taskRows t ht).1
    have hpercent : t.percentDone.unsignZero = t.percentDone := congrArg Task.percentDone hstored
    have hposition : t.position.unsignZero = t.position := congrArg Task.position hstored
    rw [hrow]
    generalize decide (target = p.doneBucketId) = intoDone
    refine ⟨fun hne => absurd hsource hne, fun _ => rfl, fun _ => ?_, fun _ hkeeps => ?_,
      fun _ hinto => ?_⟩
    · simp [Task.stored, Task.appended, hpercent, hposition]
    · rcases hkeeps with rfl | hdone
      · simp [Task.stored, Task.appended]
      · simp [Task.stored, Task.appended, hdone]
    · simp [Task.stored, Task.appended, hinto]
  · rw [rowBehind_of_ne hids p ht hsource]
    exact ⟨fun _ => rfl, fun h => absurd h hsource, fun h => absurd h hsource,
      fun h => absurd h hsource, fun h => absurd h hsource⟩

/-- Deleting a bucket that is not the last one, with all that is done for it. -/
theorem deleteBucket_eq (hs : s.Regular) {actor : Int} (hp : s.projectFor .write actor p.id = .ok p)
    (hb : b ∈ s.buckets) (hproject : b.projectId = p.id) (hmany : 2 ≤ (s.bucketsOf p.id).length)
    (hfallback : s.resolveBucket (clearBucketRefs p b.id) (some b.id) = .ok f) :
    s.deleteBucket actor p.id b.id =
      .ok (((s.dropBucketRefs p b.id).moveAllTasks
        (clearBucketRefs p b.id) b.id f).removeBucket b.id) := by
  have hlen : (s.buckets.filter (·.projectId == p.id)).length = (s.bucketsOf p.id).length :=
    (List.mergeSort_perm _ _).length_eq.symm
  obtain ⟨projects, clock, hdrop, -⟩ := dropBucketRefs_eq hs (mem_of_projectFor hp).1 b.id
  -- The search for the fallback looks at buckets only.
  have hresolve : (s.dropBucketRefs p b.id).resolveBucket (clearBucketRefs p b.id) (some b.id) =
      .ok f := by
    rw [hdrop]
    exact hfallback
  refine bind_eq_ok.2 ⟨p, hp, bind_eq_ok.2 ⟨b, getBucket_of_mem hs hb hproject, ?_⟩⟩
  rw [if_neg (by omega)]
  exact bind_eq_ok.2 ⟨f, hresolve, rfl⟩

/-- A bucket that was deleted had a fallback. -/
theorem exists_of_deleteBucket (hs : s.Regular) (hi : s.Integral) {actor projectId id : Int}
    (h : s.deleteBucket actor projectId id = .ok s') :
    ∃ p b f, p ∈ s.projects ∧ b ∈ s.buckets ∧ b.projectId = p.id ∧ s.IsFallback p b f ∧
      s' = ((s.dropBucketRefs p b.id).moveAllTasks
        (clearBucketRefs p b.id) b.id f).removeBucket b.id := by
  simp only [deleteBucket, bind_eq_ok] at h
  obtain ⟨p, hp, b, hb, h⟩ := h
  split at h
  · simp at h
  rename_i hlen
  simp only [bind_eq_ok, Except.ok.injEq] at h
  obtain ⟨g, hg, rfl⟩ := h
  obtain ⟨hp, -⟩ := mem_of_projectFor hp
  obtain ⟨hb, -, hproject⟩ := getBucket_eq_ok hb
  have hmany : 2 ≤ (s.bucketsOf p.id).length := by
    rw [bucketsOf, (List.mergeSort_perm _ _).length_eq]
    omega
  obtain ⟨f, hf, hfallback⟩ := exists_fallback hs hi hp hb hmany
  obtain ⟨projects, clock, hdrop, -⟩ := dropBucketRefs_eq hs hp b.id
  have hresolve : (s.dropBucketRefs p b.id).resolveBucket (clearBucketRefs p b.id) (some b.id) =
      .ok f := by
    rw [hdrop]
    exact hf
  obtain rfl := Except.ok.inj (hresolve.symm.trans hg)
  exact ⟨p, b, f, hp, hb, hproject, hfallback, rfl⟩

section

variable (hs : s.Regular) (hp : p ∈ s.projects) (hb : b ∈ s.buckets)

include hs hp hb

theorem regular_dropBucketRefs : (s.dropBucketRefs p b.id).Regular :=
  (dropBucketRefs_writes hs hp (hs.buckets.pos b.id (List.mem_map_of_mem hb)).ne').1.regular hs

/-- The rows after the references were dropped, the tasks moved and the bucket removed. -/
theorem deletion_of_fallback (hf : s.IsFallback p b f) :
    s.Deletion (((s.dropBucketRefs p b.id).moveAllTasks
      (clearBucketRefs p b.id) b.id f).removeBucket b.id) p b f := by
  obtain ⟨projects, clock, hdrop, hforgets⟩ := dropBucketRefs_eq hs hp b.id
  have hs' := regular_dropBucketRefs hs hp hb
  -- The fallback bucket is the one of done tasks before exactly if it is so after the references
  -- are dropped.
  have hpos : 0 < f := by
    obtain ⟨c, hc, rfl, -⟩ := hf.exists_other.1
    exact hs.buckets.pos _ (List.mem_map_of_mem hc)
  have hinto : decide (f = (clearBucketRefs p b.id).doneBucketId) =
      decide (f = p.doneBucketId) := by
    have hne := hf.exists_other.2
    refine decide_eq_decide.2 ?_
    show f = (if p.doneBucketId = b.id then 0 else p.doneBucketId) ↔ _
    split <;> omega
  obtain ⟨clock', hmoved⟩ := moveAllTasks_eq (s := s.dropBucketRefs p b.id) hs'.tasks.nodup
    (clearBucketRefs p b.id) b.id f
  have htasks : s.tasks = (s.dropBucketRefs p b.id).tasks := by rw [hdrop]
  rw [hmoved]
  constructor
  · rw [hdrop]; rfl
  · rw [hdrop]; exact hforgets
  · rw [htasks, ← hinto]
    exact List.forall₂_map_right_iff.2 (List.forall₂_same.2 fun t ht => rehomed_rowBehind hs' f ht)
  · rw [hdrop]; exact ⟨rfl, rfl⟩
  · rw [hdrop]; exact ⟨rfl, rfl, rfl⟩

/-- The tasks that came stand behind those that were there, all of them in their old order. -/
theorem orderedIn_deleteBucket (hne : f ≠ b.id)
    (hsmall : ∀ t ∈ s.tasks, t.bucketId = f → Double.ofInt (-2 ^ 60) < t.kanbanPosition ∧
      t.kanbanPosition < Double.ofInt (2 ^ 60))
    (hfew : (s.tasksIn .kanban b.id).length < 2 ^ 40) :
    ((((s.dropBucketRefs p b.id).moveAllTasks
        (clearBucketRefs p b.id) b.id f).removeBucket b.id).orderedIn .kanban f).map (·.id) =
      (s.orderedIn .kanban f).map (·.id) ++ (s.orderedIn .kanban b.id).map (·.id) := by
  obtain ⟨projects, clock, hdrop, -⟩ := dropBucketRefs_eq hs hp b.id
  have hs' := regular_dropBucketRefs hs hp hb
  have htasks : (s.dropBucketRefs p b.id).tasks = s.tasks := by rw [hdrop]
  have hordered : ∀ id,
      (s.dropBucketRefs p b.id).orderedIn .kanban id = s.orderedIn .kanban id := by
    intro id
    rw [hdrop]; rfl
  have hlen := (s.orderedIn_perm .kanban b.id).length_eq
  have horder := orderedIn_moveAllTasks hs' (clearBucketRefs p b.id) hne (by rwa [htasks])
    (by rw [hordered, hlen]; exact hfew)
  have hkeep : ∀ t ∈ s.orderedIn .kanban b.id,
      ((s.dropBucketRefs p b.id).rowBehind (clearBucketRefs p b.id) b.id f t).id = t.id := by
    intro t ht
    obtain ⟨ht, hbucket⟩ := mem_orderedIn_kanban.1 (hordered b.id ▸ ht)
    rw [(rehomed_rowBehind (p := clearBucketRefs p b.id) hs' f ht).fields hbucket]
  show (((s.dropBucketRefs p b.id).moveAllTasks _ _ _).orderedIn .kanban f).map _ = _
  rw [horder, List.map_append, List.map_map, hordered, hordered]
  congr 1
  exact List.map_congr_left hkeep

end

/-- The last bucket of a project is not deleted.  Any other one is: the rows change as they must,
and if the keys in the fallback bucket are small enough for so many tasks, its order is its old
order and then that of the deleted bucket. -/
theorem deleteBucket_exact (h : s.Reachable) {actor : Int}
    (hp : s.projectFor .write actor p.id = .ok p) (hb : b ∈ s.buckets)
    (hproject : b.projectId = p.id) (setup : Setup) :
    ((s.bucketsOf p.id).length ≤ 1 →
      s.deleteBucket actor p.id b.id = .error (.lastBucket b.id p.id) ∧
        (Operation.deleteBucket actor p.id b.id).after setup s = s) ∧
    (2 ≤ (s.bucketsOf p.id).length →
      ∃ f s', s.deleteBucket actor p.id b.id = .ok s' ∧ s.IsFallback p b f ∧ s.Deletion s' p b f ∧
        ((∀ t ∈ s.tasks, t.bucketId = f →
            Double.ofInt (-2 ^ 60) < t.kanbanPosition ∧ t.kanbanPosition < Double.ofInt (2 ^ 60)) →
          (s.tasksIn .kanban b.id).length < 2 ^ 40 →
          (s'.orderedIn .kanban f).map (·.id) =
            (s.orderedIn .kanban f).map (·.id) ++ (s.orderedIn .kanban b.id).map (·.id))) := by
  have hs := h.regular
  have hmem := (mem_of_projectFor hp).1
  constructor
  · intro hlast
    have hlen : (s.buckets.filter (·.projectId == p.id)).length ≤ 1 := by
      rwa [← (List.mergeSort_perm _ _).length_eq]
    have hfail : s.deleteBucket actor p.id b.id = .error (.lastBucket b.id p.id) := by
      refine bind_eq_error.2 (.inr ⟨p, hp,
        bind_eq_error.2 (.inr ⟨b, getBucket_of_mem hs hb hproject, ?_⟩)⟩)
      rw [if_pos hlen]
    exact ⟨hfail, by simp [Operation.after, Operation.run, hfail, bind, Except.bind]⟩
  · intro hmany
    obtain ⟨f, hfallback, hf⟩ := exists_fallback hs h.integral hmem hb hmany
    have hdelete := deleteBucket_eq hs hp hb hproject hmany hfallback
    exact ⟨f, _, hdelete, hf, deletion_of_fallback hs hmem hb hf,
      orderedIn_deleteBucket hs hmem hb hf.exists_other.2⟩

/-- A board whose first bucket is the default one; the second one is that of done tasks. -/
def crowded : Store :=
  [.createUser { username := "ada" }, .createProject 1 { title := "Plan" },
    .createBucket 1 1 { title := "Done" },
    .updateProject 1 1 { defaultBucketId := some 1, doneBucketId := some 2 },
    .createTask 1 1 { title := "first" },
    .createTask 1 1 { title := "second" }, .createTask 1 1 { title := "third", bucketId := some 2 },
    .moveTask 1 2 { afterId := some 1 }].foldl (Operation.after {}) {}

/-- The tasks of the default bucket end up behind the done one. -/
theorem deleteBucket_exact_crowded :
    ∃ s', crowded.deleteBucket 1 1 1 = .ok s' ∧ (s'.orderedIn .kanban 2).map (·.id) =
      [3, 2, 1] := by
  let p := (crowded.project? 1).get (by decide +kernel)
  let b := (crowded.bucket? 1).get (by decide +kernel)
  have hids : p.id = 1 ∧ b.id = 1 := by decide +kernel
  have hfound : crowded.projectFor .write 1 p.id = .ok p ∧ b ∈ crowded.buckets ∧
      b.projectId = p.id ∧
      (crowded.buckets.filter (·.projectId == p.id)).length = 2 ∧ ∀ c ∈ crowded.buckets,
      c.id ≠ b.id → c.id = 2 := by
    decide +kernel
  obtain ⟨hp, hb, hproject, hlen, hother⟩ := hfound
  have hmany : 2 ≤ (crowded.bucketsOf p.id).length := by
    rw [bucketsOf, (List.mergeSort_perm _ _).length_eq, hlen]
  have hreach : crowded.Reachable := Reachable.empty.foldl_after {} _
  obtain ⟨f, s', hdelete, hf, -, horder⟩ := (deleteBucket_exact hreach hp hb hproject {}).2 hmany
  obtain rfl : f = 2 := by
    obtain ⟨⟨c, hc, rfl, -⟩, hne⟩ := hf.exists_other
    exact hother c hc hne
  have hnum : ∀ t ∈ crowded.tasks, (t.key .kanban).isNaN = false :=
    fun t ht => (hreach.regular.taskRows t ht).2 .kanban
  have hdone : crowded.orderedIn .kanban 2 = crowded.tasks.drop 2 :=
    orderedIn_eq hnum (List.Perm.of_eq (by decide +kernel)) (by decide +kernel)
  have hrest : crowded.orderedIn .kanban b.id = (crowded.tasks.take 2).reverse :=
    orderedIn_eq hnum (by decide +kernel) (by decide +kernel)
  rw [hids.1, hids.2] at hdelete
  refine ⟨s', hdelete, ?_⟩
  rw [horder (by decide +kernel) (by decide +kernel), hdone, hrest]
  decide +kernel

end Store

end Kanban
