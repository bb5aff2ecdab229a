import Kanban.Proofs.Access.Alike

/-!
# Answers show seen projects only

In two stores that are alike for a user every operation of this user answers the same, whatever the
hidden projects contain (`Store.answer_confidential`).  An operation on a project asks for the right
to it first and then looks up rows of this project only.  Creating and importing projects looks up
no rows at all, just the ids that come next (`Store.InStep.createProject_agree`,
`Store.InStep.importProjects_agree`).
-/

namespace Kanban

namespace Store

variable {s s' : Store} {actor : Int} {p : Project}

/-! ### New rows -/

namespace InStep

variable (h : s.InStep s')

include h

theorem addProject (title description : String) (ownerId : Int) :
    (s'.addProject title description ownerId).1 = (s.addProject title description ownerId).1 ∧
      (s.addProject title description ownerId).2.InStep
        (s'.addProject title description ownerId).2 := by
  refine ⟨?_, ?_, h.lastBucket, h.lastTask, h.lastLabel, ?_⟩
  · simp only [Store.addProject, h.lastProject, h.now]
  · exact congrArg (· + 1) h.lastProject
  · exact congrArg (· + 1) h.clock

/-- New buckets have the same id, wherever they stand. -/
theorem addBucket (b b' : Bucket) :
    (s'.addBucket b').1.id = (s.addBucket b).1.id ∧
    (s.addBucket b).2.InStep (s'.addBucket b').2 := by
  refine ⟨?_, h.lastProject, ?_, h.lastTask, h.lastLabel, ?_⟩
  · simp only [Store.addBucket, h.lastBucket]
  · exact congrArg (· + 1) h.lastBucket
  · exact congrArg (· + 1) h.clock

theorem addTask (t : Task) :
    (s'.addTask t).1 = (s.addTask t).1 ∧ (s.addTask t).2.InStep (s'.addTask t).2 := by
  refine ⟨?_, h.lastProject, h.lastBucket, ?_, h.lastLabel, ?_⟩
  · simp only [Store.addTask, h.lastTask, h.now]
  · exact congrArg (· + 1) h.lastTask
  · exact congrArg (· + 1) h.clock

theorem linkLabel (taskId labelId : Int) :
    (s.linkLabel taskId labelId).InStep (s'.linkLabel taskId labelId) := by
  unfold Store.linkLabel
  split <;> split <;> exact ⟨h.lastProject, h.lastBucket, h.lastTask, h.lastLabel, h.clock⟩

theorem insertProject_agree (owner : User) (new : NewProject) :
    Agree (fun r r' => r'.1 = r.1 ∧ r.2.InStep r'.2) (s.insertProject owner new)
      (s'.insertProject owner new) :=
  .bind_eq rfl fun title _ => .ok (h.addProject title new.description owner.id)

theorem insertBucket_agree (projectId : Int) (new : NewBucket) (creator : User) :
    Agree (fun r r' => r'.1.id = r.1.id ∧ r.2.InStep r'.2) (s.insertBucket projectId new creator)
      (s'.insertBucket projectId new creator) :=
  .bind_eq rfl fun _ _ => .bind_eq rfl fun _ _ => .bind_eq rfl fun _ _ => .ok (h.addBucket _ _)

/-- Of the bucket of a new task only the id matters. -/
theorem insertTask_agree (p : Project) {b b' : Bucket} (hb : b'.id = b.id) (creator : User)
    (new : NewTask) (done : Bool) :
    Agree (fun r r' => r'.1 = r.1 ∧ r.2.InStep r'.2) (s.insertTask p b creator new done)
      (s'.insertTask p b' creator new done) := by
  refine .bind_eq rfl fun title _ => .bind_eq rfl fun percentDone _ => ?_
  simp only [hb, h.lastTask]
  exact .ok (h.addTask _)

theorem createProject_agree (hactor : s'.actor actor = s.actor actor) (new : NewProject) :
    Agree (fun r r' => r'.1 = r.1) (s.createProject actor new) (s'.createProject actor new) := by
  refine .bind_eq hactor fun owner _ => ?_
  refine (h.insertProject_agree owner new).bind fun (p, s₁) (p', s₁') _ _ ⟨hp, hstep⟩ => ?_
  obtain rfl : p' = p := hp
  exact (hstep.insertBucket_agree _ _ _).bind fun _ _ _ _ _ => .ok rfl

/-! ### Imports -/

theorem resolveLabel (index : LabelIndex) (owner : User) (l : LabelImport) :
    (s'.resolveLabel index owner l).1 = (s.resolveLabel index owner l).1 ∧
      (s'.resolveLabel index owner l).2.1 = (s.resolveLabel index owner l).2.1 ∧
      (s.resolveLabel index owner l).2.2.InStep (s'.resolveLabel index owner l).2.2 := by
  simp only [Store.resolveLabel]
  split
  · exact ⟨rfl, rfl, h⟩
  · refine ⟨?_, ?_, h.lastProject, h.lastBucket, h.lastTask, congrArg (· + 1) h.lastLabel,
      congrArg (· + 1) h.clock⟩
    · simp only [addLabel, h.lastLabel]
    · simp only [addLabel, h.lastLabel]

theorem importLabels (index : LabelIndex) (owner : User) (taskId : Int) (ls : List LabelImport) :
    (s'.importLabels index owner taskId ls).1 = (s.importLabels index owner taskId ls).1 ∧
      (s.importLabels index owner taskId ls).2.InStep
        (s'.importLabels index owner taskId ls).2 := by
  induction ls generalizing s s' index with
  | nil => exact ⟨rfl, h⟩
  | cons l ls ih =>
    obtain ⟨hid, hindex, hstep⟩ := h.resolveLabel index owner l
    simp only [Store.importLabels]
    rw [hid, hindex]
    exact ih (hstep.linkLabel taskId _) _

theorem importTasks_agree (index : LabelIndex) (owner : User) (p : Project) {b b' : Bucket}
    (hb : b'.id = b.id) (ts : List TaskImport) :
    Agree (fun r r' => r'.1 = r.1 ∧ r.2.InStep r'.2) (s.importTasks index owner p b ts)
      (s'.importTasks index owner p b' ts) := by
  induction ts generalizing s s' index with
  | nil => exact .ok ⟨rfl, h⟩
  | cons t ts ih =>
    simp only [importTasks, hb]
    refine (h.insertTask_agree p hb owner _ t.done).bind ?_
    rintro ⟨t₁, s₁⟩ ⟨t₁', s₁'⟩ - - ⟨ht, hstep⟩
    obtain rfl : t₁' = t₁ := ht
    obtain ⟨hindex, hstep'⟩ := hstep.importLabels index owner t₁'.id t.labels
    rw [hindex]
    exact ih hstep' _

theorem importBuckets_agree (index : LabelIndex) (owner : User) (p : Project)
    (bs : List BucketImport) :
    Agree (fun r r' => r'.1 = r.1 ∧ r.2.InStep r'.2) (s.importBuckets index owner p bs)
      (s'.importBuckets index owner p bs) := by
  induction bs generalizing s s' index with
  | nil => exact .ok ⟨rfl, h⟩
  | cons b bs ih =>
    refine (h.insertBucket_agree p.id _ owner).bind fun (b₁, s₁) (b₁', s₁') _ _ ⟨hid, hstep⟩ => ?_
    refine (hstep.importTasks_agree index owner p hid b.tasks).bind
      fun (i, s₂) (i', s₂') _ _ ⟨hindex, hstep'⟩ => ?_
    obtain rfl : i' = i := hindex
    exact ih hstep' i'

theorem importProjects_agree (index : LabelIndex) (owner : User) (is : List ProjectImport) :
    Agree (fun r r' => r'.1 = r.1) (s.importProjects index owner is)
      (s'.importProjects index owner is) := by
  induction is generalizing s s' index with
  | nil => exact .ok rfl
  | cons i is ih =>
    refine (h.insertProject_agree owner _).bind fun (p, s₁) (p', s₁') _ _ ⟨hp, hstep⟩ => ?_
    obtain rfl : p' = p := hp
    refine (hstep.importBuckets_agree index owner p' i.bucketsToAdd).bind
      fun (j, s₂) (j', s₂') _ _ ⟨hj, hstep'⟩ => ?_
    obtain rfl : j' = j := hj
    exact (ih hstep' j').bind fun _ _ _ _ hps => .ok (congrArg (p' :: ·) hps)

end InStep

/-! ### Operations -/

namespace AlikeFor

variable (hs : s.Reachable) (hs' : s'.Reachable) (h : s.AlikeFor actor s')

include hs hs' h

theorem readProject_agree (id : Int) :
    Agree (fun r r' => r' = r) (s.readProject actor id) (s'.readProject actor id) :=
  (h.projectFor_agree hs hs' .read id).mono fun _ _ hp => hp.1

theorem updateProject_agree (id : Int) (patch : ProjectUpdate) :
    Agree (fun r r' => r'.1 = r.1) (s.updateProject actor id patch)
      (s'.updateProject actor id patch) := by
  refine h.project_agree hs hs' .write id fun p hview => ?_
  have href : s'.bucketRef p.id = s.bucketRef p.id := funext hview.bucketRef
  refine .bind_eq rfl fun title _ => .bind_eq (by rw [href]) fun _ _ =>
    .bind_eq (by rw [href]) fun _ _ => .ok ?_
  simp only [hview.inStep.now]

omit hs hs' in
/-- A project need not be seen to be looked up for sharing, but without the right the answer tells
no more. -/
theorem shareProject_agree (id : Int) (share : NewShare) :
    Agree (fun _ _ => True) (s.shareProject actor id share) (s'.shareProject actor id share) := by
  refine .bind_eq rfl fun right _ => (h.getProject_agree id).bind fun p p' _ _ ⟨hrow, howner⟩ => ?_
  rw [h.allows hrow.id_eq howner]
  by_cases hallows : s.allows actor p .admin = true
  · rw [if_pos hallows, if_pos hallows]
    exact .bind_eq (h.getUser share.userId) fun _ _ => .ok trivial
  · rw [if_neg hallows, if_neg hallows]
    exact .error _

theorem readBoard_agree (setup : Setup) (id : Int) (o : ListOptions) :
    Agree (fun r r' => r' = r) (s.readBoard setup actor id o) (s'.readBoard setup actor id o) := by
  refine h.project_agree hs hs' .read id fun p hview => ?_
  rw [hview.bucketsOf, hview.inStep.now]
  refine .bind_eq rfl fun _ _ => .bind_eq rfl fun plans _ =>
    .bind_eq (hview.acceptBoard _) fun _ _ => ?_
  refine .bind_eq (congrArg acceptDetails (hview.boardDetails plans)) fun _ _ => .ok ?_
  exact List.map_congr_left fun b _ => hview.boardColumn plans b

theorem listBuckets_agree (id : Int) :
    Agree (fun r r' => r' = r) (s.listBuckets actor id) (s'.listBuckets actor id) := by
  refine h.project_agree hs hs' .read id fun p hview => .ok ?_
  rw [hview.bucketsOf]

theorem createBucket_agree (id : Int) (new : NewBucket) :
    Agree (fun r r' => r'.1 = r.1) (s.createBucket actor id new)
      (s'.createBucket actor id new) := by
  refine h.project_agree hs hs' .write id fun p hview =>
    .bind_eq (hview.actor actor) fun creator _ => ?_
  refine Agree.bind (R := fun r r' => r'.1 = r.1) ?_ fun (b, s₁) (b', s₁') _ _ hb => .ok ?_
  · refine .bind_eq rfl fun _ _ => .bind_eq rfl fun _ _ => .bind_eq rfl fun _ _ => .ok ?_
    simp only [addBucket, hview.newBucketPosition, hview.inStep.lastBucket, hview.inStep.now]
  · rw [show b' = b from hb]

theorem readBucket_agree (id bucketId : Int) :
    Agree (fun r r' => r' = r) (s.readBucket actor id bucketId) (s'.readBucket actor id bucketId) :=
  h.project_agree hs hs' .read id fun _ hview =>
    .bind_eq (hview.getBucket bucketId) fun b _ => .ok (hview.bucketDetail b)

theorem updateBucket_agree (id bucketId : Int) (patch : BucketUpdate) :
    Agree (fun r r' => r'.1 = r.1) (s.updateBucket actor id bucketId patch)
      (s'.updateBucket actor id bucketId patch) := by
  refine h.project_agree hs hs' .write id fun p hview => ?_
  refine .bind_eq (hview.getBucket bucketId) fun b _ => .bind_eq rfl fun b' _ => .ok ?_
  simp only [hview.inStep.now, hview.bucketDetail]

theorem deleteBucket_agree (id bucketId : Int) :
    Agree (fun _ _ => True) (s.deleteBucket actor id bucketId)
      (s'.deleteBucket actor id bucketId) := by
  refine h.project_agree hs hs' .write id fun p hview =>
    .bind_eq (hview.getBucket bucketId) fun b _ => ?_
  rw [hview.buckets]
  split
  · exact .error _
  · -- The fallback is sought among the buckets, which the references do not change.
    have hresolve : ∀ x : Store,
        (x.dropBucketRefs p b.id).resolveBucket (clearBucketRefs p b.id) (some b.id) =
        x.resolveBucket (clearBucketRefs p b.id) (some b.id) := fun x => by
      unfold dropBucketRefs
      split <;> rfl
    refine .bind_eq ?_ fun _ _ => .ok trivial
    rw [hresolve, hresolve]
    exact hview.resolveBucket (q := clearBucketRefs p b.id) rfl _

theorem listTasks_agree (setup : Setup) (id : Int) (o : ListOptions) :
    Agree (fun r r' => r' = r) (s.listTasks setup actor id o) (s'.listTasks setup actor id o) := by
  refine .bind_eq (by rw [h.inStep.now]) fun plan _ =>
    h.project_agree hs hs' .read id fun p hview => ?_
  have hdetails : (plan.page.slice (s.select p.id plan)).map s'.detail =
      (plan.page.slice (s.select p.id plan)).map s.detail :=
    List.map_congr_left fun t ht => by
      obtain ⟨hmem, htp⟩ := mem_select (List.mem_of_mem_drop (List.mem_of_mem_take ht))
      exact hview.detail hmem htp
  refine .bind_eq (hview.accept plan.extent) fun _ _ => ?_
  rw [hview.select]
  refine .bind_eq (congrArg acceptDetails hdetails) fun _ _ => .ok ?_
  rw [hdetails]

theorem createTask_agree (id : Int) (new : NewTask) :
    Agree (fun r r' => r'.1 = r.1) (s.createTask actor id new) (s'.createTask actor id new) := by
  refine h.project_agree hs hs' .write id fun p hview =>
    .bind_eq (hview.actor actor) fun creator _ => ?_
  have hasked : s'.bucketForNew p new.bucketId = s.bucketForNew p new.bucketId := by
    simp only [bucketForNew, hview.resolveBucket rfl]
  refine .bind_eq hasked fun bucketId _ => .bind_eq (hview.getBucket bucketId) fun b hb => ?_
  have hbucket : s.HasBucket p.id b.id := (getBucket_eq_ok hb).2.1 ▸ hasBucket_of_getBucket hb
  refine .bind_eq (hview.ensureCapacity hbucket) fun _ _ => ?_
  refine (hview.inStep.insertTask_agree p rfl creator new false).bind
    fun (t, s₁) (t', s₁') ht ht' ⟨heq, _⟩ => .ok ?_
  obtain rfl : t' = t := heq
  -- The new task is linked to what was linked to its id before.
  obtain ⟨x, -, -, -, hadd⟩ := insertTask_eq_ok ht
  obtain ⟨x', -, -, -, hadd'⟩ := insertTask_eq_ok ht'
  obtain ⟨rfl, rfl⟩ := Prod.mk.inj hadd
  obtain ⟨-, rfl⟩ := Prod.mk.inj hadd'
  exact hview.detail_of_links (.inr rfl)

theorem readTask_agree (id : Int) :
    Agree (fun r r' => r' = r) (s.readTask actor id) (s'.readTask actor id) :=
  h.task_agree hs hs' .read id fun _ _ ht _ htp hview => .ok (hview.detail ht htp)

theorem updateTask_agree (id : Int) (patch : TaskUpdate) :
    Agree (fun r r' => r'.1 = r.1) (s.updateTask actor id patch)
      (s'.updateTask actor id patch) := by
  refine h.task_agree hs hs' .write id fun t p ht _ htp hview =>
    .bind_eq (hview.withPatch t patch) fun u hu => .ok ?_
  have hid : u.id = t.id := (withPatch_eq_ok hs.regular ht hu).1
  have howns : s.ownsTask p.id u.id = true := ownsTask_iff.2 ⟨t, ht, htp, hid.symm⟩
  rw [hview.inStep.now]
  exact hview.detail_of_links (.inl howns)

theorem deleteTask_agree (id : Int) :
    Agree (fun _ _ => True) (s.deleteTask actor id) (s'.deleteTask actor id) :=
  h.task_agree hs hs' .write id fun _ _ _ _ _ _ => .ok trivial

/-- Neighbors are looked up in the destination only, which is one of the project of the task. -/
theorem moveTask_agree (id : Int) (m : TaskMove) :
    Agree (fun r r' => r'.1 = r.1) (s.moveTask actor id m) (s'.moveTask actor id m) := by
  refine h.task_agree hs hs' .write id fun t p ht ht' htp hview => ?_
  refine .bind_eq (hview.checkEntry t (m.target t)) fun _ hentry => ?_
  have htarget : s.HasBucket p.id (m.target t) := by
    rcases checkEntry_eq_ok.1 hentry with heq | ⟨b, hb, -⟩
    · rw [heq, ← htp]
      exact hs.integral.taskBucket t ht
    · exact hasBucket_of_getBucket hb
  have hids := hs.regular.tasks.nodup
  have hids' := hs'.regular.tasks.nodup
  have hplace := belongsTo_forMove htarget m.scope
  refine (hview.place_agree hids hids' hplace t.id m.beforeId m.afterId).bind
    fun (key, placed) (key', placed') hplace _ ⟨hkey, hview'⟩ => .ok ?_
  obtain rfl : key' = key := hkey
  have hrow : t ∈ placed.tasks := mem_tasks_place hids hplace ht
  have htarget' : placed.HasBucket p.id (m.target t) := by
    obtain rfl | rfl := store_of_place hplace
    · exact htarget
    · rw [rebalance_eq hids]
      exact htarget
  have howns : placed.ownsTask p.id (placed.moved p t m key').id = true :=
    ownsTask_iff.2 ⟨t, hrow, htp, (id_moved placed p t m key').symm⟩
  show placed'.detail _ = placed.detail _
  rw [hview'.moved htarget']
  exact hview'.detail_of_links (.inl howns)

omit hs hs' in
theorem importAll_agree (is : List ProjectImport) :
    Agree (fun r r' => r'.1 = r.1) (s.importAll actor is) (s'.importAll actor is) :=
  .bind_eq h.actor_eq fun owner _ => h.inStep.importProjects_agree [] owner is

/-- Every operation of the user answers alike. -/
theorem run_agree {op : Operation} (hactor : op.actor? = some actor) (setup : Setup) :
    Agree (fun r r' => r'.1 = r.1) (op.run setup s) (op.run setup s') := by
  cases op with
  | createUser | defaultBucket => simp [Operation.actor?] at hactor
  | createProject x new =>
    obtain rfl := Option.some.inj hactor
    exact (h.inStep.createProject_agree h.actor_eq new).bind fun _ _ _ _ hr =>
      .ok (congrArg Answer.project hr)
  | readProject x project =>
    obtain rfl := Option.some.inj hactor
    exact (h.readProject_agree hs hs' project).bind fun _ _ _ _ hr =>
      .ok (congrArg Answer.project hr)
  | updateProject x project patch =>
    obtain rfl := Option.some.inj hactor
    exact (h.updateProject_agree hs hs' project patch).bind fun _ _ _ _ hr =>
      .ok (congrArg Answer.project hr)
  | shareProject x project share =>
    obtain rfl := Option.some.inj hactor
    exact (h.shareProject_agree project share).bind fun _ _ _ _ _ => .ok rfl
  | readBoard x project options =>
    obtain rfl := Option.some.inj hactor
    exact (h.readBoard_agree hs hs' setup project options).bind fun _ _ _ _ hr =>
      .ok (congrArg Answer.buckets hr)
  | listBuckets x project =>
    obtain rfl := Option.some.inj hactor
    exact (h.listBuckets_agree hs hs' project).bind fun _ _ _ _ hr =>
      .ok (congrArg Answer.buckets hr)
  | createBucket x project new =>
    obtain rfl := Option.some.inj hactor
    exact (h.createBucket_agree hs hs' project new).bind fun _ _ _ _ hr =>
      .ok (congrArg Answer.bucket hr)
  | readBucket x project bucket =>
    obtain rfl := Option.some.inj hactor
    exact (h.readBucket_agree hs hs' project bucket).bind fun _ _ _ _ hr =>
      .ok (congrArg Answer.bucket hr)
  | updateBucket x project bucket patch =>
    obtain rfl := Option.some.inj hactor
    exact (h.updateBucket_agree hs hs' project bucket patch).bind fun _ _ _ _ hr =>
      .ok (congrArg Answer.bucket hr)
  | deleteBucket x project bucket =>
    obtain rfl := Option.some.inj hactor
    exact (h.deleteBucket_agree hs hs' project bucket).bind fun _ _ _ _ _ => .ok rfl
  | listTasks x project options =>
    obtain rfl := Option.some.inj hactor
    exact (h.listTasks_agree hs hs' setup project options).bind fun _ _ _ _ hr =>
      .ok (congrArg Answer.page hr)
  | createTask x project new =>
    obtain rfl := Option.some.inj hactor
    exact (h.createTask_agree hs hs' project new).bind fun _ _ _ _ hr =>
      .ok (congrArg Answer.task hr)
  | readTask x task =>
    obtain rfl := Option.some.inj hactor
    exact (h.readTask_agree hs hs' task).bind fun _ _ _ _ hr => .ok (congrArg Answer.task hr)
  | updateTask x task patch =>
    obtain rfl := Option.some.inj hactor
    exact (h.updateTask_agree hs hs' task patch).bind fun _ _ _ _ hr =>
      .ok (congrArg Answer.task hr)
  | deleteTask x task =>
    obtain rfl := Option.some.inj hactor
    exact (h.deleteTask_agree hs hs' task).bind fun _ _ _ _ _ => .ok rfl
  | moveTask x task move =>
    obtain rfl := Option.some.inj hactor
    exact (h.moveTask_agree hs hs' task move).bind fun _ _ _ _ hr => .ok (congrArg Answer.task hr)
  | importProjects x projects =>
    obtain rfl := Option.some.inj hactor
    exact (h.importAll_agree projects).bind fun _ _ _ _ hr => .ok (congrArg Answer.projects hr)

end AlikeFor

/-- An operation of a user answers the same, with a value or a failure, in any two stores that
differ only in what they hide from the user. -/
theorem answer_confidential (hs : s.Reachable) (hs' : s'.Reachable) (h : s.AlikeFor actor s')
    {op : Operation} (hactor : op.actor? = some actor) (setup : Setup) :
    (op.run setup s').map Prod.fst = (op.run setup s).map Prod.fst :=
  (h.run_agree hs hs' hactor setup).map_eq

/-- A board with two tasks of one user, and a draft of another user who does not see the board. -/
def veiled (titles : String × String) (labels : List LabelImport) (move : TaskMove) : Store :=
  [.createUser { username := "ada" }, .createUser { username := "grace" },
    .importProjects 1 [{
      title := "Plan"
      buckets := [
        { title := "Open", tasks := [{ title := titles.1, labels := [{ title := "urgent" }] },
          { title := titles.2, labels := labels }] },
        { title := "Closed" }] }],
    .moveTask 1 1 move, .createProject 2 { title := "Draft" }, .createTask 2 2 { title := "third" },
    .createTask 2 2 { title := "fourth" }].foldl (Operation.after {}) {}

theorem reachable_veiled (titles : String × String) (labels : List LabelImport) (move : TaskMove) :
    (veiled titles labels move).Reachable := Reachable.empty.foldl_after {} _

/-- The tasks of the hidden board differ in title, label, bucket and order, and one of them is named
as a neighbor. -/
theorem answer_confidential_veiled :
    ((Operation.moveTask 2 3 { afterId := some 1 }).run {}
        (veiled ("buy", "sell") [] { beforeId := some 2 })).map Prod.fst =
      ((Operation.moveTask 2 3 { afterId := some 1 }).run {}
        (veiled ("rest", "work") [{ title := "urgent" }] { bucketId := some 2 })).map Prod.fst := by
  let s := veiled ("rest", "work") [{ title := "urgent" }] { bucketId := some 2 }
  let s' := veiled ("buy", "sell") [] { beforeId := some 2 }
  have htables : s.InStep s' ∧ s'.users = s.users ∧ s'.shares = s.shares ∧ s'.labels = s.labels ∧
      s'.assignments = s.assignments := by decide +kernel
  have hrows :
      List.Forall₂ (fun p p' => SameRow (s.Sees 2) (·.id) (·.id) p p' ∧
        p'.ownerId = p.ownerId) s.projects s'.projects ∧
        List.Forall₂ (SameRow (s.Sees 2) (·.id) (·.projectId)) s.buckets s'.buckets ∧
        List.Forall₂ (SameRow (s.Sees 2) (·.id) (·.projectId)) s.tasks s'.tasks := by decide +kernel
  have hlinks : ∀ l ∈ s.labelLinks ++ s'.labelLinks, ∃ t ∈ s.tasks, t.id = l.taskId ∧
      ¬s.Sees 2 t.projectId := by
    decide +kernel
  obtain ⟨hstep, husers, hshares, hlabels, hassigned⟩ := htables
  obtain ⟨hprojects, hbuckets, htasks⟩ := hrows
  have halike : s.AlikeFor 2 s' := by
    refine ⟨hstep, husers, hshares, hlabels, hprojects, hbuckets, htasks, fun l hseen => ?_,
      fun a _ => ?_⟩
    · have hnone : l ∉ s.labelLinks ++ s'.labelLinks := fun hl => by
        obtain ⟨t, ht, hid, hhidden⟩ := hlinks l hl
        exact hhidden (hseen t ht hid)
      rw [List.mem_append, not_or] at hnone
      exact iff_of_false hnone.2 hnone.1
    · rw [hassigned]
  exact answer_confidential (reachable_veiled ..) (reachable_veiled ..) halike rfl {}

end Store

end Kanban
