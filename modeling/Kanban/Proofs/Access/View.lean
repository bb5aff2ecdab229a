import Kanban.Proofs.Access.Spared
import Kanban.Proofs.Listing.Details

/-!
# What is seen of a project

Two stores show the same of a project if its buckets, its tasks and what is linked to its tasks are
the same in both, and accounts, labels, the next ids and the clock are the same anyway
(`Store.SameView`).  Then all that operations look up for this project comes out the same: its
buckets, the keys of its scopes, the place of a moved task (`Store.SameView.place_agree`) and the
tasks that a plan selects (`Store.SameView.select`).
-/

namespace Kanban

namespace Store

/-- The same ids are given out next, and the clock shows the same. -/
structure InStep (s s' : Store) : Prop where
  lastProject : s'.lastProject = s.lastProject
  lastBucket : s'.lastBucket = s.lastBucket
  lastTask : s'.lastTask = s.lastTask
  lastLabel : s'.lastLabel = s.lastLabel
  clock : s'.clock = s.clock

instance (s s' : Store) : Decidable (s.InStep s') :=
  decidable_of_iff (s'.lastProject = s.lastProject ∧ s'.lastBucket = s.lastBucket ∧
    s'.lastTask = s.lastTask ∧
      s'.lastLabel = s.lastLabel ∧ s'.clock = s.clock)
    ⟨fun h => ⟨h.1, h.2.1, h.2.2.1, h.2.2.2.1, h.2.2.2.2⟩,
      fun h => ⟨h.lastProject, h.lastBucket, h.lastTask, h.lastLabel, h.clock⟩⟩

/-- The stores show the same of the project. -/
structure SameView (s : Store) (p : Project) (s' : Store) : Prop where
  inStep : s.InStep s'
  users : s'.users = s.users
  labels : s'.labels = s.labels
  buckets : s'.buckets.filter (·.projectId == p.id) = s.buckets.filter (·.projectId == p.id)
  tasks : ∀ place : Place, place.BelongsTo s p →
    s'.tasks.filter place.contains = s.tasks.filter place.contains
  links : ∀ taskId, s.ownsTask p.id taskId = true ∨ taskId = s.lastTask + 1 →
    s'.labelsOf taskId = s.labelsOf taskId ∧ s'.assigneesOf taskId = s.assigneesOf taskId

variable {s s' : Store} {p : Project} {place : Place} {t : Task}

theorem InStep.now (h : s.InStep s') : s'.now = s.now := by
  unfold Store.now
  rw [h.clock]

namespace SameView

section

variable (h : s.SameView p s')

include h

/-! ### Accounts and buckets -/

theorem user? (id : Int) : s'.user? id = s.user? id := by
  unfold Store.user?
  rw [h.users]

theorem actor (id : Int) : s'.actor id = s.actor id := by
  unfold Store.actor
  rw [h.user?]

theorem bucketDetail (b : Bucket) : s'.bucketDetail b = s.bucketDetail b := by
  unfold Store.bucketDetail
  rw [h.user?]

theorem getBucket (id : Int) : s'.getBucket p.id id = s.getBucket p.id id := by
  have hfind : (s'.buckets.find? fun b => b.id == id && b.projectId == p.id) =
      s.buckets.find? fun b => b.id == id && b.projectId == p.id := by
    rw [find?_filter_and, find?_filter_and, h.buckets]
  unfold Store.getBucket
  rw [hfind]

theorem bucketsOf : s'.bucketsOf p.id = s.bucketsOf p.id := by
  unfold Store.bucketsOf
  rw [h.buckets]

theorem resolveBucket {q : Project} (hq : q.id = p.id) (excluded : Option Int) :
    s'.resolveBucket q excluded = s.resolveBucket q excluded := by
  unfold Store.resolveBucket
  rw [hq, h.bucketsOf]

theorem newBucketPosition (given : Double) :
    s'.newBucketPosition p.id given = s.newBucketPosition p.id given := by
  unfold Store.newBucketPosition
  rw [h.buckets, h.inStep.lastBucket]

theorem bucketRef (id : Int) : s'.bucketRef p.id id = s.bucketRef p.id id := by
  unfold Store.bucketRef
  rw [h.getBucket]

/-! ### Scopes -/

theorem tasksIn (hplace : place.BelongsTo s p) :
    s'.tasksIn place.scope place.id = s.tasksIn place.scope place.id := by
  rw [tasksIn_eq, tasksIn_eq, h.tasks place hplace]

theorem othersIn (hplace : place.BelongsTo s p) (moving : Int) :
    s'.othersIn place moving = s.othersIn place moving := by
  have hothers : ∀ x : Store, x.othersIn place moving =
      (x.tasks.filter place.contains).filter (·.id != moving) :=
    fun x => by
      rw [List.filter_filter]
      exact List.filter_congr fun t _ => Bool.and_comm _ _
  rw [hothers, hothers, h.tasks place hplace]

theorem tailKey (hplace : place.BelongsTo s p) (moving : Int) :
    s'.tailKey place moving = s.tailKey place moving := by
  unfold Store.tailKey
  rw [h.othersIn hplace]

theorem ensureCapacity {b : Bucket} (hb : s.HasBucket p.id b.id) :
    s'.ensureCapacity b = s.ensureCapacity b := by
  have htasks : s'.tasksIn .kanban b.id = s.tasksIn .kanban b.id := h.tasksIn (belongsTo_bucket hb)
  unfold Store.ensureCapacity
  rw [htasks]

theorem keyAtEnd {id : Int} (hid : s.HasBucket p.id id) (moving : Int) :
    s'.keyAtEnd id moving = s.keyAtEnd id moving := by
  unfold Store.keyAtEnd
  rw [h.tailKey (belongsTo_bucket hid)]

theorem neighborKey (hplace : place.BelongsTo s p) (moving neighbor : Int) :
    s'.neighborKey place moving neighbor = s.neighborKey place moving neighbor := by
  have hfind : (s'.tasks.find? fun t => t.id == neighbor && place.contains t) =
      s.tasks.find? fun t => t.id == neighbor && place.contains t := by
    rw [find?_filter_and, find?_filter_and, h.tasks place hplace]
  unfold Store.neighborKey
  rw [hfind]

theorem neighborKeys (hplace : place.BelongsTo s p) (moving : Int) (before after : Option Int) :
    s'.neighborKeys place moving before after = s.neighborKeys place moving before after := by
  have hkey : ∀ o, s'.optionalKey place moving o = s.optionalKey place moving o := fun o => by
    cases o with
    | none => rfl
    | some neighbor => simp only [optionalKey, h.neighborKey hplace]
  simp only [Store.neighborKeys, hkey, h.tailKey hplace]

theorem spreadKeys (hplace : place.BelongsTo s p) (moving : Int) :
    s'.spreadKeys place moving = s.spreadKeys place moving := by
  simp only [Store.spreadKeys, rankedIn, orderedIn, h.tasksIn hplace]

/-- Spreading out the keys of a scope of the project changes the tasks of the project alike. -/
theorem rebalance (hids : (s.tasks.map (·.id)).Nodup) (hids' : (s'.tasks.map (·.id)).Nodup)
    (hplace : place.BelongsTo s p) (moving : Int) :
    (s.rebalance place moving).SameView p (s'.rebalance place moving) := by
  rw [rebalance_eq hids, rebalance_eq hids', h.spreadKeys hplace moving]
  have hcontains : ∀ other : Place,
      other.contains ∘ Task.rekeyed place.scope (s.spreadKeys place moving) = other.contains :=
    fun other => funext fun t => Task.contains_rekeyed other
  refine ⟨{ h.inStep with }, h.users, h.labels, h.buckets, fun other hother => ?_,
    fun taskId howns => ?_⟩
  · rw [List.filter_map, List.filter_map, hcontains, h.tasks other hother]
  · refine h.links taskId (howns.imp_left fun howns => ?_)
    obtain ⟨u, hu, hproject, hid⟩ := ownsTask_iff.1 howns
    obtain ⟨v, hv, rfl⟩ := List.mem_map.1 hu
    rw [Task.projectId_rekeyed] at hproject
    rw [Task.id_rekeyed] at hid
    exact ownsTask_iff.2 ⟨v, hv, hproject, hid⟩

/-- The search for a place between the same neighbors ends alike. -/
theorem place_agree (hids : (s.tasks.map (·.id)).Nodup) (hids' : (s'.tasks.map (·.id)).Nodup)
    (hplace : place.BelongsTo s p) (moving : Int) (before after : Option Int) :
    Agree (fun r r' => r'.1 = r.1 ∧ r.2.SameView p r'.2) (s.place place moving before after)
      (s'.place place moving before after) := by
  refine .bind_eq (h.neighborKeys hplace moving before after) fun keys _ =>
    .bind_eq rfl fun found _ => ?_
  cases found with
  | some key => exact .ok ⟨rfl, h⟩
  | none =>
    have hspread := h.rebalance hids hids' hplace moving
    have hplace' : place.BelongsTo (s.rebalance place moving) p := by
      rw [rebalance_eq hids]
      exact hplace
    refine .bind_eq (hspread.neighborKeys hplace' moving before after) fun keys' _ =>
      .bind_eq rfl fun found' _ => ?_
    cases found' with
    | some key => exact .ok ⟨rfl, hspread⟩
    | none => exact .error _

/-! ### Tasks -/

theorem detail_of_links (ht : s.ownsTask p.id t.id = true ∨ t.id = s.lastTask + 1) :
    s'.detail t = s.detail t := by
  obtain ⟨hlabels, hassignees⟩ := h.links t.id ht
  simp only [Store.detail, hlabels, hassignees, h.user?]

theorem detail (ht : t ∈ s.tasks) (htp : t.projectId = p.id) : s'.detail t = s.detail t :=
  h.detail_of_links (.inl (ownsTask_iff.2 ⟨t, ht, htp, rfl⟩))

theorem bucketForDone (t : Task) (done : Bool) :
    s'.bucketForDone p t done = s.bucketForDone p t done := by
  unfold Store.bucketForDone
  rw [h.resolveBucket rfl]

/-- A task enters a bucket of the project alike. -/
theorem withDone (t : Task) (done : Bool) : s'.withDone p t done = s.withDone p t done := by
  refine (Agree.eq (.bind_eq (h.bucketForDone t done) fun target _ => ?_)).symm
  by_cases htarget : target = t.bucketId
  · rw [if_pos htarget, if_pos htarget, h.inStep.now]
    exact .ok rfl
  · rw [if_neg htarget, if_neg htarget]
    refine .bind_eq (h.getBucket target) fun b hb => ?_
    have hid : s.HasBucket p.id target := hasBucket_of_getBucket hb
    refine .bind_eq (h.ensureCapacity ((getBucket_eq_ok hb).2.1 ▸ hid)) fun _ _ => ?_
    rw [h.keyAtEnd hid, h.inStep.now]
    exact .ok rfl

theorem withPatch (t : Task) (patch : TaskUpdate) :
    s'.withPatch p t patch = s.withPatch p t patch := by
  unfold Store.withPatch
  rw [funext fun t => funext (h.withDone t)]

theorem checkEntry (t : Task) (target : Int) :
    s'.checkEntry p t target = s.checkEntry p t target := by
  unfold Store.checkEntry
  by_cases htarget : target = t.bucketId
  · rw [if_pos htarget, if_pos htarget]
  · rw [if_neg htarget, if_neg htarget]
    refine (Agree.eq (.bind_eq (h.getBucket target) fun b hb => ?_)).symm
    rw [h.ensureCapacity ((getBucket_eq_ok hb).2.1 ▸ hasBucket_of_getBucket hb)]
    exact .of_eq rfl

theorem moved {m : TaskMove} (htarget : s.HasBucket p.id (m.target t)) (key : Double) :
    s'.moved p t m key = s.moved p t m key := by
  simp only [Store.moved, rehoused, h.keyAtEnd htarget, h.inStep.now]

/-! ### Selections -/

theorem filter_tasks {q q' : Task → Bool} (hq : ∀ t ∈ s.tasks, t.projectId = p.id → q' t = q t) :
    (s'.tasks.filter fun t => t.projectId == p.id && q' t) =
      s.tasks.filter fun t => t.projectId == p.id && q t := by
  have htasks : s'.tasksIn .list p.id = s.tasksIn .list p.id := h.tasksIn (belongsTo_project s p)
  have hfilter : ∀ (x : Store) (f : Task → Bool),
      (x.tasks.filter fun t => t.projectId == p.id && f t) = (x.tasksIn .list p.id).filter f := by
    intro x f
    rw [Store.tasksIn, List.filter_filter]
    exact List.filter_congr fun t _ => Bool.and_comm _ _
  rw [hfilter, hfilter, htasks]
  refine List.filter_congr fun t ht => ?_
  obtain ⟨hmem, hproject⟩ := List.mem_filter.1 ht
  exact hq t hmem (by simpa using hproject)

theorem satisfies (ht : t ∈ s.tasks) (htp : t.projectId = p.id) (nulls : Bool)
    (expr : Option Filter.Expr) :
    s'.satisfies nulls expr t = s.satisfies nulls expr t := by
  unfold Store.satisfies
  rw [h.detail ht htp]

theorem select (plan : Plan) : s'.select p.id plan = s.select p.id plan := by
  simp only [Store.select, Bool.and_assoc]
  rw [h.filter_tasks fun t ht htp => by rw [h.satisfies ht htp]]

theorem selectAny (plans : List (Int × Plan)) :
    s'.selectAny p.id plans = s.selectAny p.id plans := by
  cases plans with
  | nil => rfl
  | cons plan plans =>
    have hwanted : ∀ t ∈ s.tasks, t.projectId = p.id →
        s'.wanted (plan :: plans) t = s.wanted (plan :: plans) t := fun t ht htp => by
      simp only [wanted, h.satisfies ht htp]
    simp only [Store.selectAny, Bool.and_assoc]
    rw [h.filter_tasks fun t ht htp => by rw [hwanted t ht htp]]

theorem accept (e : Extent) : s'.accept p.id e = s.accept p.id e := by
  have htasks : s'.tasksIn .list p.id = s.tasksIn .list p.id := h.tasksIn (belongsTo_project s p)
  have hany : ∀ x : Store, x.tasks.any (·.projectId == p.id) = !(x.tasksIn .list p.id).isEmpty := by
    intro x
    rw [Bool.eq_iff_iff]
    simp [Store.tasksIn]
  unfold Store.accept
  rw [hany, hany, htasks]

theorem acceptBoard (plans : List Plan) : s'.acceptBoard p.id plans = s.acceptBoard p.id plans := by
  cases plans with
  | nil => rfl
  | cons plan plans => exact h.accept _

theorem boardTasks (plans : List (Int × Plan)) :
    s'.boardTasks p.id plans = s.boardTasks p.id plans := by
  cases plans with
  | nil => rfl
  | cons plan plans => simp only [Store.boardTasks, h.selectAny]

end

end SameView

theorem SameView.boardDetails (h : s.SameView p s') (plans : List (Int × Plan)) :
    (s'.boardTasks p.id plans).tasks.map s'.detail =
      (s.boardTasks p.id plans).tasks.map s.detail := by
  rw [h.boardTasks]
  exact List.map_congr_left fun t ht => by
    obtain ⟨hmem, htp⟩ := mem_boardTasks ht
    exact h.detail hmem htp

theorem SameView.boardColumn (h : s.SameView p s') (plans : List (Int × Plan)) (b : Bucket) :
    s'.boardColumn (s'.boardTasks p.id plans) b = s.boardColumn (s.boardTasks p.id plans) b := by
  have hdetails : ((s.boardTasks p.id plans).tasks.filter (·.bucketId == b.id)).map s'.detail =
      ((s.boardTasks p.id plans).tasks.filter (·.bucketId == b.id)).map s.detail :=
    List.map_congr_left fun t ht => by
      obtain ⟨hmem, htp⟩ := mem_boardTasks (List.mem_of_mem_filter ht)
      exact h.detail hmem htp
  simp only [Store.boardColumn, h.boardTasks, h.bucketDetail, hdetails]

end Store

end Kanban
