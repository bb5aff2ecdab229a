import Kanban.Proofs.Buckets.Append
import Kanban.Proofs.Operation.Run

/-!
# Projects that are spared

To a project belong its row, its buckets, its tasks and the links of its tasks (`Store.rowsOf`).  A
change of the store spares a project if all these rows stay as they are, and no share changes either
(`Store.Spares`).  Writing a row spares every project to which the row does not belong.  Where rows
are selected by their bucket alone, as for the keys of a bucket (`Store.spares_rebalance`) and for
the tasks of a deleted one (`Store.spares_moveAllTasks`), this takes that tasks are in buckets of
their own project.
-/

namespace Kanban

/-- What is stored of a project. -/
structure ProjectRows where
  project : Option Project
  buckets : List Bucket
  tasks : List Task
  labelLinks : List LabelLink
  assignments : List Assignment

namespace Store

/-- There is a task with this id in the project. -/
def ownsTask (s : Store) (projectId taskId : Int) : Bool :=
  (s.tasksIn .list projectId).any (·.id == taskId)

/-- All rows that belong to a project. -/
def rowsOf (s : Store) (projectId : Int) : ProjectRows where
  project := s.project? projectId
  buckets := s.buckets.filter (·.projectId == projectId)
  tasks := s.tasksIn .list projectId
  labelLinks := s.labelLinks.filter (s.ownsTask projectId ·.taskId)
  assignments := s.assignments.filter (s.ownsTask projectId ·.taskId)

/-- The rights that were granted on a project. -/
def sharesOf (s : Store) (projectId : Int) : List Share :=
  s.shares.filter (·.projectId == projectId)

/-- No row of the project `q` and no share differs between the stores, and ids of projects are only
given out. -/
structure Spares (s : Store) (q : Int) (s' : Store) : Prop where
  rows : s'.rowsOf q = s.rowsOf q
  shares : s'.shares = s.shares
  lastProject : s.lastProject ≤ s'.lastProject

variable {s s' s'' : Store} {q : Int}

namespace Spares

theorem refl (s : Store) (q : Int) : s.Spares q s := ⟨rfl, rfl, le_refl _⟩

theorem trans (h : s.Spares q s') (h' : s'.Spares q s'') : s.Spares q s'' :=
  ⟨h'.rows.trans h.rows, h'.shares.trans h.shares, h.lastProject.trans h'.lastProject⟩

theorem ownsTask (h : s.Spares q s') (taskId : Int) :
    s'.ownsTask q taskId = s.ownsTask q taskId := by
  have htasks : s'.tasksIn .list q = s.tasksIn .list q := congrArg ProjectRows.tasks h.rows
  simp only [Store.ownsTask, htasks]

end Spares

theorem ownsTask_iff {taskId : Int} :
    s.ownsTask q taskId = true ↔ ∃ t ∈ s.tasks, t.projectId = q ∧ t.id = taskId := by
  simp [ownsTask, tasksIn]

/-- An id of a task of another project is none of a task of this one. -/
theorem ownsTask_eq_false (hids : (s.tasks.map (·.id)).Nodup) {t : Task} (ht : t ∈ s.tasks)
    (hne : t.projectId ≠ q) :
    s.ownsTask q t.id = false := by
  rw [Bool.eq_false_iff]
  intro howns
  obtain ⟨u, hu, rfl, hid⟩ := ownsTask_iff.1 howns
  exact hne (congrArg Task.projectId (eq_of_key_eq hids ht hu hid.symm))

/-- Links stay where the tasks of the project stay. -/
theorem rowsOf_congr (hproject : s'.project? q = s.project? q)
    (hbuckets : s'.buckets.filter (·.projectId == q) = s.buckets.filter (·.projectId == q))
    (htasks : s'.tasksIn .list q = s.tasksIn .list q) (hlinks : s'.labelLinks = s.labelLinks)
    (hassignments : s'.assignments = s.assignments) : s'.rowsOf q = s.rowsOf q := by
  simp only [rowsOf, ownsTask, hproject, hbuckets, htasks, hlinks, hassignments]

/-! ### New rows -/

theorem spares_tick (s : Store) (q : Int) : s.Spares q s.tick := ⟨rfl, rfl, le_refl _⟩

theorem spares_addUser (s : Store) (q : Int) (username name : String) :
    s.Spares q (s.addUser username name).2 :=
  ⟨rfl, rfl, le_refl _⟩

theorem spares_addLabel (s : Store) (q : Int) (title hexColor : String) (createdById : Int) :
    s.Spares q (s.addLabel title hexColor createdById).2 :=
  ⟨rfl, rfl, le_refl _⟩

theorem spares_addProject (hq : q ≤ s.lastProject) (title description : String) (ownerId : Int) :
    s.Spares q (s.addProject title description ownerId).2 := by
  refine ⟨rowsOf_congr ?_ rfl rfl rfl rfl, rfl, Nat.le_succ _⟩
  have hnew : (s.lastProject + 1 : Int) ≠ q := by omega
  show (s.projects ++ [_]).find? _ = _
  rw [List.find?_append, List.find?_singleton, if_neg (by simpa using hnew)]
  exact Option.or_none

theorem spares_addBucket {b : Bucket} (hb : b.projectId ≠ q) : s.Spares q (s.addBucket b).2 := by
  have hnew : ((s.addBucket b).1.projectId == q) = false := beq_eq_false_iff_ne.2 hb
  refine ⟨rowsOf_congr rfl ?_ rfl rfl rfl, rfl, le_refl _⟩
  exact filter_append_of_not (x := (s.addBucket b).1) (q := (·.projectId == q)) hnew s.buckets

theorem spares_addTask {t : Task} (ht : t.projectId ≠ q) : s.Spares q (s.addTask t).2 := by
  have hnew : ((s.addTask t).1.projectId == q) = false := beq_eq_false_iff_ne.2 ht
  refine ⟨rowsOf_congr rfl rfl ?_ rfl rfl, rfl, le_refl _⟩
  exact filter_append_of_not (x := (s.addTask t).1) (q := (·.projectId == q)) hnew s.tasks

theorem spares_linkLabel {taskId : Int} (h : s.ownsTask q taskId = false) (labelId : Int) :
    s.Spares q (s.linkLabel taskId labelId) := by
  unfold linkLabel
  split
  · exact .refl s q
  · refine ⟨?_, rfl, le_refl _⟩
    have hnew :=
      filter_append_of_not (x := ⟨taskId, labelId⟩)
        (q := fun l => s.ownsTask q l.taskId) h s.labelLinks
    exact congrArg (ProjectRows.mk _ _ _ · _) hnew

/-! ### Changed rows -/

theorem spares_setProject {p : Project} (hp : p.id ≠ q) : s.Spares q (s.setProject p) := by
  refine ⟨rowsOf_congr ?_ rfl rfl rfl rfl, rfl, le_refl _⟩
  unfold project? setProject
  rw [List.find?_map]
  have hsame : (fun x : Project => x.id == q) ∘ (fun x => if x.id == p.id then p else x) =
      fun x => x.id == q := by
    funext x
    by_cases hx : x.id = p.id <;> simp [hx]
  rw [hsame]
  cases hfind : s.projects.find? (·.id == q) with
  | none => rfl
  | some x =>
    have hid : x.id = q := by simpa using List.find?_some hfind
    have hx : x.id ≠ p.id := hid ▸ hp.symm
    exact congrArg some (if_neg (by simpa using hx))

theorem spares_setBucket (hids : (s.buckets.map (·.id)).Nodup) {old b : Bucket}
    (hold : old ∈ s.buckets) (hid : b.id = old.id) (hproject : b.projectId = old.projectId)
    (hne : old.projectId ≠ q) :
    s.Spares q (s.setBucket b) := by
  have hrow : ∀ x ∈ s.buckets, x.id = b.id → x.projectId = b.projectId := fun x hx hxb => by
    rw [eq_of_key_eq hids hx hold (hxb.trans hid), hproject]
  refine ⟨rowsOf_congr rfl (filter_map_of_fixed (fun x hx => ?_) fun x hx hxq => ?_) rfl rfl rfl,
    rfl, le_refl _⟩
  · by_cases hxb : x.id = b.id
    · simp [hxb, hrow x hx hxb]
    · simp [hxb]
  · have hxb : x.id ≠ b.id := fun hxb => hne (hproject ▸ hrow x hx hxb ▸ by simpa using hxq)
    simp [hxb]

/-- Rows of tasks may change as long as no task of the project does. -/
theorem spares_mapTasks {f : Task → Task} (clock : Nat)
    (hproject : ∀ t ∈ s.tasks, (f t).projectId = t.projectId)
    (hfixed : ∀ t ∈ s.tasks, t.projectId = q → f t = t) :
    s.Spares q { s with tasks := s.tasks.map f, clock := clock } := by
  refine ⟨rowsOf_congr rfl rfl (filter_map_of_fixed (fun t ht => ?_) fun t ht htq => ?_) rfl rfl,
    rfl, le_refl _⟩
  · rw [hproject t ht]
  · exact hfixed t ht (by simpa using htq)

theorem spares_setTask (hids : (s.tasks.map (·.id)).Nodup) {old t : Task} (hold : old ∈ s.tasks)
    (hid : t.id = old.id) (hproject : t.projectId = old.projectId) (hne : old.projectId ≠ q) :
    s.Spares q (s.setTask t) := by
  have hrow : ∀ x ∈ s.tasks, x.id = t.id → x.projectId = t.projectId := fun x hx hxt => by
    rw [eq_of_key_eq hids hx hold (hxt.trans hid), hproject]
  refine spares_mapTasks s.clock (fun x hx => ?_) fun x hx hxq => ?_
  · by_cases hxt : x.id = t.id
    · simp [hxt, hrow x hx hxt]
    · simp [hxt]
  · have hxt : x.id ≠ t.id := fun hxt => hne (by rw [← hproject, ← hrow x hx hxt, hxq])
    simp [hxt]

theorem rowsOf_putShare (s : Store) (h : Share) (q : Int) :
    (s.putShare h).rowsOf q = s.rowsOf q := by
  unfold putShare
  split <;> rfl

theorem sharesOf_putShare (s : Store) {h : Share} (hne : h.projectId ≠ q) :
    (s.putShare h).sharesOf q = s.sharesOf q := by
  unfold putShare
  split
  · refine filter_map_of_fixed (fun x _ => ?_) fun x _ hxq => ?_
    · by_cases hx : x.projectId = h.projectId
      · by_cases hu : x.userId = h.userId <;> simp [hx, hu]
      · simp [hx]
    · have hx : x.projectId ≠ h.projectId := fun heq => hne (heq ▸ by simpa using hxq)
      simp [hx]
  · exact filter_append_of_not (x := h) (q := (·.projectId == q))
      (beq_eq_false_iff_ne.2 hne) s.shares

/-! ### Removed rows -/

theorem spares_removeBucket (hids : (s.buckets.map (·.id)).Nodup) {b : Bucket} (hb : b ∈ s.buckets)
    (hne : b.projectId ≠ q) : s.Spares q (s.removeBucket b.id) := by
  refine ⟨rowsOf_congr rfl (filter_filter_of_kept fun x hx hxq => ?_) rfl rfl rfl, rfl, le_refl _⟩
  have hxb : x.id ≠ b.id := fun hxb => hne (eq_of_key_eq hids hx hb hxb ▸ by simpa using hxq)
  simpa using hxb

theorem spares_removeTask (hids : (s.tasks.map (·.id)).Nodup) {t : Task} (ht : t ∈ s.tasks)
    (hne : t.projectId ≠ q) :
    s.Spares q (s.removeTask t.id) := by
  have htasks : (s.removeTask t.id).tasksIn .list q = s.tasksIn .list q := by
    refine filter_filter_of_kept fun x hx hxq => ?_
    have hxt : x.id ≠ t.id := fun hxt => hne (eq_of_key_eq hids hx ht hxt ▸ by simpa using hxq)
    simpa using hxt
  have howns : (s.removeTask t.id).ownsTask q = s.ownsTask q :=
    funext fun i => by simp only [ownsTask, htasks]
  -- No link of the removed task is one of the project.
  have hlink : ∀ i, s.ownsTask q i = true → (i != t.id) = true := fun i hi => by
    rw [bne_iff_ne]
    rintro rfl
    rw [ownsTask_eq_false hids ht hne] at hi
    exact Bool.false_ne_true hi
  have hlabels : (s.removeTask t.id).labelLinks.filter (s.ownsTask q ·.taskId) =
      s.labelLinks.filter (s.ownsTask q ·.taskId) := filter_filter_of_kept fun l _ => hlink l.taskId
  have hassigned : (s.removeTask t.id).assignments.filter (s.ownsTask q ·.taskId) =
      s.assignments.filter (s.ownsTask q ·.taskId) :=
        filter_filter_of_kept fun a _ => hlink a.taskId
  refine ⟨?_, rfl, le_refl _⟩
  simp only [rowsOf, howns, htasks, hlabels, hassigned]
  rfl

/-! ### Rows selected by their bucket -/

theorem spares_rebalance (hs : s.Regular) (hi : s.Integral) {place : Place} {p : Project}
    (hplace : place.BelongsTo s p) (hne : p.id ≠ q) (moving : Int) :
    s.Spares q (s.rebalance place moving) := by
  have hids := hs.tasks.nodup
  rw [rebalance_eq hids]
  refine spares_mapTasks s.clock (fun t _ => Task.projectId_rekeyed) fun t ht htq =>
    Task.rekeyed_eq_self ?_
  rw [fst_spreadKeys, List.mem_map]
  rintro ⟨u, hu, hid⟩
  obtain ⟨hu, hin, -⟩ := mem_othersIn.1 (mem_rankedIn.1 hu)
  rw [eq_of_key_eq hids hu ht hid] at hin
  exact hne ((hi.projectId_of_contains hs hplace ht hin).symm.trans htq)

theorem spares_moveAllTasks (hs : s.Regular) (hi : s.Integral) {p : Project} {source : Int}
    (hsource : s.HasBucket p.id source) (hne : p.id ≠ q) (cleared : Project) (target : Int) :
    s.Spares q (s.moveAllTasks cleared source target) := by
  have hids := hs.tasks.nodup
  have hin : ∀ t ∈ s.tasks, t.bucketId = source → t.projectId = p.id := fun t ht hbucket =>
    hi.projectId_of_contains hs (belongsTo_bucket hsource) ht
      (by simpa [Place.contains] using hbucket)
  obtain ⟨clock, hmoved⟩ := moveAllTasks_eq hids cleared source target
  rw [hmoved]
  refine spares_mapTasks clock (fun t ht => ?_) fun t ht htq =>
    rowBehind_of_ne hids cleared ht fun hbucket => ?_
  · by_cases hbucket : t.bucketId = source
    · obtain ⟨key, -, hrow⟩ := rowBehind_of_eq hids cleared target ht hbucket
      rw [hrow]
      rfl
    · rw [rowBehind_of_ne hids cleared ht hbucket]
  · exact hne ((hin t ht hbucket).symm.trans htq)

end Store

end Kanban
