import Kanban.Proofs.Import.Labels
import Kanban.Proofs.Operation.Ownership
import Kanban.Proofs.Position.Growing

/-!
# Stores that grow

An import only appends rows, with ids that grow (`Appended`), to a store whose references fit
(`Store.Fit`).  What it appends belongs to projects and buckets above given ids (`Store.Grown`), so
whatever is shown of the projects, buckets and tasks up to these ids stays as it is: the tasks of a
bucket (`Store.Grown.tasksIn_kanban`), the tasks and buckets of a project
(`Store.Grown.tasksIn_list`, `Store.Grown.board`) and the labels of a task
(`Store.Grown.labelIdsOf`).
-/

namespace Kanban

/-! ### Tables that grow -/

/-- New rows stand behind the old ones, with ids that grow. -/
structure Appended {α : Type} (key : α → Int) (last : Nat) (rows : List α) (last' : Nat)
    (rows' new : List α) : Prop where
  rows_eq : rows' = rows ++ new
  le : last ≤ last'
  fresh : ∀ r ∈ new, (last : Int) < key r ∧ key r ≤ last'
  growing : new.Pairwise (key · < key ·)

namespace Appended

variable {α : Type} {key : α → Int} {last last' last'' : Nat} {rows rows' rows'' new new' : List α}

theorem refl (key : α → Int) (last : Nat) (rows : List α) : Appended key last rows last rows [] :=
  ⟨(List.append_nil rows).symm, le_rfl, by simp, .nil⟩

theorem single {r : α} (hr : key r = last + 1) :
    Appended key last rows (last + 1) (rows ++ [r]) [r] where
  rows_eq := rfl
  le := Nat.le_succ last
  fresh x hx := by
    obtain rfl := List.mem_singleton.1 hx
    push_cast
    omega
  growing := List.pairwise_singleton _ _

theorem trans (h : Appended key last rows last' rows' new)
    (h' : Appended key last' rows' last'' rows'' new') :
    Appended key last rows last'' rows'' (new ++ new') where
  rows_eq := by rw [h'.rows_eq, h.rows_eq, List.append_assoc]
  le := h.le.trans h'.le
  fresh r hr := by
    have hle := h.le
    have hle' := h'.le
    rcases List.mem_append.1 hr with hr | hr
    · have := h.fresh r hr
      omega
    · have := h'.fresh r hr
      omega
  growing := by
    refine List.pairwise_append.2 ⟨h.growing, h'.growing, fun r hr r' hr' => ?_⟩
    have := h.fresh r hr
    have := h'.fresh r' hr'
    omega

end Appended

namespace Store

/-! ### References that fit -/

/-- A regular store whose rows refer to ids that have been given out. -/
structure Fit (s : Store) : Prop where
  regular : s.Regular
  buckets : ∀ b ∈ s.buckets, b.projectId ≤ s.lastProject
  tasks : ∀ t ∈ s.tasks, t.bucketId ≤ s.lastBucket ∧ t.projectId ≤ s.lastProject
  links : ∀ k ∈ s.labelLinks, k.taskId ≤ s.lastTask

variable {s s' s'' : Store}

theorem Reachable.fit (h : s.Reachable) : s.Fit := by
  have hs := h.regular
  have hbuckets : ∀ b ∈ s.buckets, b.projectId ≤ s.lastProject := fun b hb => by
    obtain ⟨p, hp, hid⟩ := h.owned.buckets b hb
    exact hid ▸ hs.projects.le p.id (List.mem_map_of_mem hp)
  refine ⟨hs, hbuckets, fun t ht => ?_, fun k hk => ?_⟩
  · obtain ⟨b, hb, hid, hproject⟩ := h.integral.taskBucket t ht
    exact ⟨hid ▸ hs.buckets.le b.id (List.mem_map_of_mem hb), hproject ▸ hbuckets b hb⟩
  · obtain ⟨t, ht, hid⟩ := h.owned.links k hk
    exact hid ▸ hs.tasks.le t.id (List.mem_map_of_mem ht)

namespace Fit

theorem addProject (h : s.Fit) (title description : String) (ownerId : Int) :
    (s.addProject title description ownerId).2.Fit where
  regular := h.regular.addProject title description ownerId
  buckets b hb := (h.buckets b hb).trans (Int.ofNat_le.2 (Nat.le_succ _))
  tasks t ht := (h.tasks t ht).imp_right fun hle => hle.trans (Int.ofNat_le.2 (Nat.le_succ _))
  links := h.links

theorem addBucket (h : s.Fit) {b : Bucket} (hproject : b.projectId ≤ s.lastProject)
    (hnum : b.position.isNaN = false) : (s.addBucket b).2.Fit where
  regular := h.regular.addBucket hnum
  buckets x hx := by
    rcases List.mem_append.1 hx with hx | hx
    · exact h.buckets x hx
    · obtain rfl := List.mem_singleton.1 hx
      exact hproject
  tasks t ht := (h.tasks t ht).imp_left fun hle => hle.trans (Int.ofNat_le.2 (Nat.le_succ _))
  links := h.links

theorem addTask (h : s.Fit) {t : Task} (hbucket : t.bucketId ≤ s.lastBucket)
    (hproject : t.projectId ≤ s.lastProject) (hnum : ∀ scope, (t.key scope).isNaN = false) :
    (s.addTask t).2.Fit where
  regular := h.regular.addTask hnum
  buckets := h.buckets
  tasks x hx := by
    rcases List.mem_append.1 hx with hx | hx
    · exact h.tasks x hx
    · obtain rfl := List.mem_singleton.1 hx
      exact ⟨hbucket, hproject⟩
  links k hk := (h.links k hk).trans (Int.ofNat_le.2 (Nat.le_succ _))

theorem importLabels (h : s.Fit) {taskId : Int} (ht : s.HasTask taskId) (index : LabelIndex)
    (owner : User) (ls : List LabelImport) : (s.importLabels index owner taskId ls).2.Fit := by
  have hregular := (importLabels_writes ht index owner ls).1.regular h.regular
  have htables := importLabels_onlyLabels s index owner taskId ls
  obtain ⟨new, hlinks, hnew⟩ := (importLabels_linked s index owner taskId ls).2.links
  obtain ⟨t, ht, rfl⟩ := ht
  have hle := h.regular.tasks.le t.id (List.mem_map_of_mem ht)
  refine ⟨hregular, ?_, ?_, ?_⟩
  · rw [htables.buckets, htables.lastProject]
    exact h.buckets
  · rw [htables.tasks, htables.lastProject, htables.lastBucket]
    exact h.tasks
  · rw [hlinks, htables.lastTask]
    intro k hk
    rcases List.mem_append.1 hk with hk | hk
    · exact h.links k hk
    · rw [hnew k hk]
      exact hle

end Fit

/-! ### Stores that grow -/

/-- Rows were appended; new buckets belong to projects above the given one, and new tasks to
projects and buckets above the given ones, in the order of their ids. -/
structure Grown (bucket project : Int) (s : Store) (index : LabelIndex) (s' : Store)
    (index' : LabelIndex) : Prop where
  fit : s'.Fit
  kept : s'.users = s.users ∧ s'.shares = s.shares ∧ s'.assignments = s.assignments
  projects : ∃ new, Appended (·.id) s.lastProject s.projects s'.lastProject s'.projects new
  buckets : ∃ new, Appended (·.id) s.lastBucket s.buckets s'.lastBucket s'.buckets new ∧
    ∀ b ∈ new, project < b.projectId
  tasks : ∃ new, Appended (·.id) s.lastTask s.tasks s'.lastTask s'.tasks new ∧
    ∀ t ∈ new, bucket < t.bucketId ∧ project < t.projectId ∧
      ∀ scope, (t.key scope).place = (Position.initial t.id .zero).place
  indexed : s.Indexed index s' index'
  links : ∃ new, s'.labelLinks = s.labelLinks ++ new ∧ ∀ k ∈ new, (s.lastTask : Int) < k.taskId

namespace Grown

variable {bucket project bucket' project' : Int} {index index' index'' : LabelIndex}

theorem refl (h : s.Fit) (bucket project : Int) (index : LabelIndex) :
    Grown bucket project s index s index where
  fit := h
  kept := ⟨rfl, rfl, rfl⟩
  projects := ⟨[], .refl ..⟩
  buckets := ⟨[], .refl .., by simp⟩
  tasks := ⟨[], .refl .., by simp⟩
  indexed := .of_labels rfl
  links := ⟨[], by simp, by simp⟩

theorem trans (h : Grown bucket project s index s' index')
    (h' : Grown bucket' project' s' index' s'' index'') (hbucket : bucket ≤ bucket')
    (hproject : project ≤ project') : Grown bucket project s index s'' index'' where
  fit := h'.fit
  kept := ⟨h'.kept.1.trans h.kept.1, h'.kept.2.1.trans h.kept.2.1, h'.kept.2.2.trans h.kept.2.2⟩
  projects := by
    obtain ⟨new, hnew⟩ := h.projects
    obtain ⟨new', hnew'⟩ := h'.projects
    exact ⟨_, hnew.trans hnew'⟩
  buckets := by
    obtain ⟨new, hnew, habove⟩ := h.buckets
    obtain ⟨new', hnew', habove'⟩ := h'.buckets
    refine ⟨_, hnew.trans hnew', fun b hb => ?_⟩
    rcases List.mem_append.1 hb with hb | hb
    · exact habove b hb
    · exact hproject.trans_lt (habove' b hb)
  tasks := by
    obtain ⟨new, hnew, habove⟩ := h.tasks
    obtain ⟨new', hnew', habove'⟩ := h'.tasks
    refine ⟨_, hnew.trans hnew', fun t ht => ?_⟩
    rcases List.mem_append.1 ht with ht | ht
    · exact habove t ht
    · obtain ⟨htBucket, htProject, hkey⟩ := habove' t ht
      exact ⟨hbucket.trans_lt htBucket, hproject.trans_lt htProject, hkey⟩
  indexed := h.indexed.trans h'.indexed
  links := by
    obtain ⟨new, hlinks, hnew⟩ := h.links
    obtain ⟨new', hlinks', hnew'⟩ := h'.links
    obtain ⟨_, htasks, -⟩ := h.tasks
    refine ⟨new ++ new', by rw [hlinks', hlinks, List.append_assoc], fun k hk => ?_⟩
    rcases List.mem_append.1 hk with hk | hk
    · exact hnew k hk
    · exact (Int.ofNat_le.2 htasks.le).trans_lt (hnew' k hk)

/-! ### What stays as it is -/

theorem lastProject_le (h : Grown bucket project s index s' index') :
    s.lastProject ≤ s'.lastProject := by
  obtain ⟨_, hprojects⟩ := h.projects
  exact hprojects.le

theorem lastBucket_le (h : Grown bucket project s index s' index') :
    s.lastBucket ≤ s'.lastBucket := by
  obtain ⟨_, hbuckets, -⟩ := h.buckets
  exact hbuckets.le

/-- Rows above a bound do not show in a selection up to the bound. -/
private theorem filter_append_above {α : Type} {ref : α → Int} {bound id : Int} {new : List α}
    (hnew : ∀ r ∈ new, bound < ref r) (hid : id ≤ bound) (rows : List α) :
    (rows ++ new).filter (ref · == id) = rows.filter (ref · == id) := by
  have hnone : new.filter (ref · == id) = [] := by
    rw [List.filter_eq_nil_iff]
    intro r hr
    have := hnew r hr
    rw [beq_iff_eq]
    omega
  rw [List.filter_append, hnone, List.append_nil]

theorem tasksIn_kanban (h : Grown bucket project s index s' index') {id : Int} (hid : id ≤ bucket) :
    s'.tasksIn .kanban id = s.tasksIn .kanban id := by
  obtain ⟨new, htasks, habove⟩ := h.tasks
  simp only [tasksIn, htasks.rows_eq]
  exact filter_append_above (fun t ht => (habove t ht).1) hid s.tasks

theorem tasksIn_list (h : Grown bucket project s index s' index') {id : Int} (hid : id ≤ project) :
    s'.tasksIn .list id = s.tasksIn .list id := by
  obtain ⟨new, htasks, habove⟩ := h.tasks
  simp only [tasksIn, htasks.rows_eq]
  exact filter_append_above (fun t ht => (habove t ht).2.1) hid s.tasks

theorem board (h : Grown bucket project s index s' index') {id : Int} (hid : id ≤ project) :
    s'.buckets.filter (·.projectId == id) = s.buckets.filter (·.projectId == id) := by
  obtain ⟨new, hbuckets, habove⟩ := h.buckets
  rw [hbuckets.rows_eq]
  exact filter_append_above habove hid s.buckets

theorem labelIdsOf (h : Grown bucket project s index s' index') {id : Int} (hid : id ≤ s.lastTask) :
    s'.labelIdsOf id = s.labelIdsOf id := by
  obtain ⟨new, hlinks, habove⟩ := h.links
  rw [Store.labelIdsOf, hlinks, filter_append_above habove hid, Store.labelIdsOf]

end Grown

/-! ### Single rows -/

variable {index : LabelIndex} {owner : User} {p : Project}

theorem grown_addProject (h : s.Fit) (bucket project : Int) (index : LabelIndex)
    (title description : String) (ownerId : Int) :
    Grown bucket project s index (s.addProject title description ownerId).2 index :=
  { Grown.refl h bucket project index with
    fit := h.addProject title description ownerId
    projects := ⟨_, .single rfl⟩
    indexed := .of_labels rfl }

theorem grown_importedBucket (h : s.Fit) (hp : p.id ≤ s.lastProject) (bucket : Int)
    (index : LabelIndex) (owner : User) (i : BucketImport) :
    Grown bucket (p.id - 1) s index (s.addBucket (s.importedBucket p owner i)).2 index := by
  have hnum : (s.importedBucket p owner i).position.isNaN = false :=
    isNaN_newBucketPosition h.regular Double.isNaN_zero
  refine { Grown.refl h bucket (p.id - 1) index with
    fit := h.addBucket hp hnum
    buckets := ⟨_, .single rfl, fun b hb => ?_⟩
    indexed := .of_labels rfl }
  obtain rfl := List.mem_singleton.1 hb
  show p.id - 1 < p.id
  omega

/-- A task is added together with its labels. -/
theorem grown_addTask (h : s.Fit) {t : Task} (hbucket : t.bucketId ≤ s.lastBucket)
    (hproject : t.projectId ≤ s.lastProject)
    (hkey : ∀ scope, t.key scope = Position.initial (s.lastTask + 1) .zero) (index : LabelIndex)
    (owner : User) (ls : List LabelImport) :
    Grown (t.bucketId - 1) (t.projectId - 1) s index
      ((s.addTask t).2.importLabels index owner (s.addTask t).1.id ls).2
      ((s.addTask t).2.importLabels index owner (s.addTask t).1.id ls).1 := by
  have hnum : ∀ scope, (t.key scope).isNaN = false := fun scope => by
    rw [hkey]
    exact Position.isNaN_initial _
  have hfit := (h.addTask hbucket hproject hnum).importLabels (hasTask_addTask t) index owner ls
  have htables := importLabels_onlyLabels (s.addTask t).2 index owner (s.addTask t).1.id ls
  obtain ⟨hindexed, hlinked⟩ :=
    importLabels_linked (s.addTask t).2 index owner (s.addTask t).1.id ls
  have hid : (s.addTask t).1.id = s.lastTask + 1 := rfl
  have hplace : ∀ scope, ((s.addTask t).1.key scope).place =
      (Position.initial (s.addTask t).1.id .zero).place := by
    intro scope
    rw [hid, ← hkey scope]
    cases scope <;> exact Double.place_unsignZero _
  generalize (s.addTask t).2.importLabels index owner (s.addTask t).1.id ls =
    r at hfit htables hindexed hlinked
  refine ⟨hfit, ⟨htables.users, htables.shares, htables.assignments⟩, ?_, ?_, ?_, ?_, ?_⟩
  · rw [htables.projects, htables.lastProject]
    exact ⟨[], .refl ..⟩
  · rw [htables.buckets, htables.lastBucket]
    exact ⟨[], .refl .., by simp⟩
  · rw [htables.tasks, htables.lastTask]
    refine ⟨_, .single hid, fun x hx => ?_⟩
    obtain rfl := List.mem_singleton.1 hx
    exact ⟨sub_one_lt _, sub_one_lt _, hplace⟩
  · have hadd : s.Indexed index (s.addTask t).2 index := .of_labels rfl
    exact hadd.trans hindexed
  · obtain ⟨new, hlinks, hnew⟩ := hlinked.links
    refine ⟨new, hlinks, fun k hk => ?_⟩
    rw [hnew k hk, hid]
    exact Int.lt_succ _

end Store

end Kanban
