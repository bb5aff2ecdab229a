import Kanban.Proofs.Import.Order

/-!
# The rows of an import

Every entry of an import becomes one row, and the rows stand in the order of their entries
(`Store.TaskRow`, `Store.BucketRow`, `Store.ProjectRow`).  Each loop of the import adds its rows
behind those that are there and leaves alone what is shown of the rows up to then
(`Store.importTasks_rows`, `Store.importBuckets_rows`, `Store.importProjects_rows`), so what holds
of a row when it is added holds in the end.
-/

namespace Kanban.Store

/-! ### Entries and rows -/

/-- The task of an entry: it has the labels of the entry, each of them once. -/
structure TaskRow (s : Store) (labelOf : LabelImport → Option Int) (i : TaskImport)
    (t : Task) : Prop where
  title : t.title = Text.trimmed i.title
  description : t.description = Checklist.describe i.description i.checklists
  dueDate : t.dueDate = i.dueDate
  done : t.done = i.done
  doneAt : t.doneAt.isSome = i.done
  labels_nodup : (s.labelIdsOf t.id).Nodup
  labels_listed : ∀ l ∈ i.labels, (labelOf l).isSome
  labels : ∀ id, id ∈ s.labelIdsOf t.id ↔ ∃ l ∈ i.labels, labelOf l = some id

/-- The bucket of an entry: its tasks stand in the order of their entries, however many there
are. -/
structure BucketRow (s : Store) (labelOf : LabelImport → Option Int) (i : BucketImport)
    (b : Bucket) : Prop where
  title : b.title = Text.trimmed i.title
  limit : b.limit = i.limit
  tasks : List.Forall₂ (s.TaskRow labelOf) i.tasks (s.orderedIn .kanban b.id)

/-- The project of an entry: its buckets stand in the order of their entries, and the list of its
tasks goes through them from the first bucket to the last. -/
structure ProjectRow (s : Store) (labelOf : LabelImport → Option Int) (owner : User)
    (i : ProjectImport) (p : Project) : Prop where
  title : p.title = Text.trimmed i.title
  description : p.description = i.description
  owner : p.ownerId = owner.id
  buckets : List.Forall₂ (s.BucketRow labelOf) i.bucketsToAdd (s.bucketsOf p.id)
  backlog : i.buckets = [] → (s.bucketsOf p.id).map (·.title) = ["Backlog"]
  list : s.orderedIn .list p.id = (s.bucketsOf p.id).flatMap fun b => s.orderedIn .kanban b.id

variable {s s' : Store} {index index' : LabelIndex} {owner : User} {p : Project}
  {bucket project : Int}

/-! ### Rows in later stores -/

theorem TaskRow.later {i : TaskImport} {t : Task} (h : s.TaskRow index.labelOf i t)
    (hg : Grown bucket project s index s' index') (ht : t.id ≤ s.lastTask) :
    s'.TaskRow index'.labelOf i t where
  title := h.title
  description := h.description
  dueDate := h.dueDate
  done := h.done
  doneAt := h.doneAt
  labels_nodup := by rw [hg.labelIdsOf ht]; exact h.labels_nodup
  labels_listed l hl := by
    obtain ⟨id, hid⟩ := Option.isSome_iff_exists.1 (h.labels_listed l hl)
    rw [hg.indexed.lookup hid]
    rfl
  labels id := by
    rw [hg.labelIdsOf ht, h.labels]
    constructor
    · rintro ⟨l, hl, hid⟩
      exact ⟨l, hl, hg.indexed.lookup hid⟩
    · rintro ⟨l, hl, hid⟩
      -- The entry was listed already, so with the same label.
      obtain ⟨old, hold⟩ := Option.isSome_iff_exists.1 (h.labels_listed l hl)
      rw [hg.indexed.lookup hold, Option.some.injEq] at hid
      exact ⟨l, hl, by rw [hold, hid]⟩

/-- Rows are related one by one to other entries if the rows at hand are. -/
private theorem forall₂_imp_of_mem {α β : Type} {R S : α → β → Prop} {xs : List α} {ys : List β}
    (h : List.Forall₂ R xs ys) (himp : ∀ x, ∀ y ∈ ys, R x y → S x y) : List.Forall₂ S xs ys := by
  induction h with
  | nil => exact .nil
  | cons hxy _ ih =>
    exact .cons (himp _ _ (List.mem_cons_self ..) hxy)
      (ih fun x y hy => himp x y (List.mem_cons_of_mem _ hy))

theorem BucketRow.later {i : BucketImport} {b : Bucket} (h : s.BucketRow index.labelOf i b)
    (hs : s.Regular) (hg : Grown bucket project s index s' index') (hb : b.id ≤ bucket) :
    s'.BucketRow index'.labelOf i b where
  title := h.title
  limit := h.limit
  tasks := by
    rw [hg.orderedIn_kanban hb]
    refine forall₂_imp_of_mem h.tasks fun i t ht hrow => hrow.later hg ?_
    have ht := mem_tasks_of_mem_tasksIn ((s.orderedIn_perm .kanban b.id).mem_iff.1 ht)
    exact hs.tasks.le t.id (List.mem_map_of_mem ht)

theorem ProjectRow.later {i : ProjectImport} (h : s.ProjectRow index.labelOf owner i p)
    (hs : s.Regular) (hg : Grown s.lastBucket project s index s' index') (hp : p.id ≤ project) :
    s'.ProjectRow index'.labelOf owner i p := by
  have hid : ∀ b ∈ s.bucketsOf p.id, b.id ≤ s.lastBucket := fun b hb =>
    hs.buckets.le b.id (List.mem_map_of_mem
      (List.mem_of_mem_filter ((s.bucketsOf_perm p.id).mem_iff.1 hb)))
  refine ⟨h.title, h.description, h.owner, ?_, ?_, ?_⟩
  · rw [hg.bucketsOf hp]
    exact forall₂_imp_of_mem h.buckets fun i b hb hrow => hrow.later hs hg (hid b hb)
  · rw [hg.bucketsOf hp]
    exact h.backlog
  · rw [hg.bucketsOf hp, hg.orderedIn_list hp, h.list]
    exact List.flatMap_congr fun b hb => (hg.orderedIn_kanban (hid b hb)).symm

/-! ### Tasks -/

/-- A task that is added with its labels is the row of its entry. -/
theorem taskRow_importedTask (hs : s.Fit) (hdone : p.doneBucketId = 0) (b : Bucket)
    (index : LabelIndex) (owner : User) (i : TaskImport) :
    ((s.addTask (s.importedTask p b owner i)).2.importLabels index owner
        (s.addTask (s.importedTask p b owner i)).1.id i.labels).2.TaskRow
      (LabelIndex.labelOf ((s.addTask (s.importedTask p b owner i)).2.importLabels index owner
        (s.addTask (s.importedTask p b owner i)).1.id i.labels).1)
      i (s.addTask (s.importedTask p b owner i)).1 := by
  have hrowDone : (s.addTask (s.importedTask p b owner i)).1.done = i.done := by
    simp [addTask, importedTask, Task.stored, hdone]
  have htime : (s.addTask (s.importedTask p b owner i)).1.doneAt.isSome =
      (s.addTask (s.importedTask p b owner i)).1.done := by
    show (if (s.importedTask p b owner i).done = true then some s.now else none).isSome = _
    cases hcase : (s.importedTask p b owner i).done <;> exact hcase.symm
  have hnone :
      (s.addTask (s.importedTask p b owner i)).2.labelIdsOf
        (s.addTask (s.importedTask p b owner i)).1.id = [] :=
    hs.labelIdsOf_eq_nil (Int.lt_succ _)
  obtain ⟨-, hlinked⟩ := importLabels_linked (s.addTask (s.importedTask p b owner i)).2 index owner
    (s.addTask (s.importedTask p b owner i)).1.id i.labels
  have hlabels := hlinked.labels
  have hnodup := hlinked.nodup
  rw [hnone] at hnodup
  simp only [hnone, List.not_mem_nil, false_or] at hlabels
  exact ⟨rfl, rfl, rfl, hrowDone, htime.trans hrowDone, hnodup List.nodup_nil,
    hlinked.listed, hlabels⟩

/-- The tasks of a bucket are added in their order. -/
theorem importTasks_rows (hs : s.Fit) (hp : p.id ≤ s.lastProject) (hdone : p.doneBucketId = 0)
    {b : Bucket} (hb : b.id ≤ s.lastBucket) {ts : List TaskImport}
    (h : s.importTasks index owner p b ts = .ok (index', s')) :
    Grown (b.id - 1) (p.id - 1) s index s' index' ∧ s'.projects = s.projects ∧
    s'.buckets = s.buckets ∧
      ∃ new, s'.tasks = s.tasks ++ new ∧ (∀ t ∈ new, t.bucketId = b.id ∧ t.projectId = p.id) ∧
        List.Forall₂ (s'.TaskRow index'.labelOf) ts new := by
  induction ts generalizing s index with
  | nil =>
    obtain ⟨rfl, rfl⟩ := Prod.mk.inj (Except.ok.inj h)
    exact ⟨.refl hs _ _ _, rfl, rfl, [], by simp, by simp, .nil⟩
  | cons i ts ih =>
    obtain ⟨task, s₁, htask, h⟩ := importTasks_cons.1 h
    have hadd := (insertTask_new_eq_ok.1 htask).2
    obtain rfl : (s.addTask (s.importedTask p b owner i)).1 = task := congrArg Prod.fst hadd
    obtain rfl : (s.addTask (s.importedTask p b owner i)).2 = s₁ := congrArg Prod.snd hadd
    have hgrown :=
      grown_addTask hs (t := s.importedTask p b owner i) hb hp (key_eq rfl rfl) index owner
      i.labels
    have hrow := taskRow_importedTask hs hdone b index owner i
    have htables := importLabels_onlyLabels (s.addTask (s.importedTask p b owner i)).2 index owner
      (s.addTask (s.importedTask p b owner i)).1.id i.labels
    generalize (s.addTask (s.importedTask p b owner i)).2.importLabels index owner
      (s.addTask (s.importedTask p b owner i)).1.id i.labels = r at h hgrown hrow htables
    have htasks : r.2.tasks = s.tasks ++ [(s.addTask (s.importedTask p b owner i)).1] :=
      htables.tasks
    have hid : (s.addTask (s.importedTask p b owner i)).1.id ≤ r.2.lastTask :=
      htables.lastTask ▸ le_rfl
    obtain ⟨hrest, hprojects, hbuckets, new, hnew, href, hrows⟩ :=
      ih hgrown.fit (htables.lastProject ▸ hp) (htables.lastBucket ▸ hb) h
    refine ⟨hgrown.trans hrest le_rfl le_rfl, hprojects.trans htables.projects,
      hbuckets.trans htables.buckets, _ :: new, ?_, ?_, .cons (hrow.later hrest hid) hrows⟩
    · rw [hnew, htasks, List.append_assoc, List.singleton_append]
    · rw [List.forall_mem_cons]
      exact ⟨⟨rfl, rfl⟩, href⟩

/-! ### Buckets -/

/-- A bucket that is added with its tasks stands last on the board, and its tasks stand last in the
list. -/
theorem importBucket_row (hs : s.Fit) (hp : p.id ≤ s.lastProject) (hdone : p.doneBucketId = 0)
    {i : BucketImport} {b : Bucket} {s₁ : Store}
    (hadd : s.addBucket (s.importedBucket p owner i) = (b, s₁))
    (h : s₁.importTasks index owner p b i.tasks = .ok (index', s')) :
    Grown s.lastBucket (p.id - 1) s index s' index' ∧ b.id ≤ s'.lastBucket ∧
    s'.projects = s.projects ∧
      s'.bucketsOf p.id = s.bucketsOf p.id ++ [b] ∧ s'.BucketRow index'.labelOf i b ∧
      s'.tasksIn .list p.id = s.tasksIn .list p.id ++ s'.orderedIn .kanban b.id := by
  obtain rfl : (s.addBucket (s.importedBucket p owner i)).1 = b := congrArg Prod.fst hadd
  obtain rfl : (s.addBucket (s.importedBucket p owner i)).2 = s₁ := congrArg Prod.snd hadd
  have hadded := grown_importedBucket hs hp s.lastBucket index owner i
  have hboard := bucketsOf_importedBucket (p := p) hs.regular owner i
  have hid : (s.addBucket (s.importedBucket p owner i)).1.id = s.lastBucket + 1 := rfl
  obtain ⟨hgrown, hprojects, hbuckets, new, hnew, href, hrows⟩ :=
    importTasks_rows hadded.fit hp hdone le_rfl h
  -- The bucket was empty, so the new tasks are all that it has.
  have hempty : (s.addBucket (s.importedBucket p owner i)).2.tasksIn .kanban
      (s.addBucket (s.importedBucket p owner i)).1.id = [] :=
        hs.tasksIn_kanban_eq_nil (Int.lt_succ _)
  have hlane : s'.orderedIn .kanban (s.addBucket (s.importedBucket p owner i)).1.id = new := by
    rw [hgrown.orderedIn_eq hempty]
    rw [tasksIn] at hempty ⊢
    rw [hnew, List.filter_append, hempty, List.nil_append]
    exact List.filter_eq_self.2 fun t ht => beq_iff_eq.2 (href t ht).1
  have hlist : s'.tasksIn .list p.id = s.tasksIn .list p.id ++ new := by
    have hall : new.filter (·.projectId == p.id) = new :=
      List.filter_eq_self.2 fun t ht => beq_iff_eq.2 (href t ht).2
    simp only [tasksIn, hnew, List.filter_append, hall]
    rfl
  refine ⟨hadded.trans hgrown (by omega) le_rfl, ?_, hprojects, ?_,
    ⟨rfl, rfl, by rw [hlane]; exact hrows⟩, ?_⟩
  · rw [hid]
    exact Int.ofNat_le.2 hgrown.lastBucket_le
  · rw [Store.bucketsOf, hbuckets]
    exact hboard
  · rw [hlist, hlane]

/-- The buckets of a project are added in their order. -/
theorem importBuckets_rows (hs : s.Fit) (hp : p.id ≤ s.lastProject) (hdone : p.doneBucketId = 0)
    {bs : List BucketImport} (h : s.importBuckets index owner p bs = .ok (index', s')) :
    Grown s.lastBucket (p.id - 1) s index s' index' ∧ s'.projects = s.projects ∧
      ∃ new, s'.bucketsOf p.id = s.bucketsOf p.id ++ new ∧
      List.Forall₂ (s'.BucketRow index'.labelOf) bs new ∧
        s'.tasksIn .list p.id = s.tasksIn .list p.id ++ new.flatMap fun b =>
          s'.orderedIn .kanban b.id := by
  induction bs generalizing s index with
  | nil =>
    obtain ⟨rfl, rfl⟩ := Prod.mk.inj (Except.ok.inj h)
    exact ⟨.refl hs _ _ _, rfl, [], by simp, .nil, by simp⟩
  | cons i bs ih =>
    obtain ⟨b, s₁, index₂, s₂, hbucket, htasks, h⟩ := importBuckets_cons.1 h
    obtain ⟨hgrown, hid, hprojects, hboard, hrow, hlist⟩ :=
      importBucket_row hs hp hdone (insertBucket_new_eq_ok.1 hbucket).2.2 htasks
    have hp₂ : p.id ≤ s₂.lastProject := hp.trans (Int.ofNat_le.2 hgrown.lastProject_le)
    obtain ⟨hrest, hprojects', new, hboard', hrows, hlist'⟩ := ih hgrown.fit hp₂ h
    refine ⟨hgrown.trans hrest (Int.ofNat_le.2 hgrown.lastBucket_le) le_rfl,
      hprojects'.trans hprojects, b :: new, ?_,
      .cons (hrow.later hgrown.fit.regular hrest hid) hrows, ?_⟩
    · rw [hboard', hboard, List.append_assoc, List.singleton_append]
    · rw [hlist', hlist, List.flatMap_cons, hrest.orderedIn_kanban hid, List.append_assoc]

/-! ### Projects -/

/-- A new project with its buckets is the row of its entry. -/
theorem importProject_row (hs : s.Fit) {i : ProjectImport} {added : Store}
    (hadd : s.addProject (Text.trimmed i.title) i.description owner.id = (p, added))
    (h : added.importBuckets index owner p i.bucketsToAdd = .ok (index', s')) :
    Grown s.lastBucket s.lastProject s index s' index' ∧ p.id ≤ s'.lastProject ∧
    s'.projects = s.projects ++ [p] ∧
      s'.ProjectRow index'.labelOf owner i p := by
  obtain rfl : (s.addProject (Text.trimmed i.title) i.description owner.id).1 = p :=
    congrArg Prod.fst hadd
  obtain rfl : (s.addProject (Text.trimmed i.title) i.description owner.id).2 = added :=
    congrArg Prod.snd hadd
  have hadded :=
    grown_addProject hs s.lastBucket s.lastProject index
      (Text.trimmed i.title) i.description owner.id
  obtain ⟨hgrown, hprojects, new, hboard, hrows, hlist⟩ :=
    importBuckets_rows hadded.fit le_rfl rfl h
  have hnoTasks : (s.addProject (Text.trimmed i.title) i.description owner.id).2.tasksIn .list
      (s.addProject (Text.trimmed i.title) i.description owner.id).1.id = [] :=
    hs.tasksIn_list_eq_nil (Int.lt_succ _)
  have hnoBuckets : (s.addProject (Text.trimmed i.title) i.description owner.id).2.bucketsOf
      (s.addProject (Text.trimmed i.title) i.description owner.id).1.id = [] :=
    hs.bucketsOf_eq_nil (Int.lt_succ _)
  rw [hnoBuckets, List.nil_append] at hboard
  rw [hnoTasks, List.nil_append, ← hboard] at hlist
  refine ⟨hadded.trans hgrown le_rfl ?_, Int.ofNat_le.2 hgrown.lastProject_le, hprojects, rfl, rfl,
    rfl, ?_, ?_, ?_⟩
  · exact Int.le_sub_one_of_lt (Int.lt_succ _)
  · rw [hboard]
    exact hrows
  · intro hempty
    rw [ProjectImport.bucketsToAdd, hempty] at hrows
    obtain ⟨b, rest, hb, hrest, rfl⟩ := List.forall₂_cons_left_iff.1 hrows
    obtain rfl := List.forall₂_nil_left_iff.1 hrest
    have htitle : Text.trimmed Project.firstBucketTitle = "Backlog" := by decide +kernel
    rw [hboard, List.map_singleton, hb.title, htitle]
  · rw [hgrown.orderedIn_eq hnoTasks, hlist]

/-- Projects are added in their order. -/
theorem importProjects_rows (hs : s.Fit) {is : List ProjectImport} {ps : List Project}
    (h : s.importProjects index owner is = .ok (ps, s')) :
    ∃ index', Grown s.lastBucket s.lastProject s index s' index' ∧ s'.projects = s.projects ++ ps ∧
      List.Forall₂ (s'.ProjectRow index'.labelOf owner) is ps := by
  induction is generalizing s index ps with
  | nil =>
    obtain ⟨rfl, rfl⟩ := Prod.mk.inj (Except.ok.inj h)
    exact ⟨index, .refl hs _ _ _, by simp, .nil⟩
  | cons i is ih =>
    obtain ⟨-, index₂, s₂, ps', hbuckets, hrest, rfl⟩ := importProjects_cons.1 h
    obtain ⟨hgrown, hid, hprojects, hrow⟩ := importProject_row hs rfl hbuckets
    obtain ⟨index', hrestGrown, hprojects', hrows⟩ := ih hgrown.fit hrest
    refine ⟨index', hgrown.trans hrestGrown (Int.ofNat_le.2 hgrown.lastBucket_le)
      (Int.ofNat_le.2 hgrown.lastProject_le), ?_,
      .cons (hrow.later hgrown.fit.regular hrestGrown hid) hrows⟩
    rw [hprojects', hprojects, List.append_assoc, List.singleton_append]
    rfl

end Kanban.Store
