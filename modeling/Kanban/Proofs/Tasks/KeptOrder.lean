import Kanban.Proofs.Buckets.Creation
import Kanban.Proofs.Import.Rows
import Kanban.Proofs.Tasks.Arrangement
import Kanban.Proofs.Tasks.Keys

/-!
# Tasks that keep their order

An operation takes a task out of the order of a scope if it moves the task there or puts it into
another bucket (`Operation.Displaces`).  All other tasks keep their order under any operation
(`Operation.run_keepsOrder`): as a rule they keep their keys (`Store.KeepsKeys`), and where the keys
of a scope are spread out they get keys by their ranks (`Store.place_key_rekeyed`).  New tasks get
keys by their ids.  Since there are no more ranks than ids, no key by rank exceeds the key by the
last id that was given out.
-/

namespace Kanban

/-- The bucket or the project in which the task has its key. -/
def Task.home (scope : Scope) (t : Task) : Int :=
  match scope with
  | .kanban => t.bucketId
  | .list => t.projectId

theorem Place.contains_iff {p : Place} {t : Task} :
    p.contains t = true ↔ t.home p.scope = p.id := by
  rcases p with ⟨_ | _, id⟩ <;> exact beq_iff_eq

theorem Task.home_congr {t u : Task} (h : u.state = t.state) (scope : Scope) :
    u.home scope = t.home scope := by
  obtain ⟨-, hproject, hbucket, -⟩ := Task.state_eq_iff.1 h
  cases scope with
  | kanban => exact hbucket
  | list => exact hproject

theorem Task.place_le_of_spot_lt {scope : Scope} {t u : Task} (h : t.spot scope < u.spot scope) :
    (t.key scope).place ≤ (u.key scope).place := by
  rcases spot_lt_iff.1 h with hplace | ⟨hplace, -⟩
  · exact hplace.le
  · exact hplace.le

/-! ### What takes a task out of its order -/

/-- The task is in another bucket afterwards. -/
def Store.Rehouses (s s' : Store) (id : Int) : Prop :=
  ∃ t ∈ s.tasks, t.id = id ∧ ∃ t' ∈ s'.tasks, t'.id = id ∧ t'.bucketId ≠ t.bucketId

instance (s s' : Store) (id : Int) : Decidable (s.Rehouses s' id) :=
  inferInstanceAs (Decidable (∃ t ∈ s.tasks, t.id = id ∧ ∃ t' ∈ s'.tasks,
    t'.id = id ∧ t'.bucketId ≠ t.bucketId))

/-- The task that is to be moved, and the scope of the move. -/
def Operation.move? : Operation → Option (Int × Scope)
  | .moveTask _ id m => some (id, m.scope)
  | _ => none

/-- The operation moves the task in the scope.  On the board it also takes a task out of its order
to change its bucket. -/
def Operation.Displaces (setup : Setup) (s : Store) (scope : Scope) (id : Int) (op : Operation) :
    Prop :=
  op.move? = some (id, scope) ∧ (op.run setup s).isOk = true ∨ scope = .kanban ∧
  s.Rehouses (op.after setup s) id

instance (setup : Setup) (s : Store) (scope : Scope) (id : Int) (op : Operation) :
    Decidable (op.Displaces setup s scope id) :=
  inferInstanceAs (Decidable (_ ∧ _ ∨ _ ∧ _))

/-- Only a task that is there can be taken out of its order. -/
theorem Operation.Displaces.hasTask {setup : Setup} {s : Store} {scope : Scope} {id : Int}
    {op : Operation} (h : op.Displaces setup s scope id) : s.HasTask id := by
  rcases h with ⟨hmove, hok⟩ | ⟨-, t, ht, hid, -⟩
  · cases op with
    | moveTask actor task m =>
      obtain ⟨rfl, -⟩ := Prod.mk.inj (Option.some.inj hmove)
      cases hrun : s.moveTask actor task m with
      | ok r =>
        obtain ⟨t, p, key, placed, hget, -⟩ := Store.moveTask_eq_ok.1 hrun
        exact ⟨t, Store.getTask_mem hget⟩
      | error e => simp [run, hrun, bind, Except.bind, Except.isOk, Except.toBool] at hok
    | _ => cases hmove
  · exact ⟨t, ht, hid⟩

namespace Store

/-- The task is new, with a key made of its id. -/
structure HasIdKey (s s' : Store) (scope : Scope) (t : Task) : Prop where
  id : (s.lastTask : Int) < t.id ∧ t.id ≤ s'.lastTask
  key : (t.key scope).place = (Position.initial t.id .zero).place

/-- The task is in its project still, and has its key if it is in its bucket. -/
structure KeepsKey (scope : Scope) (t t' : Task) : Prop where
  id : t'.id = t.id
  project : t'.projectId = t.projectId
  key : t'.home scope = t.home scope → (t'.key scope).place = (t.key scope).place

/-- Tasks that are where they were have the keys that they had, and new ones have keys made of their
ids. -/
structure KeepsKeys (scope : Scope) (s s' : Store) : Prop where
  lastTask : s.lastTask ≤ s'.lastTask
  rows : ∀ t' ∈ s'.tasks, s.HasIdKey s' scope t' ∨ ∃ t ∈ s.tasks, KeepsKey scope t t'

/-- Tasks that are not displaced are where they were and have the keys that they had, or others up
to the key by the last id, in their old order; new tasks have keys made of their ids. -/
structure KeepsOrder (scope : Scope) (s s' : Store) (displaced : Int → Prop) : Prop where
  lastTask : s.lastTask ≤ s'.lastTask
  rows : ∀ t' ∈ s'.tasks, ¬ displaced t'.id → s.HasIdKey s' scope t' ∨
    ∃ t ∈ s.tasks, t'.id = t.id ∧ t'.home scope = t.home scope ∧
    ((t'.key scope).place = (t.key scope).place ∨
      (t'.key scope).place ≤ (Position.initial s.lastTask .zero).place)
  order : ∀ t ∈ s.tasks, ∀ u ∈ s.tasks, ∀ t' ∈ s'.tasks, ∀ u' ∈ s'.tasks, t'.id = t.id →
    u'.id = u.id →
    ¬ displaced t.id → ¬ displaced u.id → t.home scope = u.home scope →
    t.spot scope < u.spot scope →
    (t'.key scope).place ≤ (u'.key scope).place

variable {s s' : Store} {scope : Scope}

theorem KeepsKey.refl (scope : Scope) (t : Task) : KeepsKey scope t t :=
  ⟨rfl, rfl, fun _ => rfl⟩

/-- The list is the scope of a project, which a task does not leave. -/
theorem KeepsKey.home {t t' : Task} (h : KeepsKey scope t t')
    (hstays : scope = .kanban → t'.bucketId = t.bucketId) :
    t'.home scope = t.home scope := by
  cases scope with
  | kanban => exact hstays rfl
  | list => exact h.project

theorem KeepsKeys.keepsOrder (h : KeepsKeys scope s s') (hs : s.Regular) :
    KeepsOrder scope s s' (fun id => scope = .kanban ∧ s.Rehouses s' id) := by
  -- What became of a task with an id that was there before.
  have hkept : ∀ t ∈ s.tasks, ∀ t' ∈ s'.tasks, t'.id = t.id →
      ¬ (scope = .kanban ∧ s.Rehouses s' t.id) →
      (t'.key scope).place = (t.key scope).place := by
    intro t ht t' ht' hid hstays
    rcases h.rows t' ht' with hnew | ⟨u, hu, hkeeps⟩
    · have := hs.tasks.le t.id (List.mem_map_of_mem ht)
      have := hnew.id
      omega
    · obtain rfl := eq_of_key_eq hs.tasks.nodup hu ht (hkeeps.id.symm.trans hid)
      refine hkeeps.key (hkeeps.home fun hscope => ?_)
      by_contra hne
      exact hstays ⟨hscope, u, hu, rfl, t', ht', hid, hne⟩
  refine ⟨h.lastTask, fun t' ht' hstays => ?_, ?_⟩
  · refine (h.rows t' ht').imp_right fun ⟨t, ht, hkeeps⟩ => ⟨t, ht, hkeeps.id,
      hkeeps.home fun hscope => ?_, .inl ?_⟩
    · by_contra hne
      exact hstays ⟨hscope, t, ht, hkeeps.id.symm, t', ht', rfl, hne⟩
    · exact hkept t ht t' ht' hkeeps.id (hkeeps.id ▸ hstays)
  · intro t ht u hu t' ht' u' hu' hid hid' hstays hstays' _ hlt
    rw [hkept t ht t' ht' hid hstays, hkept u hu u' hu' hid' hstays']
    exact Task.place_le_of_spot_lt hlt

theorem KeepsOrder.mono {displaced displaced' : Int → Prop} (h : KeepsOrder scope s s' displaced)
    (himp : ∀ id, displaced id → displaced' id) : KeepsOrder scope s s' displaced' where
  lastTask := h.lastTask
  rows t' ht' hstays := h.rows t' ht' fun hd => hstays (himp _ hd)
  order t ht u hu t' ht' u' hu' hid hid' hstays hstays' :=
    h.order t ht u hu t' ht' u' hu' hid hid' (fun hd => hstays (himp _ hd)) fun hd =>
      hstays' (himp _ hd)

/-! ### Rows that are kept, added or removed -/

namespace KeepsKeys

theorem of_subset (hrows : ∀ t ∈ s'.tasks, t ∈ s.tasks) (hlast : s.lastTask ≤ s'.lastTask) :
    KeepsKeys scope s s' :=
  ⟨hlast, fun t' ht' => .inr ⟨t', hrows t' ht', .refl scope t'⟩⟩

theorem of_tasks (htasks : s'.tasks = s.tasks ∧ s'.lastTask = s.lastTask) : KeepsKeys scope s s' :=
  of_subset (fun _ ht => htasks.1 ▸ ht) htasks.2.ge

theorem of_append {new : List Task} (htasks : s'.tasks = s.tasks ++ new)
    (hlast : s.lastTask ≤ s'.lastTask) (hnew : ∀ t ∈ new, s.HasIdKey s' scope t) :
    KeepsKeys scope s s' := by
  refine ⟨hlast, fun t' ht' => ?_⟩
  rw [htasks] at ht'
  rcases List.mem_append.1 ht' with ht' | ht'
  · exact .inr ⟨t', ht', .refl scope t'⟩
  · exact .inl (hnew t' ht')

end KeepsKeys

theorem tasks_insertBucket (hs : s.Regular) {projectId : Int} {new : NewBucket} {owner : User}
    {b : Bucket} (h : s.insertBucket projectId new owner = .ok (b, s')) :
    s'.tasks = s.tasks ∧ s'.lastTask = s.lastTask := by
  obtain ⟨x, -, -, hadd⟩ := insertBucket_eq_ok hs h
  obtain rfl : (s.addBucket x).2 = s' := congrArg Prod.snd hadd
  exact ⟨rfl, rfl⟩

theorem tasks_createProject (hs : s.Regular) {actor : Int} {new : NewProject} {p : Project}
    (h : s.createProject actor new = .ok (p, s')) :
    s'.tasks = s.tasks ∧ s'.lastTask = s.lastTask := by
  obtain ⟨owner, title, b, -, hb⟩ := createProject_eq_ok h
  exact (tasks_insertBucket (hs.addProject title new.description owner.id) hb :)

theorem tasks_updateProject {actor id : Int} {patch : ProjectUpdate} {p : Project}
    (h : s.updateProject actor id patch = .ok (p, s')) :
    s'.tasks = s.tasks ∧ s'.lastTask = s.lastTask := by
  simp only [updateProject, bind_eq_ok, Except.ok.injEq, Prod.mk.injEq] at h
  obtain ⟨old, -, title, -, defaultBucketId, -, doneBucketId, -, -, rfl⟩ := h
  exact ⟨rfl, rfl⟩

theorem tasks_shareProject {actor id : Int} {x : NewShare}
    (h : s.shareProject actor id x = .ok s') :
    s'.tasks = s.tasks ∧ s'.lastTask = s.lastTask := by
  simp only [shareProject, bind_eq_ok] at h
  obtain ⟨right, -, p, -, h⟩ := h
  split at h
  · simp only [bind_eq_ok, Except.ok.injEq] at h
    obtain ⟨u, -, rfl⟩ := h
    unfold putShare
    split <;> exact ⟨rfl, rfl⟩
  · cases h

theorem tasks_updateBucket {actor projectId id : Int} {patch : BucketUpdate} {d : BucketDetail}
    (h : s.updateBucket actor projectId id patch = .ok (d, s')) :
    s'.tasks = s.tasks ∧ s'.lastTask = s.lastTask := by
  simp only [updateBucket, bind_eq_ok, Except.ok.injEq, Prod.mk.injEq] at h
  obtain ⟨p, -, old, -, b, -, -, rfl⟩ := h
  exact ⟨rfl, rfl⟩

theorem createTask_keepsKeys {actor projectId : Int} {new : NewTask} {d : TaskDetail}
    (h : s.createTask actor projectId new = .ok (d, s')) : KeepsKeys scope s s' := by
  simp only [createTask, bind_eq_ok, Prod.exists, Except.ok.injEq, Prod.mk.injEq] at h
  obtain ⟨p, -, creator, -, bucketId, -, b, -, _, -, t, placed, ht, -, rfl⟩ := h
  obtain ⟨x, -, -, hkey, hadd⟩ := insertTask_eq_ok ht
  obtain rfl : (s.addTask x).2 = placed := congrArg Prod.snd hadd
  have htasks : (s.addTask x).2.tasks = s.tasks ++ [(s.addTask x).1] := rfl
  refine .of_append htasks (Nat.le_succ _) fun t ht => ?_
  obtain rfl := List.mem_singleton.1 ht
  refine ⟨⟨Int.lt_succ _, le_rfl⟩, ?_⟩
  show (x.stored.key scope).place = (Position.initial (s.lastTask + 1) .zero).place
  rw [Task.key_stored, Double.place_unsignZero, hkey]

theorem importProjects_keepsKeys (hs : s.Fit) {owner : User} {index : LabelIndex}
    {is : List ProjectImport} {ps : List Project}
    (h : s.importProjects index owner is = .ok (ps, s')) : KeepsKeys scope s s' := by
  obtain ⟨index', hgrown, -, -⟩ := importProjects_rows hs h
  obtain ⟨new, htasks, hnew⟩ := hgrown.tasks
  exact .of_append htasks.rows_eq htasks.le fun t ht => ⟨htasks.fresh t ht, (hnew t ht).2.2 scope⟩

theorem deleteTask_keepsKeys {actor id : Int} (h : s.deleteTask actor id = .ok s') :
    KeepsKeys scope s s' := by
  simp only [deleteTask, bind_eq_ok, Except.ok.injEq] at h
  obtain ⟨t, -, p, -, rfl⟩ := h
  exact .of_subset (fun _ ht => List.mem_of_mem_filter ht) le_rfl

/-! ### Rows that are changed -/

/-- A task of a deleted bucket keeps its key in the list, and is in another bucket. -/
theorem deleteBucket_keepsKeys (hs : s.Regular) (hi : s.Integral) {actor projectId id : Int}
    (h : s.deleteBucket actor projectId id = .ok s') : KeepsKeys scope s s' := by
  have hlast := (deleteBucket_keepsFinite h).lastTask
  obtain ⟨p, b, f, hp, hb, -, hf, rfl⟩ := exists_of_deleteBucket hs hi h
  refine ⟨hlast, fun t' ht' => .inr ?_⟩
  obtain ⟨t, ht, hrow⟩ := exists_of_forall₂ (deletion_of_fallback hs hp hb hf).tasks.flip ht'
  refine ⟨t, ht, ?_⟩
  by_cases hsource : t.bucketId = b.id
  · have hfields := hrow.fields hsource
    refine ⟨by rw [hfields], by rw [hfields], fun hhome => ?_⟩
    cases scope with
    | kanban =>
      exact absurd ((hrow.bucket hsource).symm.trans (hhome.trans hsource)) hf.exists_other.2
    | list =>
      rw [hfields]
      rfl
  · rw [hrow.others hsource]
    exact .refl scope t

theorem KeepsKey.stored {t t' : Task} (h : KeepsKey scope t t') : KeepsKey scope t t'.stored := by
  refine ⟨h.id, h.project, fun hhome => ?_⟩
  rw [Task.key_stored, Double.place_unsignZero]
  refine h.key ?_
  cases scope <;> exact hhome

/-- A row is put in the place of its old self, after others changed that keep their keys in the
scope. -/
theorem KeepsKeys.of_setTask {placed : Store} {f : Task → Task}
    (htasks : placed.tasks = s.tasks.map f) (hlast : placed.lastTask = s.lastTask)
    (hf : ∀ u ∈ s.tasks, KeepsKey scope u (f u)) {t r : Task} (ht : t ∈ s.tasks)
    (hr : KeepsKey scope t r) : KeepsKeys scope s (placed.tick.setTask r) := by
  refine ⟨hlast.ge, fun t' ht' => .inr ?_⟩
  rcases mem_replace.1 ht' with ⟨ht', -⟩ | ⟨rfl, -⟩
  · have hmem : t' ∈ s.tasks.map f := htasks ▸ ht'
    obtain ⟨u, hu, rfl⟩ := List.mem_map.1 hmem
    exact ⟨u, hu, hf u hu⟩
  · exact ⟨t, ht, hr.stored⟩

theorem updateTask_keepsKeys (hs : s.Regular) {actor id : Int} {patch : TaskUpdate} {d : TaskDetail}
    (h : s.updateTask actor id patch = .ok (d, s')) : KeepsKeys scope s s' := by
  obtain ⟨t, p, u, hget, -, hu, -, rfl⟩ := updateTask_eq_ok.1 h
  have ht := (getTask_mem hget).1
  obtain ⟨hid, hproject, -⟩ := withPatch_eq_ok hs ht hu
  obtain ⟨hlist, hkanban⟩ := keys_withPatch hu
  refine .of_setTask (List.map_id _).symm rfl (fun u _ => .refl scope u) ht ⟨hid, hproject,
    fun hhome => ?_⟩
  cases scope with
  | kanban =>
    obtain ⟨-, hkey⟩ | ⟨hne, -⟩ := hkanban
    · exact congrArg Double.place hkey
    · exact absurd hhome hne
  | list => exact congrArg Double.place hlist

/-- A move in one scope keeps the keys in the other one. -/
theorem moveTask_keepsKeys (hs : s.Regular) {actor id : Int} {m : TaskMove} {d : TaskDetail}
    (hne : scope ≠ m.scope) (h : s.moveTask actor id m = .ok (d, s')) : KeepsKeys scope s s' := by
  obtain ⟨t, p, key, placed, hget, -, -, hplace, -, rfl⟩ := moveTask_eq_ok.1 h
  obtain ⟨f, htasks, hf⟩ := exists_map_of_place hs hplace
  have hlast : placed.lastTask = s.lastTask := by rw [eq_of_place hs.tasks.nodup hplace]
  refine .of_setTask htasks hlast (fun u hu => ?_) (getTask_mem hget).1
    ⟨id_moved .., projectId_moved .., fun hhome => ?_⟩
  · obtain ⟨hid, hproject, -⟩ := Task.state_eq_iff.1 (hf u hu).1
    exact ⟨hid, hproject, fun _ =>
      congrArg Double.place ((hf u hu).2 scope (by rwa [scope_forMove]))⟩
  · cases hscope : m.scope with
    | kanban =>
      obtain rfl : scope = .list := by
        cases scope with
        | kanban => exact absurd hscope.symm hne
        | list => rfl
      exact congrArg Double.place (position_moved placed p t key hscope)
    | list =>
      obtain rfl : scope = .kanban := by
        cases scope with
        | kanban => rfl
        | list => exact absurd hscope.symm hne
      have hstays : m.target t = t.bucketId := (bucketId_moved placed p t m key).symm.trans hhome
      show (placed.moved p t m key).kanbanPosition.place = t.kanbanPosition.place
      rw [kanbanPosition_moved placed p t key hscope, if_pos hstays]

/-! ### Spreading out keys -/

/-- A spread key is the key that the task would have if its rank, counted from 1, were its id. -/
theorem place_key_rekeyed (hids : (s.tasks.map (·.id)).Nodup) {p : Place} {moving : Int} {i : Nat}
    {t : Task} (ht : (s.rankedIn p moving)[i]? = some t) :
    ((t.rekeyed p.scope (s.spreadKeys p moving)).key p.scope).place =
      (Position.initial (i + 1 : Nat) .zero).place := by
  have hi : i < (s.rankedIn p moving).length := (List.getElem?_eq_some_iff.1 ht).1
  have hkey : (Position.rebalanced (s.rankedIn p moving).length)[i]? =
      some (Position.initial (i + 1 : Nat) .zero) := by
    rw [Position.rebalanced, List.getElem?_map, List.getElem?_range hi, Position.initial,
      if_pos Double.isZero_zero]
    rfl
  simp only [Task.rekeyed, lookup_spreadKeys hids ht, hkey, Task.key_stored,
    Double.place_unsignZero, Task.key_withKey]

/-- Since there are no more ranks than ids, a spread key does not exceed the key made of the last
id. -/
theorem place_key_rekeyed_le (hs : s.Regular) (p : Place) (moving : Int) {t : Task}
    (ht : t ∈ s.tasks) :
    ((t.rekeyed p.scope (s.spreadKeys p moving)).key p.scope).place = (t.key p.scope).place ∨
      ((t.rekeyed p.scope (s.spreadKeys p moving)).key p.scope).place ≤
        (Position.initial s.lastTask .zero).place := by
  by_cases hothers : t ∈ s.othersIn p moving
  · obtain ⟨i, hi⟩ := List.mem_iff_getElem?.1 (mem_rankedIn.2 hothers)
    have hrank : i < (s.rankedIn p moving).length := (List.getElem?_eq_some_iff.1 hi).1
    have hcount : (s.rankedIn p moving).length ≤ s.lastTask := by
      have hlen := hs.tasks.length_le
      rw [List.length_map] at hlen
      rw [(s.rankedIn_perm p moving).length_eq]
      exact (List.length_filter_le _ _).trans hlen
    rw [place_key_rekeyed hs.tasks.nodup hi]
    exact .inr (Position.place_initial_mono (by omega) (by omega))
  · rw [rekeyed_of_not_mem hothers hs.tasks.nodup ht]
    exact .inl rfl

/-- Spread keys grow with the ranks. -/
theorem place_key_rekeyed_mono (hs : s.Regular) {p : Place} {moving : Int} {t u : Task}
    (ht : t ∈ s.tasks) (hu : u ∈ s.tasks) (hne : t.id ≠ moving) (hne' : u.id ≠ moving)
    (hhome : t.home p.scope = u.home p.scope) (hlt : t.spot p.scope < u.spot p.scope) :
    ((t.rekeyed p.scope (s.spreadKeys p moving)).key p.scope).place ≤
      ((u.rekeyed p.scope (s.spreadKeys p moving)).key p.scope).place := by
  have hids := hs.tasks.nodup
  have hothers : ∀ x ∈ s.tasks, x.id ≠ moving →
      (x ∈ s.othersIn p moving ↔ x.home p.scope = p.id) := fun x hx hxne => by
    rw [mem_othersIn, Place.contains_iff]
    exact ⟨fun h => h.2.1, fun h => ⟨hx, h, hxne⟩⟩
  by_cases hin : u.home p.scope = p.id
  · obtain ⟨i, hi⟩ :=
      List.mem_iff_getElem?.1 (mem_rankedIn.2 ((hothers t ht hne).2 (hhome.trans hin)))
    obtain ⟨j, hj⟩ := List.mem_iff_getElem?.1 (mem_rankedIn.2 ((hothers u hu hne').2 hin))
    have hranks := (rank_lt_iff hids (fun x hx => (hs.taskRows x hx).2 _) hi hj).2 hlt
    rw [place_key_rekeyed hids hi, place_key_rekeyed hids hj]
    exact Position.place_initial_mono (by omega) (by omega)
  · rw [rekeyed_of_not_mem (fun h => hin (hhome.symm.trans ((hothers t ht hne).1 h))) hids ht,
      rekeyed_of_not_mem (fun h => hin ((hothers u hu hne').1 h)) hids hu]
    exact Task.place_le_of_spot_lt hlt

theorem rebalance_keepsOrder (hs : s.Regular) (p : Place) (moving : Int) :
    KeepsOrder p.scope s (s.rebalance p moving) (· = moving) := by
  have hids := hs.tasks.nodup
  rw [rebalance_eq hids]
  refine ⟨le_rfl, fun t' ht' _ => .inr ?_,
    fun t ht u hu t' ht' u' hu' hid hid' hstays hstays' hhome hlt => ?_⟩
  · obtain ⟨t, ht, rfl⟩ := List.mem_map.1 ht'
    exact ⟨t, ht, Task.id_rekeyed, Task.home_congr Task.state_rekeyed _,
      place_key_rekeyed_le hs p moving ht⟩
  · obtain ⟨v, hv, rfl⟩ := List.mem_map.1 ht'
    obtain ⟨w, hw, rfl⟩ := List.mem_map.1 hu'
    obtain rfl := eq_of_key_eq hids hv ht (Task.id_rekeyed.symm.trans hid)
    obtain rfl := eq_of_key_eq hids hw hu (Task.id_rekeyed.symm.trans hid')
    exact place_key_rekeyed_mono hs hv hw hstays hstays' hhome hlt

theorem KeepsOrder.refl (hs : s.Regular) (scope : Scope) (displaced : Int → Prop) :
    KeepsOrder scope s s displaced := by
  have hids := hs.tasks.nodup
  refine ⟨le_rfl, fun t ht _ => .inr ⟨t, ht, rfl, rfl, .inl rfl⟩,
    fun t ht u hu t' ht' u' hu' hid hid' _ _ _ hlt => ?_⟩
  rw [eq_of_key_eq hids ht' ht hid, eq_of_key_eq hids hu' hu hid']
  exact Task.place_le_of_spot_lt hlt

/-- The row of a displaced task may change. -/
theorem KeepsOrder.setTask {displaced : Int → Prop} (h : KeepsOrder scope s s' displaced) {r : Task}
    (hr : displaced r.id) : KeepsOrder scope s (s'.tick.setTask r) displaced := by
  have hmem : ∀ t' ∈ (s'.tick.setTask r).tasks, ¬ displaced t'.id → t' ∈ s'.tasks := by
    intro t' ht' hstays
    rcases mem_replace.1 ht' with ⟨ht', -⟩ | ⟨rfl, -⟩
    · exact ht'
    · exact absurd hr hstays
  refine ⟨h.lastTask, fun t' ht' hstays => ?_,
    fun t ht u hu t' ht' u' hu' hid hid' hstays hstays' => ?_⟩
  · exact (h.rows t' (hmem t' ht' hstays) hstays).imp_left fun hnew => ⟨hnew.id, hnew.key⟩
  · exact h.order t ht u hu t' (hmem t' ht' (hid ▸ hstays)) u'
      (hmem u' hu' (hid' ▸ hstays')) hid hid' hstays hstays'

theorem moveTask_keepsOrder (hs : s.Regular) {actor id : Int} {m : TaskMove} {d : TaskDetail}
    (h : s.moveTask actor id m = .ok (d, s')) : KeepsOrder m.scope s s' (· = id) := by
  obtain ⟨t, p, key, placed, hget, -, -, hplace, -, rfl⟩ := moveTask_eq_ok.1 h
  obtain ⟨-, rfl⟩ := getTask_mem hget
  have hplaced : KeepsOrder m.scope s placed (· = t.id) := by
    obtain rfl | rfl := store_of_place hplace
    · exact .refl hs m.scope _
    · have hspread := rebalance_keepsOrder hs (.forMove p (m.target t) m.scope) t.id
      rwa [scope_forMove] at hspread
  exact hplaced.setTask (id_moved placed p t m key)

end Store

/-! ### Operations -/

/-- Whatever an operation does, tasks that it does not displace keep their order. -/
theorem Operation.run_keepsOrder {setup : Setup} {s s' : Store} {op : Operation} {a : Answer}
    (hs : s.Reachable) (scope : Scope) (h : op.run setup s = .ok (a, s')) :
    s.KeepsOrder scope s' (op.Displaces setup s scope ·) := by
  have hregular := hs.regular
  have hafter : op.after setup s = s' := by rw [after, h]
  have hkept : s.KeepsKeys scope s' → s.KeepsOrder scope s' (op.Displaces setup s scope ·) :=
    fun hkeys => (hkeys.keepsOrder hregular).mono fun id hid => .inr (hafter.symm ▸ hid)
  cases run_effect h with
  | createUser hop =>
    obtain ⟨username, name, rfl⟩ := Store.createUser_eq_ok hop
    exact hkept (.of_tasks ⟨rfl, rfl⟩)
  | createProject hop => exact hkept (.of_tasks (Store.tasks_createProject hregular hop))
  | updateProject hop => exact hkept (.of_tasks (Store.tasks_updateProject hop))
  | shareProject hop => exact hkept (.of_tasks (Store.tasks_shareProject hop))
  | createBucket hop =>
    obtain ⟨p, creator, -, -, hinsert⟩ := Store.createBucket_eq_ok hop
    exact hkept (.of_tasks (Store.tasks_insertBucket hregular hinsert))
  | updateBucket hop => exact hkept (.of_tasks (Store.tasks_updateBucket hop))
  | deleteBucket hop => exact hkept (Store.deleteBucket_keepsKeys hregular hs.integral hop)
  | createTask hop => exact hkept (Store.createTask_keepsKeys hop)
  | updateTask hop => exact hkept (Store.updateTask_keepsKeys hregular hop)
  | deleteTask hop => exact hkept (Store.deleteTask_keepsKeys hop)
  | @moveTask actor task m d hop =>
    by_cases hscope : scope = m.scope
    · subst hscope
      refine (Store.moveTask_keepsOrder hregular hop).mono fun id hid => .inl ⟨?_, ?_⟩
      · rw [hid]
        rfl
      · rw [h]
        rfl
    · exact hkept (Store.moveTask_keepsKeys hregular hscope hop)
  | importProjects hop => exact hkept (Store.importProjects_keepsKeys hs.fit hop)
  | read hop =>
    subst hop
    exact .refl hregular scope _

theorem Operation.after_keepsOrder (setup : Setup) {s : Store} (hs : s.Reachable) (scope : Scope)
    (op : Operation) :
    s.KeepsOrder scope (op.after setup s) (op.Displaces setup s scope ·) := by
  cases h : op.run setup s with
  | ok r =>
    have hafter : op.after setup s = r.2 := by rw [after, h]
    rw [hafter]
    exact op.run_keepsOrder hs scope h
  | error e =>
    have hafter : op.after setup s = s := by rw [after, h]
    rw [hafter]
    exact .refl hs.regular scope _

end Kanban
