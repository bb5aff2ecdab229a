import Kanban.Proofs.Tasks.Steps

/-!
# Limits of buckets

A task that is created, changed or moved ends up in one bucket, which is known beforehand
(`Operation.destination?`).  If this is another one than its own, there must be room in it, and if
it is its own, no limit is looked at, however full the bucket may be.  So a limited bucket may hold
too many tasks, but none of these operations brings it there (`Store.limit_exact`).
-/

namespace Kanban

/-- The failure of a task that finds no room. -/
inductive Failure.IsFull : Failure → Prop where
  | intro (bucketId limit : Int) : IsFull (.bucketFull bucketId limit)

/-- The bucket of a task, if it is in one, and the bucket where it is to be. -/
structure Destination where
  current : Option Int
  target : Int
  deriving DecidableEq

namespace Operation

/-- The operation creates, changes or moves a task. -/
def PlacesTask : Operation → Prop
  | createTask .. | updateTask .. | moveTask .. => True
  | _ => False

/-- Where the operation would put its task. -/
def destination? (s : Store) : Operation → Option Destination
  | createTask _ project new => do
    let p ← s.project? project
    let target ← (s.bucketForNew p new.bucketId).toOption
    some ⟨none, target⟩
  | updateTask _ task patch => do
    let t ← s.task? task
    let p ← s.project? t.projectId
    let target ← (renewed patch.done t.bucketId (s.bucketForDone p t)).toOption
    some ⟨some t.bucketId, target⟩
  | moveTask _ task move => do
    let t ← s.task? task
    some ⟨some t.bucketId, move.target t⟩
  | _ => none

end Operation

namespace Store

variable {s s' : Store} {t : Task}

/-- The bucket has a limit and no room for one more task. -/
def IsFull (s : Store) (bucketId : Int) : Prop :=
  ∃ b ∈ s.buckets, b.id = bucketId ∧ 0 < b.limit ∧ b.limit ≤ (s.tasksIn .kanban bucketId).length

instance (bucketId : Int) : Decidable (s.IsFull bucketId) :=
  inferInstanceAs (Decidable (∃ b ∈ s.buckets, b.id = bucketId ∧ 0 < b.limit ∧
    b.limit ≤ (s.tasksIn .kanban bucketId).length))

/-! ### Destinations -/

section

variable {p : Project} {needed : Right} {actor id : Int} {d : Destination}

theorem task?_of_getTask (h : s.getTask id = .ok t) : s.task? id = some t := by
  unfold getTask at h
  split at h
  · rename_i u hu
    rw [hu, Except.ok.inj h]
  · cases h

theorem project?_of_projectFor (h : s.projectFor needed actor id = .ok p) :
    s.project? id = some p := by
  have hget := (projectFor_eq_ok.1 h).1
  unfold getProject at hget
  split at hget
  · rename_i q hq
    rw [hq, Except.ok.inj hget]
  · cases hget

theorem destination?_createTask {new : NewTask} (hp : s.projectFor needed actor id = .ok p) :
    (Operation.createTask actor id new).destination? s = some d ↔
      ∃ target, s.bucketForNew p new.bucketId = .ok target ∧ ⟨none, target⟩ = d := by
  simp only [Operation.destination?, project?_of_projectFor hp, Option.bind_eq_bind,
    Option.bind_some, Option.bind_eq_some_iff, toOption_eq_some, Option.some.injEq]

theorem destination?_updateTask {patch : TaskUpdate} (ht : s.getTask id = .ok t)
    (hp : s.projectFor needed actor t.projectId = .ok p) :
    (Operation.updateTask actor id patch).destination? s = some d ↔
      ∃ target, renewed patch.done t.bucketId (s.bucketForDone p t) = .ok target ∧
      ⟨some t.bucketId, target⟩ = d := by
  simp only [Operation.destination?, task?_of_getTask ht, project?_of_projectFor hp,
    Option.bind_eq_bind, Option.bind_some, Option.bind_eq_some_iff, toOption_eq_some,
    Option.some.injEq]

theorem destination?_moveTask {m : TaskMove} (ht : s.getTask id = .ok t) :
    (Operation.moveTask actor id m).destination? s = some ⟨some t.bucketId, m.target t⟩ := by
  simp only [Operation.destination?, task?_of_getTask ht, Option.bind_eq_bind, Option.bind_some]

end

/-! ### Failures -/

section

variable {place : Place} {moving : Int} {before after : Option Int}

theorem avoids_getTask (id : Int) : Avoids Failure.IsFull (s.getTask id) := by
  unfold getTask
  split
  · exact .ok _
  · exact .error nofun

theorem avoids_projectFor (needed : Right) (actor id : Int) :
    Avoids Failure.IsFull (s.projectFor needed actor id) := by
  refine Avoids.bind ?_ fun p _ => ?_
  · unfold getProject
    split
    · exact .ok _
    · exact .error nofun
  · split
    · exact .ok _
    · exact .error nofun

theorem avoids_patched (t : Task) (patch : TaskUpdate) :
    Avoids Failure.IsFull (t.patched patch) := by
  have htitle : ∀ x, Avoids Failure.IsFull (Task.validTitle x) := by
    intro x
    simp only [Task.validTitle]
    split
    · exact .error nofun
    · exact .ok _
  have hpercent : ∀ x, Avoids Failure.IsFull (Task.validPercent x) := by
    intro x
    unfold Task.validPercent
    split
    · exact .ok _
    · exact .error nofun
  refine Avoids.bind (Avoids.renewed fun x _ => htitle x) fun title _ => ?_
  exact Avoids.bind (Avoids.renewed fun x _ => hpercent x) fun percentDone _ => .ok _

theorem avoids_optionalKey (neighbor : Option Int) :
    Avoids Failure.IsFull (s.optionalKey place moving neighbor) := by
  cases neighbor with
  | none => exact .ok _
  | some id =>
    refine Avoids.map ?_
    unfold neighborKey
    split
    · exact .error nofun
    · split
      · exact .ok _
      · exact .error nofun

theorem avoids_neighborKeys : Avoids Failure.IsFull (s.neighborKeys place moving before after) := by
  unfold neighborKeys
  split
  · exact .ok _
  · exact Avoids.bind (avoids_optionalKey before) fun _ _ =>
      Avoids.bind (avoids_optionalKey after) fun _ _ => .ok _

theorem avoids_keyBetween? (b a : Option Double) : Avoids Failure.IsFull (keyBetween? b a) := by
  have hchecked : ∀ outOfOrder found, Avoids Failure.IsFull
      (if outOfOrder = true then .error (.invalid .neighborsOutOfOrder)
        else .ok found : Except Failure (Option Double)) := by
    intro outOfOrder found
    split
    · exact .error nofun
    · exact .ok _
  exact hchecked _ _

theorem avoids_place : Avoids Failure.IsFull (s.place place moving before after) := by
  refine Avoids.bind avoids_neighborKeys fun keys _ => ?_
  refine Avoids.bind (avoids_keyBetween? keys.1 keys.2) fun found _ => ?_
  cases found with
  | some key => exact .ok _
  | none =>
    refine Avoids.bind avoids_neighborKeys fun keys' _ => ?_
    refine Avoids.bind (avoids_keyBetween? keys'.1 keys'.2) fun found' _ => ?_
    cases found' with
    | some key => exact .ok _
    | none => exact .error nofun

end

/-- An operation that leaves the task where it is does not fail for want of room. -/
theorem avoids_run_of_stays {op : Operation} {d : Destination} {setup : Setup}
    (hd : op.destination? s = some d) (hstays : d.current = some d.target) :
    Avoids Failure.IsFull (op.run setup s) := by
  cases op with
  | createTask actor id new =>
    simp only [Operation.destination?, Option.bind_eq_bind, Option.bind_eq_some_iff,
      Option.some.injEq] at hd
    obtain ⟨p, -, target, -, rfl⟩ := hd
    cases hstays
  | updateTask actor id patch =>
    refine Avoids.bind ?_ fun _ _ => .ok _
    refine Avoids.bind (avoids_getTask id) fun t ht => ?_
    refine Avoids.bind (avoids_projectFor .write actor t.projectId) fun p hp => ?_
    refine Avoids.bind ?_ fun _ _ => .ok _
    refine Avoids.bind (avoids_patched t patch) fun v hv => Avoids.renewed fun done hdone => ?_
    obtain ⟨target, htarget, rfl⟩ := (destination?_updateTask ht hp).1 hd
    obtain rfl := Option.some.inj hstays
    have hbucket := (taskPatched_eq_ok hv).2.2.1
    have hown : s.bucketForDone p v done = .ok t.bucketId := by
      rw [bucketForDone_congr s p hbucket]
      rw [hdone] at htarget
      exact htarget
    unfold withDone
    rw [hown]
    refine Avoids.bind (.ok _) fun target htarget => ?_
    obtain rfl := Except.ok.inj htarget
    rw [if_pos hbucket.symm]
    exact .ok _
  | moveTask actor id m =>
    refine Avoids.bind ?_ fun _ _ => .ok _
    refine Avoids.bind (avoids_getTask id) fun t ht => ?_
    refine Avoids.bind (avoids_projectFor .write actor t.projectId) fun p _ => ?_
    rw [destination?_moveTask ht] at hd
    obtain rfl := Option.some.inj hd
    have hentry : s.checkEntry p t (m.target t) = .ok () := if_pos (Option.some.inj hstays).symm
    rw [hentry]
    exact Avoids.bind (.ok _) fun _ _ => Avoids.bind avoids_place fun _ _ => .ok _
  | _ => cases hd

/-! ### Successes -/

/-- The task of an operation came to its destination, and no other task to any bucket. -/
structure Reached (s s' : Store) (d : Destination) (id : Int) : Prop where
  buckets : s'.buckets = s.buckets
  room : d.current ≠ some d.target → ¬ s.IsFull d.target
  row : ∃ t ∈ s'.tasks, t.id = id ∧ t.bucketId = d.target
  count : ∀ bucketId, (s'.tasksIn .kanban bucketId).length ≤
    (s.tasksIn .kanban bucketId).length + if d.current ≠ some d.target ∧
    bucketId = d.target then 1 else 0

theorem not_isFull_of_room (hs : s.Regular) {projectId target : Int} {b : Bucket}
    (hb : s.getBucket projectId target = .ok b)
    (hroom : b.limit ≤ 0 ∨ (s.tasksIn .kanban b.id).length < b.limit) : ¬ s.IsFull target := by
  rintro ⟨c, hc, hid, hpos, hfull⟩
  obtain ⟨hb, hbid, -⟩ := getBucket_eq_ok hb
  obtain rfl := eq_of_key_eq hs.buckets.nodup hc hb (hid.trans hbid.symm)
  rw [hid] at hroom
  omega

theorem not_isFull_of_mayEnter (hs : s.Regular) {p : Project} {target : Int}
    (h : s.MayEnter p t target) (hne : target ≠ t.bucketId) : ¬ s.IsFull target := by
  rcases h with heq | ⟨b, hb, hroom⟩
  · exact absurd heq hne
  · exact not_isFull_of_room hs hb hroom

/-- A bucket holds the tasks other than one, and this one if it is there. -/
theorem length_tasksIn (hids : (s.tasks.map (·.id)).Nodup) (ht : t ∈ s.tasks) (bucketId : Int) :
    (s.tasksIn .kanban bucketId).length =
      (s.othersIn ⟨.kanban, bucketId⟩ t.id).length + if t.bucketId = bucketId then 1 else 0 := by
  by_cases hin : t.bucketId = bucketId
  · have hperm : (s.tasksIn .kanban bucketId).Perm (t :: s.othersIn ⟨.kanban, bucketId⟩ t.id) :=
      filter_perm_cons hids ht (by simpa using hin)
    rw [if_pos hin]
    exact hperm.length_eq
  · rw [if_neg hin]
    refine congrArg List.length (List.filter_congr fun u hu => ?_)
    show (u.bucketId == bucketId) = (u.bucketId == bucketId && u.id != t.id)
    by_cases hu' : u.bucketId = bucketId
    · have hne : u.id ≠ t.id := fun heq => hin (eq_of_key_eq hids hu ht heq ▸ hu')
      simp [hu', hne]
    · simp [hu']

theorem createTask_reached (hs : s.Regular) {actor projectId : Int} {new : NewTask} {x : TaskDetail}
    (h : s.createTask actor projectId new = .ok (x, s')) :
    ∃ d, (Operation.createTask actor projectId new).destination? s = some d ∧
    s.Reached s' d x.task.id := by
  simp only [createTask, bind_eq_ok, Prod.exists, Except.ok.injEq, Prod.mk.injEq] at h
  obtain ⟨p, hp, creator, -, target, htarget, b, hb, _, hroom, t, placed, ht, rfl, rfl⟩ := h
  have hnew := inserted_of_insertTask ht
  obtain ⟨hmem, hid, -⟩ := getBucket_eq_ok hb
  refine ⟨⟨none, target⟩, (destination?_createTask hp).2 ⟨target, htarget, rfl⟩, ?_⟩
  constructor
  · exact hnew.buckets
  · intro _
    refine not_isFull_of_room hs hb ?_
    unfold ensureCapacity at hroom
    split at hroom
    · cases hroom
    · omega
  · refine ⟨t, ?_, rfl, hnew.bucket.trans hid⟩
    rw [hnew.tasks]
    exact List.mem_append_right _ (List.mem_singleton_self t)
  · intro bucketId
    by_cases heq : bucketId = target
    · rw [if_pos ⟨by simp, heq⟩, tasksIn, tasksIn, hnew.tasks, List.filter_append,
        List.length_append]
      exact Nat.add_le_add_left (List.length_filter_le _ [t]) _
    · have hout : (t.bucketId == bucketId) = false := by
        rw [beq_eq_false_iff_ne, hnew.bucket, hid]
        exact fun h => heq h.symm
      rw [if_neg (fun h => heq h.2), tasksIn, tasksIn, hnew.tasks,
        filter_append_of_not (q := fun u : Task => u.bucketId == bucketId) hout]
      exact le_rfl

/-- A task that is put in the place of its old row comes to one bucket and stays out of the
others. -/
theorem reached_of_setTask (hs : s.Regular) {placed : Store} {u : Task}
    (hs' : (placed.tick.setTask u).Regular) (ht : t ∈ s.tasks) (hrow : t ∈ placed.tasks)
    (hbuckets : placed.buckets = s.buckets)
    (hothers : ∀ bucketId, (placed.othersIn ⟨.kanban, bucketId⟩ t.id).length =
      (s.othersIn ⟨.kanban, bucketId⟩ t.id).length)
    (hid : u.id = t.id) (hroom : u.bucketId ≠ t.bucketId → ¬ s.IsFull u.bucketId) :
    s.Reached (placed.tick.setTask u) ⟨some t.bucketId, u.bucketId⟩ u.id := by
  have hmem : u.stored ∈ (placed.tick.setTask u).tasks := stored_mem_setTask hrow hid
  constructor
  · exact hbuckets
  · intro hne
    exact hroom fun heq => hne (congrArg some heq.symm)
  · exact ⟨u.stored, hmem, rfl, rfl⟩
  · intro bucketId
    have hcount := length_tasksIn hs'.tasks.nodup hmem bucketId
    rw [Task.id_stored, othersIn_setTask, hid, hothers, Task.bucketId_stored] at hcount
    rw [hcount, length_tasksIn hs.tasks.nodup ht]
    simp only [ne_eq, Option.some.injEq]
    split <;> split <;> split <;> omega

theorem updateTask_reached (hs : s.Regular) (hs' : s'.Regular) {actor id : Int} {patch : TaskUpdate}
    {x : TaskDetail} (h : s.updateTask actor id patch = .ok (x, s')) :
    ∃ d, (Operation.updateTask actor id patch).destination? s = some d ∧
    s.Reached s' d x.task.id := by
  obtain ⟨t, p, u, hget, hp, hu, rfl, rfl⟩ := updateTask_eq_ok.1 h
  obtain ⟨ht, -⟩ := getTask_mem hget
  obtain ⟨target, htarget, hroom, hid, rfl⟩ : ∃ target,
      renewed patch.done t.bucketId (s.bucketForDone p t) = .ok target ∧
      (target ≠ t.bucketId → ¬ s.IsFull target) ∧
        u.id = t.id ∧ u.bucketId = target := by
    rcases state_withPatch hu with ⟨hnone, hstate⟩ | ⟨done, target, hdone, htarget, hentry, hcases⟩
    · obtain ⟨hid, -, hbucket, -⟩ := Task.state_eq_iff.1 hstate
      exact ⟨t.bucketId, by rw [hnone]; rfl, fun hne => absurd rfl hne, hid, hbucket⟩
    · refine ⟨target, by rw [hdone]; exact htarget, not_isFull_of_mayEnter hs hentry, ?_⟩
      rcases hcases with ⟨rfl, hstate⟩ | ⟨-, hstate⟩
      · obtain ⟨hid, -, hbucket, -⟩ := Task.of_state_markDone hstate
        exact ⟨hid, hbucket⟩
      · obtain ⟨hid, -, hbucket⟩ := Task.of_state_enterBucket hstate
        exact ⟨hid, hbucket⟩
  refine ⟨_, (destination?_updateTask hget hp).2 ⟨u.bucketId, htarget, rfl⟩, ?_⟩
  exact reached_of_setTask (u := { u with updated := s.now }) hs hs' ht ht rfl
    (fun _ => rfl) hid hroom

theorem length_othersIn_place (hids : (s.tasks.map (·.id)).Nodup) {place other : Place}
    {moving id : Int} {before after : Option Int} {key : Double}
    (h : s.place place moving before after = .ok (key, s')) :
    (s'.othersIn other id).length = (s.othersIn other id).length := by
  obtain rfl | rfl := store_of_place h
  · rfl
  · rw [rebalance_eq hids]
    simp [othersIn, List.filter_map, Function.comp_def]

theorem moveTask_reached (hs : s.Regular) (hs' : s'.Regular) {actor id : Int} {m : TaskMove}
    {x : TaskDetail} (h : s.moveTask actor id m = .ok (x, s')) :
    ∃ d, (Operation.moveTask actor id m).destination? s = some d ∧ s.Reached s' d x.task.id := by
  obtain ⟨t, p, key, placed, hget, -, hentry, hplace, rfl, rfl⟩ := moveTask_eq_ok.1 h
  obtain ⟨ht, -⟩ := getTask_mem hget
  have hbuckets : placed.buckets = s.buckets := by rw [eq_of_place hs.tasks.nodup hplace]
  have hreached := reached_of_setTask hs hs' ht (mem_tasks_place hs.tasks.nodup hplace ht) hbuckets
    (fun _ => length_othersIn_place hs.tasks.nodup hplace) (id_moved ..)
    (by rw [bucketId_moved]; exact not_isFull_of_mayEnter hs hentry)
  rw [bucketId_moved] at hreached
  exact ⟨_, destination?_moveTask hget, hreached⟩

theorem reached_of_run (h : s.Reachable) {op : Operation} (hop : op.PlacesTask) {setup : Setup}
    {a : Answer} (hrun : op.run setup s = .ok (a, s')) :
    ∃ d x, op.destination? s = some d ∧ a = .task x ∧ s.Reached s' d x.task.id := by
  have hs' : s'.Regular := (Operation.run_writes h.regular h.integral hrun).regular h.regular
  cases op with
  | createTask actor project new =>
    simp only [Operation.run, bind_eq_ok, Prod.exists, Except.ok.injEq, Prod.mk.injEq] at hrun
    obtain ⟨x, placed, hrun, rfl, rfl⟩ := hrun
    obtain ⟨d, hd, hreached⟩ := createTask_reached h.regular hrun
    exact ⟨d, x, hd, rfl, hreached⟩
  | updateTask actor task patch =>
    simp only [Operation.run, bind_eq_ok, Prod.exists, Except.ok.injEq, Prod.mk.injEq] at hrun
    obtain ⟨x, placed, hrun, rfl, rfl⟩ := hrun
    obtain ⟨d, hd, hreached⟩ := updateTask_reached h.regular hs' hrun
    exact ⟨d, x, hd, rfl, hreached⟩
  | moveTask actor task move =>
    simp only [Operation.run, bind_eq_ok, Prod.exists, Except.ok.injEq, Prod.mk.injEq] at hrun
    obtain ⟨x, placed, hrun, rfl, rfl⟩ := hrun
    obtain ⟨d, hd, hreached⟩ := moveTask_reached h.regular hs' hrun
    exact ⟨d, x, hd, rfl, hreached⟩
  | _ => exact hop.elim

/-- An operation that would put its task into another bucket, which is full, fails, and one that
would leave the task in its bucket never does so for want of room.  After a success the task is
where it was to be, and a limited bucket which holds more tasks than before does not hold too
many. -/
theorem limit_exact (h : s.Reachable) (op : Operation) (hop : op.PlacesTask) (setup : Setup) :
    (∀ d, op.destination? s = some d →
      (d.current ≠ some d.target → s.IsFull d.target → ∃ e, op.run setup s = .error e) ∧
        (d.current = some d.target → Avoids Failure.IsFull (op.run setup s))) ∧
    ∀ a s', op.run setup s = .ok (a, s') →
      (∃ d x, op.destination? s = some d ∧ a = .task x ∧ ∃ t ∈ s'.tasks, t.id = x.task.id ∧
        t.bucketId = d.target) ∧
        ∀ b ∈ s'.buckets, 0 < b.limit →
        (s.tasksIn .kanban b.id).length < (s'.tasksIn .kanban b.id).length →
          (s'.tasksIn .kanban b.id).length ≤ b.limit := by
  constructor
  · intro d hd
    refine ⟨fun hne hfull => ?_, avoids_run_of_stays hd⟩
    cases hrun : op.run setup s with
    | error e => exact ⟨e, rfl⟩
    | ok r =>
      obtain ⟨d', x, hd', -, hreached⟩ := reached_of_run h hop hrun
      obtain rfl := Option.some.inj (hd.symm.trans hd')
      exact absurd hfull (hreached.room hne)
  · intro a s' hrun
    obtain ⟨d, x, hd, ha, hreached⟩ := reached_of_run h hop hrun
    refine ⟨⟨d, x, hd, ha, hreached.row⟩, fun b hb hpos hgrew => ?_⟩
    have hcount := hreached.count b.id
    -- Only the bucket that the task entered has grown, and there was room in it.
    split at hcount
    · rename_i hentered
      obtain ⟨hne, hid⟩ := hentered
      have hroom : (s.tasksIn .kanban b.id).length < b.limit := by
        by_contra hfull
        refine hreached.room hne ⟨b, hreached.buckets ▸ hb, hid, hpos, ?_⟩
        rw [← hid]
        omega
      omega
    · omega

/-- A board whose first bucket holds one task too many since its limit was lowered.  The second
bucket is full, and the third one has room for one task. -/
def cramped : Store :=
  [.createUser { username := "ada" }, .createProject 1 { title := "Plan" },
    .createBucket 1 1 { title := "Review", limit := 1 },
    .createBucket 1 1 { title := "Done", limit := 1 },
    .createTask 1 1 { title := "first", bucketId := some 1 },
    .createTask 1 1 { title := "second", bucketId := some 1 },
    .createTask 1 1 { title := "third", bucketId := some 2 },
    .updateBucket 1 1 1 { limit := some 1 }].foldl (Operation.after {}) {}

/-- A task of the first bucket does not get into the second one, can be changed where it is, and
gets into the third. -/
theorem limit_exact_cramped :
    (∃ e, (Operation.moveTask 1 1 { bucketId := some 2 }).run {} cramped = .error e) ∧
      Avoids Failure.IsFull ((Operation.updateTask 1 1 { title := some "new" }).run {} cramped) ∧
      ∃ a s', (Operation.moveTask 1 1 { bucketId := some 3 }).run {} cramped = .ok (a, s') ∧
        (cramped.tasksIn .kanban 3).length < (s'.tasksIn .kanban 3).length ∧
        (s'.tasksIn .kanban 3).length ≤ 1 := by
  have hreach : cramped.Reachable := Reachable.empty.foldl_after {} _
  refine ⟨?_, ?_, ?_⟩
  · have hd : (Operation.moveTask 1 1 { bucketId := some 2 }).destination? cramped =
        some ⟨some 1, 2⟩ := by
      decide +kernel
    exact ((limit_exact hreach (.moveTask 1 1 { bucketId := some 2 }) trivial {}).1 _ hd).1
      (by decide) (by decide +kernel)
  · have hd : (Operation.updateTask 1 1 { title := some "new" }).destination? cramped =
        some ⟨some 1, 1⟩ := by
      decide +kernel
    exact ((limit_exact hreach (.updateTask 1 1 { title := some "new" }) trivial {}).1 _ hd).2 rfl
  · obtain ⟨⟨a, s'⟩, hrun⟩ : ∃ r,
        (Operation.moveTask 1 1 { bucketId := some 3 }).run {} cramped = .ok r :=
      exists_of_isOk (by decide +kernel)
    have hafter : s' = (Operation.moveTask 1 1 { bucketId := some 3 }).after {} cramped := by
      simp [Operation.after, hrun]
    let b := (s'.bucket? 3).getD {}
    have hb : b ∈ s'.buckets ∧ b.id = 3 ∧ b.limit = 1 := by
      subst hafter
      decide +kernel
    have hgrew : (cramped.tasksIn .kanban b.id).length < (s'.tasksIn .kanban b.id).length := by
      subst hafter
      decide +kernel
    have hmoved :=
      (limit_exact hreach (.moveTask 1 1 { bucketId := some 3 }) trivial {}).2 a s' hrun
    have hlimit := hmoved.2 b hb.1 (by rw [hb.2.2]; decide) hgrew
    rw [hb.2.1] at hgrew hlimit
    rw [hb.2.2] at hlimit
    exact ⟨a, s', hrun, hgrew, by exact_mod_cast hlimit⟩

end Store

end Kanban
