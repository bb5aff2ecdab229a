import Kanban.Proofs.Tasks.Beside
import Kanban.Proofs.Tasks.Keys

/-!
# Arrival at the end of a bucket

A task that changes its bucket without neighbors there, because it is marked done or open or is
moved in the list, gets a key behind the greatest one in the new bucket.  As long as the keys there
are small enough for a spacing to count (`Store.lt_keyAtEnd`), it stands last, and no other task
moves in any bucket (`Store.arrivesLast_setTask`).
-/

namespace Kanban.Store

/-- The task stands last in its bucket, behind all that were there.  All other tasks are where they
were and have the same keys in their buckets. -/
structure ArrivesLast (s s' : Store) (t' : Task) : Prop where
  order : (s'.orderedIn .kanban t'.bucketId).map (·.id) =
    (s.orderedIn .kanban t'.bucketId).map (·.id) ++ [t'.id]
  others : ∀ u ∈ s.tasks, u.id ≠ t'.id →
    ∃ u' ∈ s'.tasks, u'.id = u.id ∧ u'.bucketId = u.bucketId ∧ u'.kanbanPosition = u.kanbanPosition

variable {s placed : Store} {target : Int} {t r : Task}

/-! ### The end of a bucket -/

/-- Behind keys of less than `2 ^ 60` the key at the end is strictly greater. -/
theorem lt_keyAtEnd (hnum : ∀ u ∈ s.tasks, (u.key .kanban).isNaN = false)
    (hsmall : ∀ u ∈ s.tasks, u.bucketId = target → Double.ofInt (-2 ^ 60) < u.kanbanPosition ∧
      u.kanbanPosition < Double.ofInt (2 ^ 60))
    (moving : Int) :
    (s.keyAtEnd target moving).isFinite = true ∧
      ∀ u ∈ s.othersIn ⟨.kanban, target⟩ moving, u.kanbanPosition < s.keyAtEnd target moving := by
  have hin : ∀ u ∈ s.othersIn ⟨.kanban, target⟩ moving, u ∈ s.tasks ∧ u.bucketId = target := by
    intro u hu
    obtain ⟨hu, hbucket, -⟩ := mem_othersIn.1 hu
    exact ⟨hu, beq_iff_eq.1 hbucket⟩
  have hkeys : ∀ x ∈ (s.othersIn ⟨.kanban, target⟩ moving).map (·.key .kanban),
      x.isNaN = false := by
    intro x hx
    obtain ⟨u, hu, rfl⟩ := List.mem_map.1 hx
    exact hnum u (hin u hu).1
  have hroom : ∀ x, s.tailKey ⟨.kanban, target⟩ moving = some x → Position.HasRoom x 1 := by
    intro x hx
    obtain ⟨u, hu, rfl⟩ := List.mem_map.1 (greatest?_eq_some hkeys hx).1
    obtain ⟨hu, hbucket⟩ := hin u hu
    exact Position.hasRoom_of_lt (hsmall u hu hbucket).1 (hsmall u hu hbucket).2 (by decide)
  obtain ⟨hfinite, hbehind⟩ : (s.keyAtEnd target moving).isFinite = true ∧
      ∀ x, s.tailKey ⟨.kanban, target⟩ moving = some x →
      x.place < (s.keyAtEnd target moving).place :=
    (Position.behind_increasing hroom (by decide)).1 _ (List.mem_singleton_self _)
  refine ⟨hfinite, fun u hu => ?_⟩
  have hmem : u.key .kanban ∈ (s.othersIn ⟨.kanban, target⟩ moving).map (·.key .kanban) :=
    List.mem_map_of_mem hu
  rw [show u.kanbanPosition = u.key .kanban from rfl,
    Double.lt_iff_place (hnum u (hin u hu).1) (Double.isNaN_of_isFinite hfinite)]
  obtain hnone | ⟨g, hg⟩ := (s.tailKey ⟨.kanban, target⟩ moving).eq_none_or_eq_some
  · rw [greatest?_eq_none.1 hnone] at hmem
    cases hmem
  · exact ((greatest?_eq_some hkeys hg).2 _ hmem).trans_lt (hbehind g hg)

/-- Rows that keep their state and their keys stay in their order. -/
theorem orderedIn_map {p : Place} (hs : s.Regular) {f : Task → Task}
    (htasks : placed.tasks = s.tasks.map f)
    (hf : ∀ u ∈ s.tasks, (f u).state = u.state ∧ (f u).key p.scope = u.key p.scope) :
    placed.orderedIn p.scope p.id = (s.orderedIn p.scope p.id).map f := by
  have hcontains : ∀ u ∈ s.tasks, p.contains (f u) = p.contains u := fun u hu => by
    obtain ⟨-, hproject, hbucket, -⟩ := Task.state_eq_iff.1 (hf u hu).1
    rcases p with ⟨_ | _, id⟩ <;> simp [Place.contains, hproject, hbucket]
  have hspot : ∀ u ∈ s.tasks, (f u).spot p.scope = u.spot p.scope := fun u hu => by
    rw [Task.spot, Task.spot, (hf u hu).2, (Task.state_eq_iff.1 (hf u hu).1).1]
  have hnum : ∀ u ∈ s.tasks, (u.key p.scope).isNaN = false := fun u hu => (hs.taskRows u hu).2 _
  refine orderedIn_eq (fun u hu => ?_) ?_ ?_
  · rw [htasks] at hu
    obtain ⟨v, hv, rfl⟩ := List.mem_map.1 hu
    rw [(hf v hv).2]
    exact hnum v hv
  · have hfilter : placed.tasks.filter p.contains = (s.tasks.filter p.contains).map f := by
      rw [htasks, List.filter_map]
      exact congrArg _ (List.filter_congr hcontains)
    rw [tasksIn_eq, hfilter, ← tasksIn_eq]
    exact (s.orderedIn_perm p.scope p.id).map f
  · refine List.pairwise_map.2
      ((orderedIn_increasing hs.tasks.nodup hnum p.id).imp_of_mem fun {u v} hu hv huv => ?_)
    rw [hspot u (mem_orderedIn.1 hu).1, hspot v (mem_orderedIn.1 hv).1]
    exact huv

/-! ### Arrival -/

/-- A task that is put at the end of another bucket stands last there. -/
theorem orderedIn_setTask_last (hs : s.Regular) (ht : t ∈ s.tasks) (hid : r.id = t.id)
    (hne : r.bucketId ≠ t.bucketId) (hkey : r.kanbanPosition = s.keyAtEnd r.bucketId t.id)
    (hsmall : ∀ u ∈ s.tasks, u.bucketId = r.bucketId → Double.ofInt (-2 ^ 60) < u.kanbanPosition ∧
      u.kanbanPosition < Double.ofInt (2 ^ 60)) :
    (s.tick.setTask r).orderedIn .kanban r.bucketId =
      s.orderedIn .kanban r.bucketId ++ [r.stored] := by
  have hids := hs.tasks.nodup
  have hnum : ∀ u ∈ s.tasks, (u.key .kanban).isNaN = false :=
    fun u hu => (hs.taskRows u hu).2 .kanban
  obtain ⟨hfinite, hlast⟩ := lt_keyAtEnd hnum hsmall t.id
  rw [← hkey] at hfinite hlast
  -- The task was not in the bucket, so the others are all that were there.
  have hothers : s.rankedIn ⟨.kanban, r.bucketId⟩ t.id = s.orderedIn .kanban r.bucketId := by
    refine List.filter_eq_self.2 fun u hu => ?_
    obtain ⟨hu, hbucket⟩ := mem_orderedIn_kanban.1 hu
    rw [bne_iff_ne]
    intro heq
    rw [eq_of_key_eq hids hu ht heq] at hbucket
    exact hne hbucket.symm
  have hend : ∀ y,
      (s.rankedIn ⟨.kanban, r.bucketId⟩ t.id)[(s.rankedIn ⟨.kanban, r.bucketId⟩ t.id).length]? =
        some y →
      r.kanbanPosition < y.kanbanPosition := fun y hy => by
    rw [List.getElem?_eq_none le_rfl] at hy
    cases hy
  have horder :=
    orderedIn_setTask (p := ⟨.kanban, r.bucketId⟩) hids hnum ht hid (beq_self_eq_true r.bucketId)
    (Double.isNaN_of_isFinite hfinite) le_rfl
    (fun y _ hy => hlast y (mem_rankedIn.1 (List.mem_of_getElem? hy))) hend
  rwa [List.insertIdx_length_self, hothers] at horder

/-- So it does if keys in the list were spread out before. -/
theorem arrivesLast_setTask (hs : s.Regular) (hs' : placed.Regular) {f : Task → Task}
    (htasks : placed.tasks = s.tasks.map f)
    (hf : ∀ u ∈ s.tasks, (f u).state = u.state ∧ (f u).key .kanban = u.key .kanban)
    (ht : t ∈ placed.tasks) (hid : r.id = t.id) (hne : r.bucketId ≠ t.bucketId)
    (hkey : r.kanbanPosition = placed.keyAtEnd r.bucketId t.id)
    (hsmall : ∀ u ∈ s.tasks, u.bucketId = r.bucketId → Double.ofInt (-2 ^ 60) < u.kanbanPosition ∧
      u.kanbanPosition < Double.ofInt (2 ^ 60)) :
    s.ArrivesLast (placed.tick.setTask r) r.stored := by
  have hrow : ∀ u ∈ s.tasks, (f u).id = u.id ∧ (f u).bucketId = u.bucketId ∧
      (f u).kanbanPosition = u.kanbanPosition := fun u hu => by
    obtain ⟨huid, -, hubucket, -⟩ := Task.state_eq_iff.1 (hf u hu).1
    exact ⟨huid, hubucket, (hf u hu).2⟩
  constructor
  · have hsmall' : ∀ u ∈ placed.tasks, u.bucketId = r.bucketId →
        Double.ofInt (-2 ^ 60) < u.kanbanPosition ∧ u.kanbanPosition < Double.ofInt (2 ^ 60) := by
      intro u hu hbucket
      rw [htasks] at hu
      obtain ⟨v, hv, rfl⟩ := List.mem_map.1 hu
      obtain ⟨-, hvbucket, hvkey⟩ := hrow v hv
      rw [hvkey]
      exact hsmall v hv (hvbucket.symm.trans hbucket)
    have hsame : ∀ u ∈ s.orderedIn .kanban r.bucketId, (f u).id = u.id := fun u hu =>
      (hrow u (mem_orderedIn_kanban.1 hu).1).1
    rw [Task.bucketId_stored, orderedIn_setTask_last hs' ht hid hne hkey hsmall',
      orderedIn_map (p := ⟨.kanban, r.bucketId⟩) hs htasks hf, List.map_append, List.map_map]
    exact congrArg (· ++ _) (List.map_congr_left hsame)
  · intro u hu hune
    refine ⟨f u, mem_replace.2 (.inl ⟨htasks ▸ List.mem_map_of_mem hu, ?_⟩), hrow u hu⟩
    rw [(hrow u hu).1]
    exact hune

theorem eq_stored_of_mem_setTask {x : Task} (hx : x ∈ (s.tick.setTask r).tasks)
    (hid : x.id = r.id) : x = r.stored := by
  rcases mem_replace.1 hx with ⟨-, hne⟩ | ⟨heq, -⟩
  · exact absurd hid hne
  · exact heq

section

variable {s' : Store} {t' : Task} {actor : Int} {d : TaskDetail} (hs : s.Regular) (ht : t ∈ s.tasks)
  (ht' : t' ∈ s'.tasks) (hid : t'.id = t.id) (hne : t'.bucketId ≠ t.bucketId)
  (hsmall : ∀ u ∈ s.tasks, u.bucketId = t'.bucketId →
    Double.ofInt (-2 ^ 60) < u.kanbanPosition ∧ u.kanbanPosition < Double.ofInt (2 ^ 60))

include hs ht ht' hid hne hsmall

/-- A task whose bucket changes with its mark arrives last in the new one. -/
theorem arrivesLast_updateTask {patch : TaskUpdate}
    (h : s.updateTask actor t.id patch = .ok (d, s')) :
    s.ArrivesLast s' t' ∧ t'.position = t.position ∧ patch.done = some t'.done := by
  obtain ⟨v, p, u, hget, -, hu, -, rfl⟩ := updateTask_eq_ok.1 h
  obtain rfl := eq_of_key_eq hs.tasks.nodup (getTask_mem hget).1 ht (getTask_mem hget).2
  have huid := (withPatch_eq_ok hs ht hu).1
  obtain rfl := eq_stored_of_mem_setTask ht' (hid.trans huid.symm)
  obtain ⟨hlist, ⟨hbucket, -⟩ | ⟨-, hkey, hdone⟩⟩ := keys_withPatch hu
  · exact absurd hbucket hne
  have hposition : ({ u with updated := s.now } : Task).stored.position = v.position := by
    have hrow : v.stored.position = v.position := by rw [(hs.taskRows v ht).1]
    rw [← hrow]
    exact congrArg Double.unsignZero hlist
  refine ⟨?_, hposition, hdone⟩
  exact arrivesLast_setTask hs hs (List.map_id _).symm
    (fun _ _ => ⟨rfl, rfl⟩) ht huid hne hkey hsmall

/-- A task that is moved in the list and into another bucket arrives there last. -/
theorem arrivesLast_moveTask {m : TaskMove} (hscope : m.scope = .list)
    (h : s.moveTask actor t.id m = .ok (d, s')) :
    s.ArrivesLast s' t' ∧ ∀ p ∈ s.projects, p.id = t.projectId →
      t'.done =
        if p.doneBucketId ≠ 0 ∧ t'.bucketId = p.doneBucketId then true
        else if p.doneBucketId ≠ 0 ∧ t.bucketId = p.doneBucketId then false else t.done := by
  obtain ⟨v, q, key, placed, hget, hq, -, hplace, -, rfl⟩ := moveTask_eq_ok.1 h
  obtain rfl := eq_of_key_eq hs.tasks.nodup (getTask_mem hget).1 ht (getTask_mem hget).2
  have hrow := mem_tasks_place hs.tasks.nodup hplace ht
  obtain rfl := eq_stored_of_mem_setTask ht' (hid.trans (id_moved placed q v m key).symm)
  have htarget : m.target v ≠ v.bucketId := by
    rwa [Task.bucketId_stored, bucketId_moved] at hne
  constructor
  · obtain ⟨f, htasks, hf⟩ := exists_map_of_place hs hplace
    have hkanban : ∀ u ∈ s.tasks, (f u).state = u.state ∧ (f u).key .kanban = u.key .kanban :=
      fun u hu => ⟨(hf u hu).1, (hf u hu).2 .kanban (by rw [scope_forMove, hscope]; decide)⟩
    have hkey := kanbanPosition_moved placed q v key hscope
    rw [if_neg htarget, ← bucketId_moved placed q v m key] at hkey
    have hs' := (place_writes hs hplace).1.regular hs
    exact arrivesLast_setTask hs hs' htasks hkanban hrow (id_moved placed q v m key) hne hkey hsmall
  · intro p hp hproject
    obtain ⟨hqmem, hqid⟩ := mem_of_projectFor hq
    obtain rfl := eq_of_key_eq hs.projects.nodup hp hqmem (hproject.trans hqid.symm)
    have hstate := state_moved placed p v m key
    rw [if_neg htarget] at hstate
    have hdone : (placed.moved p v m key).done = (v.enterBucket p (m.target v) placed.now).done :=
      congrArg TaskState.done hstate
    rw [Task.bucketId_stored, bucketId_moved,
      ← v.done_enterBucket_eq p (m.target v) placed.now, ← hdone]
    rfl

end

/-- A task that changes its bucket without neighbors there arrives last.  Let the keys in the new
bucket be less than `2 ^ 60` in absolute value.  Whether the task is marked done or open or is moved
in the list, it then stands behind all tasks of the new bucket, and all other tasks keep their
buckets and their keys there.  An update leaves the task at its place in the list and makes it as
done as it says; a move makes it done in the bucket of done tasks, open if it comes from there, and
leaves its mark as it is otherwise. -/
theorem Reachable.arrivesLast (h : s.Reachable) {s' : Store} {t' : Task} (ht : t ∈ s.tasks)
    (ht' : t' ∈ s'.tasks) (hid : t'.id = t.id) (hne : t'.bucketId ≠ t.bucketId)
    (hsmall : ∀ u ∈ s.tasks, u.bucketId = t'.bucketId → Double.ofInt (-2 ^ 60) < u.kanbanPosition ∧
      u.kanbanPosition < Double.ofInt (2 ^ 60)) :
    (∀ actor patch d, s.updateTask actor t.id patch = .ok (d, s') →
      s.ArrivesLast s' t' ∧ t'.position = t.position ∧ patch.done = some t'.done) ∧
    ∀ actor m d, m.scope = .list → s.moveTask actor t.id m = .ok (d, s') →
      s.ArrivesLast s' t' ∧ ∀ p ∈ s.projects, p.id = t.projectId →
        t'.done =
          if p.doneBucketId ≠ 0 ∧ t'.bucketId = p.doneBucketId then true
          else if p.doneBucketId ≠ 0 ∧ t.bucketId = p.doneBucketId then false else t.done := by
  constructor
  · intro actor patch d hupdate
    exact arrivesLast_updateTask h.regular ht ht' hid hne hsmall hupdate
  · intro actor m d hscope hmove
    exact arrivesLast_moveTask h.regular ht ht' hid hne hsmall hscope hmove

/-- A board with two tasks in its first bucket and one in the second one, the bucket of done
tasks. -/
def halfDone : Store :=
  [.createUser { username := "ada" }, .createProject 1 { title := "Plan" },
    .createBucket 1 1 { title := "Done" }, .updateProject 1 1 { doneBucketId := some 2 },
    .createTask 1 1 { title := "first", bucketId := some 1 },
    .createTask 1 1 { title := "second", bucketId := some 1 },
    .createTask 1 1 { title := "third", bucketId := some 2 }].foldl (Operation.after {}) {}

/-- The first task is marked done, or moved in the list and into the bucket of done tasks. -/
theorem arrivesLast_halfDone :
    (∃ d s' t', halfDone.updateTask 1 1 { done := some true } = .ok (d, s') ∧ t'.id = 1 ∧
      t'.bucketId = 2 ∧
      halfDone.ArrivesLast s' t' ∧ t'.done = true) ∧
    ∃ d s' t', halfDone.moveTask 1 1 { bucketId := some 2, scope := .list } =
      .ok (d, s') ∧ t'.id = 1 ∧
      t'.bucketId = 2 ∧ halfDone.ArrivesLast s' t' ∧ t'.done = true := by
  have hreach : halfDone.Reachable := Reachable.empty.foldl_after {} _
  let t := (halfDone.task? 1).getD {}
  have ht : t ∈ halfDone.tasks ∧ t.id = 1 := by decide +kernel
  constructor
  · let r := (halfDone.updateTask 1 1 { done := some true }).toOption.get (by decide +kernel)
    have hupdate : halfDone.updateTask 1 1 { done := some true } = .ok r :=
      toOption_eq_some.1 (Option.some_get _).symm
    let t' := (r.2.task? 1).getD {}
    have ht' : t' ∈ r.2.tasks ∧ t'.id = 1 ∧ t'.bucketId = 2 := by decide +kernel
    have hid : t'.id = t.id := ht'.2.1.trans ht.2.symm
    obtain ⟨harrives, -⟩ :=
      hreach.arrivesLast ht.1 ht'.1 hid (by decide +kernel) (by decide +kernel)
    rw [ht.2] at harrives
    obtain ⟨hlast, -, hdone⟩ := harrives 1 _ r.1 hupdate
    exact ⟨r.1, r.2, t', hupdate, ht'.2.1, ht'.2.2, hlast, (Option.some.inj hdone).symm⟩
  · let r := (halfDone.moveTask 1 1 { bucketId := some 2, scope := .list }).toOption.get
      (by decide +kernel)
    have hmove : halfDone.moveTask 1 1 { bucketId := some 2, scope := .list } = .ok r :=
      toOption_eq_some.1 (Option.some_get _).symm
    let t' := (r.2.task? 1).getD {}
    have ht' : t' ∈ r.2.tasks ∧ t'.id = 1 ∧ t'.bucketId = 2 := by decide +kernel
    have hid : t'.id = t.id := ht'.2.1.trans ht.2.symm
    obtain ⟨-, harrives⟩ :=
      hreach.arrivesLast ht.1 ht'.1 hid (by decide +kernel) (by decide +kernel)
    rw [ht.2] at harrives
    obtain ⟨hlast, hdone⟩ := harrives 1 _ r.1 rfl hmove
    let p := (halfDone.project? 1).get (by decide +kernel)
    have hp : p ∈ halfDone.projects ∧ p.id = t.projectId ∧ p.doneBucketId = 2 := by decide +kernel
    have hmark := hdone p hp.1 hp.2.1
    rw [hp.2.2, ht'.2.2] at hmark
    exact ⟨r.1, r.2, t', hmove, ht'.2.1, ht'.2.2, hlast, hmark⟩

end Kanban.Store
