import Kanban.Proofs.Buckets.Order
import Kanban.Proofs.Tasks.Steps

/-!
# Done tasks

A task has a time at which it was done exactly if it is done, and this time stays as long as the
task is done (`Store.doneAt_exact`).  In the bucket of done tasks all tasks are done
(`Store.DoneCoherent`), and operations keep this, with one exception: a task that is opened goes to
the default bucket, and stays where it is when this is the bucket of done tasks
(`Store.ReopensInDone`, `Store.doneCoherent_run_iff`).
-/

namespace Kanban

/-! ### The time at which a task was done -/

/-- The time follows the mark: it stays as long as the mark does, and is there after a change
exactly if the task is done. -/
def Task.TimeFollows (t t' : Task) : Prop :=
  (t'.done = t.done ∧ t'.doneAt = t.doneAt) ∨ (t'.done ≠ t.done ∧ t'.doneAt.isSome = t'.done)

namespace Task

variable {t t' : Task}

theorem timeFollows_of_state {u : Task} (h : t.TimeFollows u) (hu : t'.state = u.state) :
    t.TimeFollows t' := by
  obtain ⟨-, -, -, hdone, hdoneAt⟩ := state_eq_iff.1 hu
  unfold TimeFollows
  rw [hdone, hdoneAt]
  exact h

theorem timeFollows_refl (t : Task) : t.TimeFollows t := .inl ⟨rfl, rfl⟩

theorem timeFollows_markDone (t : Task) (done : Bool) (time : Instant) :
    t.TimeFollows (t.markDone done time) := by
  unfold markDone
  split
  · exact t.timeFollows_refl
  · rename_i hne
    refine .inr ⟨fun h => hne h.symm, ?_⟩
    cases done
    · rfl
    · rfl

theorem timeFollows_enterBucket (t : Task) (p : Project) (target : Int) (time : Instant) :
    t.TimeFollows (t.enterBucket p target time) := by
  have hentered : ∀ done,
      t.TimeFollows (({ t with bucketId := target } : Task).markDone done time) := fun done =>
    timeFollows_markDone { t with bucketId := target } done time
  unfold enterBucket
  split
  · exact hentered true
  · split
    · exact hentered false
    · exact .inl ⟨rfl, rfl⟩

theorem TimeFollows.isSome (h : t.TimeFollows t') (ht : t.doneAt.isSome = t.done) :
    t'.doneAt.isSome = t'.done := by
  rcases h with ⟨hdone, hdoneAt⟩ | ⟨-, h⟩
  · rw [hdone, hdoneAt]
    exact ht
  · exact h

end Task

namespace Operation.TaskStep

variable {s s' : Store} {op : Operation} {t t' : Task}

theorem id_eq (h : op.TaskStep s s' t t') : t'.id = t.id := by
  cases h with
  | kept h => exact (Task.state_eq_iff.1 h).1
  | marked _ _ _ _ h => exact (Task.of_state_markDone h).1
  | entered _ _ _ h => exact (Task.of_state_enterBucket h).1

theorem timeFollows (h : op.TaskStep s s' t t') : t.TimeFollows t' := by
  cases h with
  | kept h => exact Task.timeFollows_of_state t.timeFollows_refl h
  | marked _ _ _ _ h => exact Task.timeFollows_of_state (t.timeFollows_markDone _ _) h
  | entered _ _ _ h => exact Task.timeFollows_of_state (t.timeFollows_enterBucket _ _ _) h

end Operation.TaskStep

namespace Store

variable {s s' : Store} {setup : Setup} {op : Operation} {a : Answer}

/-- An operation keeps the times fitting. -/
theorem isSome_doneAt_run (hs : s.Regular) (hi : s.Integral) (h : op.run setup s = .ok (a, s'))
    (htime : ∀ t ∈ s.tasks, t.doneAt.isSome = t.done) :
    ∀ t ∈ s'.tasks, t.doneAt.isSome = t.done := by
  intro t' ht'
  rcases (Operation.run_steps hs hi h).tasks t' ht' with ⟨t, ht, hstep⟩ | hnew
  · exact hstep.timeFollows.isSome (htime t ht)
  · exact hnew.time

theorem Reachable.isSome_doneAt (h : s.Reachable) : ∀ t ∈ s.tasks, t.doneAt.isSome = t.done := by
  induction h with
  | empty => simp
  | @after setup s op hs ih =>
    unfold Operation.after
    split
    · rename_i hrun
      exact isSome_doneAt_run hs.regular hs.integral hrun ih
    · exact ih

/-- The row of a task after an operation comes from the row that it had. -/
theorem timeFollows_of_run (hs : s.Regular) (hi : s.Integral) (h : op.run setup s = .ok (a, s'))
    {t t' : Task} (ht : t ∈ s.tasks) (ht' : t' ∈ s'.tasks) (hid : t'.id = t.id) :
    t.TimeFollows t' := by
  rcases (Operation.run_steps hs hi h).tasks t' ht' with ⟨u, hu, hstep⟩ | hnew
  · obtain rfl := eq_of_key_eq hs.tasks.nodup hu ht (hstep.id_eq.symm.trans hid)
    exact hstep.timeFollows
  · have := hnew.id
    have := hs.tasks.le t.id (List.mem_map_of_mem ht)
    omega

/-- A task has a time at which it was done exactly if it is done, and as long as it is done this
time stays. -/
theorem doneAt_exact (h : s.Reachable) :
    (∀ t ∈ s.tasks, t.doneAt.isSome = true ↔ t.done = true) ∧
      ∀ (setup : Setup) (op : Operation), ∀ t ∈ s.tasks, ∀ t' ∈ (op.after setup s).tasks,
      t'.id = t.id →
        t.done = true → t'.done = true → t'.doneAt = t.doneAt := by
  constructor
  · intro t ht
    rw [h.isSome_doneAt t ht]
  · intro setup op t ht t' ht' hid hdone hdone'
    have hfollows : t.TimeFollows t' := by
      unfold Operation.after at ht'
      split at ht'
      · rename_i hrun
        exact timeFollows_of_run h.regular h.integral hrun ht ht' hid
      · rw [eq_of_key_eq h.regular.tasks.nodup ht' ht hid]
        exact t.timeFollows_refl
    rcases hfollows with ⟨-, heq⟩ | ⟨hne, -⟩
    · exact heq
    · exact absurd (hdone'.trans hdone.symm) hne

/-- A board on which the task of the first bucket is done, and so is that of the second one, the
bucket of done tasks. -/
def finished : Store :=
  [.createUser { username := "ada" },
    .importProjects 1 [{ title := "Plan", buckets := [
      { title := "Backlog", tasks := [{ title := "first", done := true }] },
      { title := "Done", tasks := [{ title := "second" }] }] }],
    .updateProject 1 1 { doneBucketId := some 2 }, .updateTask 1 2 { done := some true }].foldl
      (Operation.after {}) {}

/-- A done task that is moved into the bucket of done tasks keeps its time. -/
theorem doneAt_exact_finished :
    (∀ t ∈ finished.tasks, t.doneAt.isSome = true ↔ t.done = true) ∧
      ∃ t ∈ finished.tasks,
      ∃ t' ∈ ((Operation.moveTask 1 1 { bucketId := some 2 }).after {} finished).tasks,
        t.bucketId = 1 ∧ t'.bucketId = 2 ∧ t.doneAt.isSome = true ∧ t'.doneAt = t.doneAt := by
  have h := doneAt_exact (Reachable.empty.foldl_after {} _ : finished.Reachable)
  let t := (finished.task? 1).getD {}
  let t' := (((Operation.moveTask 1 1 { bucketId := some 2 }).after {} finished).task? 1).getD {}
  have ht : t ∈ finished.tasks ∧ t.bucketId = 1 ∧ t.done = true := by decide +kernel
  have ht' : t' ∈ ((Operation.moveTask 1 1 { bucketId := some 2 }).after {} finished).tasks ∧
      t'.bucketId = 2 ∧
      t'.id = t.id ∧ t'.done = true := by decide +kernel
  exact ⟨h.1, t, ht.1, t', ht'.1, ht.2.1, ht'.2.1, (h.1 t ht.1).2 ht.2.2,
    h.2 {} _ t ht.1 t' ht'.1 ht'.2.2.1 ht.2.2 ht'.2.2.2⟩

/-! ### The bucket of done tasks -/

/-- Every task in the bucket of done tasks of its project is done. -/
def DoneCoherent (s : Store) : Prop :=
  ∀ p ∈ s.projects, ∀ t ∈ s.tasks, t.projectId = p.id → p.doneBucketId ≠ 0 →
  t.bucketId = p.doneBucketId → t.done = true

instance : Decidable s.DoneCoherent :=
  inferInstanceAs (Decidable (∀ p ∈ s.projects, ∀ t ∈ s.tasks, t.projectId = p.id →
    p.doneBucketId ≠ 0 →
    t.bucketId = p.doneBucketId → t.done = true))

/-- The operation opens a task of the bucket of done tasks, and opened tasks go to this very
bucket. -/
inductive ReopensInDone (s : Store) : Operation → Prop where
  | intro {actor : Int} {patch : TaskUpdate} {t : Task} {p : Project} (ht : t ∈ s.tasks)
      (hp : p ∈ s.projects)
      (hproject : p.id = t.projectId) (hopen : patch.done = some false) (h0 : p.doneBucketId ≠ 0)
      (hbucket : t.bucketId = p.doneBucketId) (hstays : s.resolveBucket p none = .ok t.bucketId) :
      ReopensInDone s (.updateTask actor t.id patch)

section

variable (hs : s.Regular)

include hs

/-- Unless it is opened where it is, a task in the bucket of done tasks was done before or is done
by getting there. -/
theorem done_of_taskStep {t t' : Task} (hs' : s'.Regular) (hkept : s.DoneRefsKept s')
    (hdone : s.DoneCoherent) (hop : ¬ s.ReopensInDone op) (ht : t ∈ s.tasks)
    (hstep : op.TaskStep s s' t t') {q : Project} (hq : q ∈ s'.projects)
    (hproject : t'.projectId = q.id) (h0 : q.doneBucketId ≠ 0)
    (hbucket : t'.bucketId = q.doneBucketId) :
    t'.done = true := by
  -- The project had the same bucket of done tasks before.
  obtain ⟨p, hp, hpid, hpdone⟩ := (hkept q hq).resolve_left h0
  cases hstep with
  | kept h =>
    obtain ⟨-, hproject', hbucket', hmark, -⟩ := Task.state_eq_iff.1 h
    rw [hmark]
    refine hdone p hp t ht ?_ ?_ ?_
    · rw [← hproject', hproject, hpid]
    · rwa [hpdone]
    · rw [← hbucket', hbucket, hpdone]
  | marked hr hrproject hpatch htarget h =>
    obtain ⟨-, hproject', hbucket', hmark⟩ := Task.of_state_markDone h
    obtain rfl :=
      eq_of_key_eq hs.projects.nodup hr hp (by rw [hrproject, hpid, ← hproject', hproject])
    rw [hmark]
    by_contra hopen
    rw [Bool.not_eq_true] at hopen
    subst hopen
    rw [← hpdone] at h0 hbucket
    rw [hbucket'] at hbucket
    rw [bucketForDone_opened s h0 hbucket] at htarget
    exact hop (.intro ht hr hrproject hpatch h0 hbucket htarget)
  | entered hr hrproject hne h =>
    obtain ⟨-, hproject', hbucket'⟩ := Task.of_state_enterBucket h
    obtain rfl := eq_of_key_eq hs'.projects.nodup hr hq (by rw [hrproject, ← hproject', hproject])
    have hmark : t'.done = _ := (Task.state_eq_iff.1 h).2.2.2.1
    rw [hmark, ← hbucket', hbucket]
    exact t.done_enterBucket _ h0

theorem doneCoherent_of_run (hi : s.Integral) (hdone : s.DoneCoherent)
    (hproject : ∀ actor project patch, op ≠ .updateProject actor project patch)
    (hop : ¬ s.ReopensInDone op) (h : op.run setup s = .ok (a, s')) : s'.DoneCoherent := by
  intro q hq t' ht' hproject' h0 hbucket
  have hsteps := Operation.run_steps hs hi h
  rcases hsteps.tasks t' ht' with ⟨t, ht, hstep⟩ | hnew
  · have hs' := (Operation.run_writes hs hi h).regular hs
    exact done_of_taskStep hs hs'
      (hsteps.doneRefs hproject) hdone hop ht hstep hq hproject' h0 hbucket
  · exact hnew.done q hq hproject'.symm h0 hbucket

/-- A task that is opened where it is breaks the rule. -/
theorem not_doneCoherent_of_reopens (hop : s.ReopensInDone op) (h : op.run setup s = .ok (a, s')) :
    ¬ s'.DoneCoherent := by
  cases hop with
  | @intro actor patch t p ht hp hproject hopen h0 hbucket hstays =>
    simp only [Operation.run, bind_eq_ok, Prod.exists, Except.ok.injEq, Prod.mk.injEq] at h
    obtain ⟨d, placed, h, -, rfl⟩ := h
    obtain ⟨t', p', u, hget, hfor, hu, -, rfl⟩ := updateTask_eq_ok.1 h
    obtain ⟨ht', hid⟩ := getTask_mem hget
    obtain rfl := eq_of_key_eq hs.tasks.nodup ht' ht hid
    obtain ⟨hp', hproject'⟩ := mem_of_projectFor hfor
    obtain rfl := eq_of_key_eq hs.projects.nodup hp' hp (hproject'.trans hproject.symm)
    have htarget := (bucketForDone_opened s h0 hbucket).trans hstays
    have hstate := state_withPatch_of_stays hopen htarget hu
    obtain ⟨huid, huproject, hubucket, hudone⟩ := Task.of_state_markDone hstate
    intro hcoherent
    have hmark := hcoherent p' hp' ({ u with updated := s.now } : Task).stored
      (mem_replace.2 (.inr ⟨rfl, t', ht', huid.symm⟩)) (huproject.trans hproject.symm) h0
        (hubucket.trans hbucket)
    have hopened : ({ u with updated := s.now } : Task).stored.done = false := hudone
    rw [hopened] at hmark
    cases hmark

end

/-- Operations other than a change of the project keep all tasks in the bucket of done tasks done,
except that a task which is opened stays in this bucket if it is also the one for opened tasks. -/
theorem doneCoherent_run_iff (h : s.Reachable) (hdone : s.DoneCoherent)
    (hproject : ∀ actor project patch, op ≠ .updateProject actor project patch)
    (hrun : op.run setup s = .ok (a, s')) :
    s'.DoneCoherent ↔ ¬ s.ReopensInDone op := by
  constructor
  · intro hs' hop
    exact not_doneCoherent_of_reopens h.regular hop hrun hs'
  · intro hop
    exact doneCoherent_of_run h.regular h.integral hdone hproject hop hrun

/-- Without a chosen default bucket, the first one on the board takes its place. -/
theorem resolveBucket_first {p : Project} {b : Bucket} (h0 : p.defaultBucketId = 0)
    (hfirst : (s.bucketsOf p.id).head? = some b) (hb : b.id ≠ 0) :
    s.resolveBucket p none = .ok b.id := by
  obtain ⟨rest, hboard⟩ := List.head?_eq_some_iff.1 hfirst
  have hkept : ((s.bucketsOf p.id).filter fun c => c.id != (none : Option Int).getD 0).head? =
      some b := by
    rw [hboard, List.filter_cons_of_pos (by simpa using hb)]
    rfl
  rw [resolveBucket, if_neg (fun h => h.1 h0), hkept]

/-- A change of the mark alone. -/
theorem updateTask_mark (setup : Setup) {actor : Int} {t u : Task} {p : Project} {done : Bool}
    (ht : s.getTask t.id = .ok t) (hp : s.projectFor .write actor t.projectId = .ok p)
    (hu : s.withDone p t done = .ok u) :
    ∃ a s', (Operation.updateTask actor t.id { done := some done }).run setup s = .ok (a, s') :=
  ⟨_, _, bind_eq_ok.2 ⟨_, updateTask_eq_ok.2 ⟨t, p, u, ht, hp, hu, rfl, rfl⟩, rfl⟩⟩

/-- An opened task leaves the bucket of done tasks for the first one of the board. -/
theorem doneCoherent_run_iff_finished :
    finished.DoneCoherent ∧ ¬ finished.ReopensInDone (.updateTask 1 2 { done := some false }) ∧
      ∃ a s', (Operation.updateTask 1 2 { done := some false }).run {} finished = .ok (a, s') ∧
      s'.DoneCoherent := by
  have hreach : finished.Reachable := Reachable.empty.foldl_after {} _
  have hdone : finished.DoneCoherent := by decide +kernel
  let p := (finished.project? 1).get (by decide +kernel)
  let t := (finished.task? 2).getD {}
  let b := (finished.bucket? 1).getD {}
  have hrows : t.id = 2 ∧ finished.getTask t.id = .ok t ∧
      finished.projectFor .write 1 t.projectId = .ok p := by
    decide +kernel
  obtain ⟨hid, ht, hp⟩ := hrows
  have hboard : finished.bucketsOf p.id = finished.buckets :=
    bucketsOf_eq hreach.regular (List.Perm.of_eq (by decide +kernel)) (by decide +kernel)
  have hdefault : finished.resolveBucket p none = .ok b.id :=
    resolveBucket_first (by decide +kernel) (by rw [hboard]; decide +kernel) (by decide +kernel)
  have hstays : ¬ finished.ReopensInDone (.updateTask 1 2 { done := some false }) := by
    generalize hop : Operation.updateTask 1 2 { done := some false } = op
    rintro ⟨ht', hp', hproject, -, -, -, hstays⟩
    obtain rfl := eq_of_key_eq hreach.regular.tasks.nodup ht' (getTask_mem ht).1
      ((Operation.updateTask.inj hop).2.1.symm.trans hid.symm)
    obtain rfl := eq_of_key_eq hreach.regular.projects.nodup hp' (mem_of_projectFor hp).1
      (hproject.trans (mem_of_projectFor hp).2.symm)
    have heq : b.id = t.bucketId := Except.ok.inj (hdefault.symm.trans hstays)
    exact absurd heq (by decide +kernel)
  have htarget : finished.bucketForDone p t false = .ok b.id := by
    rw [bucketForDone_opened finished (by decide +kernel) (by decide +kernel), hdefault]
  obtain ⟨u, hu⟩ : ∃ u, finished.withDone p t false = .ok u := by
    unfold withDone
    rw [htarget]
    exact exists_of_isOk (by decide +kernel)
  obtain ⟨a, s', hrun⟩ := updateTask_mark {} ht hp hu
  rw [hid] at hrun
  refine ⟨hdone, hstays, a, s', hrun, ?_⟩
  exact (doneCoherent_run_iff hreach hdone (by simp) hrun).2 hstays

/-- A board whose first bucket is that of done tasks, with a task there.  No default bucket is
chosen. -/
def doneFirst : Store :=
  [.createUser { username := "ada" }, .createProject 1 { title := "Plan" },
    .createBucket 1 1 { title := "Next" }, .updateProject 1 1 { doneBucketId := some 1 },
    .createTask 1 1 { title := "first", bucketId := some 1 }].foldl (Operation.after {}) {}

/-- The task stays in the bucket of done tasks when it is opened. -/
theorem not_doneCoherent_doneFirst :
    doneFirst.Reachable ∧ doneFirst.DoneCoherent ∧
      ∃ a s', (Operation.updateTask 1 1 { done := some false }).run {} doneFirst = .ok (a, s') ∧
      ¬ s'.DoneCoherent := by
  have hreach : doneFirst.Reachable := Reachable.empty.foldl_after {} _
  let p := (doneFirst.project? 1).get (by decide +kernel)
  let t := (doneFirst.task? 1).getD {}
  let b := (doneFirst.bucket? 1).getD {}
  have hrows : t.id = 1 ∧ doneFirst.getTask t.id = .ok t ∧
      doneFirst.projectFor .write 1 t.projectId = .ok p := by
    decide +kernel
  obtain ⟨hid, ht, hp⟩ := hrows
  have hboard : doneFirst.bucketsOf p.id = doneFirst.buckets :=
    bucketsOf_eq hreach.regular (List.Perm.of_eq (by decide +kernel)) (by decide +kernel)
  have hrefs : p.doneBucketId ≠ 0 ∧ t.bucketId = p.doneBucketId ∧ b.id = t.bucketId := by
    decide +kernel
  obtain ⟨h0, hdone, hfirst⟩ := hrefs
  have hdefault : doneFirst.resolveBucket p none = .ok t.bucketId := by
    rw [← hfirst]
    exact resolveBucket_first (by decide +kernel) (by rw [hboard]; decide +kernel)
      (by decide +kernel)
  have hu : doneFirst.withDone p t false = .ok (t.markDone false doneFirst.now) := by
    unfold withDone
    rw [bucketForDone_opened doneFirst h0 hdone, hdefault]
    exact if_pos rfl
  obtain ⟨a, s', hrun⟩ := updateTask_mark {} ht hp hu
  rw [hid] at hrun
  have hreopens : doneFirst.ReopensInDone (.updateTask 1 1 { done := some false }) := by
    rw [← hid]
    exact .intro (getTask_mem ht).1 (mem_of_projectFor hp).1
      (mem_of_projectFor hp).2 rfl h0 hdone hdefault
  exact ⟨hreach, by
    decide +kernel, a, s', hrun, not_doneCoherent_of_reopens hreach.regular hreopens hrun⟩

end Store

end Kanban
