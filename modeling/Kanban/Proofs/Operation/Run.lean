import Kanban.Operation
import Kanban.Proofs.Operation.Import

/-!
# Runs of operations

A successful operation on a regular store without dangling references (`Operation.run_effect`) is a
sequence of writes (`Operation.run_writes`).  So the stores that operations make of the empty one
are regular (`Store.Reachable.regular`), and no reference in them leads nowhere
(`Store.integral_foldl_after`).
-/

namespace Kanban

namespace Operation

/-- The user who acts, if the operation asks for one. -/
def actor? : Operation → Option Int
  | createUser _ | defaultBucket _ => none
  | createProject actor _ | readProject actor _ | updateProject actor _ _ | shareProject actor _
      _ | readBoard actor _ _
  | listBuckets actor _ | createBucket actor _ _ | readBucket actor _ _ | updateBucket actor _ _ _
  | deleteBucket actor _ _ | listTasks actor _ _ | createTask actor _ _ | readTask actor _ |
      updateTask actor _ _
  | deleteTask actor _ | moveTask actor _ _ | importProjects actor _ => some actor

variable {setup : Setup} {s s' : Store} {op : Operation} {a : Answer}

/-- What a successful operation did to the store: one that only reads left it as it was. -/
inductive Effect (s s' : Store) : Operation → Prop where
  | createUser {new : NewUser} {u : User} (h : s.createUser new = .ok (u, s')) : Effect s s'
      (.createUser new)
  | createProject {actor : Int} {new : NewProject} {p : Project}
      (h : s.createProject actor new = .ok (p, s')) : Effect s s' (.createProject actor new)
  | updateProject {actor project : Int} {patch : ProjectUpdate} {p : Project}
      (h : s.updateProject actor project patch = .ok (p, s')) : Effect s s'
        (.updateProject actor project patch)
  | shareProject {actor project : Int} {share : NewShare}
      (h : s.shareProject actor project share = .ok s') :
      Effect s s' (.shareProject actor project share)
  | createBucket {actor project : Int} {new : NewBucket} {b : BucketDetail}
      (h : s.createBucket actor project new = .ok (b, s')) : Effect s s'
        (.createBucket actor project new)
  | updateBucket {actor project bucket : Int} {patch : BucketUpdate} {b : BucketDetail}
      (h : s.updateBucket actor project bucket patch = .ok (b, s')) :
      Effect s s' (.updateBucket actor project bucket patch)
  | deleteBucket {actor project bucket : Int} (h : s.deleteBucket actor project bucket = .ok s') :
      Effect s s' (.deleteBucket actor project bucket)
  | createTask {actor project : Int} {new : NewTask} {t : TaskDetail}
      (h : s.createTask actor project new = .ok (t, s')) : Effect s s'
        (.createTask actor project new)
  | updateTask {actor task : Int} {patch : TaskUpdate} {t : TaskDetail}
      (h : s.updateTask actor task patch = .ok (t, s')) : Effect s s' (.updateTask actor task patch)
  | deleteTask {actor task : Int} (h : s.deleteTask actor task = .ok s') : Effect s s'
      (.deleteTask actor task)
  | moveTask {actor task : Int} {move : TaskMove} {t : TaskDetail}
      (h : s.moveTask actor task move = .ok (t, s')) :
      Effect s s' (.moveTask actor task move)
  | importProjects {actor : Int} {projects : List ProjectImport} {owner : User} {ps : List Project}
      (h : s.importProjects [] owner projects = .ok (ps, s')) : Effect s s'
        (.importProjects actor projects)
  | read {op : Operation} (h : s' = s) : Effect s s' op

theorem run_effect (h : op.run setup s = .ok (a, s')) : Effect s s' op := by
  cases op with
  | createUser new =>
    simp only [run, bind_eq_ok, Prod.exists, Except.ok.injEq, Prod.mk.injEq] at h
    obtain ⟨u, placed, h, -, rfl⟩ := h
    exact .createUser h
  | createProject actor new =>
    simp only [run, bind_eq_ok, Prod.exists, Except.ok.injEq, Prod.mk.injEq] at h
    obtain ⟨p, placed, h, -, rfl⟩ := h
    exact .createProject h
  | updateProject actor project patch =>
    simp only [run, bind_eq_ok, Prod.exists, Except.ok.injEq, Prod.mk.injEq] at h
    obtain ⟨p, placed, h, -, rfl⟩ := h
    exact .updateProject h
  | shareProject actor project share =>
    simp only [run, bind_eq_ok, Except.ok.injEq, Prod.mk.injEq] at h
    obtain ⟨placed, h, -, rfl⟩ := h
    exact .shareProject h
  | createBucket actor project new =>
    simp only [run, bind_eq_ok, Prod.exists, Except.ok.injEq, Prod.mk.injEq] at h
    obtain ⟨b, placed, h, -, rfl⟩ := h
    exact .createBucket h
  | updateBucket actor project bucket patch =>
    simp only [run, bind_eq_ok, Prod.exists, Except.ok.injEq, Prod.mk.injEq] at h
    obtain ⟨b, placed, h, -, rfl⟩ := h
    exact .updateBucket h
  | deleteBucket actor project bucket =>
    simp only [run, bind_eq_ok, Except.ok.injEq, Prod.mk.injEq] at h
    obtain ⟨placed, h, -, rfl⟩ := h
    exact .deleteBucket h
  | createTask actor project new =>
    simp only [run, bind_eq_ok, Prod.exists, Except.ok.injEq, Prod.mk.injEq] at h
    obtain ⟨t, placed, h, -, rfl⟩ := h
    exact .createTask h
  | updateTask actor task patch =>
    simp only [run, bind_eq_ok, Prod.exists, Except.ok.injEq, Prod.mk.injEq] at h
    obtain ⟨t, placed, h, -, rfl⟩ := h
    exact .updateTask h
  | deleteTask actor task =>
    simp only [run, bind_eq_ok, Except.ok.injEq, Prod.mk.injEq] at h
    obtain ⟨placed, h, -, rfl⟩ := h
    exact .deleteTask h
  | moveTask actor task move =>
    simp only [run, bind_eq_ok, Prod.exists, Except.ok.injEq, Prod.mk.injEq] at h
    obtain ⟨t, placed, h, -, rfl⟩ := h
    exact .moveTask h
  | importProjects actor projects =>
    simp only [run, Store.importAll, bind_eq_ok, Prod.exists, Except.ok.injEq, Prod.mk.injEq] at h
    obtain ⟨ps, placed, ⟨owner, -, h⟩, -, rfl⟩ := h
    exact .importProjects h
  | readProject | readBoard | listBuckets | defaultBucket | readBucket | listTasks | readTask =>
    simp only [run, bind_eq_ok, Except.ok.injEq, Prod.mk.injEq] at h
    obtain ⟨_, -, -, rfl⟩ := h
    exact .read rfl

end Operation

/-- Registering a user adds a row. -/
theorem Store.createUser_eq_ok {s s' : Store} {new : NewUser} {u : User}
    (h : s.createUser new = .ok (u, s')) :
    ∃ username name, s' = (s.addUser username name).2 := by
  simp only [createUser, bind_eq_ok] at h
  obtain ⟨username, -, h⟩ := h
  split at h
  · simp at h
  · have hadd : s.addUser username (Text.trimmed new.name) = (u, s') := Except.ok.inj h
    exact ⟨username, Text.trimmed new.name, (congrArg Prod.snd hadd).symm⟩

/-- A successful operation is a sequence of writes. -/
theorem Operation.run_writes {setup : Setup} {s s' : Store} {op : Operation} {a : Answer}
    (hs : s.Regular) (hi : s.Integral) (h : op.run setup s = .ok (a, s')) : s.Writes s' := by
  cases run_effect h with
  | createUser hop =>
    obtain ⟨username, name, rfl⟩ := Store.createUser_eq_ok hop
    exact .single (.newUser username name)
  | createProject hop => exact Store.createProject_writes hs hop
  | updateProject hop => exact Store.updateProject_writes hop
  | shareProject hop => exact Store.shareProject_writes hop
  | createBucket hop => exact Store.createBucket_writes hs hop
  | updateBucket hop => exact Store.updateBucket_writes hs hop
  | deleteBucket hop => exact Store.deleteBucket_writes hs hi hop
  | createTask hop => exact Store.createTask_writes hop
  | updateTask hop => exact Store.updateTask_writes hs hop
  | deleteTask hop => exact Store.deleteTask_writes hop
  | moveTask hop => exact Store.moveTask_writes hs hop
  | importProjects hop => exact Store.importProjects_writes hs hop
  | read hop =>
    subst hop
    exact .refl

theorem Operation.after_writes (setup : Setup) {s : Store} (op : Operation) (hs : s.Regular)
    (hi : s.Integral) :
    s.Writes (op.after setup s) := by
  unfold Operation.after
  split
  · rename_i a s' h
    exact run_writes hs hi h
  · exact .refl

namespace Store

/-- The store comes from the empty one by operations, which may fail. -/
inductive Reachable : Store → Prop where
  | empty : Reachable {}
  | after (setup : Setup) {s : Store} (op : Operation) : Reachable s → Reachable (op.after setup s)

theorem Reachable.regular_integral {s : Store} (h : s.Reachable) : s.Regular ∧ s.Integral := by
  induction h with
  | empty => exact ⟨Regular.empty, Integral.empty⟩
  | after setup op _ ih => exact (op.after_writes setup ih.1 ih.2).integral ih.1 ih.2

theorem Reachable.regular {s : Store} (h : s.Reachable) : s.Regular := h.regular_integral.1

theorem Reachable.integral {s : Store} (h : s.Reachable) : s.Integral := h.regular_integral.2

theorem Reachable.foldl_after (setup : Setup) {s : Store} (h : s.Reachable) (ops : List Operation) :
    (ops.foldl (Operation.after setup) s).Reachable := by
  induction ops generalizing s with
  | nil => exact h
  | cons op ops ih => exact ih (h.after setup op)

/-- Whatever operations are tried one after the other: every project has a bucket, refers to buckets
of its own only, and every task is in a bucket of its project. -/
theorem integral_foldl_after (setup : Setup) (ops : List Operation) :
    (ops.foldl (Operation.after setup) {}).Integral :=
  (Reachable.empty.foldl_after setup ops).integral

end Store

end Kanban
