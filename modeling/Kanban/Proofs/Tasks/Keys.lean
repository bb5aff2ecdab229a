import Kanban.Proofs.Tasks.Retry

/-!
# The keys of changed tasks

An update or a move of a task gives it another key in a bucket only together with another bucket,
behind the tasks there (`Store.keys_withPatch`, `Store.kanbanPosition_moved`), and the key in the
other scope stays.  While a place is sought in one scope, all rows keep their state and their keys
in the other scope (`Store.exists_map_of_place`).
-/

namespace Kanban

namespace Task

variable {scope other : Scope} {t : Task}

theorem key_withKey_of_ne (h : other ≠ scope) (t : Task) (x : Double) :
    (t.withKey scope x).key other = t.key other := by
  cases scope <;> cases other <;> first | rfl | exact absurd rfl h

/-- Rows are kept without the sign of a zero, so what is stored is as it was. -/
theorem key_rekeyed_of_ne (h : other ≠ scope) (ht : t.stored = t) (keys : List (Int × Double)) :
    (t.rekeyed scope keys).key other = t.key other := by
  unfold rekeyed
  split
  · rw [key_stored, key_withKey_of_ne h, ← key_stored, ht]
  · rfl

/-- A task is done in the bucket of done tasks, open if it left that bucket, and else as it was. -/
theorem done_enterBucket_eq (t : Task) (p : Project) (target : Int) (time : Instant) :
    (t.enterBucket p target time).done =
      if p.doneBucketId ≠ 0 ∧ target = p.doneBucketId then true
      else if p.doneBucketId ≠ 0 ∧ t.bucketId = p.doneBucketId then false else t.done := by
  unfold enterBucket
  split
  · exact done_markDone _ _ _
  split
  · exact done_markDone _ _ _
  · rfl

end Task

namespace Store

variable {s placed : Store} {p : Project} {t u : Task}

/-! ### Updated tasks -/

/-- An updated task keeps its keys with its bucket.  Otherwise its mark was asked for, and it stands
behind the tasks in its new bucket. -/
theorem keys_withPatch {patch : TaskUpdate} (h : s.withPatch p t patch = .ok u) :
    u.position = t.position ∧
      (u.bucketId = t.bucketId ∧ u.kanbanPosition = t.kanbanPosition ∨
        u.bucketId ≠ t.bucketId ∧ u.kanbanPosition = s.keyAtEnd u.bucketId t.id ∧
        patch.done = some u.done) := by
  simp only [withPatch, bind_eq_ok] at h
  obtain ⟨v, hv, h⟩ := h
  obtain ⟨hid, -, hbucket, hkey⟩ := taskPatched_eq_ok hv
  have hlist : v.position = t.position := hkey .list
  have hkanban : v.kanbanPosition = t.kanbanPosition := hkey .kanban
  rcases renewed_eq_ok.1 h with ⟨-, rfl⟩ | ⟨done, hdone, h⟩
  · exact ⟨hlist, .inl ⟨hbucket, hkanban⟩⟩
  simp only [withDone, bind_eq_ok] at h
  obtain ⟨target, -, h⟩ := h
  split at h
  · obtain rfl := Except.ok.inj h
    rw [Task.markDone_eq]
    exact ⟨hlist, .inl ⟨hbucket, hkanban⟩⟩
  · rename_i hne
    simp only [bind_eq_ok, Except.ok.injEq] at h
    obtain ⟨b, -, room, -, rfl⟩ := h
    rw [Task.markDone_eq, Task.enterBucket_eq, hdone, ← hid, ← hbucket]
    exact ⟨hlist, .inr ⟨hne, rfl, rfl⟩⟩

/-! ### Moved tasks -/

theorem position_moved (s : Store) (p : Project) (t : Task) {m : TaskMove} (key : Double)
    (h : m.scope = .kanban) :
    (s.moved p t m key).position = t.position := by
  have hkey : (t.withKey m.scope key).position = t.position := by rw [h]; rfl
  unfold moved rehoused
  split
  · exact hkey
  · rw [Task.enterBucket_eq, h]
    rfl

theorem kanbanPosition_moved (s : Store) (p : Project) (t : Task) {m : TaskMove} (key : Double)
    (h : m.scope = .list) :
    (s.moved p t m key).kanbanPosition =
      if m.target t = t.bucketId then t.kanbanPosition else s.keyAtEnd (m.target t) t.id := by
  unfold moved rehoused
  rw [Task.bucketId_withKey, Task.id_withKey, h]
  split
  · rfl
  · rw [Task.enterBucket_eq]

/-! ### The search for a place -/

/-- While a place is sought, rows keep their state and their keys in the other scope. -/
theorem exists_map_of_place (hs : s.Regular) {place : Place} {moving : Int}
    {before after : Option Int} {key : Double}
    (h : s.place place moving before after = .ok (key, placed)) :
    ∃ f : Task → Task, placed.tasks = s.tasks.map f ∧
      ∀ u ∈ s.tasks, (f u).state = u.state ∧ ∀ other ≠ place.scope,
      (f u).key other = u.key other := by
  obtain rfl | rfl := store_of_place h
  · exact ⟨id, (List.map_id _).symm, fun u _ => ⟨rfl, fun _ _ => rfl⟩⟩
  · refine ⟨_, by rw [rebalance_eq hs.tasks.nodup], fun u hu => ⟨Task.state_rekeyed,
      fun other hne => ?_⟩⟩
    exact Task.key_rekeyed_of_ne hne (hs.taskRows u hu).1 _

end Store

end Kanban
