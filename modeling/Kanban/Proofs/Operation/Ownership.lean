import Kanban.Proofs.Operation.Run

/-!
# Rows that belong to others

Every bucket belongs to a project that exists, and every label is put on a task that exists
(`Store.Owned`).  Projects stay, and a task takes its links along when it goes, so every write keeps
this (`Store.Write.owned`).  Hence the ids to which rows of a reachable store refer have been given
out (`Store.Reachable.owned`).
-/

namespace Kanban.Store

/-- No bucket is without a project, and no link without a task. -/
structure Owned (s : Store) : Prop where
  buckets : ∀ b ∈ s.buckets, ∃ p ∈ s.projects, p.id = b.projectId
  links : ∀ k ∈ s.labelLinks, s.HasTask k.taskId

variable {s s' : Store}

private theorem exists_replaced {α : Type} {key : α → Int} {rows : List α} {i j : Int} {y : α}
    (hy : key y = i) (h : ∃ x ∈ rows, key x = j) :
    ∃ x ∈ rows.map (fun x => if key x == i then y else x), key x = j := by
  have hids := map_key_replace hy rows
  rw [← List.mem_map, hids]
  exact List.mem_map.2 h

theorem hasTask_append {id : Int} (h : s.HasTask id) (hnew : ∃ new, s'.tasks = s.tasks ++ new) :
    s'.HasTask id := by
  obtain ⟨t, ht, hid⟩ := h
  obtain ⟨new, htasks⟩ := hnew
  exact ⟨t, by rw [htasks]; exact List.mem_append_left _ ht, hid⟩

/-- No write leaves a row without the one to which it belongs. -/
theorem Write.owned (h : s.Write s') (_ : s.Regular) (ho : s.Owned) : s'.Owned := by
  have hold : ∀ {p : Project} {i : Int}, (∃ q ∈ s.projects, q.id = i) → ∃ q ∈ s.projects ++ [p],
      q.id = i := by
    rintro p i ⟨q, hq, hid⟩
    exact ⟨q, List.mem_append_left _ hq, hid⟩
  cases h with
  | clock | newUser | newLabel => exact { ho with }
  | share h =>
    unfold putShare
    split <;> exact { ho with }
  | newProject title description ownerId hb =>
    refine { ho with buckets := fun b hmem => ?_ }
    rcases List.mem_append.1 hmem with hmem | hmem
    · exact hold (ho.buckets b hmem)
    · obtain rfl := List.mem_singleton.1 hmem
      exact ⟨_, List.mem_append_right _ (List.mem_singleton_self _), hb.symm⟩
  | project => exact { ho with buckets := fun b hb => exists_replaced rfl (ho.buckets b hb) }
  | newBucket hp =>
    refine { ho with buckets := fun b hmem => ?_ }
    rcases List.mem_append.1 hmem with hmem | hmem
    · exact ho.buckets b hmem
    · obtain rfl := List.mem_singleton.1 hmem
      exact hp
  | bucket hmem hid hproject =>
    refine { ho with buckets := fun b hb => ?_ }
    rcases mem_replace.1 hb with ⟨hb, -⟩ | ⟨rfl, -⟩
    · exact ho.buckets b hb
    · have hown := ho.buckets _ hmem
      rwa [← hproject] at hown
  | dropBucket => exact { ho with buckets := fun b hb => ho.buckets b (List.mem_of_mem_filter hb) }
  | newTask => exact { ho with links := fun k hk => hasTask_append (ho.links k hk) ⟨_, rfl⟩ }
  | task =>
    exact { ho with links := fun k hk => exists_replaced (Task.id_stored _) (ho.links k hk) }
  | dropTask id =>
    refine { ho with links := fun k hk => ?_ }
    obtain ⟨hk, hne⟩ := List.mem_filter.1 hk
    obtain ⟨t, ht, hid⟩ := ho.links k hk
    exact ⟨t, List.mem_filter.2 ⟨ht, by rw [hid]; exact hne⟩, hid⟩
  | link labelId ht =>
    unfold linkLabel
    split
    · exact ho
    · refine { ho with links := fun k hk => ?_ }
      rcases List.mem_append.1 hk with hk | hk
      · exact ho.links k hk
      · obtain rfl := List.mem_singleton.1 hk
        exact ht

theorem Reachable.owned (h : s.Reachable) : s.Owned := by
  induction h with
  | empty => exact ⟨by simp, by simp⟩
  | after setup op hs ih =>
    exact ((op.after_writes setup hs.regular hs.integral).invariant Write.owned hs.regular ih).2

end Kanban.Store
