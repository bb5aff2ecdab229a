import Kanban.Proofs.Position.Numbers
import Kanban.Proofs.Tasks.Order

/-!
# Spreading out the keys of a scope

Assigning keys changes the listed tasks and nothing else (`Store.assignKeys_eq`).  Spreading out
gives the tasks of a scope, but for the moving one, the multiples of the spacing in their order
(`Store.rankedIn`, `Store.key_rebalanced`), so their order stays (`Store.rebalance_lt_iff`).
-/

namespace Kanban

/-- The task with the key that is listed for it, if there is one. -/
def Task.rekeyed (scope : Scope) (keys : List (Int × Double)) (t : Task) : Task :=
  match keys.lookup t.id with
  | some x => (t.withKey scope x).stored
  | none => t

namespace Task

variable {scope : Scope} {keys : List (Int × Double)} {t : Task}

@[simp] theorem id_rekeyed : (t.rekeyed scope keys).id = t.id := by
  unfold rekeyed
  split <;> simp

@[simp] theorem projectId_rekeyed : (t.rekeyed scope keys).projectId = t.projectId := by
  unfold rekeyed
  split <;> simp

@[simp] theorem bucketId_rekeyed : (t.rekeyed scope keys).bucketId = t.bucketId := by
  unfold rekeyed
  split <;> simp

@[simp] theorem contains_rekeyed (p : Place) :
    p.contains (t.rekeyed scope keys) = p.contains t := by
  unfold rekeyed
  split <;> simp

theorem rekeyed_eq (scope : Scope) (keys : List (Int × Double)) :
    rekeyed scope keys = changed (·.id) (fun x t => (t.withKey scope x).stored) keys := by
  funext t
  unfold rekeyed changed
  cases keys.lookup t.id <;> rfl

theorem rekeyed_eq_self (h : t.id ∉ keys.map Prod.fst) : t.rekeyed scope keys = t := by
  rw [rekeyed_eq]
  exact changed_eq_self h

end Task

/-- Equal positions of two lists are paired in a lookup. -/
theorem lookup_zip {ids : List Int} {values : List Double} (hids : ids.Nodup) {i : Nat} {k : Int}
    {x : Double} (hk : ids[i]? = some k) (hx : values[i]? = some x) :
    (ids.zip values).lookup k = some x := by
  induction ids generalizing values i with
  | nil => simp at hk
  | cons a ids ih =>
    cases values with
    | nil => simp at hx
    | cons b values =>
      rw [List.nodup_cons] at hids
      rw [List.zip_cons_cons, List.lookup_cons]
      cases i with
      | zero =>
        simp only [List.getElem?_cons_zero, Option.some.injEq] at hk hx
        simp [hk, hx]
      | succ i =>
        rw [List.getElem?_cons_succ] at hk hx
        have hne : k ≠ a := fun heq => hids.1 (heq ▸ List.mem_of_getElem? hk)
        have hbeq : (k == a) = false := by simpa using hne
        rw [hbeq]
        exact ih hids.2 hk hx

namespace Store

variable {s : Store}

/-! ### Assigning keys -/

theorem task?_eq_some (hids : (s.tasks.map (·.id)).Nodup) {id : Int} {t : Task} :
    s.task? id = some t ↔ t ∈ s.tasks ∧ t.id = id :=
  find?_key_eq_some hids

/-- Putting a changed task in the place of its old self changes it where it stands. -/
theorem setTask_eq (hids : (s.tasks.map (·.id)).Nodup) {t : Task} (ht : t ∈ s.tasks)
    {f : Task → Task} (hf : (f t).id = t.id) :
    s.setTask (f t) =
      { s with tasks := s.tasks.map fun x => if x.id == t.id then (f x).stored else x } := by
  unfold setTask
  congr 1
  apply List.map_congr_left
  intro x hx
  rw [hf]
  split
  · rename_i heq
    rw [eq_of_key_eq hids hx ht (by simpa using heq)]
  · rfl

theorem assignKey_eq (hids : (s.tasks.map (·.id)).Nodup) (scope : Scope) (id : Int) (x : Double) :
    s.assignKey scope id x =
      { s with tasks := s.tasks.map fun t => if t.id == id then (t.withKey scope x).stored
        else t } := by
  unfold assignKey
  cases hfind : s.task? id with
  | some t =>
    obtain ⟨ht, rfl⟩ := (task?_eq_some hids).1 hfind
    exact setTask_eq hids ht (f := (·.withKey scope x)) (Task.id_withKey t scope x)
  | none =>
    have hsame : (s.tasks.map fun t => if t.id == id then (t.withKey scope x).stored
        else t) = s.tasks := by
      refine (List.map_congr_left fun t ht => ?_).trans (List.map_id _)
      rw [if_neg (List.find?_eq_none.1 hfind t ht)]
      rfl
    rw [hsame]

/-- Assigning keys changes the keys of the listed tasks and nothing else. -/
theorem assignKeys_eq (hids : (s.tasks.map (·.id)).Nodup) (scope : Scope)
    {keys : List (Int × Double)} (hkeys : (keys.map Prod.fst).Nodup) :
    s.assignKeys scope keys = { s with tasks := s.tasks.map (Task.rekeyed scope keys) } := by
  induction keys generalizing s with
  | nil =>
    have hid : Task.rekeyed scope [] = id := funext fun t => rfl
    rw [hid, List.map_id]
    rfl
  | cons k keys ih =>
    obtain ⟨id, x⟩ := k
    rw [List.map_cons, List.nodup_cons] at hkeys
    have hids' : ((s.tasks.map fun t => if t.id == id then (t.withKey scope x).stored else t).map
        (·.id)).Nodup := by
      rw [List.map_map]
      have hsame : ∀ t ∈ s.tasks, ((·.id) ∘ fun t : Task => if t.id == id
          then (t.withKey scope x).stored else t) t =
          t.id := by
        intro t _
        simp only [Function.comp_apply]
        split <;> simp
      rwa [List.map_congr_left hsame]
    rw [assignKeys, assignKey_eq hids, ih hids' hkeys.2, List.map_map]
    congr 1
    apply List.map_congr_left
    intro t _
    rw [Function.comp_apply, Task.rekeyed_eq, Task.rekeyed_eq]
    exact changed_cons (fun x t => by simp) hkeys.1 x t

/-! ### Spreading out -/

theorem rankedIn_perm (s : Store) (p : Place) (moving : Int) :
    (s.rankedIn p moving).Perm (s.othersIn p moving) := by
  have hperm := (s.orderedIn_perm p.scope p.id).filter (·.id != moving)
  rw [tasksIn_eq, List.filter_filter] at hperm
  refine hperm.trans (List.Perm.of_eq ?_)
  exact List.filter_congr fun t _ => Bool.and_comm _ _

theorem mem_rankedIn {p : Place} {moving : Int} {t : Task} :
    t ∈ s.rankedIn p moving ↔ t ∈ s.othersIn p moving := (s.rankedIn_perm p moving).mem_iff

theorem mem_othersIn {p : Place} {moving : Int} {t : Task} :
    t ∈ s.othersIn p moving ↔ t ∈ s.tasks ∧ p.contains t = true ∧ t.id ≠ moving := by
  simp [othersIn]

theorem fst_spreadKeys (s : Store) (p : Place) (moving : Int) :
    (s.spreadKeys p moving).map Prod.fst = (s.rankedIn p moving).map (·.id) :=
  List.map_fst_zip (by rw [Position.length_rebalanced])

/-- The moving task keeps its key. -/
theorem rekeyed_moving {p : Place} {moving : Int} {t : Task} (ht : t.id = moving) :
    t.rekeyed p.scope (s.spreadKeys p moving) = t := by
  refine Task.rekeyed_eq_self ?_
  rw [fst_spreadKeys, List.mem_map]
  rintro ⟨u, hu, heq⟩
  exact (mem_othersIn.1 (mem_rankedIn.1 hu)).2.2 (heq.trans ht)

/-- Spreading out leaves out the moving task and the tasks outside of the scope. -/
theorem rekeyed_of_not_mem {p : Place} {moving : Int} {u : Task} (hu : u ∉ s.othersIn p moving)
    (hids : (s.tasks.map (·.id)).Nodup) (hmem : u ∈ s.tasks) :
    u.rekeyed p.scope (s.spreadKeys p moving) = u := by
  apply Task.rekeyed_eq_self
  intro hid
  rw [fst_spreadKeys, List.mem_map] at hid
  obtain ⟨v, hv, heq⟩ := hid
  have hothers := mem_rankedIn.1 hv
  obtain rfl := eq_of_key_eq hids (mem_othersIn.1 hothers).1 hmem heq
  exact hu hothers

section

variable (hids : (s.tasks.map (·.id)).Nodup)

include hids

theorem nodup_rankedIn (p : Place) (moving : Int) : ((s.rankedIn p moving).map (·.id)).Nodup := by
  refine (((s.rankedIn_perm p moving).map _).nodup_iff).2 ?_
  exact hids.sublist (List.filter_sublist.map _)

theorem rebalance_eq (p : Place) (moving : Int) :
    s.rebalance p moving =
      { s with tasks := s.tasks.map (Task.rekeyed p.scope (s.spreadKeys p moving)) } := by
  exact assignKeys_eq hids p.scope (fst_spreadKeys s p moving ▸ nodup_rankedIn hids p moving)

/-- The task of rank `i` is listed with the key of this rank. -/
theorem lookup_spreadKeys {p : Place} {moving : Int} {i : Nat} {t : Task}
    (ht : (s.rankedIn p moving)[i]? = some t) :
    (s.spreadKeys p moving).lookup t.id =
      (Position.rebalanced (s.rankedIn p moving).length)[i]? := by
  have hi : i < (Position.rebalanced (s.rankedIn p moving).length).length := by
    rw [Position.length_rebalanced]
    exact (List.getElem?_eq_some_iff.1 ht).1
  rw [List.getElem?_eq_getElem hi]
  refine lookup_zip (nodup_rankedIn hids p moving) (i := i) ?_ ?_
  · rw [List.getElem?_map, ht]
    rfl
  · rw [List.length_map]
    exact List.getElem?_eq_getElem hi

/-- The task of rank `i` gets the multiple `i + 1` of the spacing, and nothing else of it
changes. -/
theorem rekeyed_ranked {p : Place} {moving : Int} (hfew : (s.othersIn p moving).length < 2 ^ 50)
    {i : Nat} {t : Task} (ht : (s.rankedIn p moving)[i]? = some t) :
    t.rekeyed p.scope (s.spreadKeys p moving) =
      (t.withKey p.scope (Position.halfSpacings (2 * (i + 1)))).stored := by
  have hlen := (s.rankedIn_perm p moving).length_eq
  have hi : i < (s.rankedIn p moving).length := (List.getElem?_eq_some_iff.1 ht).1
  rw [Task.rekeyed, lookup_spreadKeys hids ht, Position.getElem?_rebalanced (by omega) hi]

theorem key_rebalanced {p : Place} {moving : Int} (hfew : (s.othersIn p moving).length < 2 ^ 50)
    {i : Nat} {t : Task} (ht : (s.rankedIn p moving)[i]? = some t) :
    (t.rekeyed p.scope (s.spreadKeys p moving)).key p.scope =
      Position.halfSpacings (2 * (i + 1)) := by
  have hlen := (s.rankedIn_perm p moving).length_eq
  have hi : i < (s.rankedIn p moving).length := (List.getElem?_eq_some_iff.1 ht).1
  rw [rekeyed_ranked hids hfew ht, Task.key_stored, Task.key_withKey]
  exact Position.unsignZero_halfSpacings (by omega) (by omega)

theorem rankedIn_increasing {p : Place} (hnum : ∀ t ∈ s.tasks, (t.key p.scope).isNaN = false)
    (moving : Int) :
    (s.rankedIn p moving).Pairwise (·.spot p.scope < ·.spot p.scope) :=
  (orderedIn_increasing hids hnum p.id).filter _

/-- The tasks of the scope stand in the order of their ranks. -/
theorem rank_lt_iff {p : Place} {moving : Int} (hnum : ∀ t ∈ s.tasks, (t.key p.scope).isNaN = false)
    {i j : Nat} {t u : Task} (ht : (s.rankedIn p moving)[i]? = some t)
    (hu : (s.rankedIn p moving)[j]? = some u) :
    i < j ↔ t.spot p.scope < u.spot p.scope := by
  have hsorted := rankedIn_increasing hids hnum moving
  rw [List.pairwise_iff_getElem] at hsorted
  obtain ⟨hi, rfl⟩ := List.getElem?_eq_some_iff.1 ht
  obtain ⟨hj, rfl⟩ := List.getElem?_eq_some_iff.1 hu
  refine ⟨hsorted i j hi hj, fun hlt => ?_⟩
  rcases Nat.lt_trichotomy i j with h | rfl | h
  · exact h
  · exact absurd hlt (lt_irrefl _)
  · exact absurd (hsorted j i hj hi h) (lt_asymm hlt)

/-- The order of the other tasks of the scope stays. -/
theorem rebalance_lt_iff {p : Place} {moving : Int}
    (hnum : ∀ t ∈ s.tasks, (t.key p.scope).isNaN = false)
    (hfew : (s.othersIn p moving).length < 2 ^ 50) {t u : Task} (ht : t ∈ s.othersIn p moving)
    (hu : u ∈ s.othersIn p moving) :
    (t.rekeyed p.scope (s.spreadKeys p moving)).key p.scope <
      (u.rekeyed p.scope (s.spreadKeys p moving)).key p.scope ↔
      t.spot p.scope < u.spot p.scope := by
  obtain ⟨i, hi⟩ := List.mem_iff_getElem?.1 (mem_rankedIn.2 ht)
  obtain ⟨j, hj⟩ := List.mem_iff_getElem?.1 (mem_rankedIn.2 hu)
  have hlen := (s.rankedIn_perm p moving).length_eq
  have hi' : i < (s.rankedIn p moving).length := (List.getElem?_eq_some_iff.1 hi).1
  have hj' : j < (s.rankedIn p moving).length := (List.getElem?_eq_some_iff.1 hj).1
  rw [key_rebalanced hids hfew hi, key_rebalanced hids hfew hj,
    Position.halfSpacings_lt (by omega) (by omega),
    ← rank_lt_iff hids hnum hi hj]
  omega

theorem othersIn_rebalance (p : Place) (moving : Int) :
    (s.rebalance p moving).othersIn p moving =
      (s.othersIn p moving).map (Task.rekeyed p.scope (s.spreadKeys p moving)) := by
  rw [rebalance_eq hids]
  simp [othersIn, List.filter_map, Function.comp_def]

/-- After spreading out all keys but the moving one are multiples of the spacing. -/
theorem key_othersIn_rebalance {p : Place} {moving : Int}
    (hfew : (s.othersIn p moving).length < 2 ^ 50) {t : Task}
    (ht : t ∈ (s.rebalance p moving).othersIn p moving) :
    ∃ k, 0 < k ∧ k ≤ 2 ^ 50 ∧ t.key p.scope = Position.halfSpacings (2 * k) := by
  rw [othersIn_rebalance hids, List.mem_map] at ht
  obtain ⟨u, hu, rfl⟩ := ht
  obtain ⟨i, hi⟩ := List.mem_iff_getElem?.1 (mem_rankedIn.2 hu)
  have hlen := (s.rankedIn_perm p moving).length_eq
  have hlt : i < (s.rankedIn p moving).length := (List.getElem?_eq_some_iff.1 hi).1
  exact ⟨i + 1, by omega, by omega, key_rebalanced hids hfew hi⟩

theorem isNaN_key_rebalance {p : Place} {moving : Int}
    (hnum : ∀ t ∈ s.tasks, (t.key p.scope).isNaN = false) :
    ∀ t ∈ (s.rebalance p moving).tasks, (t.key p.scope).isNaN = false := by
  rw [rebalance_eq hids]
  intro t ht
  obtain ⟨u, hu, rfl⟩ := List.mem_map.1 ht
  unfold Task.rekeyed
  split
  · rename_i x hx
    rw [Task.key_stored, Double.isNaN_unsignZero, Task.key_withKey]
    exact Position.isNaN_rebalanced x (List.of_mem_zip (mem_of_lookup hx)).2
  · exact hnum u hu

theorem nodup_rebalance (p : Place) (moving : Int) :
    ((s.rebalance p moving).tasks.map (·.id)).Nodup := by
  rw [rebalance_eq hids, List.map_map]
  have hsame : (·.id) ∘ Task.rekeyed p.scope (s.spreadKeys p moving) = (·.id) :=
    funext fun t => Task.id_rekeyed
  rwa [hsame]

/-- The other tasks of the scope keep their ranks. -/
theorem rankedIn_rebalance {p : Place} {moving : Int}
    (hnum : ∀ t ∈ s.tasks, (t.key p.scope).isNaN = false)
    (hfew : (s.othersIn p moving).length < 2 ^ 50) :
    (s.rebalance p moving).rankedIn p moving =
      (s.rankedIn p moving).map (Task.rekeyed p.scope (s.spreadKeys p moving)) := by
  have hperm : ((s.rebalance p moving).rankedIn p moving).Perm
      ((s.rankedIn p moving).map (Task.rekeyed p.scope (s.spreadKeys p moving))) := by
    refine ((s.rebalance p moving).rankedIn_perm p moving).trans ?_
    rw [othersIn_rebalance hids]
    exact ((s.rankedIn_perm p moving).map _).symm
  have hnum' : ∀ t ∈ (s.rebalance p moving).tasks, (t.key p.scope).isNaN = false :=
    isNaN_key_rebalance hids hnum
  refine eq_of_increasing hperm
    (rankedIn_increasing (nodup_rebalance hids p moving) hnum' moving) ?_
  rw [List.pairwise_map]
  refine (rankedIn_increasing hids hnum moving).imp_of_mem fun {t u} ht hu htu => ?_
  have hmem : ∀ v ∈ s.rankedIn p moving,
      ((v.rekeyed p.scope (s.spreadKeys p moving)).key p.scope).isNaN = false := fun v hv => by
    refine hnum' _ ?_
    rw [rebalance_eq hids]
    exact List.mem_map_of_mem (mem_othersIn.1 (mem_rankedIn.1 hv)).1
  have hlt := (rebalance_lt_iff hids hnum hfew (mem_rankedIn.1 ht) (mem_rankedIn.1 hu)).2 htu
  rw [Double.lt_iff_place (hmem t ht) (hmem u hu)] at hlt
  exact spot_lt_iff.2 (.inl hlt)

end

end Store

end Kanban
