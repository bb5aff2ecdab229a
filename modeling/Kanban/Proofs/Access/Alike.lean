import Kanban.Proofs.Access.View

/-!
# Stores that are alike for a user

A user sees the projects on which some right is held (`Store.Sees`).  Two stores are alike for a
user if they have the same accounts, shares, labels and ids of rows, and differ only in the contents
of projects that the user does not see (`Store.AlikeFor`): in the rows of projects, buckets and
tasks, apart from ids and owners, and in what is linked to tasks.  Looking up a project or a task
ends alike in both stores, and what is found is the same if the user may see it
(`Store.AlikeFor.projectFor_agree`, `Store.AlikeFor.task_agree`).
-/

namespace Kanban

/-! ### Tables row by row -/

section

variable {α : Type} {R : α → α → Prop} {rows rows' : List α} {q : α → Bool}

theorem find?_of_forall₂ (h : List.Forall₂ R rows rows') (hq : ∀ x x', R x x' → q x' = q x) :
    (rows.find? q = none ∧ rows'.find? q = none) ∨
      ∃ x x', rows.find? q = some x ∧ rows'.find? q = some x' ∧ R x x' := by
  induction h with
  | nil => exact .inl ⟨rfl, rfl⟩
  | @cons x x' xs xs' hx _ ih =>
    have hqx := hq x x' hx
    by_cases hfound : q x = true
    · exact .inr ⟨x, x', List.find?_cons_of_pos hfound,
        List.find?_cons_of_pos (hqx.trans hfound), hx⟩
    · rwa [List.find?_cons_of_neg hfound, List.find?_cons_of_neg (hqx ▸ hfound)]

theorem filter_of_forall₂ (h : List.Forall₂ R rows rows') (hq : ∀ x x', R x x' → q x' = q x)
    (hsame : ∀ x x', R x x' → q x = true → x' = x) : rows'.filter q = rows.filter q := by
  induction h with
  | nil => rfl
  | @cons x x' xs xs' hx _ ih =>
    have hqx := hq x x' hx
    by_cases hsel : q x = true
    · rw [hsame x x' hx hsel, List.filter_cons_of_pos hsel, List.filter_cons_of_pos hsel, ih]
    · rw [List.filter_cons_of_neg hsel, List.filter_cons_of_neg (hqx ▸ hsel), ih]

end

/-- A row in two stores: it keeps its id and its project, and unless the project is hidden, it is
the same. -/
structure SameRow {α : Type} (seen : Int → Prop) (id project : α → Int) (x x' : α) : Prop where
  id_eq : id x' = id x
  project_eq : project x' = project x
  contents : seen (project x) → x' = x

instance {α : Type} [DecidableEq α] (seen : Int → Prop) [DecidablePred seen] (id project : α → Int)
    (x x' : α) :
    Decidable (SameRow seen id project x x') :=
  decidable_of_iff (id x' = id x ∧ project x' = project x ∧ (seen (project x) → x' = x))
    ⟨fun h => ⟨h.1, h.2.1, h.2.2⟩, fun h => ⟨h.id_eq, h.project_eq, h.contents⟩⟩

namespace Store

variable {s s' : Store} {actor : Int} {p : Project}

/-- The user holds some right on the project with the id. -/
def Sees (s : Store) (actor projectId : Int) : Prop :=
  ∃ p ∈ s.projects, p.id = projectId ∧ s.allows actor p .read = true

instance (s : Store) (actor : Int) : DecidablePred (s.Sees actor) := fun projectId =>
  inferInstanceAs (Decidable (∃ p ∈ s.projects, p.id = projectId ∧ s.allows actor p .read = true))

/-- The stores have the same rows with the same ids and differ only in contents of projects that the
user does not see. -/
structure AlikeFor (s : Store) (actor : Int) (s' : Store) : Prop where
  inStep : s.InStep s'
  users : s'.users = s.users
  shares : s'.shares = s.shares
  labels : s'.labels = s.labels
  projects : List.Forall₂ (fun p p' => SameRow (s.Sees actor) (·.id) (·.id) p p' ∧
    p'.ownerId = p.ownerId)
    s.projects s'.projects
  buckets : List.Forall₂ (SameRow (s.Sees actor) (·.id) (·.projectId)) s.buckets s'.buckets
  tasks : List.Forall₂ (SameRow (s.Sees actor) (·.id) (·.projectId)) s.tasks s'.tasks
  labelLinks : ∀ l : LabelLink, (∀ t ∈ s.tasks, t.id = l.taskId → s.Sees actor t.projectId) →
    (l ∈ s'.labelLinks ↔ l ∈ s.labelLinks)
  assignments : ∀ a : Assignment, (∀ t ∈ s.tasks, t.id = a.taskId → s.Sees actor t.projectId) →
    (a ∈ s'.assignments ↔ a ∈ s.assignments)

/-! ### Rights -/

theorem sees_of_projectFor {needed : Right} {id : Int} (h : s.projectFor needed actor id = .ok p) :
    s.Sees actor p.id :=
  ⟨p, (mem_of_projectFor h).1, rfl, allows_read (projectFor_eq_ok.1 h).2⟩

namespace AlikeFor

section

variable (h : s.AlikeFor actor s')

include h

theorem allows {p p' : Project} (hid : p'.id = p.id) (howner : p'.ownerId = p.ownerId)
    (needed : Right) :
    s'.allows actor p' needed = s.allows actor p needed := by
  simp only [Store.allows, right?, share?, h.shares, hid, howner]

theorem actor_eq : s'.actor actor = s.actor actor := by
  simp only [Store.actor, Store.user?, h.users]

theorem getUser (id : Int) : s'.getUser id = s.getUser id := by
  simp only [Store.getUser, Store.user?, h.users]

/-! ### Lookups -/

theorem getProject_agree (id : Int) :
    Agree (fun p p' => SameRow (s.Sees actor) (·.id) (·.id) p p' ∧ p'.ownerId = p.ownerId)
      (s.getProject id)
      (s'.getProject id) := by
  have hfind := find?_of_forall₂ (q := (·.id == id)) h.projects fun p p' hp => by rw [hp.1.id_eq]
  unfold Store.getProject project?
  rcases hfind with ⟨hnone, hnone'⟩ | ⟨p, p', hsome, hsome', hp⟩
  · rw [hnone, hnone']
    exact .error _
  · rw [hsome, hsome']
    exact .ok hp

theorem getTask_agree (id : Int) :
    Agree (SameRow (s.Sees actor) (·.id) (·.projectId)) (s.getTask id) (s'.getTask id) := by
  have hfind := find?_of_forall₂ (q := (·.id == id)) h.tasks fun t t' ht => by rw [ht.id_eq]
  unfold Store.getTask task?
  rcases hfind with ⟨hnone, hnone'⟩ | ⟨t, t', hsome, hsome', ht⟩
  · rw [hnone, hnone']
    exact .error _
  · rw [hsome, hsome']
    exact .ok ht

/-! ### Projects that are seen -/

theorem filter_buckets (hp : s.Sees actor p.id) :
    s'.buckets.filter (·.projectId == p.id) = s.buckets.filter (·.projectId == p.id) := by
  refine filter_of_forall₂ h.buckets (fun b b' hb => by rw [hb.project_eq]) fun b b' hb hproject =>
    hb.contents ?_
  rwa [show b.projectId = p.id by simpa using hproject]

theorem belongsTo (hp : s.Sees actor p.id) {place : Place} (hplace : place.BelongsTo s p) :
    place.BelongsTo s' p := by
  rcases place with ⟨_ | _, id⟩
  · obtain ⟨b, hb, hid, hproject⟩ := hplace
    have hmem : b ∈ s'.buckets.filter (·.projectId == p.id) := by
      rw [h.filter_buckets hp]
      exact List.mem_filter.2 ⟨hb, by simpa using hproject⟩
    exact ⟨b, List.mem_of_mem_filter hmem, hid, hproject⟩
  · exact hplace

theorem tasksIn (hp : s.Sees actor p.id) : s'.tasksIn .list p.id = s.tasksIn .list p.id := by
  refine filter_of_forall₂ h.tasks (fun t t' ht => by rw [ht.project_eq]) fun t t' ht hproject =>
    ht.contents ?_
  rwa [show t.projectId = p.id by simpa using hproject]

theorem labelsOf {taskId : Int} (hseen : ∀ t ∈ s.tasks, t.id = taskId → s.Sees actor t.projectId) :
    s'.labelsOf taskId = s.labelsOf taskId := by
  unfold Store.labelsOf
  rw [h.labels]
  refine List.filter_congr fun l _ => ?_
  rw [Bool.eq_iff_iff, List.contains_iff_mem, List.contains_iff_mem]
  exact h.labelLinks ⟨taskId, l.id⟩ hseen

theorem assigneesOf {taskId : Int}
    (hseen : ∀ t ∈ s.tasks, t.id = taskId → s.Sees actor t.projectId) :
    s'.assigneesOf taskId = s.assigneesOf taskId := by
  unfold Store.assigneesOf
  rw [h.users]
  refine List.filter_congr fun u _ => ?_
  rw [Bool.eq_iff_iff, List.contains_iff_mem, List.contains_iff_mem]
  exact h.assignments ⟨taskId, u.id⟩ hseen

end

/-- The tasks in a scope of the project can be selected among its tasks. -/
private theorem filter_contains (hs : s.Regular) (hi : s.Integral) {place : Place}
    (hplace : place.BelongsTo s p) :
    s.tasks.filter place.contains = (s.tasksIn .list p.id).filter place.contains := by
  rw [Store.tasksIn, List.filter_filter]
  refine List.filter_congr fun t ht => ?_
  cases hin : place.contains t with
  | false => rfl
  | true => simpa using hi.projectId_of_contains hs hplace ht hin

section

variable (hs : s.Reachable) (hs' : s'.Reachable) (h : s.AlikeFor actor s')

include hs hs' h

/-- The stores show the same of a project that is seen. -/
theorem sameView (hp : s.Sees actor p.id) : s.SameView p s' := by
  refine ⟨h.inStep, h.users, h.labels, h.filter_buckets hp, fun place hplace => ?_,
    fun taskId htask => ?_⟩
  · rw [filter_contains hs.regular hs.integral hplace,
      filter_contains hs'.regular hs'.integral (h.belongsTo hp hplace), h.tasksIn hp]
  · -- The id is one of a task of the project, or no task has it yet.
    have hseen : ∀ t ∈ s.tasks, t.id = taskId → s.Sees actor t.projectId := by
      rintro t ht rfl
      rcases htask with howns | hnew
      · obtain ⟨u, hu, hproject, hid⟩ := ownsTask_iff.1 howns
        rw [eq_of_key_eq hs.regular.tasks.nodup ht hu hid.symm, hproject]
        exact hp
      · have hle := hs.regular.tasks.le t.id (List.mem_map_of_mem ht)
        omega
    exact ⟨h.labelsOf hseen, h.assigneesOf hseen⟩

/-- A project that the user may use is the same, and so is what is seen of it. -/
theorem projectFor_agree (needed : Right) (id : Int) :
    Agree (fun p p' => p' = p ∧ s.SameView p s') (s.projectFor needed actor id)
      (s'.projectFor needed actor id) := by
  refine (h.getProject_agree id).bind fun p p' hp _ ⟨hrow, howner⟩ => ?_
  rw [h.allows hrow.id_eq howner]
  by_cases hallows : s.allows actor p needed = true
  · have hseen : s.Sees actor p.id := ⟨p, (getProject_eq_ok hp).1, rfl, allows_read hallows⟩
    rw [if_pos hallows, if_pos hallows]
    exact .ok ⟨hrow.contents hseen, h.sameView hs hs' hseen⟩
  · rw [if_neg hallows, if_neg hallows]
    exact .error _

variable {β γ : Type} {R : β → γ → Prop} (needed : Right) (id : Int)

/-- What follows the check of the right sees the same project. -/
theorem project_agree {f : Project → Except Failure β} {g : Project → Except Failure γ}
    (hnext : ∀ p, s.SameView p s' → Agree R (f p) (g p)) :
    Agree R (s.projectFor needed actor id >>= f) (s'.projectFor needed actor id >>= g) := by
  refine (h.projectFor_agree hs hs' needed id).bind fun p p' _ _ ⟨heq, hview⟩ => ?_
  rw [heq]
  exact hnext p hview

/-- A task is looked up before the right is checked, but what follows the check sees the same
task. -/
theorem task_agree {f : Task → Project → Except Failure β} {g : Task → Project → Except Failure γ}
    (hnext : ∀ t p, t ∈ s.tasks → t ∈ s'.tasks → t.projectId = p.id → s.SameView p s' →
      Agree R (f t p) (g t p)) :
    Agree R (do let t ← s.getTask id; let p ← s.projectFor needed actor t.projectId; f t p)
      (do let t ← s'.getTask id; let p ← s'.projectFor needed actor t.projectId; g t p) := by
  refine (h.getTask_agree id).bind fun t t' ht ht' hrow => ?_
  rw [hrow.project_eq]
  refine (h.projectFor_agree hs hs' needed t.projectId).bind fun p p' hp _ ⟨heq, hview⟩ => ?_
  have hproject := (mem_of_projectFor hp).2
  obtain rfl : t' = t := hrow.contents (hproject ▸ sees_of_projectFor hp)
  rw [heq]
  exact hnext t' p (getTask_mem ht).1 (getTask_mem ht').1 hproject.symm hview

end

end AlikeFor

end Store

end Kanban
