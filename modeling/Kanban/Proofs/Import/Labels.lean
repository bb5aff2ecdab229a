import Kanban.Proofs.Import.Valid

/-!
# Labels of an import

An import puts one label on its tasks for all entries with the same trimmed title and the same
color: the index lists every label that it added, no two of them alike (`Store.Indexed`), and
entries listed once stay listed with the same label (`Store.Indexed.lookup`).  A task gets exactly
the labels that the index lists for its entries, one link for each (`Store.importLabels_linked`).
-/

namespace Kanban

/-- What decides whether entries are one label: the trimmed title and the color. -/
def LabelImport.key (l : LabelImport) : String × String := (Text.trimmed l.title, Color.hex l.color)

/-- The label as an index lists it. -/
def Label.entry (l : Label) : (String × String) × Int := ((l.title, l.hexColor), l.id)

/-- The label of an entry, if there is one. -/
def LabelIndex.labelOf (index : LabelIndex) (l : LabelImport) : Option Int := index.lookup l.key

namespace Store

/-- The labels of a task by id, one for each link. -/
def labelIdsOf (s : Store) (taskId : Int) : List Int :=
  (s.labelLinks.filter (·.taskId == taskId)).map (·.labelId)

variable {s s' s'' : Store} {index index' index'' : LabelIndex} {owner : User}

/-! ### The index -/

/-- New labels are listed in the index, under a key that it did not have before. -/
structure Indexed (s : Store) (index : LabelIndex) (s' : Store) (index' : LabelIndex) : Prop where
  labels : ∃ new, s'.labels = s.labels ++ new ∧ index' = index ++ new.map Label.entry
  keys : (index.map Prod.fst).Nodup → (index'.map Prod.fst).Nodup

namespace Indexed

theorem of_labels (h : s'.labels = s.labels) : s.Indexed index s' index where
  labels := ⟨[], by simp [h], by simp⟩
  keys := id

theorem trans (h : s.Indexed index s' index') (h' : s'.Indexed index' s'' index'') :
    s.Indexed index s'' index'' where
  labels := by
    obtain ⟨new, hlabels, hindex⟩ := h.labels
    obtain ⟨new', hlabels', hindex'⟩ := h'.labels
    exact ⟨new ++ new', by rw [hlabels', hlabels, List.append_assoc],
      by rw [hindex', hindex, List.map_append, List.append_assoc]⟩
  keys := h'.keys ∘ h.keys

/-- An entry keeps its label. -/
theorem lookup (h : s.Indexed index s' index') {l : LabelImport} {id : Int}
    (hl : index.labelOf l = some id) :
    index'.labelOf l = some id := by
  obtain ⟨new, -, rfl⟩ := h.labels
  unfold LabelIndex.labelOf at hl ⊢
  rw [List.lookup_append, hl]
  rfl

end Indexed

theorem resolveLabel_indexed (s : Store) (index : LabelIndex) (owner : User) (l : LabelImport) :
    s.Indexed index (s.resolveLabel index owner l).2.2 (s.resolveLabel index owner l).2.1 ∧
      (s.resolveLabel index owner l).2.1.labelOf l = some (s.resolveLabel index owner l).1 := by
  unfold LabelIndex.labelOf
  simp only [resolveLabel, show (Text.trimmed l.title, Color.hex l.color) = l.key from rfl]
  split
  · rename_i id hid
    exact ⟨.of_labels rfl, hid⟩
  · rename_i hnone
    refine ⟨⟨⟨[(s.addLabel l.key.1 l.key.2 owner.id).1], rfl, rfl⟩, fun hkeys => ?_⟩, ?_⟩
    · -- The key is not listed yet.
      have hnew : l.key ∉ index.map Prod.fst := fun hmem => by
        obtain ⟨entry, hentry, heq⟩ := List.mem_map.1 hmem
        have := List.lookup_eq_none_iff.1 hnone entry hentry
        simp [heq] at this
      rw [List.map_append, List.map_singleton]
      exact hkeys.append (List.nodup_singleton _) (by simpa using hnew)
    · rw [List.lookup_append, hnone]
      simp

/-! ### Tables other than those of labels -/

/-- Nothing changed but the clock, the labels and their links to tasks. -/
structure OnlyLabels (s s' : Store) : Prop where
  users : s'.users = s.users
  projects : s'.projects = s.projects
  shares : s'.shares = s.shares
  buckets : s'.buckets = s.buckets
  tasks : s'.tasks = s.tasks
  assignments : s'.assignments = s.assignments
  lastProject : s'.lastProject = s.lastProject
  lastBucket : s'.lastBucket = s.lastBucket
  lastTask : s'.lastTask = s.lastTask

theorem OnlyLabels.refl (s : Store) : s.OnlyLabels s :=
  ⟨rfl, rfl, rfl, rfl, rfl, rfl, rfl, rfl, rfl⟩

theorem OnlyLabels.trans (h : s.OnlyLabels s') (h' : s'.OnlyLabels s'') : s.OnlyLabels s'' where
  users := h'.users.trans h.users
  projects := h'.projects.trans h.projects
  shares := h'.shares.trans h.shares
  buckets := h'.buckets.trans h.buckets
  tasks := h'.tasks.trans h.tasks
  assignments := h'.assignments.trans h.assignments
  lastProject := h'.lastProject.trans h.lastProject
  lastBucket := h'.lastBucket.trans h.lastBucket
  lastTask := h'.lastTask.trans h.lastTask

theorem resolveLabel_onlyLabels (s : Store) (index : LabelIndex) (owner : User) (l : LabelImport) :
    s.OnlyLabels (s.resolveLabel index owner l).2.2 ∧
      (s.resolveLabel index owner l).2.2.labelLinks = s.labelLinks := by
  simp only [resolveLabel]
  split
  · exact ⟨.refl s, rfl⟩
  · exact ⟨{ OnlyLabels.refl s with }, rfl⟩

theorem linkLabel_onlyLabels (s : Store) (taskId labelId : Int) :
    s.OnlyLabels (s.linkLabel taskId labelId) ∧ (s.linkLabel taskId labelId).labels = s.labels := by
  unfold linkLabel
  split
  · exact ⟨.refl s, rfl⟩
  · exact ⟨{ OnlyLabels.refl s with }, rfl⟩

theorem importLabels_onlyLabels (s : Store) (index : LabelIndex) (owner : User) (taskId : Int)
    (ls : List LabelImport) : s.OnlyLabels (s.importLabels index owner taskId ls).2 := by
  induction ls generalizing s index with
  | nil => exact .refl s
  | cons l ls ih =>
    exact (resolveLabel_onlyLabels s index owner l).1.trans
      ((linkLabel_onlyLabels _ _ _).1.trans (ih _ _))

/-! ### Links -/

/-- A label is put on a task once, behind those that the task has. -/
theorem labelLinks_linkLabel (s : Store) (taskId labelId : Int) :
    (labelId ∈ s.labelIdsOf taskId ∧ (s.linkLabel taskId labelId).labelLinks = s.labelLinks) ∨
      (labelId ∉ s.labelIdsOf taskId ∧
        (s.linkLabel taskId labelId).labelLinks = s.labelLinks ++ [⟨taskId, labelId⟩]) := by
  have hmem : s.labelLinks.contains ⟨taskId, labelId⟩ = true ↔ labelId ∈ s.labelIdsOf taskId := by
    simp only [labelIdsOf, List.contains_iff_mem, List.mem_map, List.mem_filter, beq_iff_eq]
    constructor
    · intro h
      exact ⟨_, ⟨h, rfl⟩, rfl⟩
    · rintro ⟨⟨_, _⟩, ⟨h, rfl⟩, rfl⟩
      exact h
  unfold linkLabel
  split
  · rename_i h
    exact .inl ⟨hmem.1 h, rfl⟩
  · rename_i h
    exact .inr ⟨mt hmem.2 h, rfl⟩

/-- The labels of a task after an import of labels for it: the ones that it had and those listed for
the entries. -/
structure Linked (s : Store) (s' : Store) (index' : LabelIndex) (taskId : Int)
    (ls : List LabelImport) : Prop where
  links : ∃ new, s'.labelLinks = s.labelLinks ++ new ∧ ∀ k ∈ new, k.taskId = taskId
  nodup : (s.labelIdsOf taskId).Nodup → (s'.labelIdsOf taskId).Nodup
  listed : ∀ l ∈ ls, (index'.labelOf l).isSome
  labels : ∀ id, id ∈ s'.labelIdsOf taskId ↔
    id ∈ s.labelIdsOf taskId ∨ ∃ l ∈ ls, index'.labelOf l = some id

theorem linkLabel_links (s : Store) (taskId labelId : Int) :
    (∃ new, (s.linkLabel taskId labelId).labelLinks = s.labelLinks ++ new ∧ ∀ k ∈ new,
      k.taskId = taskId) ∧
      ((s.labelIdsOf taskId).Nodup → ((s.linkLabel taskId labelId).labelIdsOf taskId).Nodup) ∧
      ∀ id, id ∈ (s.linkLabel taskId labelId).labelIdsOf taskId ↔
        id ∈ s.labelIdsOf taskId ∨ id = labelId := by
  rcases labelLinks_linkLabel s taskId labelId with ⟨hmem, hlinks⟩ | ⟨hmem, hlinks⟩
  · have hids : (s.linkLabel taskId labelId).labelIdsOf taskId = s.labelIdsOf taskId := by
      rw [labelIdsOf, hlinks, labelIdsOf]
    rw [hids]
    refine ⟨⟨[], by simp [hlinks], by simp⟩, id, fun id => ⟨.inl, ?_⟩⟩
    rintro (h | rfl)
    · exact h
    · exact hmem
  · have hids : (s.linkLabel taskId labelId).labelIdsOf taskId =
        s.labelIdsOf taskId ++ [labelId] := by
      simp [labelIdsOf, hlinks]
    rw [hids]
    refine ⟨⟨_, hlinks, by simp⟩, fun h => ?_, by simp⟩
    exact h.append (List.nodup_singleton _) (by simpa using hmem)

/-- A task gets the labels of its entries. -/
theorem importLabels_linked (s : Store) (index : LabelIndex) (owner : User) (taskId : Int)
    (ls : List LabelImport) :
    s.Indexed index (s.importLabels index owner taskId ls).2
      (s.importLabels index owner taskId ls).1 ∧
      s.Linked (s.importLabels index owner taskId ls).2
        (s.importLabels index owner taskId ls).1 taskId ls := by
  induction ls generalizing s index with
  | nil => exact ⟨.of_labels rfl, ⟨[], by simp [importLabels], by simp⟩,
      id, by simp, by simp [importLabels]⟩
  | cons l ls ih =>
    obtain ⟨hresolve, hlookup⟩ := resolveLabel_indexed s index owner l
    obtain ⟨-, hlinks⟩ := resolveLabel_onlyLabels s index owner l
    rw [importLabels]
    generalize s.resolveLabel index owner l = resolved at hresolve hlookup hlinks
    obtain ⟨labelId, index₁, s₁⟩ := resolved
    have hids : s₁.labelIdsOf taskId = s.labelIdsOf taskId := by rw [labelIdsOf, hlinks, labelIdsOf]
    obtain ⟨⟨new, hnew, hnewTask⟩, hnodup, hmem⟩ := linkLabel_links s₁ taskId labelId
    have hlinked : s₁.Indexed index₁ (s₁.linkLabel taskId labelId) index₁ :=
      .of_labels (linkLabel_onlyLabels s₁ taskId labelId).2
    obtain ⟨hindexed, hrest⟩ := ih (s₁.linkLabel taskId labelId) index₁
    obtain ⟨new', hnew', hnewTask'⟩ := hrest.links
    have hlater := hindexed.lookup hlookup
    refine ⟨hresolve.trans (hlinked.trans hindexed), ?_, ?_, ?_, ?_⟩
    · refine ⟨new ++ new', by rw [hnew', hnew, hlinks, List.append_assoc], fun k hk => ?_⟩
      exact (List.mem_append.1 hk).elim (hnewTask k) (hnewTask' k)
    · rw [← hids]
      exact hrest.nodup ∘ hnodup
    · rw [List.forall_mem_cons]
      exact ⟨by rw [hlater]; rfl, hrest.listed⟩
    · intro id
      rw [hrest.labels, hmem, hids, List.exists_mem_cons_iff, hlater, Option.some_inj,
        or_assoc, eq_comm]

end Store

end Kanban
