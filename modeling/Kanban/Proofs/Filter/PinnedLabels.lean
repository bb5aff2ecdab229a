import Kanban.Calendar.ZoneTable
import Kanban.Proofs.Filter.Pinned

/-!
# Filters that pin a label

A task has one id, one priority and one bucket, so a filter that pins one of them by two conditions
pins it to an id that meets both.  A task may have several labels, and two labels may meet the two
conditions: the ids to which a filter ties the labels may then leave out all labels of a task that
matches (`Filter.pinned_labels_missed`).  They do not if the filter asks for one of them by itself,
whatever else it asks for (`Expr.forces`), or if the task has a single label
(`Filter.pinned_exact`).
-/

namespace Kanban.Filter

/-- The ids that a task has in a field of ids. -/
def idsIn (f : Field) (d : TaskDetail) : List Int :=
  match f with
  | .id => [d.task.id]
  | .priority => [d.task.priority]
  | .bucketId => [d.task.bucketId]
  | .labels => d.labels.map (·.id)
  | _ => []

namespace Expr

/-- Every task that matches has one of the ids in the field. -/
def Ties (nulls : Bool) (f : Field) (ids : IdSet) (e : Expr) : Prop :=
  ∀ d, e.matchesTask nulls d = true → ∃ i ∈ idsIn f d, i ∈ ids

mutual

/-- Some condition that cannot be avoided ties the field to ids of the set only. -/
def forces (f : Field) (ids : IdSet) : Expr → Bool
  | condition c =>
    match c.pinned? f with
    | some a => a.all (ids.contains ·)
    | none => false
  | all parts => someForces f ids parts
  | any parts => everyForces f ids parts

def someForces (f : Field) (ids : IdSet) : List Expr → Bool
  | [] => false
  | e :: es => e.forces f ids || someForces f ids es

def everyForces (f : Field) (ids : IdSet) : List Expr → Bool
  | [] => true
  | e :: es => e.forces f ids && everyForces f ids es

end

variable {f : Field} {ids : IdSet} {nulls : Bool} {d : TaskDetail}

theorem someForces_iff {es : List Expr} :
    someForces f ids es = true ↔ ∃ e ∈ es, e.forces f ids = true := by
  induction es with
  | nil => simp [someForces]
  | cons e es ih => rw [someForces, Bool.or_eq_true, ih, List.exists_mem_cons_iff]

theorem everyForces_iff {es : List Expr} :
    everyForces f ids es = true ↔ ∀ e ∈ es, e.forces f ids = true := by
  induction es with
  | nil => simp [everyForces]
  | cons e es ih => rw [everyForces, Bool.and_eq_true, ih, List.forall_mem_cons]

end Expr

/-- A task with labels and nothing else. -/
def labeled (ids : List Int) : TaskDetail :=
  ⟨{}, ids.map fun i => ⟨i, "", "", 0, default, default⟩, [], none⟩

theorem idsIn_labeled (ids : List Int) : idsIn .labels (labeled ids) = ids := by
  simp [idsIn, labeled, Function.comp_def]

/-! ### Conditions -/

variable {f : Field} {ids : IdSet} {nulls : Bool} {d : TaskDetail}

theorem amongCells_of_mem {x y : Cell} {ys : List Cell} (hy : y ∈ ys)
    (h : ordered (· == .eq) x y = some true) :
    amongCells x ys = some true := by
  induction ys with
  | nil => simp at hy
  | cons z zs ih =>
    rcases List.mem_cons.1 hy with rfl | hy
    · exact Truth.or_eq_true.2 (.inl h)
    · exact Truth.or_eq_true.2 (.inr (ih hy))

theorem ordered_int_self (i : Int) : ordered (· == .eq) (.int i) (.int i) = some true := by
  simp [ordered, Cell.compare?]

/-- A condition ties a field if it is about the field and asks for one id or for one of several. -/
theorem Condition.pinned?_cases {c : Condition} (h : c.pinned? f = some ids) :
    c.field = f ∧ (c.comparator = .equal ∨ c.comparator = .among) := by
  unfold Condition.pinned? at h
  split at h
  · rename_i hf
    split at h
    · rename_i hcmp _
      exact ⟨hf, .inl hcmp⟩
    · rename_i hcmp _
      exact ⟨hf, .inr hcmp⟩
    · simp at h
  · simp at h

/-- A condition that ties a field is true of the ids in its set and of no others. -/
theorem Condition.WellFormed.holdsOfLinked_iff {c : Condition} (hc : c.WellFormed)
    (hkind : f.kind = .int) (h : c.pinned? f = some ids) (i : Int) :
    c.holdsOfLinked (.int i) = true ↔ i ∈ ids := by
  obtain ⟨hf, -⟩ := Condition.pinned?_cases h
  rw [Condition.pinned?, if_pos hf] at h
  split at h
  · rename_i j hcmp hop
    obtain rfl := Option.some.inj h
    simp only [Condition.holdsOfLinked, hcmp, hop, Operand.firstCell, Operand.values,
      Scalar.cell, beq_iff_eq, reduceCtorEq, if_false, List.mem_singleton]
    exact ⟨ordered_int, fun hij => hij ▸ ordered_int_self _⟩
  · rename_i vs hcmp hop
    obtain rfl := Option.some.inj h
    rw [IdSet.mem_ofList, Condition.holdsOfLinked, if_pos hcmp, hop]
    simp only [Operand.values, beq_iff_eq]
    constructor
    · intro hi
      obtain ⟨y, hy, hiy⟩ := mem_of_amongCells hi
      obtain ⟨v, hv, rfl⟩ := List.mem_map.1 hy
      obtain ⟨j, rfl⟩ :=
        Scalar.eq_int ((hc.kinds v (by simpa [hop, Operand.values] using hv)).trans (hf ▸ hkind))
      obtain rfl := ordered_int hiy
      exact List.mem_filterMap.2 ⟨_, hv, rfl⟩
    · intro hi
      obtain ⟨v, hv, hvi⟩ := List.mem_filterMap.1 hi
      split at hvi
      · obtain rfl := Option.some.inj hvi
        exact amongCells_of_mem (List.mem_map.2 ⟨_, hv, rfl⟩) (ordered_int_self _)
      · simp at hvi
  · simp at h

/-- A condition that ties a field is true of a task exactly if one of the ids of the task is in its
set. -/
theorem Condition.WellFormed.truth_iff {c : Condition} (hc : c.WellFormed) (hkind : f.kind = .int)
    (h : c.pinned? f = some ids) : c.truth nulls d = some true ↔ ∃ i ∈ idsIn f d, i ∈ ids := by
  have hholds := hc.holdsOfLinked_iff hkind h
  obtain ⟨hf, hcmp⟩ := Condition.pinned?_cases h
  have hcolumn : ∀ x, c.columnTruth x = some true ↔ c.holdsOfLinked x = true := by
    intro x
    rcases hcmp with hcmp | hcmp <;> simp [Condition.columnTruth, Condition.holdsOfLinked, hcmp]
  have hne : c.comparator ≠ .notEqual := by rcases hcmp with hcmp | hcmp <;> simp [hcmp]
  cases f with
  | id | priority | bucketId =>
    simp [Condition.truth, hf, Field.isRelation, Field.isNullable, hcolumn, columnWith,
      hholds, idsIn]
  | labels =>
    simp [Condition.truth, hf, Field.isRelation, hne, Condition.linked, hholds, idsIn]
  | _ => cases hkind

/-- A condition on labels ties them, if it does not ask for their absence. -/
theorem Condition.WellFormed.pinned?_labels {c : Condition} (hc : c.WellFormed)
    (hf : c.field = .labels) (hne : c.comparator ≠ .notEqual) :
    ∃ a, c.pinned? .labels = some a := by
  have hsupported := hc.supported
  have hkinds := hc.kinds
  have hseveral := hc.several
  rw [hf] at hsupported hkinds
  rw [Condition.pinned?, if_pos hf]
  cases hcmp : c.comparator <;> simp [supports, Field.isRelation, hcmp] at hsupported hne
  case equal =>
    cases hop : c.operand with
    | single v =>
      obtain ⟨i, rfl⟩ := Scalar.eq_int (hkinds v (by simp [hop, Operand.values]))
      exact ⟨_, rfl⟩
    | several vs => simp [hcmp, hop] at hseveral
  case among =>
    obtain ⟨vs, hop⟩ := hseveral.1 hcmp
    rw [hop]
    exact ⟨_, rfl⟩

/-! ### Expressions -/

namespace Expr

theorem WellFormed.of_mem_conditions {e : Expr} (he : e.WellFormed) {c : Condition}
    (hc : c ∈ e.conditions) :
    c.WellFormed := by
  induction he with
  | condition h =>
    obtain rfl : c = _ := by simpa [conditions] using hc
    exact h
  | all _ _ ih | any _ _ ih =>
    obtain ⟨e, he, hc⟩ := mem_conditionsOf.1 hc
    exact ih e he hc

/-- A conjunction that ties the field has a part that does. -/
theorem exists_of_pinnedByAll? {es : List Expr} (h : pinnedByAll? f es = some ids) :
    ∃ e ∈ es, ∃ a, e.pinned? f = some a := by
  induction es generalizing ids with
  | nil => simp [pinnedByAll?] at h
  | cons e es ih =>
    unfold pinnedByAll? at h
    split at h
    · rename_i a b ha hb
      exact ⟨e, by simp, a, ha⟩
    · rename_i a ha hb
      exact ⟨e, by simp, a, ha⟩
    · obtain ⟨e', he', ha⟩ := ih h
      exact ⟨e', by simp [he'], ha⟩

theorem pinned?_of_pinnedByAny? {es : List Expr} (h : pinnedByAny? f es = some ids) :
    ∀ e ∈ es, ∃ a, e.pinned? f = some a := by
  induction es generalizing ids with
  | nil => simp
  | cons e es ih =>
    unfold pinnedByAny? at h
    split at h
    · rename_i a b ha hb
      exact List.forall_mem_cons.2 ⟨⟨a, ha⟩, ih hb⟩
    · simp at h

/-- A task that matches a filter that ties a field has an id in this field. -/
theorem idsIn_ne_nil {e : Expr} (he : e.WellFormed) (hkind : f.kind = .int)
    (h : e.pinned? f = some ids) (hm : e.matchesTask nulls d = true) : idsIn f d ≠ [] := by
  induction he generalizing ids with
  | condition hc =>
    obtain ⟨i, hi, -⟩ := (hc.truth_iff hkind h).1 (by simpa [matchesTask, truth] using hm)
    exact List.ne_nil_of_mem hi
  | all _ _ ih =>
    obtain ⟨e, he, a, ha⟩ := exists_of_pinnedByAll? h
    exact ih e he ha (matches_all.1 hm e he)
  | any _ _ ih =>
    obtain ⟨e, he, hme⟩ := matches_any.1 hm
    obtain ⟨a, ha⟩ := pinned?_of_pinnedByAny? h e he
    exact ih e he ha hme

/-- A filter ties the only id that a matching task has in the field. -/
theorem mem_pinned_of_single {e : Expr} (he : e.WellFormed) (hkind : f.kind = .int)
    (h : e.pinned? f = some ids) (hm : e.matchesTask nulls d = true) {i : Int}
    (hsingle : ∀ j ∈ idsIn f d, j = i) : i ∈ ids := by
  induction he generalizing ids with
  | condition hc =>
    obtain ⟨j, hj, hmem⟩ := (hc.truth_iff hkind h).1 (by simpa [matchesTask, truth] using hm)
    exact hsingle j hj ▸ hmem
  | all _ _ ih => exact mem_of_pinnedByAll? (fun e he a ha => ih e he ha (matches_all.1 hm e he)) h
  | any _ _ ih =>
    obtain ⟨e, he, hme⟩ := matches_any.1 hm
    exact mem_of_pinnedByAny? ⟨e, he, fun a ha => ih e he ha hme⟩ h

/-- A task that matches a filter and has no two ids in the field has one of the ids to which the
filter ties it. -/
theorem exists_mem_pinned {e : Expr} (he : e.WellFormed) (hkind : f.kind = .int)
    (h : e.pinned? f = some ids) (hm : e.matchesTask nulls d = true)
    (hsingle : ∀ i ∈ idsIn f d, ∀ j ∈ idsIn f d, i = j) :
    ∃ i ∈ idsIn f d, i ∈ ids := by
  obtain ⟨i, hi⟩ := List.exists_mem_of_ne_nil _ (idsIn_ne_nil he hkind h hm)
  exact ⟨i, hi, mem_pinned_of_single he hkind h hm fun j hj => hsingle j hj i hi⟩

/-- Where no two ids are possible, a filter ties the field to the ids that it is said to. -/
theorem ties_pinned {e : Expr} (he : e.WellFormed) (hkind : f.kind = .int) (hf : f ≠ .labels)
    (h : e.pinned? f = some ids) : e.Ties nulls f ids := by
  intro d hm
  refine exists_mem_pinned he hkind h hm ?_
  cases f with
  | id | priority | bucketId => simp [idsIn]
  | labels => exact absurd rfl hf
  | _ => cases hkind

/-- A task that matches a filter has one of the ids that the filter forces. -/
theorem ties_of_forces {e : Expr} (he : e.WellFormed) (hkind : f.kind = .int)
    (h : e.forces f ids = true) :
    e.Ties nulls f ids := by
  induction he with
  | condition hc =>
    intro d hm
    rw [forces] at h
    split at h
    · rename_i a ha
      obtain ⟨i, hi, hia⟩ := (hc.truth_iff hkind ha).1 (by simpa [matchesTask, truth] using hm)
      exact ⟨i, hi, by simpa using List.all_eq_true.1 h i hia⟩
    · simp at h
  | all _ _ ih =>
    intro d hm
    obtain ⟨e, he, hforces⟩ := someForces_iff.1 h
    exact ih e he hforces d (matches_all.1 hm e he)
  | any _ _ ih =>
    intro d hm
    obtain ⟨e, he, hme⟩ := matches_any.1 hm
    exact ih e he (everyForces_iff.1 h e he) d hme

/-! ### Tasks with many labels -/

/-- The filter asks for labels only, and not for their absence. -/
def IsAboutLabels (e : Expr) : Prop :=
  ∀ c ∈ e.conditions, c.field = .labels ∧ c.comparator ≠ .notEqual

/-- A task that has, of the labels that any condition asks for, all those outside of a set matches,
unless the filter forces the set. -/
theorem matches_of_not_forces {e : Expr} (he : e.WellFormed)
    (hd : ∀ c ∈ e.conditions, ∃ a, c.pinned? .labels = some a ∧ ∀ i ∈ a, i ∉ ids →
      i ∈ idsIn .labels d)
    (h : e.forces .labels ids = false) : e.matchesTask nulls d = true := by
  induction he with
  | @condition c hc =>
    obtain ⟨a, ha, hmem⟩ := hd c (by simp [conditions])
    have hout : ∃ i ∈ a, i ∉ ids := by simpa [forces, ha] using h
    obtain ⟨i, hi, hids⟩ := hout
    have htruth : c.truth nulls d = some true := (hc.truth_iff rfl ha).2 ⟨i, hmem i hi hids, hi⟩
    simpa [matchesTask, truth] using htruth
  | all _ _ ih =>
    refine matches_all.2 fun e he => ih e he (fun c hc => hd c (mem_conditionsOf.2 ⟨e, he, hc⟩)) ?_
    exact Bool.eq_false_iff.2 fun hforces =>
      Bool.eq_false_iff.1 h (someForces_iff.2 ⟨e, he, hforces⟩)
  | @any parts _ _ ih =>
    obtain ⟨e, he, hforces⟩ : ∃ e ∈ parts, e.forces .labels ids = false := by
      by_contra hnone
      refine Bool.eq_false_iff.1 h (everyForces_iff.2 fun e he => ?_)
      by_contra hforces
      exact hnone ⟨e, he, Bool.eq_false_iff.2 hforces⟩
    exact matches_any.2 ⟨e, he, ih e he (fun c hc => hd c (mem_conditionsOf.2 ⟨e, he, hc⟩)) hforces⟩

/-- Of a filter about labels alone, the tasks that match have one of the labels of a set only if the
filter forces the set. -/
theorem forces_of_ties {e : Expr} (he : e.WellFormed) (habout : e.IsAboutLabels)
    (h : e.Ties nulls .labels ids) :
    e.forces .labels ids = true := by
  by_contra hforces
  have hties : ∀ c ∈ e.conditions, ∃ a, c.pinned? .labels = some a := fun c hc =>
    (he.of_mem_conditions hc).pinned?_labels (habout c hc).1 (habout c hc).2
  -- The task has all labels that the filter speaks of, but for those of the set.
  let outside :=
    (e.conditions.flatMap fun c => (c.pinned? .labels).getD []).filter fun i => !ids.contains i
  have hm : e.matchesTask nulls (labeled outside) = true := by
    refine matches_of_not_forces he (fun c hc => ?_) (Bool.eq_false_iff.2 hforces)
    obtain ⟨a, ha⟩ := hties c hc
    refine ⟨a, ha, fun i hi hids => ?_⟩
    rw [idsIn_labeled]
    exact List.mem_filter.2
      ⟨List.mem_flatMap.2 ⟨c, hc, by simpa [ha] using hi⟩, by simpa using hids⟩
  obtain ⟨i, hi, hids⟩ := h _ hm
  rw [idsIn_labeled] at hi
  simpa [hids] using (List.mem_filter.1 hi).2

end Expr

/-! ### Filters that are read -/

/-- What a filter ties a field of ids to.  A field with one value has one of these ids in every task
that matches.  A label of a task is among them if the task has only one, or if the filter forces
them; a filter about labels alone that does not force them is matched by a task without any of
them. -/
theorem pinned_exact {zones : String → Option Zone} {now : Instant} {filter zoneName : String}
    {e : Expr} (h : parse zones now filter zoneName = .ok (some e)) (nulls : Bool)
    (hkind : f.kind = .int) (hids : e.pinned? f = some ids) :
    (f ≠ .labels → e.Ties nulls f ids) ∧
    (f ≠ .labels → ids = [] → ∀ d, e.matchesTask nulls d = false) ∧
    (∀ d, e.matchesTask nulls d = true → (∀ i ∈ idsIn f d, ∀ j ∈ idsIn f d, i = j) →
      ∃ i ∈ idsIn f d, i ∈ ids) ∧
    (e.forces f ids = true → e.Ties nulls f ids) ∧
    (f = .labels → e.IsAboutLabels → e.Ties nulls f ids → e.forces f ids = true) := by
  have he := parse_wellFormed h e rfl
  refine ⟨fun hf => Expr.ties_pinned he hkind hf hids, ?_, ?_, Expr.ties_of_forces he hkind, ?_⟩
  · rintro hf rfl d
    by_contra hm
    obtain ⟨i, -, hi⟩ := Expr.ties_pinned he hkind hf hids d (by simpa using hm)
    simp at hi
  · intro d hm hsingle
    exact Expr.exists_mem_pinned he hkind hids hm hsingle
  · rintro rfl habout hties
    exact Expr.forces_of_ties he habout hties

/-- A filter that asks for one of two labels and, again, for one of them ties the labels to the
second one, which its second condition forces. -/
theorem pinned_exact_forced :
    ∃ e, parse Zone.tabulated? default "labels in 1, 2 && (labels = 2 || labels in 2, 2)" "" =
      .ok (some e) ∧ Field.labels.kind = .int ∧
      e.pinned? .labels = some [2] ∧ e.forces .labels [2] = true ∧ e.Ties true .labels [2] := by
  have hread : (parse Zone.tabulated? default "labels in 1, 2 && (labels = 2 || labels in 2, 2)"
      "").toOption.map
      (·.map fun e => (e.pinned? .labels, e.forces .labels [2])) =
        some (some (some [2], true)) := by decide +kernel
  obtain ⟨e, he, hvalues⟩ := exists_of_parse hread
  obtain ⟨hids, hforces⟩ := Prod.mk.inj hvalues
  have hkind : Field.labels.kind = .int := rfl
  obtain ⟨-, -, -, hties, -⟩ := pinned_exact he true hkind hids
  exact ⟨e, he, hkind, hids, hforces, hties hforces⟩

/-- Two labels that meet one condition each: the filter ties the labels to no id at all, and a task
with both matches. -/
theorem pinned_labels_missed :
    ∃ e, parse Zone.tabulated? default "labels = 1 && labels = 2" "" = .ok (some e) ∧
    e.pinned? .labels = some [] ∧
      e.matchesTask false (labeled [1, 2]) = true ∧ ¬e.Ties false .labels [] := by
  have hread : (parse Zone.tabulated? default "labels = 1 && labels = 2" "").toOption.map
      (·.map fun e => (e.pinned? .labels, e.matchesTask false (labeled [1, 2]))) =
        some (some (some [], true)) := by
    decide +kernel
  obtain ⟨e, he, hvalues⟩ := exists_of_parse hread
  obtain ⟨hids, hm⟩ := Prod.mk.inj hvalues
  refine ⟨e, he, hids, hm, fun hties => ?_⟩
  obtain ⟨i, -, hi⟩ := hties _ hm
  simp at hi

end Kanban.Filter
