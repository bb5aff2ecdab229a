import Mathlib.Data.List.Basic
import Kanban.Filter.Truth
import Kanban.Proofs.Filter.WellFormed

/-!
# Filters that pin an id

A conjunction is true of a task exactly if all of its parts are, a disjunction if one of them is
(`Expr.matches_all`, `Expr.matches_any`).  So a task that matches a filter has one of the ids to
which the filter ties a column of ids (`Expr.mem_pinned`), and a filter that does not refer to a
field does not tie it (`Expr.pinned?_of_not_references`).
-/

namespace Kanban.Filter

/-! ### Truth -/

theorem Truth.and_eq_true {a b : Truth} :
    Truth.and a b = some true ↔ a = some true ∧ b = some true := by
  rcases a with _ | _ | _ <;> rcases b with _ | _ | _ <;> simp [Truth.and]

theorem Truth.or_eq_true {a b : Truth} :
    Truth.or a b = some true ↔ a = some true ∨ b = some true := by
  rcases a with _ | _ | _ <;> rcases b with _ | _ | _ <;> simp [Truth.or]

namespace Expr

variable {nulls : Bool} {d : TaskDetail}

theorem matches_all {parts : List Expr} :
    (all parts).matchesTask nulls d = true ↔ ∀ e ∈ parts, e.matchesTask nulls d = true := by
  simp only [matchesTask, truth, beq_iff_eq]
  induction parts with
  | nil => simp [truthOfAll]
  | cons e es ih => rw [truthOfAll, Truth.and_eq_true, ih, List.forall_mem_cons]

theorem matches_any {parts : List Expr} :
    (any parts).matchesTask nulls d = true ↔ ∃ e ∈ parts, e.matchesTask nulls d = true := by
  simp only [matchesTask, truth, beq_iff_eq]
  induction parts with
  | nil => simp [truthOfAny]
  | cons e es ih => rw [truthOfAny, Truth.or_eq_true, ih, List.exists_mem_cons_iff]

end Expr

/-! ### Sets of ids -/

namespace IdSet

theorem mem_insert {i j : Int} {is : IdSet} : i ∈ insert j is ↔ i = j ∨ i ∈ is := by
  induction is with
  | nil => simp [insert]
  | cons k ks ih =>
    unfold insert
    split
    · simp
    · split
      · rename_i hjk
        simp [hjk]
      · simp only [List.mem_cons, ih]
        exact or_left_comm

theorem mem_ofList {i : Int} {is : List Int} : i ∈ ofList is ↔ i ∈ is := by
  induction is with
  | nil => simp [ofList]
  | cons j js ih =>
    rw [List.mem_cons, ← ih]
    exact mem_insert

theorem mem_union {i : Int} {a b : IdSet} : i ∈ union a b ↔ i ∈ a ∨ i ∈ b := by
  induction a with
  | nil => simp [union]
  | cons j js ih =>
    rw [List.mem_cons, or_assoc, ← ih]
    exact mem_insert

theorem mem_inter {i : Int} {a b : IdSet} : i ∈ inter a b ↔ i ∈ a ∧ i ∈ b := by
  simp [inter]

end IdSet

/-! ### Conditions -/

variable {f : Field} {nulls : Bool} {d : TaskDetail}

theorem ordered_int {i j : Int} (h : ordered (· == .eq) (.int i) (.int j) = some true) : i = j := by
  simpa [ordered, Cell.compare?] using h

theorem mem_of_amongCells {x : Cell} {ys : List Cell} (h : amongCells x ys = some true) :
    ∃ y ∈ ys, ordered (· == .eq) x y = some true := by
  induction ys with
  | nil => simp [amongCells] at h
  | cons y ys ih =>
    rcases Truth.or_eq_true.1 h with h | h
    · exact ⟨y, by simp, h⟩
    · obtain ⟨z, hz, hzx⟩ := ih h
      exact ⟨z, by simp [hz], hzx⟩

/-- A value of a column of ids is a number. -/
theorem Scalar.eq_int {v : Scalar} (h : v.kind = .int) : ∃ i, v = .int i := by
  cases v with
  | int i => exact ⟨i, rfl⟩
  | _ => simp [kind] at h

/-- A task that meets a condition has one of the ids to which it ties a column of ids. -/
theorem Condition.WellFormed.mem_pinned {c : Condition} (hc : c.WellFormed) (hkind : f.kind = .int)
    (hcolumn : f.isRelation = false)
    {ids : IdSet} (h : c.pinned? f = some ids) (hm : c.truth nulls d = some true)
    {i : Int} (hi : columnWith Cell.ofJulian d.task f = .int i) : i ∈ ids := by
  unfold Condition.pinned? at h
  split at h
  · rename_i hf
    -- An id is never empty, so the value itself is compared.
    have hnulls : f.isNullable = false := by cases f <;> first | rfl | simp [Field.kind] at hkind
    simp only [Condition.truth, hf, hcolumn, hnulls, hi, Bool.and_false, Bool.false_eq_true,
      if_false] at hm
    split at h
    · rename_i j hcmp hop
      obtain rfl := Option.some.inj h
      simp only [Condition.columnTruth, hcmp, hop, Operand.firstCell, Operand.values,
        Scalar.cell] at hm
      simpa using ordered_int hm
    · rename_i vs hcmp hop
      obtain rfl := Option.some.inj h
      simp only [Condition.columnTruth, hcmp, hop, Operand.values] at hm
      obtain ⟨y, hy, hiy⟩ := mem_of_amongCells hm
      obtain ⟨v, hv, rfl⟩ := List.mem_map.1 hy
      obtain ⟨j, rfl⟩ :=
        Scalar.eq_int ((hc.kinds v (by simpa [hop, Operand.values] using hv)).trans (hf ▸ hkind))
      obtain rfl := ordered_int hiy
      exact IdSet.mem_ofList.2 (List.mem_filterMap.2 ⟨_, hv, rfl⟩)
    · simp at h
  · simp at h

/-! ### Expressions -/

namespace Expr

theorem mem_of_pinnedByAll? {i : Int} {es : List Expr}
    (hes : ∀ e ∈ es, ∀ a, e.pinned? f = some a → i ∈ a) {ids : IdSet}
    (h : pinnedByAll? f es = some ids) : i ∈ ids := by
  induction es generalizing ids with
  | nil => simp [pinnedByAll?] at h
  | cons e es ih =>
    obtain ⟨hfirst, hmore⟩ := List.forall_mem_cons.1 hes
    unfold pinnedByAll? at h
    split at h
    · rename_i a b ha hb
      obtain rfl := Option.some.inj h
      exact IdSet.mem_inter.2 ⟨hfirst a ha, ih hmore hb⟩
    · rename_i a ha hb
      obtain rfl := Option.some.inj h
      exact hfirst a ha
    · exact ih hmore h

theorem mem_of_pinnedByAny? {i : Int} {es : List Expr}
    (hes : ∃ e ∈ es, ∀ a, e.pinned? f = some a → i ∈ a) {ids : IdSet}
    (h : pinnedByAny? f es = some ids) : i ∈ ids := by
  induction es generalizing ids with
  | nil => simp at hes
  | cons e es ih =>
    unfold pinnedByAny? at h
    split at h
    · -- Only if every part ties the field does the disjunction, to the ids of one of the parts.
      rename_i a b ha hb
      obtain rfl := Option.some.inj h
      rcases (List.exists_mem_cons_iff ..).1 hes with hfirst | hmore
      · exact IdSet.mem_union.2 (.inl (hfirst a ha))
      · exact IdSet.mem_union.2 (.inr (ih hmore hb))
    · simp at h

/-- A task that matches a filter has one of the ids to which the filter ties a column of ids. -/
theorem mem_pinned {e : Expr} (he : e.WellFormed) (hkind : f.kind = .int)
    (hcolumn : f.isRelation = false) {ids : IdSet} (h : e.pinned? f = some ids)
    (hm : e.matchesTask nulls d = true) {i : Int}
    (hi : columnWith Cell.ofJulian d.task f = .int i) : i ∈ ids := by
  induction he generalizing ids with
  | condition hc => exact hc.mem_pinned hkind hcolumn h (by simpa [matchesTask, truth] using hm) hi
  | all _ _ ih =>
    rw [matches_all] at hm
    exact mem_of_pinnedByAll? (fun e he a ha => ih e he ha (hm e he)) h
  | any _ _ ih =>
    obtain ⟨e, he, hme⟩ := matches_any.1 hm
    exact mem_of_pinnedByAny? ⟨e, he, fun a ha => ih e he ha hme⟩ h

/-! ### Fields that are not referred to -/

theorem mem_conditionsOf {c : Condition} {es : List Expr} :
    c ∈ conditionsOf es ↔ ∃ e ∈ es, c ∈ e.conditions := by
  induction es with
  | nil => simp [conditionsOf]
  | cons e es ih => rw [conditionsOf, List.mem_append, ih, List.exists_mem_cons_iff]

theorem not_references_of_mem {f : Field} {es : List Expr}
    (h : (conditionsOf es).any (·.field = f) = false) {e : Expr} (he : e ∈ es) :
    e.references f = false := by
  rw [references, List.any_eq_false]
  intro c hc
  exact List.any_eq_false.1 h c (mem_conditionsOf.2 ⟨e, he, hc⟩)

theorem pinnedByAll?_eq_none {es : List Expr} (hes : ∀ e ∈ es, e.pinned? f = none) :
    pinnedByAll? f es = none := by
  induction es with
  | nil => rfl
  | cons e es ih =>
    rw [List.forall_mem_cons] at hes
    rw [pinnedByAll?, hes.1, ih hes.2]

/-- A filter that does not refer to a field does not tie it. -/
theorem pinned?_of_not_references {e : Expr} (he : e.WellFormed) (h : e.references f = false) :
    e.pinned? f = none := by
  induction he with
  | @condition c _ =>
    have hf : c.field ≠ f := by simpa [references, conditions] using h
    exact if_neg hf
  | all _ _ ih => exact pinnedByAll?_eq_none fun e he => ih e he (not_references_of_mem h he)
  | @any parts hparts _ ih =>
    obtain ⟨e, es, rfl⟩ := List.exists_cons_of_length_pos (show 0 < parts.length by omega)
    show pinnedByAny? f (e :: es) = none
    rw [pinnedByAny?, ih e (by simp) (not_references_of_mem h (by simp))]

end Expr

end Kanban.Filter
