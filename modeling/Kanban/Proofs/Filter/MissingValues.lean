import Kanban.Calendar.ZoneTable
import Kanban.Proofs.Filter.Pinned

/-!
# Filters and missing values

A condition on a missing value is unknown, whatever it compares the value with, and with `nulls` it
is true (`Condition.truth_nulls_iff`, `Condition.truth_of_missing`).  A filter has no negation, so
it is true of a task as soon as its conditions are true where those of another reading were
(`Expr.matches_mono`).  Hence a request that includes missing values finds every task that it would
find without them, and besides these only tasks without a value that the filter asks for
(`Filter.matches_nulls_exact`).
-/

namespace Kanban.Filter

variable {nulls nulls' : Bool} {d d' : TaskDetail}

/-! ### Conditions -/

section

variable {t : Task} {f : Field} (h : isMissing t f = true)

include h

theorem isNullable_of_missing : f.isNullable = true := by
  cases f with
  | description | doneAt | dueDate => rfl
  | _ => cases h

theorem isRelation_of_missing : f.isRelation = false := by
  cases f with
  | description | doneAt | dueDate => rfl
  | _ => cases h

theorem columnWith_of_missing : columnWith Cell.ofJulian t f = .missing := by
  cases f with
  | description | doneAt | dueDate => simp_all [isMissing, columnWith, Cell.ofJulian]
  | _ => cases h

end

namespace Condition

/-- No comparator holds of a missing value, not even the one for values that differ. -/
theorem columnTruth_missing (c : Condition) : c.columnTruth .missing ≠ some true := by
  unfold columnTruth
  cases c.comparator with
  | like =>
    simp only
    split <;> exact nofun
  | among =>
    intro h
    obtain ⟨y, -, hy⟩ := mem_of_amongCells h
    exact absurd hy nofun
  | _ => exact nofun

/-- Including missing values adds the tasks without the value to those of which the condition is
true. -/
theorem truth_nulls_iff (c : Condition) (d : TaskDetail) :
    c.truth true d = some true ↔ c.truth false d = some true ∨ isMissing d.task c.field = true := by
  by_cases hmissing : isMissing d.task c.field = true
  · simp [truth, isRelation_of_missing hmissing, isNullable_of_missing hmissing, hmissing,
      Truth.or_eq_true]
  · -- A value that is there makes the further alternative false.
    simp only [hmissing, Bool.false_eq_true, or_false]
    simp only [truth, hmissing]
    split
    · rfl
    · simp only [Bool.true_and, Bool.false_and, Bool.false_eq_true, if_false]
      split
      · simp [Truth.or_eq_true]
      · rfl

/-- A condition on a missing value is not true unless missing values are included. -/
theorem truth_of_missing {c : Condition} (h : isMissing d.task c.field = true) :
    c.truth false d ≠ some true := by
  simp only [truth, isRelation_of_missing h, columnWith_of_missing h, Bool.false_eq_true, if_false,
    Bool.false_and]
  exact c.columnTruth_missing

end Condition

/-! ### Expressions -/

namespace Expr

theorem matches_condition {c : Condition} :
    (condition c).matchesTask nulls d = true ↔ c.truth nulls d = some true :=
  beq_iff_eq

/-- Induction over the parts of a filter. -/
theorem induct {P : Expr → Prop} (condition : ∀ c, P (.condition c))
    (all : ∀ parts, (∀ e ∈ parts, P e) → P (.all parts))
    (any : ∀ parts, (∀ e ∈ parts, P e) → P (.any parts)) : ∀ e, P e
  | .condition c => condition c
  | .all parts => all parts fun e _ => induct condition all any e
  | .any parts => any parts fun e _ => induct condition all any e

/-- A filter whose conditions are true in more cases is true in more cases. -/
theorem matches_mono {e : Expr}
    (h : ∀ c ∈ e.conditions, c.truth nulls d = some true → c.truth nulls' d' = some true)
    (he : e.matchesTask nulls d = true) : e.matchesTask nulls' d' = true := by
  induction e using induct with
  | condition c => exact matches_condition.2 (h c (by simp [conditions]) (matches_condition.1 he))
  | all parts ih =>
    refine matches_all.2 fun e hmem => ih e hmem (fun c hc => h c ?_) (matches_all.1 he e hmem)
    exact mem_conditionsOf.2 ⟨e, hmem, hc⟩
  | any parts ih =>
    obtain ⟨e, hmem, he⟩ := matches_any.1 he
    refine matches_any.2 ⟨e, hmem, ih e hmem (fun c hc => h c ?_) he⟩
    exact mem_conditionsOf.2 ⟨e, hmem, hc⟩

end Expr

/-- With missing values included a filter is true of every task of which it is true without them.
It is true of no other task that has a value in each field which the filter mentions; a condition on
a value that a task does not have is true of it then, and is not true of it otherwise. -/
theorem matches_nulls_exact (e : Expr) (d : TaskDetail) :
    (e.matchesTask false d = true → e.matchesTask true d = true) ∧
    ((∀ f ∈ [Field.description, .doneAt, .dueDate], e.references f = true →
      isMissing d.task f = false) →
      (e.matchesTask true d = true ↔ e.matchesTask false d = true)) ∧
    ∀ c, isMissing d.task c.field = true →
      (Expr.condition c).matchesTask true d = true ∧
      (Expr.condition c).matchesTask false d = false := by
  have hmore : e.matchesTask false d = true → e.matchesTask true d = true :=
    Expr.matches_mono fun c _ hc => (c.truth_nulls_iff d).2 (.inl hc)
  refine ⟨hmore, fun hvalues => ⟨Expr.matches_mono fun c hc htrue => ?_, hmore⟩,
    fun c hmissing => ⟨?_, ?_⟩⟩
  · -- A condition that is true for want of a value mentions one of the three fields.
    rcases (c.truth_nulls_iff d).1 htrue with hfalse | hmissing
    · exact hfalse
    · have hfield : c.field ∈ [Field.description, .doneAt, .dueDate] := by
        have hnullable := isNullable_of_missing hmissing
        cases hf : c.field <;> simp_all [Field.isNullable]
      have hmentioned : e.references c.field = true := List.any_eq_true.2 ⟨c, hc, by simp⟩
      rw [hvalues c.field hfield hmentioned] at hmissing
      cases hmissing
  · exact Expr.matches_condition.2 ((c.truth_nulls_iff d).2 (.inr hmissing))
  · exact Bool.eq_false_iff.2 fun h => Condition.truth_of_missing hmissing
      (Expr.matches_condition.1 h)

/-- A task with a description and a due date, or without one. -/
def planned (description : String) (due : Option Instant) : TaskDetail :=
  ⟨{ description := some description, dueDate := due }, [], [], none⟩

/-- Of two tasks without a due date one matches by its description, and the other one only when
missing values are included.  With a due date that is too late it does not match in either case. -/
theorem matches_nulls_exact_planned :
    ∃ e, Filter.parse Zone.tabulated? default
      "done = false && (due_date < 2024-05-01 || description like plan)" "" = .ok (some e) ∧
      e.matchesTask false (planned "my plan" none) = true ∧
      e.matchesTask true (planned "my plan" none) = true ∧
      e.matchesTask false (planned "notes" none) = false ∧
      e.matchesTask true (planned "notes" none) = true ∧
      e.matchesTask true (planned "notes" (some ⟨1717200000, 0⟩)) = false := by
  let text := "done = false && (due_date < 2024-05-01 || description like plan)"
  have heval : (Filter.parse Zone.tabulated? default text "").toOption.bind (·.map fun e =>
      (e.references .doneAt, e.matchesTask false (planned "my plan" none),
        e.matchesTask false (planned "notes" none), e.matchesTask true (planned "notes" none),
        e.matchesTask false (planned "notes" (some ⟨1717200000, 0⟩)))) =
      some (false, true, false, true, false) := by decide +kernel
  obtain ⟨expr, hexpr, hread⟩ := Option.bind_eq_some_iff.1 heval
  obtain ⟨e, rfl, hvalues⟩ := Option.map_eq_some_iff.1 hread
  simp only [Prod.mk.injEq] at hvalues
  obtain ⟨hdoneAt, hplan, hnotes, hnulls, hlate⟩ := hvalues
  refine ⟨e, toOption_eq_some.1 hexpr, hplan, (matches_nulls_exact e _).1 hplan, hnotes, hnulls, ?_⟩
  rw [← hlate, Bool.eq_iff_iff]
  refine (matches_nulls_exact e _).2.1 ?_
  simp [hdoneAt, planned, isMissing]

end Kanban.Filter
