import Kanban.Proofs.Double.Zero
import Kanban.Proofs.Position.Spread

/-!
# New keys are numbers

The keys that are given out by themselves, to new rows, behind the last row and when keys are spread
out, are numbers as long as the keys of the other rows are.  A key between two others is stored as
it is: it is not the negative zero (`unsignZero_allocate`).
-/

namespace Kanban.Position

open Double

theorem isNaN_mul_spacing (i : Int) : (ofInt i * spacing).isNaN = false := by
  refine isNaN_mul (isNaN_ofInt i) isFinite_spacing ?_
  obtain ⟨hs, hspacing⟩ := exists_spacing_eq
  rw [hspacing, isZero, beq_eq_false_iff_ne]
  exact spacing_units_ne_zero

theorem isNaN_initial (id : Int) : (initial id .zero).isNaN = false := by
  unfold initial
  split
  · exact isNaN_mul_spacing id
  · exact isNaN_zero

theorem isNaN_rebalanced {n : Nat} : ∀ x ∈ rebalanced n, x.isNaN = false := by
  simp only [rebalanced, List.mem_map]
  rintro x ⟨i, -, rfl⟩
  exact isNaN_mul_spacing _

/-- A key behind the last one, or the first key of all. -/
theorem isNaN_allocate_tail {tail : Option Double} (h : ∀ x, tail = some x → x.isNaN = false) :
    (allocate tail none).isNaN = false := by
  cases tail with
  | none => exact isNaN_of_isFinite isFinite_spacing
  | some x => exact isNaN_add (h x rfl) isFinite_spacing

/-- A key between keys that are not the negative zero is not the negative zero. -/
theorem unsignZero_allocate {b a : Option Double} (hb : ∀ x, b = some x → x.unsignZero = x)
    (ha : ∀ y, a = some y → y.unsignZero = y) : (allocate b a).unsignZero = allocate b a := by
  rcases b with - | x <;> rcases a with - | y
  · rw [allocate, spacing_eq]
    exact unsignZero_halfSpacings (by decide) (by decide)
  · rw [allocate]
    split
    · rename_i hpos
      exact unsignZero_half hpos
    · exact unsignZero_sub (ha y rfl) _
  · exact unsignZero_add (hb x rfl) _
  · exact unsignZero_add (hb x rfl) _

/-! ### Keys between neighbors -/

theorem needsRebalance_eq_false {b a : Option Double} {key : Double} :
    needsRebalance b a key = false ↔
      key.isFinite = true ∧ (∀ x, b = some x → x < key) ∧ ∀ y, a = some y → key < y := by
  cases b <;> cases a <;> simp [needsRebalance]

end Kanban.Position
