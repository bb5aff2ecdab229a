import Mathlib.Tactic.Positivity
import Kanban.Proofs.Double.Exact

/-!
# Zero without a sign

Among the numbers that are not the negative zero, the total order of all doubles is the order of
places (`compare_rank`), and a sum that begins with such a number is one again (`unsignZero_add`),
since a sum is rounded to zero only if it is zero.
-/

namespace Kanban.Double

/-! ### Ranks -/

private theorem rank_eq {x : Double} (hx : x.isNaN = false) (hzero : x.unsignZero = x) :
    x.rank = if x.place < 0 then x.place - 1 else x.place := by
  rcases x with ⟨s, m, h⟩ | s | s
  · cases s
    · simp [rank, place, place?, signed]
    · have hm : m ≠ 0 := by
        rintro rfl
        rw [unsignZero, if_pos rfl, zero_eq] at hzero
        simp at hzero
      simpa [rank, place, place?, signed] using hm
  · have hlimit := limit_pos
    cases s
    · simp [rank, place, place?, signed]
    · simpa [rank, place, place?, signed] using hlimit.ne'
  · exact absurd hx (by simp [isNaN])

/-- Numbers with no sign of zero are ranked by their places. -/
theorem compare_rank {x y : Double} (hx : x.isNaN = false) (hx0 : x.unsignZero = x)
    (hy : y.isNaN = false) (hy0 : y.unsignZero = y) :
    x.totalCompare y = compare x.place y.place := by
  unfold totalCompare
  rw [rank_eq hx hx0, rank_eq hy hy0]
  rcases lt_trichotomy x.place y.place with h | h | h
  · rw [compare_lt_iff_lt.2 h, compare_lt_iff_lt]
    split <;> split <;> omega
  · rw [h]
    simp
  · rw [compare_gt_iff_gt.2 h, compare_gt_iff_gt]
    split <;> split <;> omega

/-- A smaller number has a lower rank. -/
theorem rank_lt_of_lt {x y : Double} (h : x < y) : x.rank < y.rank := by
  obtain ⟨hx, hy⟩ := isNaN_of_lt h
  rw [lt_iff_place hx hy] at h
  have hrank : ∀ z : Double, z.isNaN = false →
      z.rank = z.place ∧ 0 ≤ z.place ∨ z.rank = z.place - 1 ∧ z.place ≤ 0 := by
    rintro (⟨s, m, hm⟩ | s | s) hz
    · cases s <;> simp [rank, place, place?, signed]
    · cases s <;> simp [rank, place, place?, signed]
    · exact absurd hz (by simp [isNaN])
  rcases hrank x hx with ⟨hxr, hx0⟩ | ⟨hxr, hx0⟩ <;>
    rcases hrank y hy with ⟨hyr, hy0⟩ | ⟨hyr, hy0⟩ <;>
    omega

/-! ### Results that are not the negative zero -/

private theorem step_le {m : Nat} (hm : m ≠ 0) : step m ≤ m := by
  have hle : step m ≤ 2 ^ m.log2 := Nat.pow_le_pow_right (by decide) (by omega)
  exact hle.trans (Nat.log2_self_le hm)

/-- A magnitude of at least one unit is not rounded to zero. -/
theorem nearest_one_ne_zero {m : Nat} (hm : m ≠ 0) : nearest m 1 ≠ 0 := by
  have hstep := step_pos m
  have hlow : 1 ≤ m / step m :=
    (Nat.le_div_iff_mul_le hstep).2 (by rw [Nat.one_mul]; exact step_le hm)
  simp only [nearest, Nat.div_one, Nat.one_mul]
  split
  · exact (Nat.mul_pos (Nat.succ_pos _) hstep).ne'
  · exact (Nat.mul_pos hlow hstep).ne'

theorem unsignZero_ofMagnitude {s : Bool} {m : Nat} (h : s = false ∨ m ≠ 0) :
    (ofMagnitude s m).unsignZero = ofMagnitude s m := by
  unfold ofMagnitude
  split
  · rename_i hrep
    by_cases hm : m = 0
    · obtain rfl := h.resolve_right (not_not.2 hm)
      subst hm
      rw [unsignZero, if_pos rfl, zero_eq]
    · exact unsignZero_finite hm
  · rfl

theorem unsignZero_add {x : Double} (hx : x.unsignZero = x) (y : Double) :
    (x + y).unsignZero = x + y := by
  show (add x y).unsignZero = add x y
  rcases x with ⟨s, m, hm⟩ | s | s <;> rcases y with ⟨t, n, hn⟩ | t | t
  · simp only [add]
    split
    · rename_i hsum
      refine unsignZero_ofMagnitude (.inl ?_)
      cases s
      · rfl
      · -- A sum of zero with a negative number begins with a positive summand.
        cases t
        · rfl
        · have hm0 : m = 0 := by
            simp only [signed, ↓reduceIte] at hsum
            omega
          subst hm0
          rw [unsignZero, if_pos rfl, zero_eq] at hx
          simp at hx
    · rename_i hsum
      exact unsignZero_ofMagnitude (.inr (nearest_one_ne_zero (by omega)))
  all_goals first | rfl | (simp only [add]; split <;> rfl)

theorem unsignZero_sub {x : Double} (hx : x.unsignZero = x) (y : Double) :
    (x - y).unsignZero = x - y := by
  show (sub x y).unsignZero = sub x y
  rcases x with ⟨s, m, hm⟩ | s | s <;> rcases y with ⟨t, n, hn⟩ | t | t
  · exact unsignZero_add hx (neg (finite t n hn))
  · exact unsignZero_add hx (neg (infinite t))
  all_goals first | rfl | exact unsignZero_add hx _

/-- Half of a positive number has no sign, even if it is zero. -/
theorem unsignZero_half {x : Double} (hx : zero < x) : x.half.unsignZero = x.half := by
  have hnum := (isNaN_of_lt hx).2
  rw [lt_iff_place isNaN_zero hnum, place_zero] at hx
  rcases x with ⟨s, m, hm⟩ | s | s
  · cases s
    · exact unsignZero_ofMagnitude (.inl rfl)
    · simp [place, place?, signed] at hx
      omega
  · rfl
  · rfl

end Kanban.Double
