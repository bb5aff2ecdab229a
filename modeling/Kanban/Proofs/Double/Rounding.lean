import Kanban.Proofs.Double.Exact

/-!
# Rounded sums

Rounding moves a magnitude by one step at most (`nearest_le`, `le_nearest`) and makes it
representable (`representable_nearest`).  So a sum of finite numbers that stays below `2 ^ 53` units
of some size is finite and lies within one such unit of the exact sum (`place_add`).
-/

namespace Kanban.Double

/-! ### The error of rounding -/

/-- A rounded magnitude is a number of steps: as many as there are in the magnitude, or one more. -/
theorem nearest_one_eq (m : Nat) :
    nearest m 1 = m / step m * step m ∨ nearest m 1 = (m / step m + 1) * step m := by
  simp only [nearest, Nat.div_one, Nat.one_mul]
  split
  · exact .inr rfl
  · exact .inl rfl

theorem nearest_le (m : Nat) : nearest m 1 ≤ m + step m := by
  have hlow : m / step m * step m ≤ m := Nat.div_mul_le_self m (step m)
  rcases nearest_one_eq m with h | h
  · omega
  · rw [h, Nat.succ_mul]
    omega

theorem le_nearest (m : Nat) : m ≤ nearest m 1 + step m := by
  have hlow : m < m / step m * step m + step m := Nat.lt_div_mul_add (step_pos m)
  rcases nearest_one_eq m with h | h
  · omega
  · rw [h, Nat.succ_mul]
    omega

/-- Fewer than `2 ^ 53` units have steps of one unit at most. -/
theorem step_le_of_lt {m k u : Nat} (hu : Nat.pow 2 k = u) (h : m < 2 ^ 53 * u) : step m ≤ u := by
  subst hu
  refine Nat.pow_le_pow_right (by decide) ?_
  rcases Nat.eq_zero_or_pos m with rfl | hpos
  · exact Nat.zero_le k
  · have hlog : m.log2 < 53 + k := by
      rw [Nat.log2_lt hpos.ne', Nat.pow_add]
      exact h
    omega

/-- There are at most `2 ^ 53` steps in a magnitude. -/
theorem div_step_lt (m : Nat) : m / step m < 2 ^ 53 := by
  rw [Nat.div_lt_iff_lt_mul (step_pos m)]
  have hlog : m < 2 ^ (m.log2 + 1) := Nat.lt_log2_self
  refine Nat.lt_of_lt_of_le hlog ?_
  rw [step, show Nat.pow 2 (m.log2 - 52) = 2 ^ (m.log2 - 52) from rfl, ← Nat.pow_add]
  exact Nat.pow_le_pow_right (by decide) (by omega)

theorem representable_nearest {m : Nat} (h : nearest m 1 < limit) :
    Representable (nearest m 1) := by
  have hsteps := div_step_lt m
  obtain ⟨count, hcount, heq⟩ : ∃ count ≤ 2 ^ 53, nearest m 1 = count * step m := by
    rcases nearest_one_eq m with heq | heq
    · exact ⟨_, by omega, heq⟩
    · exact ⟨_, by omega, heq⟩
  rw [heq] at h ⊢
  rcases Nat.lt_or_eq_of_le hcount with hlt | rfl
  · exact representable_mul_pow rfl hlt h
  · -- All 53 digits carry over, which leaves a power of two.
    have hpow : 2 ^ 53 * step m = 1 * Nat.pow 2 (53 + (m.log2 - 52)) := by
      rw [Nat.one_mul, step]
      exact (Nat.pow_add 2 53 (m.log2 - 52)).symm
    rw [hpow] at h ⊢
    exact representable_mul_pow rfl (by decide) h

/-! ### Sums -/

theorem place_finite {s : Bool} {m : Nat} {h : Representable m} :
    (finite s m h).place = signed s m := rfl

theorem place_ofInt {i : Int} (h : Representable (i.natAbs * one)) : (ofInt i).place = i * one := by
  rw [ofInt_eq h, place_finite]
  rcases lt_or_ge i 0 with hneg | hpos
  · rw [signed, if_pos (decide_eq_true hneg), Int.natCast_mul,
      Int.ofNat_natAbs_of_nonpos hneg.le, Int.neg_mul, Int.neg_neg]
  · rw [signed, if_neg (by simpa using hpos), Int.natCast_mul, Int.natAbs_of_nonneg hpos]

theorem place_ofInt_pow {k : Nat} (h : k < 1024) :
    (ofInt (2 ^ k)).place = (2 ^ k * one : Nat) ∧
    (ofInt (-2 ^ k)).place = -(2 ^ k * one : Nat) := by
  have habs : ((2 : Int) ^ k).natAbs = 2 ^ k := Int.natAbs_pow 2 k
  have hpos : Representable (((2 : Int) ^ k).natAbs * one) := by
    rw [habs]
    exact representable_pow_mul_one h
  have hneg : Representable ((-(2 : Int) ^ k).natAbs * one) := by rwa [Int.natAbs_neg]
  rw [place_ofInt hpos, place_ofInt hneg, Int.neg_mul]
  push_cast
  exact ⟨rfl, rfl⟩

/-- The sum of two finite numbers that is not too large is finite, and off by less than one unit. -/
theorem place_add {x y : Double} (hx : x.isFinite = true) (hy : y.isFinite = true) {k u : Nat}
    (hu : Nat.pow 2 k = u) (hlimit : 2 ^ 54 * u ≤ limit)
    (hlow : -(2 ^ 53 * u : Nat) < x.place + y.place)
    (hhigh : x.place + y.place < (2 ^ 53 * u : Nat)) :
    (x + y).isFinite = true ∧ x.place + y.place - u ≤ (x + y).place ∧
    (x + y).place ≤ x.place + y.place + u := by
  have hupos : 0 < u := hu ▸ Nat.two_pow_pos k
  match x, y, hx, hy with
  | finite s m hm, finite t n hn, _, _ =>
    rw [place_finite, place_finite] at hlow hhigh ⊢
    show (add _ _).isFinite = true ∧ _ ≤ (add _ _).place ∧ (add _ _).place ≤ _
    simp only [add]
    generalize hsum : signed s m + signed t n = sum at *
    split
    · rename_i hzero
      rw [ofMagnitude_eq representable_zero, place_finite]
      refine ⟨rfl, ?_, ?_⟩ <;> cases s <;> cases t <;> simp [signed, hzero]
    · have hstep := step_le_of_lt hu (show sum.natAbs < 2 ^ 53 * u by omega)
      have hle := nearest_le sum.natAbs
      have hge := le_nearest sum.natAbs
      have hrep : Representable (nearest sum.natAbs 1) := representable_nearest (by omega)
      rw [ofQuotient, ofMagnitude_eq hrep, place_finite]
      by_cases hneg : sum < 0
      · rw [decide_eq_true hneg]
        refine ⟨rfl, ?_, ?_⟩ <;> simp only [signed, if_true] <;> omega
      · rw [decide_eq_false hneg]
        refine ⟨rfl, ?_, ?_⟩ <;> simp only [signed, Bool.false_eq_true, if_false] <;> omega

end Kanban.Double
