import Mathlib.Tactic.Positivity
import Mathlib.Tactic.Ring
import Kanban.Proofs.Double.Order

/-!
# Exact arithmetic

A representable number of units is its own rounding (`nearest_mul`, `ofQuotient_mul`).  So sums,
differences and halves are exact as soon as their exact values are representable, and a number with
at most 53 binary digits, times a power of two, is representable as long as it stays below the limit
(`representable_mul_pow`).  Powers of two are compared by their exponents (`pow_eq_mul_one`,
`pow_le_limit`, `mul_one_lt_limit`), and their thousands of digits never computed.
-/

namespace Kanban.Double

theorem step_pos (m : Nat) : 0 < step m := Nat.two_pow_pos _

/-! ### Representable numbers -/

theorem log2_mul_pow_lt {a e : Nat} (hpos : 0 < a) (ha : a < 2 ^ 53) :
    (a * 2 ^ e).log2 < 53 + e := by
  have hpow : 0 < 2 ^ e := Nat.two_pow_pos e
  rw [Nat.log2_lt (Nat.mul_pos hpos hpow).ne']
  calc a * 2 ^ e < 2 ^ 53 * 2 ^ e := Nat.mul_lt_mul_of_pos_right ha hpow
    _ = 2 ^ (53 + e) := (Nat.pow_add 2 53 e).symm

theorem representable_mul_pow {a e u : Nat} (hu : Nat.pow 2 e = u) (ha : a < 2 ^ 53)
    (hl : a * u < limit) :
    Representable (a * u) := by
  subst hu
  refine ⟨?_, hl⟩
  rcases Nat.eq_zero_or_pos a with rfl | hpos
  · rw [Nat.zero_mul]; exact Nat.dvd_zero _
  · have hlog := log2_mul_pow_lt (e := e) hpos ha
    have hdvd : step (a * 2 ^ e) ∣ 2 ^ e := Nat.pow_dvd_pow 2 (by omega)
    exact hdvd.trans (Nat.dvd_mul_left _ _)

/-! ### Powers of two -/

theorem one_eq_pow : ∃ e, e = 1074 ∧ one = Nat.pow 2 e := ⟨1074, rfl, by unfold one; rfl⟩

theorem limit_eq_pow : ∃ e, e = 2098 ∧ limit = Nat.pow 2 e := ⟨2098, rfl, by unfold limit; rfl⟩

protected theorem one_pos : 0 < one := by
  obtain ⟨e, -, hone⟩ := one_eq_pow
  exact hone ▸ Nat.two_pow_pos e

/-- A power of two that is large enough is a whole number. -/
theorem pow_eq_mul_one {k e : Nat} (h : e = k + 1074) : Nat.pow 2 e = 2 ^ k * one := by
  obtain ⟨d, hd, hone⟩ := one_eq_pow
  rw [hone, h, ← hd]
  exact Nat.pow_add 2 k d

theorem pow_le_limit {k : Nat} (h : k ≤ 2098) : 2 ^ k ≤ limit := by
  obtain ⟨e, he, hlimit⟩ := limit_eq_pow
  rw [hlimit]
  exact Nat.pow_le_pow_right (by decide) (by omega)

/-- Whole numbers below `2 ^ 1024` are below the limit. -/
theorem mul_one_lt_limit {n k : Nat} (hk : k ≤ 1024) (h : n < 2 ^ k) : n * one < limit := by
  have hlimit : Nat.pow 2 (k + 1074) ≤ limit := pow_le_limit (by omega)
  rw [pow_eq_mul_one rfl] at hlimit
  exact Nat.lt_of_lt_of_le (Nat.mul_lt_mul_of_pos_right h Double.one_pos) hlimit

theorem representable_mul_one {n : Nat} (h : n < 2 ^ 53) : Representable (n * one) := by
  obtain ⟨e, -, hone⟩ := one_eq_pow
  exact representable_mul_pow hone.symm h (mul_one_lt_limit (k := 53) (by decide) h)

theorem representable_pow_mul_one {k : Nat} (h : k < 1024) : Representable (2 ^ k * one) := by
  have hlt : 1 * (2 ^ k * one) < limit := by
    rw [Nat.one_mul]
    exact mul_one_lt_limit h (Nat.pow_lt_pow_right (by decide) (Nat.lt_succ_self k))
  rw [← Nat.one_mul (2 ^ k * one)]
  exact representable_mul_pow (pow_eq_mul_one rfl) (by decide) hlt

/-! ### Rounding -/

/-- A representable number is its own rounding, however it is written as a quotient. -/
theorem nearest_mul {k den : Nat} (hden : 0 < den) (hk : Representable k) :
    nearest (k * den) den = k := by
  obtain ⟨c, hc⟩ := hk.1
  have hstep := step_pos k
  have hquot : k * den / den = k := Nat.mul_div_cancel _ hden
  have hlow : k * den / (den * step k) = c := by
    have hfactor : k * den = den * step k * c := by
      nth_rewrite 1 [hc]
      ring
    rw [hfactor]
    exact Nat.mul_div_cancel_left _ (by positivity)
  have hrest : k * den % (den * step k) = 0 := by
    apply Nat.mod_eq_zero_of_dvd
    exact ⟨c, by conv => lhs; rw [hc]
                 ring⟩
  -- Nothing is left over, so nothing is rounded up.
  have hunit : ¬(2 * 0 > den * step k ∨ (2 * 0 = den * step k ∧ c % 2 = 1)) := by
    have : 0 < den * step k := by positivity
    omega
  simp only [nearest, hquot, hlow, hrest, if_neg hunit]
  rw [Nat.mul_comm, ← hc]

theorem ofMagnitude_eq {s : Bool} {m : Nat} (h : Representable m) :
    ofMagnitude s m = finite s m h := dif_pos h

theorem ofQuotient_mul {s : Bool} {k den : Nat} (hden : 0 < den) (hk : Representable k) :
    ofQuotient s (k * den) den = finite s k hk := by
  rw [ofQuotient, nearest_mul hden hk, ofMagnitude_eq hk]

/-- An integer is exact if its number of units is representable. -/
theorem ofInt_eq {i : Int} (h : Representable (i.natAbs * one)) :
    ofInt i = finite (decide (i < 0)) (i.natAbs * one) h := by
  have hone : i.natAbs * one = i.natAbs * one * 1 := (Nat.mul_one _).symm
  rw [ofInt]
  conv_lhs => rw [hone]
  exact ofQuotient_mul Nat.one_pos h

/-! ### Operations -/

theorem finite_add_finite {m n : Nat} (hm : Representable m) (hn : Representable n)
    (h : Representable (m + n)) :
    finite false m hm + finite false n hn = finite false (m + n) h := by
  show add _ _ = _
  simp only [add, signed, Bool.false_eq_true, ↓reduceIte]
  by_cases h0 : m + n = 0
  · rw [if_pos (by omega), Bool.and_false, ofMagnitude_eq representable_zero]
    congr 1
    exact h0.symm
  · rw [if_neg (by omega), decide_eq_false (by omega),
      show ((m : Int) + n).natAbs = (m + n) * 1 by omega,
      ofQuotient_mul Nat.one_pos h]

theorem finite_sub_finite {m n : Nat} (hm : Representable m) (hn : Representable n) (hlt : n < m)
    (h : Representable (m - n)) :
    finite false m hm - finite false n hn = finite false (m - n) h := by
  show sub _ _ = _
  simp only [sub, neg, add, signed, Bool.false_eq_true, ↓reduceIte, Bool.not_false]
  rw [if_neg (by omega), decide_eq_false (by omega),
    show ((m : Int) + -n).natAbs = (m - n) * 1 by omega,
    ofQuotient_mul Nat.one_pos h]

theorem finite_mul_finite (s t : Bool) {m n : Nat} (hm : Representable m) (hn : Representable n) :
    finite s m hm * finite t n hn = ofQuotient (s != t) (m * n) one := by
  show mul _ _ = _
  rw [mul]

theorem infinite_mul_finite (s t : Bool) {n : Nat} (hn : Representable n) (hn0 : n ≠ 0) :
    infinite s * finite t n hn = infinite (s != t) := by
  show mul _ _ = _
  rw [mul, if_neg hn0]

theorem half_finite {s : Bool} {m : Nat} (hm : Representable (m * 2)) (h : Representable m) :
    (finite s (m * 2) hm).half = finite s m h :=
  ofQuotient_mul Nat.two_pos h

end Kanban.Double
