import Kanban.Proofs.Double.Nearest
import Kanban.Proofs.Position.Numbers
import Kanban.Proofs.Position.Tail

/-!
# New keys are finite

The keys that are given out by themselves, to new rows, behind the last row and when keys are spread
out, are finite.  Ids and numbers of rows are below `2 ^ 63`, far from the largest double
(`isFinite_mul_spacing`).  Behind a key of any size the next one is finite as well: near the largest
double a spacing is too little to be noticed (`isFinite_add_spacing`).  So a key that is strictly
between its neighbors is always finite (`isFinite_allocate`).
-/

namespace Kanban.Position

open Double

/-! ### Behind a key -/

/-- The largest magnitude of a finite double. -/
theorem le_of_representable {m e : Nat} (he : e = 2045) (hm : Representable m) :
    m ≤ limit - 2 ^ e := by
  obtain ⟨l, hl, hlimit⟩ := limit_eq_pow
  have hlimit : limit = 2 ^ 53 * Nat.pow 2 e := by
    rw [hlimit, show l = 53 + e by omega]
    exact Nat.pow_add 2 53 e
  have hstep : step m ≤ Nat.pow 2 e := step_le_of_lt rfl (Nat.lt_of_lt_of_eq hm.2 hlimit)
  have hcount : m / step m ≤ 2 ^ 53 - 1 := Nat.le_pred_of_lt (div_step_lt m)
  calc m = m / step m * step m := (Nat.div_mul_cancel hm.1).symm
    _ ≤ (2 ^ 53 - 1) * Nat.pow 2 e := Nat.mul_le_mul hcount hstep
    _ = limit - 2 ^ e := by rw [hlimit, Nat.sub_mul, Nat.one_mul]; rfl

/-- One spacing more is not too much for any finite number. -/
theorem isFinite_add_spacing {x : Double} (hx : x.isFinite = true) :
    (x + spacing).isFinite = true := by
  obtain ⟨e, he⟩ : ∃ e, e = 2045 := ⟨_, rfl⟩
  obtain ⟨d, hd⟩ : ∃ d, d = 17 + 1074 := ⟨_, rfl⟩
  have hroom : 2 ^ 17 * one < 2 ^ e :=
    (pow_eq_mul_one hd).symm.trans_lt (Nat.pow_lt_pow_right (by decide) (by omega))
  have hlimit : 2 ^ e ≤ limit := pow_le_limit (by omega)
  have hrep := representable_place hx
  have hle := le_of_representable he hrep
  rw [isFinite_iff (isNaN_add (isNaN_of_isFinite hx) isFinite_spacing),
    place_add_eq hx isFinite_spacing, place_spacing]
  have hlow := le_rounded (i := x.place + (65536 * one : Nat)) hrep (by omega)
  rcases hlow.eq_or_lt with heq | hlt
  · rw [← heq]
    exact hrep.2
  · have := le_two_mul_of_lt_rounded hrep hlt
    omega

/-- Neither is one spacing less. -/
theorem isFinite_sub_spacing {x : Double} (hx : x.isFinite = true) :
    (x - spacing).isFinite = true := by
  obtain ⟨hneg, hplace⟩ := place_neg hx
  have hadd := isFinite_add_spacing hneg
  rw [isFinite_iff (isNaN_of_isFinite hadd), place_add_eq hneg isFinite_spacing, hplace] at hadd
  rw [isFinite_iff (isNaN_sub (isNaN_of_isFinite hx) isFinite_spacing),
    place_sub_eq hx isFinite_spacing,
    show x.place - spacing.place =
      -(-x.place + spacing.place) by omega, rounded_neg, Int.natAbs_neg]
  exact hadd

theorem isFinite_allocate_tail {tail : Option Double} (h : ∀ x, tail = some x → x.isFinite = true) :
    (allocate tail none).isFinite = true := by
  cases tail with
  | none => exact isFinite_spacing
  | some x => exact isFinite_add_spacing (h x rfl)

/-! ### Between neighbors -/

/-- Next to a neighbor that is not finite there is no other key than its own. -/
theorem allocate_of_not_finite {x : Double} (hx : x.isFinite = false) :
    allocate none (some x) = x ∧ allocate (some x) none = x := by
  obtain ⟨hs, hspacing⟩ := exists_spacing_eq
  rw [allocate, allocate, hspacing]
  rcases x with ⟨s, m, hm⟩ | s | s
  · cases hx
  · refine ⟨?_, rfl⟩
    split <;> rfl
  · refine ⟨?_, rfl⟩
    split <;> rfl

/-- A key that is strictly between its neighbors is finite, whatever they are. -/
theorem isFinite_allocate {b a : Option Double} (hb : ∀ x, b = some x → x < allocate b a)
    (ha : ∀ y, a = some y → allocate b a < y) : (allocate b a).isFinite = true := by
  rcases b with - | x <;> rcases a with - | y
  · exact isFinite_spacing
  · have hlt := ha y rfl
    cases hy : y.isFinite with
    | false =>
      rw [(allocate_of_not_finite hy).1] at hlt
      exact absurd hlt (lt_asymm hlt)
    | true =>
      rw [allocate]
      split
      · exact (place_half hy).1
      · exact isFinite_sub_spacing hy
  · have hlt := hb x rfl
    cases hx : x.isFinite with
    | false =>
      rw [(allocate_of_not_finite hx).2] at hlt
      exact absurd hlt (lt_asymm hlt)
    | true => exact isFinite_add_spacing hx
  · exact isFinite_of_lt_of_lt (hb x rfl) (ha y rfl)

theorem needsRebalance_allocate_eq_false {b a : Option Double} :
    needsRebalance b a (allocate b a) = false ↔
      (∀ x, b = some x → x < allocate b a) ∧ ∀ y, a = some y → allocate b a < y :=
  needsRebalance_eq_false.trans (and_iff_right_of_imp fun h => isFinite_allocate h.1 h.2)

/-! ### Multiples of the spacing -/

/-- A quotient up to a representable number is finite, and so large at most. -/
theorem exists_ofQuotient_eq {s : Bool} {num den k : Nat} (hden : 0 < den) (hk : Representable k)
    (h : num ≤ k * den) :
    ∃ m, ∃ hm : Representable m, m ≤ k ∧ ofQuotient s num den = finite s m hm := by
  have hle := nearest_mono hden h
  rw [nearest_mul hden hk] at hle
  have hrep : Representable (nearest num den) :=
    ⟨step_dvd_nearest hden, Nat.lt_of_le_of_lt hle hk.2⟩
  exact ⟨_, hrep, hle, ofMagnitude_eq hrep⟩

theorem isFinite_mul_spacing {i : Int} (h : i.natAbs ≤ 2 ^ 63) :
    (ofInt i * spacing).isFinite = true := by
  have hid : Representable (2 ^ 63 * one) := representable_pow_mul_one (by decide)
  have hproduct : Representable (2 ^ 79 * one) := representable_pow_mul_one (by decide)
  obtain ⟨hs, hspacing⟩ := exists_spacing_eq
  have hsmall : i.natAbs * one ≤ 2 ^ 63 * one * 1 := by
    rw [Nat.mul_one]
    exact Nat.mul_le_mul_right one h
  obtain ⟨m, hm, hle, hint⟩ := exists_ofQuotient_eq (s := decide (i < 0)) Nat.one_pos hid hsmall
  have hmul : m * (65536 * one) ≤ 2 ^ 79 * one * one := by
    rw [← Nat.mul_assoc]
    exact Nat.mul_le_mul_right one (by omega)
  obtain ⟨n, hn, -, heq⟩ :=
    exists_ofQuotient_eq (s := decide (i < 0) != false) Double.one_pos hproduct hmul
  rw [ofInt, hint, hspacing, finite_mul_finite, heq]
  rfl

theorem isFinite_initial {id : Int} (h : id.natAbs ≤ 2 ^ 63) :
    (initial id .zero).isFinite = true := by
  unfold initial
  split
  · exact isFinite_mul_spacing h
  · exact isFinite_zero

theorem isFinite_rebalanced {n : Nat} (h : n ≤ 2 ^ 63) : ∀ x ∈ rebalanced n, x.isFinite = true := by
  simp only [rebalanced, List.mem_map, List.mem_range]
  rintro x ⟨i, hi, rfl⟩
  exact isFinite_mul_spacing (by omega)

end Kanban.Position
