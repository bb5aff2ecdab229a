import Kanban.Position
import Kanban.Proofs.Double.Exact

/-!
# Spread keys

Keys that were spread out are small multiples of the spacing, and so exact (`rebalanced_eq`).  Half
of the spacing is the unit here: `halfSpacings k` is `k` times `2 ^ 15`.  Sums, differences and
halves of such numbers are exact (`halfSpacings_add`, `halfSpacings_sub`, `half_halfSpacings`), so
between two spread keys, before the first of them and behind the last of them there is always room
for another key (`allocate_between`, `allocate_ahead`, `allocate_behind`).
-/

namespace Kanban.Position

open Double

/-- The units of half a spacing. -/
@[irreducible] def halfUnits : Nat := Nat.pow 2 1089

/-- A number of half spacings, `k` times `2 ^ 15`. -/
def halfSpacings (k : Nat) : Double := ofMagnitude false (k * halfUnits)

theorem halfUnits_eq_pow : ∃ e, e = 15 + 1074 ∧ halfUnits = Nat.pow 2 e :=
  ⟨1089, rfl, by unfold halfUnits; rfl⟩

theorem halfUnits_eq : halfUnits = 2 ^ 15 * one := by
  obtain ⟨e, he, hunits⟩ := halfUnits_eq_pow
  rw [hunits, pow_eq_mul_one he]

theorem halfUnits_pos : 0 < halfUnits := by
  rw [halfUnits_eq]
  exact Nat.mul_pos (by decide) Double.one_pos

theorem representable_halfSpacings {k : Nat} (h : k < 2 ^ 53) : Representable (k * halfUnits) := by
  obtain ⟨e, -, hunits⟩ := halfUnits_eq_pow
  refine representable_mul_pow hunits.symm h ?_
  rw [halfUnits_eq, ← Nat.mul_assoc]
  exact mul_one_lt_limit (k := 68) (by decide) (by omega)

theorem halfSpacings_eq {k : Nat} (h : k < 2 ^ 53) :
    halfSpacings k = finite false (k * halfUnits) (representable_halfSpacings h) :=
  ofMagnitude_eq _

theorem isFinite_halfSpacings {k : Nat} (h : k < 2 ^ 53) : (halfSpacings k).isFinite = true := by
  rw [halfSpacings_eq h]; rfl

theorem isNaN_halfSpacings (k : Nat) : (halfSpacings k).isNaN = false := isNaN_ofMagnitude _ _

theorem place_halfSpacings {k : Nat} (h : k < 2 ^ 53) :
    (halfSpacings k).place = (k * halfUnits : Nat) := by
  rw [halfSpacings_eq h]
  rfl

theorem halfSpacings_lt {j k : Nat} (hj : j < 2 ^ 53) (hk : k < 2 ^ 53) :
    halfSpacings j < halfSpacings k ↔ j < k := by
  rw [lt_iff_place (isNaN_halfSpacings j) (isNaN_halfSpacings k), place_halfSpacings hj,
    place_halfSpacings hk, Int.ofNat_lt]
  exact Nat.mul_lt_mul_right halfUnits_pos

theorem unsignZero_halfSpacings {k : Nat} (hpos : 0 < k) (h : k < 2 ^ 53) :
    (halfSpacings k).unsignZero = halfSpacings k := by
  rw [halfSpacings_eq h]
  exact unsignZero_finite (Nat.mul_pos hpos halfUnits_pos).ne'

/-! ### Exact arithmetic -/

theorem halfSpacings_add {j k : Nat} (h : j + k < 2 ^ 53) :
    halfSpacings j + halfSpacings k = halfSpacings (j + k) := by
  have hsum : (j + k) * halfUnits = j * halfUnits + k * halfUnits := Nat.add_mul _ _ _
  have hrep := representable_halfSpacings h
  rw [halfSpacings_eq (Nat.lt_of_le_of_lt (Nat.le_add_right j k) h),
    halfSpacings_eq (Nat.lt_of_le_of_lt (Nat.le_add_left k j) h), halfSpacings, hsum]
  rw [hsum] at hrep
  rw [finite_add_finite _ _ hrep, ofMagnitude_eq hrep]

theorem halfSpacings_sub {j k : Nat} (hjk : j < k) (h : k < 2 ^ 53) :
    halfSpacings k - halfSpacings j = halfSpacings (k - j) := by
  have hdiff : (k - j) * halfUnits = k * halfUnits - j * halfUnits := Nat.sub_mul _ _ _
  have hrep := representable_halfSpacings (Nat.lt_of_le_of_lt (Nat.sub_le k j) h)
  have hlt : j * halfUnits < k * halfUnits := Nat.mul_lt_mul_of_pos_right hjk halfUnits_pos
  rw [halfSpacings_eq h, halfSpacings_eq (hjk.trans h), halfSpacings, hdiff]
  rw [hdiff] at hrep
  rw [finite_sub_finite _ _ hlt hrep, ofMagnitude_eq hrep]

theorem half_halfSpacings {k : Nat} (h : 2 * k < 2 ^ 53) :
    (halfSpacings (2 * k)).half = halfSpacings k := by
  have htwo : 2 * k * halfUnits = k * halfUnits * 2 := by
    rw [Nat.mul_comm 2 k, Nat.mul_assoc, Nat.mul_comm 2, ← Nat.mul_assoc]
  have hrep := representable_halfSpacings h
  rw [halfSpacings, htwo]
  rw [htwo] at hrep
  have hk : k < 2 ^ 53 := by omega
  rw [ofMagnitude_eq hrep, half_finite hrep (representable_halfSpacings hk), halfSpacings_eq hk]

/-! ### Spreading out -/

theorem exists_spacing_eq : ∃ h, spacing = finite false (65536 * one) h :=
  ⟨_, ofInt_eq (i := 65536) (representable_mul_one (by decide))⟩

theorem spacing_units_ne_zero : 65536 * one ≠ 0 := (Nat.mul_pos (by decide) Double.one_pos).ne'

private theorem spacing_units : 65536 * one = 2 * halfUnits := by
  rw [halfUnits_eq, ← Nat.mul_assoc, show 2 * 2 ^ 15 = 65536 from rfl]

theorem ofInt_mul_spacing {n : Nat} (h : n ≤ 2 ^ 50) :
    ofInt n * spacing = halfSpacings (2 * n) := by
  have h2n : 2 * n < 2 ^ 53 := by omega
  have hunits : n * one * (65536 * one) = 2 * n * halfUnits * one := by
    rw [spacing_units, Nat.mul_right_comm n one, Nat.mul_comm 2 n, Nat.mul_assoc n 2]
  have hneg : decide ((n : Int) < 0) = false := decide_eq_false (by omega)
  obtain ⟨hs, hspacing⟩ := exists_spacing_eq
  rw [hspacing, ofInt_eq (i := n) (representable_mul_one (by omega)), hneg, finite_mul_finite,
    Int.natAbs_natCast, hunits, ofQuotient_mul Double.one_pos (representable_halfSpacings h2n),
    halfSpacings_eq h2n]
  rfl

theorem spacing_eq : spacing = halfSpacings 2 := by
  obtain ⟨hs, hspacing⟩ := exists_spacing_eq
  rw [hspacing, halfSpacings, ← spacing_units, ofMagnitude_eq hs]

theorem isFinite_spacing : spacing.isFinite = true := by
  rw [spacing_eq]; exact isFinite_halfSpacings (by decide)

/-- Keys that were spread out are the first multiples of the spacing. -/
theorem rebalanced_eq {n : Nat} (h : n ≤ 2 ^ 50) :
    rebalanced n = (List.range n).map fun i => halfSpacings (2 * (i + 1)) := by
  apply List.map_congr_left
  intro i hi
  rw [List.mem_range] at hi
  exact ofInt_mul_spacing (by omega)

theorem length_rebalanced (n : Nat) : (rebalanced n).length = n := by
  rw [rebalanced, List.length_map, List.length_range]

theorem getElem?_rebalanced {n i : Nat} (h : n ≤ 2 ^ 50) (hi : i < n) :
    (rebalanced n)[i]? = some (halfSpacings (2 * (i + 1))) := by
  rw [rebalanced_eq h, List.getElem?_map, List.getElem?_range hi]
  rfl

/-! ### Room among spread keys -/

theorem allocate_between {j k : Nat} (hjk : j < k) (hk : k ≤ 2 ^ 50) :
    allocate (some (halfSpacings (2 * j))) (some (halfSpacings (2 * k))) =
      halfSpacings (j + k) := by
  have hgap : 2 * k - 2 * j = 2 * (k - j) := by omega
  have hmid : 2 * j + (k - j) = j + k := by omega
  show halfSpacings (2 * j) + (halfSpacings (2 * k) - halfSpacings (2 * j)).half = _
  rw [halfSpacings_sub (by omega) (by omega), hgap, half_halfSpacings (by omega),
    halfSpacings_add (by omega), hmid]

theorem allocate_ahead {k : Nat} (hpos : 0 < k) (hk : k ≤ 2 ^ 50) :
    allocate none (some (halfSpacings (2 * k))) = halfSpacings k := by
  have hzero : Double.zero < halfSpacings (2 * k) := by
    have : Double.zero = halfSpacings 0 := by rw [halfSpacings, Nat.zero_mul]; rfl
    rw [this, halfSpacings_lt (by decide) (by omega)]
    omega
  rw [allocate, if_pos hzero, half_halfSpacings (by omega)]

theorem allocate_behind {k : Nat} (hk : k ≤ 2 ^ 50) :
    allocate (some (halfSpacings (2 * k))) none = halfSpacings (2 * k + 2) := by
  rw [allocate, spacing_eq, halfSpacings_add (by omega)]

end Kanban.Position
