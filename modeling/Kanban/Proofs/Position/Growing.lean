import Kanban.Proofs.Double.Nearest
import Kanban.Proofs.Position.Numbers
import Kanban.Proofs.Position.Tail

/-!
# Keys of new rows grow

Keys that are made of ids do not decrease from one id to the next (`place_initial_mono`), and a key
behind another one is not smaller (`place_le_allocate_tail`).  Both hold of numbers of any size:
products and sums that are too large are all infinite, and rounding is monotone.  Where two such
keys are equal the ids tell the rows apart.
-/

namespace Kanban.Position

open Double

/-- A product that is too large is infinite, whether or not its factor is. -/
private theorem place_mul_spacing {m : Nat} (hm : step m ∣ m) :
    (ofMagnitude false m * spacing).place =
      if m < limit then (min (nearest (m * (65536 * one)) one) limit : Nat) else limit := by
  obtain ⟨hs, hspacing⟩ := exists_spacing_eq
  rw [hspacing]
  split
  · rename_i hlt
    have hrep : Representable m := ⟨hm, hlt⟩
    rw [ofMagnitude_eq hrep, finite_mul_finite]
    exact place_ofMagnitude (step_dvd_nearest Double.one_pos)
  · rename_i hge
    rw [ofMagnitude, dif_neg fun hrep : Representable m => hge hrep.2,
      infinite_mul_finite _ _ hs spacing_units_ne_zero]
    rfl

theorem place_initial_mono {i j : Int} (hi : 0 ≤ i) (hij : i ≤ j) :
    (initial i .zero).place ≤ (initial j .zero).place := by
  have hinitial : ∀ k : Int, 0 ≤ k →
      initial k .zero = ofMagnitude false (nearest (k.natAbs * one) 1) * spacing := fun k hk => by
    have hzero : zero.isZero = true := by rw [zero_eq]; rfl
    have hsign : decide (k < 0) = false := decide_eq_false (by omega)
    rw [initial, if_pos hzero, ofInt, hsign, ofQuotient]
  have hunits : i.natAbs * one ≤ j.natAbs * one := Nat.mul_le_mul_right one (by omega)
  have hfactor := nearest_mono Nat.one_pos hunits
  have hproduct := nearest_mono Double.one_pos (Nat.mul_le_mul_right (65536 * one) hfactor)
  rw [hinitial i hi, hinitial j (by omega), place_mul_spacing (step_dvd_nearest Nat.one_pos),
    place_mul_spacing (step_dvd_nearest Nat.one_pos)]
  split
  · split
    · exact Int.ofNat_le.2 (min_le_min_right limit hproduct)
    · exact Int.ofNat_le.2 (min_le_right _ limit)
  · rename_i hlarge
    rw [if_neg fun hlt => hlarge (Nat.lt_of_le_of_lt hfactor hlt)]

theorem place_le_allocate_tail {x : Double} (hx : x.isNaN = false) :
    x.place ≤ (allocate (some x) none).place := by
  have hspacing : 0 ≤ spacing.place := by rw [place_spacing]; omega
  rw [allocate]
  rcases x with ⟨s, m, hm⟩ | s | s
  · rw [place_add_eq rfl isFinite_spacing]
    exact le_rounded (representable_place rfl) (by omega)
  · obtain ⟨hs, hspacing⟩ := exists_spacing_eq
    rw [hspacing]
    exact le_rfl
  · cases hx

end Kanban.Position
