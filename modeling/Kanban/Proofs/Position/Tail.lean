import Kanban.Proofs.Double.Rounding
import Kanban.Proofs.Position.Spread

/-!
# Keys behind a tail

Keys that are given out one after the other behind a last key (`Position.behind`) increase strictly
and lie behind that key, as long as the keys are small enough for their spacing to count
(`Position.HasRoom`, `Position.behind_increasing`).
-/

namespace Kanban.Position

open Double

/-- The keys of items that are appended one after the other. -/
def behind : (tail : Option Double) → (count : Nat) → List Double
  | _, 0 => []
  | tail, count + 1 => allocate tail none :: behind (some (allocate tail none)) count

theorem length_behind (tail : Option Double) (count : Nat) :
    (behind tail count).length = count := by
  induction count generalizing tail with
  | zero => rfl
  | succ count ih => rw [behind, List.length_cons, ih]

/-- A key behind which so many others can be appended. -/
structure HasRoom (x : Double) (count : Nat) : Prop where
  finite : x.isFinite = true
  low : -(2 ^ 61 * one : Nat) < x.place
  high : x.place + (count * 2 ^ 17 * one : Nat) < (2 ^ 61 * one : Nat)

/-! ### The next key -/

theorem place_spacing : spacing.place = (65536 * one : Nat) := by
  obtain ⟨hs, hspacing⟩ := exists_spacing_eq
  rw [hspacing, place_finite]
  rfl

/-- Numbers below `2 ^ 62` are at most 512 apart. -/
private theorem place_add_spacing {x : Double} (hx : x.isFinite = true)
    (hlow : -(2 ^ 61 * one : Nat) < x.place) (hhigh : x.place < (2 ^ 61 * one : Nat)) :
    (x + spacing).isFinite = true ∧ x.place < (x + spacing).place ∧
      (x + spacing).place ≤ x.place + (2 ^ 17 * one : Nat) := by
  have hone := Double.one_pos
  have hlimit : 2 ^ 54 * (2 ^ 9 * one) ≤ limit := by
    rw [← Nat.mul_assoc]
    exact (mul_one_lt_limit (k := 64) (by decide) (by decide)).le
  obtain ⟨hfin, hge, hle⟩ := place_add hx isFinite_spacing (pow_eq_mul_one (k := 9) rfl) hlimit
    (by rw [place_spacing]; omega) (by rw [place_spacing]; omega)
  rw [place_spacing] at hge hle
  exact ⟨hfin, by omega, by omega⟩

theorem HasRoom.next {x : Double} {count : Nat} (h : HasRoom x (count + 1)) :
    HasRoom (allocate (some x) none) count ∧ x.place < (allocate (some x) none).place := by
  have hone := Double.one_pos
  have hlow := h.low
  have hhigh := h.high
  have hcount : (count + 1) * 2 ^ 17 * one = count * 2 ^ 17 * one + 2 ^ 17 * one := by
    rw [Nat.succ_mul, Nat.add_mul]
  rw [hcount] at hhigh
  obtain ⟨hfin, hlt, hle⟩ := place_add_spacing h.finite hlow (by omega)
  exact ⟨⟨hfin, show _ < (x + spacing).place by omega, show (x + spacing).place + _ < _ by omega⟩,
    hlt⟩

/-- The first key of all. -/
theorem hasRoom_spacing {count : Nat} (h : count < 2 ^ 40) : HasRoom spacing count where
  finite := isFinite_spacing
  low := by
    rw [place_spacing]
    have := Double.one_pos
    omega
  high := by
    have hcount : count * 2 ^ 17 * one ≤ 2 ^ 40 * 2 ^ 17 * one :=
      Nat.mul_le_mul_right _ (Nat.mul_le_mul_right _ h.le)
    rw [place_spacing]
    have := Double.one_pos
    omega

/-- Behind a key of less than `2 ^ 60` there is room for `2 ^ 40` others. -/
theorem hasRoom_of_lt {x : Double} {count : Nat} (hlow : ofInt (-2 ^ 60) < x)
    (hhigh : x < ofInt (2 ^ 60)) (hcount : count < 2 ^ 40) : HasRoom x count := by
  have hnum := (isNaN_of_lt hhigh).1
  have hone := Double.one_pos
  have hlimit : 2 ^ 60 * one < limit := (representable_pow_mul_one (by decide)).2
  rw [lt_iff_place (isNaN_ofInt _) hnum, (place_ofInt_pow (by decide)).2] at hlow
  rw [lt_iff_place hnum (isNaN_ofInt _), (place_ofInt_pow (by decide)).1] at hhigh
  have hcount : count * 2 ^ 17 * one ≤ 2 ^ 40 * 2 ^ 17 * one :=
    Nat.mul_le_mul_right _ (Nat.mul_le_mul_right _ hcount.le)
  refine ⟨?_, by omega, by omega⟩
  match x, hnum with
  | finite _ _ _, _ => rfl
  | infinite s, _ =>
    have hinf : (infinite s).place = signed s limit := rfl
    rw [hinf] at hlow hhigh
    cases s <;> simp only [signed, if_true, Bool.false_eq_true, if_false] at hlow hhigh <;> omega

/-! ### All keys -/

private theorem behind_some {x : Double} {count : Nat} (h : HasRoom x count) :
    (∀ k ∈ behind (some x) count, k.isFinite = true ∧ x.place < k.place) ∧
      (behind (some x) count).Pairwise (·.place < ·.place) := by
  induction count generalizing x with
  | zero => simp [behind]
  | succ count ih =>
    obtain ⟨hroom, hlt⟩ := h.next
    obtain ⟨hall, hpairwise⟩ := ih hroom
    rw [behind]
    refine ⟨?_, List.pairwise_cons.2 ⟨fun k hk => (hall k hk).2, hpairwise⟩⟩
    rintro k (- | ⟨_, hk⟩)
    · exact ⟨hroom.finite, hlt⟩
    · exact ⟨(hall k hk).1, hlt.trans (hall k hk).2⟩

/-- Appended keys are finite, lie behind the tail and increase strictly. -/
theorem behind_increasing {tail : Option Double} {count : Nat}
    (htail : ∀ x, tail = some x → HasRoom x count) (hcount : count < 2 ^ 40) :
    (∀ k ∈ behind tail count, k.isFinite = true ∧ ∀ x, tail = some x → x.place < k.place) ∧
      (behind tail count).Pairwise (·.place < ·.place) := by
  cases tail with
  | some x =>
    obtain ⟨hall, hpairwise⟩ := behind_some (htail x rfl)
    refine ⟨fun k hk => ⟨(hall k hk).1, ?_⟩, hpairwise⟩
    rintro y ⟨⟩
    exact (hall k hk).2
  | none =>
    cases count with
    | zero => simp [behind]
    | succ count =>
      obtain ⟨hall, hpairwise⟩ := behind_some (hasRoom_spacing (Nat.lt_of_succ_lt hcount))
      rw [behind]
      refine ⟨?_, List.pairwise_cons.2 ⟨fun k hk => (hall k hk).2, hpairwise⟩⟩
      rintro k (- | ⟨_, hk⟩)
      · exact ⟨isFinite_spacing, by simp⟩
      · exact ⟨(hall k hk).1, by simp⟩

end Kanban.Position
