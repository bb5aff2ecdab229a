import Kanban.Proofs.Double.Bits
import Kanban.Proofs.Double.Nearest
import Kanban.Proofs.Position.Numbers
import Kanban.Proofs.Position.Tail

/-!
# Room between neighbors

A gap between two keys counts as used up exactly if no double lies strictly between them
(`needsRebalance_allocate_exact`), as long as their difference does not overflow.  The difference,
its half and the sum are each rounded.  Between neighbors that are far apart for their size, the
errors do not reach them since there is a coarse grid of representable numbers
(`exists_representable_above`); close neighbors have an exact difference, and then only an odd one,
of which no exact half exists, has to be looked at (`lt_rounded_lt_of_odd`).
-/

namespace Kanban.Position

open Double

/-! ### Grids -/

theorem representable_of_le {n : Nat} (h : n ≤ 2 ^ 53) : Representable n := by
  have hlimit : 2 ^ 54 ≤ limit := pow_le_limit (by decide)
  have hdvd := step_dvd_mul_pow (e := 0) h
  rw [Nat.pow_zero, Nat.mul_one] at hdvd
  exact ⟨hdvd, by omega⟩

theorem representable_of_even {n : Nat} (h : n < 2 ^ 54) (heven : n % 2 = 0) : Representable n := by
  have hlimit : 2 ^ 54 ≤ limit := pow_le_limit (by decide)
  have hdvd := step_dvd_mul_pow (a := n / 2) (e := 1) (by omega)
  rw [show n / 2 * 2 ^ 1 = n by omega] at hdvd
  exact ⟨hdvd, by omega⟩

/-- From `2 ^ 53` on no odd number is representable. -/
theorem even_of_le {n : Nat} (hn : Representable n) (h : 2 ^ 53 ≤ n) : n % 2 = 0 := by
  have hlog : 53 ≤ n.log2 := (Nat.le_log2 (by omega)).2 h
  have hstep : 2 ^ 1 ∣ step n := Nat.pow_dvd_pow 2 (by omega)
  exact Nat.mod_eq_zero_of_dvd (hstep.trans hn.1)

section

variable {k n u : Nat} {A B : Int}

/-- Above every number there is a multiple of a power of two, and it is representable inside `2 ^
53` multiples. -/
theorem exists_representable_above (hu : Nat.pow 2 k = u) (hn : n ≤ 2 ^ 53) (hlimit : n * u < limit)
    (hlow : -(n * u : Nat) ≤ B) (hhigh : B < (n * u : Nat)) :
    ∃ C : Int, Representable C.natAbs ∧ B < C ∧ C ≤ B + u := by
  have hpow : 0 < u := hu ▸ Nat.two_pow_pos k
  have hpos : (0 : Int) < u := Int.natCast_pos.2 hpow
  have hfloor : B / u * u ≤ B := Int.ediv_mul_le B hpos.ne'
  have hnext : B < (B / u + 1) * u := Int.lt_ediv_add_one_mul_self B hpos
  have hle : (B / u + 1) * u ≤ (n * u : Nat) := by
    have hlt : B / u < n := Int.ediv_lt_of_lt_mul hpos hhigh
    have hmul := Int.mul_le_mul_of_nonneg_right (show B / u + 1 ≤ n by omega) hpos.le
    rwa [← Int.natCast_mul] at hmul
  refine ⟨(B / u + 1) * u, ?_, hnext, by rw [Int.add_mul, Int.one_mul]; omega⟩
  have habs : ((B / u + 1) * u).natAbs = (B / u + 1).natAbs * u := by
    rw [Int.natAbs_mul, Int.natAbs_natCast]
  have hbound : (B / u + 1).natAbs * u ≤ n * u := by omega
  have hcount : (B / u + 1).natAbs ≤ n := Nat.le_of_mul_le_mul_right hbound hpow
  rw [habs]
  subst hu
  exact ⟨step_dvd_mul_pow (by omega), by omega⟩

theorem exists_representable_below (hu : Nat.pow 2 k = u) (hn : n ≤ 2 ^ 53) (hlimit : n * u < limit)
    (hlow : -(n * u : Nat) < A) (hhigh : A ≤ (n * u : Nat)) :
    ∃ C : Int, Representable C.natAbs ∧ C < A ∧ A - u ≤ C := by
  obtain ⟨C, hC, hlt, hle⟩ :=
    exists_representable_above hu hn hlimit (B := -A) (by omega) (by omega)
  exact ⟨-C, by rwa [Int.natAbs_neg], by omega, by omega⟩

end

section

variable {M : Nat} {A : Int}

theorem pow_log2_eq (hlog : 53 ≤ M.log2) :
    2 ^ M.log2 = 2 ^ 52 * step M ∧ step M = 2 * 2 ^ (M.log2 - 53) := by
  constructor
  · rw [step, show Nat.pow 2 (M.log2 - 52) = 2 ^ (M.log2 - 52) from rfl, ← Nat.pow_add]
    congr 1
    omega
  · rw [step, show M.log2 - 52 = M.log2 - 53 + 1 by omega]
    exact Nat.pow_succ'

/-- Numbers within four steps of a large bound are multiples of half a step. -/
theorem dvd_of_near (hlog : 53 ≤ M.log2) (hA : Representable A.natAbs)
    (hnear : M ≤ A.natAbs + 4 * step M) :
    ((2 ^ (M.log2 - 53) : Nat) : Int) ∣ A := by
  have hM : M ≠ 0 := by
    rintro rfl
    exact absurd hlog (by decide)
  have hpow := (pow_log2_eq hlog).1
  have hhalf : 2 ^ M.log2 = 2 * 2 ^ (M.log2 - 1) := by
    rw [← Nat.pow_succ']
    congr 1
    omega
  have hle := Nat.log2_self_le hM
  have hpos := step_pos M
  have hlogs : M.log2 - 1 ≤ A.natAbs.log2 := (Nat.le_log2 (by omega)).2 (by omega)
  have hstep : 2 ^ (M.log2 - 53) ∣ step A.natAbs := Nat.pow_dvd_pow 2 (by omega)
  exact Int.natCast_dvd.2 (hstep.trans hA.1)

/-- A few halves of the step of a large bound are representable. -/
theorem representable_of_near (hM : Representable M) (hlog : 53 ≤ M.log2) {D k : Int}
    (hk : D = (2 ^ (M.log2 - 53) : Nat) * k) (hnear : D.natAbs ≤ 4 * step M) :
    Representable D.natAbs := by
  have hM0 : M ≠ 0 := by
    rintro rfl
    exact absurd hlog (by decide)
  obtain ⟨hpow, hstep⟩ := pow_log2_eq hlog
  have hle := Nat.log2_self_le hM0
  have hlimit := hM.2
  have habs : D.natAbs = k.natAbs * 2 ^ (M.log2 - 53) := by
    rw [hk, Int.natAbs_mul, Int.natAbs_natCast, Nat.mul_comm]
  have hcount : k.natAbs ≤ 8 := by
    refine Nat.le_of_mul_le_mul_right ?_ (Nat.two_pow_pos (M.log2 - 53))
    omega
  rw [habs] at hnear ⊢
  exact representable_mul_pow rfl (by omega) (by omega)

end

/-! ### Rounded midpoints -/

section

variable {A B C d h : Int}

/-- Half of an exact even difference is exact, so the sum is rounded to a double between the
neighbors. -/
theorem lt_rounded_lt_of_even (hC : Representable C.natAbs) (hBC : B < C) (hCA : C < A)
    (hh : 2 * h = A - B) :
    B < rounded (B + h) ∧ rounded (B + h) < A := by
  constructor
  · by_contra hle
    have := two_mul_le_of_rounded_lt (i := B + h) hC (by omega)
    omega
  · by_contra hle
    have := le_two_mul_of_lt_rounded (i := B + h) hC (by omega)
    omega

/-- Neighbors more than four steps apart have a number of a coarse grid between each of them and the
midpoint. -/
theorem lt_rounded_lt_of_far {M : Nat} (hM : Representable M) (hAM : A.natAbs ≤ M)
    (hBM : B.natAbs ≤ M) (hfar : 4 * (step M : Int) < A - B) (hd : d = rounded (A - B))
    (hlimit : d.natAbs < limit) (hlow : d - d % 2 ≤ 2 * h) (hhigh : 2 * h ≤ d + d % 2) :
    B < rounded (B + h) ∧ rounded (B + h) < A := by
  have hpos := step_pos M
  have hcount := (div_step_lt M).le
  have hmul := Nat.div_mul_cancel hM.1
  have hM := hM.2
  have hclose : A - B - 2 * step M ≤ d ∧ d ≤ A - B + 2 * step M := by
    have hcount := Nat.lt_mul_of_div_lt (div_step_lt M) hpos
    have hpow : Nat.pow 2 (M.log2 - 52 + 1) = 2 * step M := Nat.pow_succ'
    rw [hd] at hlimit ⊢
    have := rounded_close (i := A - B) hpow (by omega) hlimit
    omega
  constructor
  · obtain ⟨C, hC, hlt, hle⟩ :=
      exists_representable_above (u := step M) rfl hcount (B := B) (by omega) (by omega) (by omega)
    exact hlt.trans_le (le_rounded hC (by omega))
  · obtain ⟨C, hC, hlt, hle⟩ :=
      exists_representable_below (u := step M) rfl hcount (A := A) (by omega) (by omega) (by omega)
    exact (rounded_le hC (by omega)).trans_lt hlt

/-- An odd difference of neighbors close to `2 ^ 53`.  Of three units the half is two, the even
one. -/
theorem lt_rounded_lt_of_odd (hA : Representable A.natAbs) (hB : Representable B.natAbs)
    (hAM : A.natAbs < 2 ^ 54) (hBM : B.natAbs < 2 ^ 54) (hodd : (A - B) % 2 = 1)
    (hthree : 3 ≤ A - B) (hlow : A - B - 1 ≤ 2 * h) (hhigh : 2 * h ≤ A - B + 1)
    (htie : A - B = 3 → h = 2) :
    B < rounded (B + h) ∧ rounded (B + h) < A := by
  have hevenA : 2 ^ 53 ≤ A.natAbs → A.natAbs % 2 = 0 := even_of_le hA
  have hevenB : 2 ^ 53 ≤ B.natAbs → B.natAbs % 2 = 0 := even_of_le hB
  by_cases hsmall : (B + h).natAbs ≤ 2 ^ 53
  · rw [rounded_eq (representable_of_le hsmall)]
    omega
  rcases lt_or_ge (B + h) 0 with hneg | hpos
  · -- One neighbor is below `-2 ^ 53` and even, the other one above it and odd.
    constructor
    · exact (show B < B + 2 by omega).trans_le
        (le_rounded (representable_of_even (by omega) (by omega)) (by omega))
    · have hle :=
        rounded_le (i := B + h) (c := -2 ^ 53) (representable_of_le (by decide)) (by omega)
      omega
  · constructor
    · have hle := le_rounded (i := B + h) (c := 2 ^ 53) (representable_of_le (by decide)) (by omega)
      omega
    · by_cases hroom : B + h ≤ A - 2
      · exact (rounded_le (representable_of_even (by omega) (by omega)) hroom).trans_lt (by omega)
      · -- Three units around `2 ^ 53`: the sum is a tie, and goes to `2 ^ 53`.
        have hsum : B + h = 2 ^ 53 + 1 := by omega
        have htie' : rounded (2 ^ 53 + 1) = 2 ^ 53 := by decide +kernel
        rw [hsum, htie']
        omega

/-- The rounded sum of the lower neighbor and half of the rounded difference lies strictly between
the neighbors. -/
theorem lt_rounded_lt (hA : Representable A.natAbs) (hB : Representable B.natAbs)
    (hC : Representable C.natAbs) (hBC : B < C) (hCA : C < A) (hd : d = rounded (A - B))
    (hlimit : d.natAbs < limit) (hlow : d - d % 2 ≤ 2 * h) (hhigh : 2 * h ≤ d + d % 2)
    (htie : d = 3 → h = 2) : B < rounded (B + h) ∧ rounded (B + h) < A := by
  obtain ⟨M, hM, hAM, hBM, hcases⟩ : ∃ M : Nat, Representable M ∧ A.natAbs ≤ M ∧ B.natAbs ≤ M ∧
      (A.natAbs = M ∨ B.natAbs = M) := by
    rcases le_total A.natAbs B.natAbs with hle | hle
    · exact ⟨_, hB, hle, le_rfl, .inr rfl⟩
    · exact ⟨_, hA, le_rfl, hle, .inl rfl⟩
  by_cases hfar : 4 * (step M : Int) < A - B
  · exact lt_rounded_lt_of_far hM hAM hBM hfar hd hlimit hlow hhigh
  have hnear : A - B ≤ 4 * step M := by omega
  have hexact : ∀ {D : Int}, D = A - B → Representable D.natAbs → d = A - B := by
    rintro D rfl hD
    rw [hd, rounded_eq hD]
  by_cases hlog : M.log2 ≤ 52
  · -- All numbers up to the bound are representable.
    have hone : step M = 1 := by rw [step, Nat.sub_eq_zero_of_le hlog]
    have hsmall : M < 2 ^ 53 :=
      Nat.lt_of_lt_of_le Nat.lt_log2_self (Nat.pow_le_pow_right (by decide) (by omega))
    have hdiff := hexact rfl (representable_of_le (by omega))
    rw [hone] at hnear
    rw [rounded_eq (representable_of_le (by omega))]
    omega
  · have hlog : 53 ≤ M.log2 := by omega
    have hdvdA := dvd_of_near hlog hA (by omega)
    have hdvdB := dvd_of_near hlog hB (by omega)
    obtain ⟨k, hk⟩ := Int.dvd_sub hdvdA hdvdB
    have hdiff := hexact rfl (representable_of_near hM hlog hk (by omega))
    by_cases heven : (A - B) % 2 = 0
    · exact lt_rounded_lt_of_even hC hBC hCA (by omega)
    · -- Steps of one unit remain, and so the neighbors are close to `2 ^ 53`.
      have hone : M.log2 = 53 := by
        by_contra hne
        have htwo : (2 : Int) ∣ (2 ^ (M.log2 - 53) : Nat) :=
          Int.natCast_dvd_natCast.2 (dvd_pow_self 2 (by omega))
        have := Int.emod_eq_zero_of_dvd (htwo.trans ⟨k, hk⟩)
        omega
      have hsmall : M < 2 ^ 54 := by
        have := Nat.lt_log2_self (n := M)
        rwa [hone] at this
      exact lt_rounded_lt_of_odd hA hB (by omega) (by omega) (by omega) (by omega)
        (by omega) (by omega)
        fun h3 => htie (by omega)

end

/-! ### Allocated keys -/

section

variable {x y z p : Double}

/-- The key between two neighbors with some double between them is such a double. -/
theorem lt_allocate_lt (hx : x.isFinite = true) (hy : y.isFinite = true)
    (hdiff : (y - x).isFinite = true) (hxz : x < z) (hzy : z < y) :
    (allocate (some x) (some y)).isFinite = true ∧ x < allocate (some x) (some y) ∧
    allocate (some x) (some y) < y := by
  have hxn := isNaN_of_isFinite hx
  have hyn := isNaN_of_isFinite hy
  have hzn := (isNaN_of_lt hxz).2
  rw [lt_iff_place hxn hzn] at hxz
  rw [lt_iff_place hzn hyn] at hzy
  have hrepx := representable_place hx
  have hrepy := representable_place hy
  have hz : z.isFinite = true := (isFinite_iff hzn).2 (by have := hrepx.2; have := hrepy.2; omega)
  obtain ⟨hhalf, hlow, hhigh⟩ := place_half hdiff
  have htie : (y - x).place = 3 → (y - x).half.place = 2 := by
    intro h3
    rw [place_half_of_nonneg hdiff (by omega), h3]
    decide
  have hkey := lt_rounded_lt hrepy hrepx (representable_place hz) hxz hzy (place_sub_eq hy hx)
    (representable_place hdiff).2 hlow hhigh htie
  have hkeyn : (allocate (some x) (some y)).isNaN = false := isNaN_add hxn hhalf
  have hplace : (allocate (some x) (some y)).place = rounded (x.place + (y - x).half.place) :=
    place_add_eq hx hhalf
  rw [isFinite_iff hkeyn, lt_iff_place hxn hkeyn, lt_iff_place hkeyn hyn, hplace]
  refine ⟨?_, hkey⟩
  have := hrepx.2
  have := hrepy.2
  omega

/-- If the difference of the neighbors overflows, so does the key. -/
theorem isFinite_sub_of_isFinite_allocate (h : (allocate (some x) (some y)).isFinite = true) :
    (y - x).isFinite = true :=
  isFinite_of_isFinite_half (isFinite_of_isFinite_add h)

end

section

variable {p : Double}

private theorem isFinite_of_between (hlow : ofInt (-2 ^ 69) < p) (hhigh : p < ofInt (2 ^ 69)) :
    p.isFinite = true ∧ -(2 ^ 53 * (2 ^ 16 * one) : Nat) < p.place ∧
    p.place < (2 ^ 53 * (2 ^ 16 * one) : Nat) := by
  have hnum := (isNaN_of_lt hhigh).1
  have hlimit : 2 ^ 69 * one < limit := (representable_pow_mul_one (by decide)).2
  rw [lt_iff_place (isNaN_ofInt _) hnum, (place_ofInt_pow (by decide)).2] at hlow
  rw [lt_iff_place hnum (isNaN_ofInt _), (place_ofInt_pow (by decide)).1] at hhigh
  exact ⟨(isFinite_iff hnum).2 (by omega), by omega, by omega⟩

private theorem spacings_lt_limit : 2 ^ 53 * (2 ^ 16 * one) < limit := by
  rw [← Nat.mul_assoc]
  exact mul_one_lt_limit (k := 70) (by decide) (by decide)

/-- A key at the tail, as long as one spacing counts. -/
theorem lt_allocate (hlow : ofInt (-2 ^ 69) < p) (hhigh : p < ofInt (2 ^ 69)) :
    p < allocate (some p) none := by
  obtain ⟨hp, hlow, hhigh⟩ := isFinite_of_between hlow hhigh
  have hpn := isNaN_of_isFinite hp
  obtain ⟨c, hc, hlt, hle⟩ :=
    exists_representable_above (pow_eq_mul_one (k := 16) rfl) le_rfl spacings_lt_limit hlow.le hhigh
  rw [allocate, lt_iff_place hpn (isNaN_add hpn isFinite_spacing),
    place_add_eq hp isFinite_spacing, place_spacing]
  exact hlt.trans_le (le_rounded hc hle)

/-- A key at the head, as long as one spacing counts. -/
theorem allocate_lt (hlow : ofInt (-2 ^ 69) < p) (hhigh : p < ofInt (2 ^ 69)) :
    allocate none (some p) < p := by
  obtain ⟨hp, hlow, hhigh⟩ := isFinite_of_between hlow hhigh
  have hpn := isNaN_of_isFinite hp
  rw [allocate]
  split
  · rename_i hpos
    rw [lt_iff_place isNaN_zero hpn, place_zero] at hpos
    obtain ⟨hhalf, -, hle⟩ := place_half hp
    rw [lt_iff_place (isNaN_of_isFinite hhalf) hpn]
    by_cases hone : p.place = 1
    · -- Half of the smallest number of all is rounded down.
      rw [place_half_of_nonneg hp hpos.le, hone]
      decide
    · omega
  · obtain ⟨c, hc, hlt, hle⟩ :=
      exists_representable_below (pow_eq_mul_one (k := 16) rfl) le_rfl
        spacings_lt_limit hlow hhigh.le
    have hsub := place_sub_eq hp isFinite_spacing
    rw [place_spacing] at hsub
    have hround := (rounded_le hc hle).trans_lt hlt
    rw [lt_iff_place (isNaN_sub hpn isFinite_spacing) hpn, hsub]
    exact hround

end

/-! ### Gaps without room -/

/-- The allocator gives up exactly if no 64 bits are a double between the neighbors.  Neighbors with
a difference that overflows, or in the wrong order, get no key; a single neighbor below `2 ^ 69`
always does. -/
theorem needsRebalance_allocate_exact :
    (∀ x y : Double, x.isFinite = true → y.isFinite = true → x < y → (y - x).isFinite = true →
      (needsRebalance (some x) (some y) (allocate (some x) (some y)) = false ↔
        ∃ bits < 2 ^ 64, x < ofBits bits ∧ ofBits bits < y)) ∧
    (∀ x y : Double, x.isFinite = true → y.isFinite = true → (y - x).isFinite = false ∨ ¬x < y →
      needsRebalance (some x) (some y) (allocate (some x) (some y)) = true) ∧
    ∀ p : Double, ofInt (-2 ^ 69) < p → p < ofInt (2 ^ 69) →
      allocate none (some p) < p ∧ p < allocate (some p) none := by
  refine ⟨?_, ?_, fun p hlow hhigh => ⟨allocate_lt hlow hhigh, lt_allocate hlow hhigh⟩⟩
  · intro x y hx hy hlt hdiff
    rw [needsRebalance_eq_false]
    constructor
    · rintro ⟨hkey, hlow, hhigh⟩
      refine ⟨(allocate (some x) (some y)).toBits, toBits_lt _, ?_⟩
      rw [ofBits_toBits (isNaN_of_isFinite hkey)]
      exact ⟨hlow x rfl, hhigh y rfl⟩
    · rintro ⟨bits, -, hxz, hzy⟩
      obtain ⟨hkey, hlow, hhigh⟩ := lt_allocate_lt hx hy hdiff hxz hzy
      exact ⟨hkey, fun _ h => Option.some.inj h ▸ hlow, fun _ h => Option.some.inj h ▸ hhigh⟩
  · intro x y hx hy hno
    by_contra hroom
    obtain ⟨hkey, hlow, hhigh⟩ := needsRebalance_eq_false.1 (Bool.eq_false_of_not_eq_true hroom)
    rcases hno with hdiff | horder
    · rw [isFinite_sub_of_isFinite_allocate hkey] at hdiff
      cases hdiff
    · exact horder (lt_trans (hlow x rfl) (hhigh y rfl))

/-- Three units around `2 ^ 53`, the largest numbers of both signs, and the smallest number of
all. -/
theorem needsRebalance_allocate_edges :
    needsRebalance (some (ofMagnitude false (2 ^ 53 - 1))) (some (ofMagnitude false (2 ^ 53 + 2)))
        (allocate (some (ofMagnitude false (2 ^ 53 - 1)))
          (some (ofMagnitude false (2 ^ 53 + 2)))) = false ∧
      needsRebalance (some (ofMagnitude true (limit - 2 ^ 2045)))
        (some (ofMagnitude false (limit - 2 ^ 2045)))
        (allocate (some (ofMagnitude true (limit - 2 ^ 2045)))
          (some (ofMagnitude false (limit - 2 ^ 2045)))) = true ∧
      allocate none (some (ofMagnitude false 1)) < ofMagnitude false 1 := by
  obtain ⟨hroom, hnone, hone⟩ := needsRebalance_allocate_exact
  refine ⟨(hroom _ _ ?_ ?_ ?_ ?_).2 ⟨2 ^ 53, ?_, ?_, ?_⟩, hnone _ _ ?_ ?_ (.inl ?_),
    (hone _ ?_ ?_).1⟩
  all_goals decide +kernel

end Kanban.Position
