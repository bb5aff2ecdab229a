import Kanban.Double.Basic

/-!
# The order of doubles

Doubles that are numbers stand at a place on the number line (`Double.place`), and one is less than
another exactly when its place is (`lt_iff_place`).  Sums with a finite number, products of finite
numbers and halves of numbers are numbers again.
-/

namespace Kanban.Double

/-- The place on the number line, counted in units; what is not a number is put at zero. -/
def place (x : Double) : Int := x.place?.getD 0

theorem place?_eq_some {x : Double} (h : x.isNaN = false) : x.place? = some x.place := by
  cases x <;> simp_all [place, place?, isNaN]

theorem isNaN_of_isFinite {x : Double} (h : x.isFinite = true) : x.isNaN = false := by
  cases x <;> simp_all [isNaN, isFinite]

/-- Only numbers are compared. -/
theorem isNaN_of_lt {x y : Double} (h : x < y) : x.isNaN = false ∧ y.isNaN = false := by
  have h : x.compare? y = some .lt := h
  cases x <;> cases y <;> simp_all [compare?, place?, isNaN]

theorem lt_iff_place {x y : Double} (hx : x.isNaN = false) (hy : y.isNaN = false) :
    x < y ↔ x.place < y.place := by
  show x.compare? y = some .lt ↔ _
  simp only [compare?, place?_eq_some hx, place?_eq_some hy, Option.some.injEq]
  exact Int.compare_eq_lt

theorem lt_trans {x y z : Double} (hxy : x < y) (hyz : y < z) : x < z := by
  obtain ⟨hx, hy⟩ := isNaN_of_lt hxy
  obtain ⟨-, hz⟩ := isNaN_of_lt hyz
  rw [lt_iff_place hx hy] at hxy
  rw [lt_iff_place hy hz] at hyz
  rw [lt_iff_place hx hz]
  omega

theorem lt_asymm {x y : Double} (hxy : x < y) : ¬y < x := by
  obtain ⟨hx, hy⟩ := isNaN_of_lt hxy
  rw [lt_iff_place hx hy] at hxy
  rw [lt_iff_place hy hx]
  omega

/-! ### Zero -/

theorem limit_pos : 0 < limit := by
  unfold limit
  generalize 2098 = n
  exact Nat.two_pow_pos n

theorem representable_zero : Representable 0 := ⟨Nat.dvd_zero _, limit_pos⟩

theorem zero_eq : zero = finite false 0 representable_zero := by
  simp only [zero, ofMagnitude, dif_pos representable_zero]

@[simp] theorem place_zero : zero.place = 0 := by
  rw [zero_eq]; simp [place, place?, signed]

@[simp] theorem isFinite_zero : zero.isFinite = true := by
  rw [zero_eq]; rfl

@[simp] theorem isNaN_zero : zero.isNaN = false := isNaN_of_isFinite isFinite_zero

@[simp] theorem isZero_zero : zero.isZero = true := by
  rw [zero_eq]; rfl

@[simp] theorem unsignZero_zero : zero.unsignZero = zero := by
  rw [zero_eq]; simp [unsignZero, zero_eq]

@[simp] theorem unsignZero_unsignZero (x : Double) : x.unsignZero.unsignZero = x.unsignZero := by
  rcases x with ⟨s, m, h⟩ | s | s
  · by_cases hm : m = 0
    · rw [unsignZero, if_pos hm, unsignZero_zero]
    · simp [unsignZero, hm]
  · rfl
  · rfl

theorem unsignZero_finite {s : Bool} {m : Nat} {h : Representable m} (hm : m ≠ 0) :
    (finite s m h).unsignZero = finite s m h := by
  simp [unsignZero, hm]

theorem unsignZero_of_isZero_eq_false {x : Double} (h : x.isZero = false) : x.unsignZero = x := by
  rcases x with ⟨s, m, hm⟩ | s | s
  · exact unsignZero_finite (by simpa [isZero] using h)
  · rfl
  · rfl

@[simp] theorem isNaN_unsignZero (x : Double) : x.unsignZero.isNaN = x.isNaN := by
  rcases x with ⟨s, m, h⟩ | s | s
  · by_cases hm : m = 0
    · rw [unsignZero, if_pos hm, isNaN_zero]; rfl
    · simp [unsignZero, hm]
  · rfl
  · rfl

@[simp] theorem isFinite_unsignZero (x : Double) : x.unsignZero.isFinite = x.isFinite := by
  rcases x with ⟨s, m, h⟩ | s | s
  · by_cases hm : m = 0
    · rw [unsignZero, if_pos hm, isFinite_zero]; rfl
    · simp [unsignZero, hm]
  · rfl
  · rfl

/-- Both zeros stand at the same place. -/
@[simp] theorem place_unsignZero (x : Double) : x.unsignZero.place = x.place := by
  rcases x with ⟨s, m, h⟩ | s | s
  · by_cases hm : m = 0
    · subst hm
      rw [unsignZero, if_pos rfl, place_zero]
      cases s <;> simp [place, place?, signed]
    · simp [unsignZero, hm]
  · rfl
  · rfl

/-- Only the places of two numbers matter for their order. -/
theorem lt_congr {x x' y y' : Double} (hxNum : x'.isNaN = x.isNaN) (hx : x'.place = x.place)
    (hyNum : y'.isNaN = y.isNaN) (hy : y'.place = y.place) : x' < y' ↔ x < y := by
  constructor
  · intro h
    obtain ⟨hxn, hyn⟩ := isNaN_of_lt h
    rwa [lt_iff_place hxn hyn, hx, hy, ← lt_iff_place (hxNum ▸ hxn) (hyNum ▸ hyn)] at h
  · intro h
    obtain ⟨hxn, hyn⟩ := isNaN_of_lt h
    rwa [lt_iff_place (hxNum.trans hxn) (hyNum.trans hyn), hx, hy, ← lt_iff_place hxn hyn]

theorem lt_unsignZero {x y : Double} : x < y.unsignZero ↔ x < y :=
  lt_congr rfl rfl (isNaN_unsignZero y) (place_unsignZero y)

theorem unsignZero_lt {x y : Double} : x.unsignZero < y ↔ x < y :=
  lt_congr (isNaN_unsignZero x) (place_unsignZero x) rfl rfl

/-! ### Numbers -/

theorem isNaN_ofMagnitude (s : Bool) (m : Nat) : (ofMagnitude s m).isNaN = false := by
  unfold ofMagnitude
  split <;> rfl

theorem isNaN_add {x y : Double} (hx : x.isNaN = false) (hy : y.isFinite = true) :
    (x + y).isNaN = false := by
  show (add x y).isNaN = false
  rcases y with ⟨t, n, hn⟩ | t | t
  · rcases x with ⟨s, m, hm⟩ | s | s
    · simp only [add]
      split <;> exact isNaN_ofMagnitude _ _
    · rfl
    · exact hx
  · exact absurd hy (by simp [isFinite])
  · exact absurd hy (by simp [isFinite])

theorem isNaN_sub {x y : Double} (hx : x.isNaN = false) (hy : y.isFinite = true) :
    (x - y).isNaN = false := by
  rcases y with ⟨t, n, hn⟩ | t | t
  · have hadd := isNaN_add hx (y := neg (finite t n hn)) rfl
    rcases x with ⟨s, m, hm⟩ | s | s <;> exact hadd
  · exact absurd hy (by simp [isFinite])
  · exact absurd hy (by simp [isFinite])

/-- A summand that is not finite is not made up for. -/
theorem isFinite_of_isFinite_add {x y : Double} (h : (x + y).isFinite = true) :
    y.isFinite = true := by
  have h : (add x y).isFinite = true := h
  rcases y with ⟨t, n, hn⟩ | t | t
  · rfl
  · rcases x with ⟨s, m, hm⟩ | s | s
    · exact h
    · simp only [add] at h
      split at h <;> exact h
    · exact h
  · rcases x with ⟨s, m, hm⟩ | s | s <;> exact h

theorem isFinite_of_isFinite_half {x : Double} (h : x.half.isFinite = true) :
    x.isFinite = true := by
  rcases x with ⟨s, m, hm⟩ | s | s
  · rfl
  · exact h
  · exact h

theorem isNaN_mul {x y : Double} (hx : x.isNaN = false) (hy : y.isFinite = true)
    (hzero : y.isZero = false) :
    (x * y).isNaN = false := by
  show (mul x y).isNaN = false
  rcases y with ⟨t, n, hn⟩ | t | t
  · have hn0 : n ≠ 0 := by simpa [isZero] using hzero
    rcases x with ⟨s, m, hm⟩ | s | s
    · simp only [mul]
      exact isNaN_ofMagnitude _ _
    · simp [mul, hn0, isNaN]
    · exact hx
  · exact absurd hy (by simp [isFinite])
  · exact absurd hy (by simp [isFinite])

theorem isNaN_ofInt (i : Int) : (ofInt i).isNaN = false := isNaN_ofMagnitude _ _

end Kanban.Double
