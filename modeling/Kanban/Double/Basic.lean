/-!
# Double precision numbers

A finite double is an integral multiple of `2 ^ (-1074)`, so it is kept as a sign and a natural
number of these units (`Double.finite`).  Which naturals occur is said by `Double.Representable`:
at most 53 binary digits count and the number stays below `Double.limit`.  Every operation forms
the exact result as a quotient of two naturals and rounds once, to the nearest representable number
and to the even one of two equally near ones (`Double.nearest`).
-/

namespace Kanban

namespace Double

/-- The units of a double: `1 = 2 ^ 1074` of them. -/
@[irreducible] def one : Nat := Nat.pow 2 1074

/-- The first magnitude, in units, that is too large for a finite double. -/
@[irreducible] def limit : Nat := Nat.pow 2 2098

/-- The spacing of the doubles around a magnitude of `m` units: 53 binary digits are kept. -/
def step (m : Nat) : Nat := Nat.pow 2 (m.log2 - 52)

/-- The magnitudes, in units, that a finite double can have. -/
def Representable (m : Nat) : Prop := step m ∣ m ∧ m < limit

instance (m : Nat) : Decidable (Representable m) := by
  unfold Representable; infer_instance

/-- The quotient `num / den`, in units, rounded to the nearest multiple of its spacing; of two
equally near ones the even multiple is taken. -/
def nearest (num den : Nat) : Nat :=
  let unit := den * step (num / den)
  let low := num / unit
  let rest := num % unit
  let count := if 2 * rest > unit ∨ (2 * rest = unit ∧ low % 2 = 1) then low + 1 else low
  count * step (num / den)

end Double

/-- A double precision number.  A finite one has `magnitude` units of `2 ^ (-1074)`; zero has both
signs, and so has the value that is not a number. -/
inductive Double where
  | finite (negative : Bool) (magnitude : Nat) (exact : Double.Representable magnitude)
  | infinite (negative : Bool)
  | nan (negative : Bool)
  deriving DecidableEq

namespace Double

/-- The double of a sign and a magnitude in units; one that is too large is infinite. -/
def ofMagnitude (negative : Bool) (m : Nat) : Double :=
  if h : Representable m then .finite negative m h else .infinite negative

/-- The double nearest to `num / den` units. -/
def ofQuotient (negative : Bool) (num den : Nat) : Double :=
  ofMagnitude negative (nearest num den)

/-- The double nearest to an integer. -/
def ofInt (i : Int) : Double := ofQuotient (decide (i < 0)) (i.natAbs * one) 1

/-- Zero without a sign. -/
def zero : Double := ofMagnitude false 0

instance : Inhabited Double := ⟨zero⟩

def isNaN : Double → Bool
  | nan _ => true
  | _ => false

def isFinite : Double → Bool
  | finite .. => true
  | _ => false

/-- Both zeros are zero. -/
def isZero : Double → Bool
  | finite _ m _ => m == 0
  | _ => false

/-- Zero has lost its sign; every other number is as it was. -/
def unsignZero : Double → Double
  | finite negative m h => if m = 0 then zero else finite negative m h
  | x => x

/-- A signed number of units. -/
def signed (negative : Bool) (m : Nat) : Int := if negative then -(m : Int) else m

/-! ### Order -/

/-- The place on the number line, counted in units; the infinities stand at `limit` and
`-limit`, and what is not a number has no place. -/
def place? : Double → Option Int
  | finite negative m _ => some (signed negative m)
  | infinite negative => some (signed negative limit)
  | nan _ => none

/-- Comparison of numbers; without an answer when one side is not a number. -/
def compare? (x y : Double) : Option Ordering :=
  match x.place?, y.place? with
  | some a, some b => some (compare a b)
  | _, _ => none

instance : LT Double := ⟨fun x y => x.compare? y = some .lt⟩
instance : LE Double := ⟨fun x y => x.compare? y = some .lt ∨ x.compare? y = some .eq⟩

instance (x y : Double) : Decidable (x < y) :=
  inferInstanceAs (Decidable (x.compare? y = some .lt))

instance (x y : Double) : Decidable (x ≤ y) :=
  inferInstanceAs (Decidable (x.compare? y = some .lt ∨ x.compare? y = some .eq))

/-- The rank in the total order of all doubles: what is not a number lies beyond the infinities,
and `-0` directly below `0`. -/
def rank : Double → Int
  | finite negative m _ => if negative then -(m : Int) - 1 else m
  | infinite negative => if negative then -(limit : Int) - 1 else limit
  | nan negative => if negative then -(limit : Int) - 2 else limit + 1

/-- The total order of all doubles. -/
def totalCompare (x y : Double) : Ordering := compare x.rank y.rank

/-! ### Arithmetic -/

def neg : Double → Double
  | finite negative m h => finite (!negative) m h
  | infinite negative => infinite (!negative)
  | nan negative => nan (!negative)

/-- A sum of finite numbers is rounded once; an exact zero is negative only when both summands
are.  Opposite infinities have no sum: the result is not a number and has a sign. -/
def add : Double → Double → Double
  | nan s, _ => nan s
  | _, nan s => nan s
  | infinite s, infinite t => if s = t then infinite s else nan true
  | infinite s, finite .. => infinite s
  | finite .., infinite t => infinite t
  | finite s m _, finite t n _ =>
    let sum := signed s m + signed t n
    if sum = 0 then ofMagnitude (s && t) 0 else ofQuotient (decide (sum < 0)) sum.natAbs 1

/-- A difference is the sum with the negated subtrahend. -/
def sub : Double → Double → Double
  | nan s, _ => nan s
  | _, nan s => nan s
  | x, y => add x (neg y)

def mul : Double → Double → Double
  | nan s, _ => nan s
  | _, nan s => nan s
  | infinite s, infinite t => infinite (s != t)
  | infinite s, finite t n _ => if n = 0 then nan true else infinite (s != t)
  | finite s m _, infinite t => if m = 0 then nan true else infinite (s != t)
  | finite s m _, finite t n _ => ofQuotient (s != t) (m * n) one

def div : Double → Double → Double
  | nan s, _ => nan s
  | _, nan s => nan s
  | infinite _, infinite _ => nan true
  | infinite s, finite t _ _ => infinite (s != t)
  | finite s _ _, infinite t => ofMagnitude (s != t) 0
  | finite s m _, finite t n _ =>
    if n = 0 then if m = 0 then nan true else infinite (s != t)
    else ofQuotient (s != t) (m * one) n

/-- Half of a number; exact unless the number is odd and has the smallest spacing. -/
def half : Double → Double
  | finite s m _ => ofQuotient s m 2
  | x => x

/-- The integral part of a finite number; zero for all others. -/
def truncate : Double → Int
  | finite s m _ => signed s (m / one)
  | _ => 0

instance : Add Double := ⟨add⟩
instance : Sub Double := ⟨sub⟩
instance : Mul Double := ⟨mul⟩
instance : Div Double := ⟨div⟩
instance : Neg Double := ⟨neg⟩

end Double

end Kanban
