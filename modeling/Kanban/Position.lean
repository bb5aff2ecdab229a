import Kanban.Double.Basic

/-!
# Ordering keys

Tasks and buckets are ordered by double precision keys of which only the order matters.  A new key
between two neighbors is their midpoint (`Position.allocate`), so a move changes one key only.  The
gap between two neighbors holds finitely many doubles; `Position.needsRebalance` notices that it is
used up, and the keys of the whole list are then spread out again (`Position.rebalanced`).
`Position.Gap` is such a gap, narrowed step by step.
-/

namespace Kanban.Position

/-- The distance of neighbors after appending or spreading out: `2 ^ 16`. -/
def spacing : Double := Double.ofInt 65536

/-- A key for an item that is to stand between two neighbors, either of which may be missing: the
midpoint; one spacing beyond a single neighbor; half of the next key at the head of the list if that
key is positive. -/
def allocate : (before after : Option Double) → Double
  | none, none => spacing
  | none, some a => if Double.zero < a then a.half else a - spacing
  | some b, none => b + spacing
  | some b, some a => b + (a - b).half

/-- The key of a new item without neighbors: the one given with it unless that is zero, else one
that grows with the id. -/
def initial (id : Int) (given : Double) : Double :=
  if given.isZero then Double.ofInt id * spacing else given

/-- The key is not strictly between its neighbors, or is not finite. -/
def needsRebalance (before after : Option Double) (key : Double) : Bool :=
  let above := match before with
    | none => true
    | some b => decide (b < key)
  let below := match after with
    | none => true
    | some a => decide (key < a)
  !key.isFinite || !(above && below)

/-- Evenly spread keys for a list of `count` items. -/
def rebalanced (count : Nat) : List Double :=
  (List.range count).map fun i => Double.ofInt (i + 1 : Nat) * spacing

/-! ### Narrowing a gap -/

/-- The side of a gap. -/
inductive Side where
  | before
  | after
  deriving DecidableEq

/-- The two neighbors of a place in a list. -/
structure Gap where
  before : Option Double
  after : Option Double

namespace Gap

/-- The key that the gap yields next. -/
def key (g : Gap) : Double := allocate g.before g.after

/-- The gap yields no key strictly between its neighbors. -/
def isExhausted (g : Gap) : Bool := needsRebalance g.before g.after g.key

/-- The next key becomes the neighbor on one side. -/
def narrow (g : Gap) : Side → Gap
  | .before => { g with before := some g.key }
  | .after => { g with after := some g.key }

/-- Narrows the gap until it is exhausted, `most` times at most; turn `n` narrows the side
`turns n`.  The number of steps taken counts on from `n`. -/
def narrowWhile (turns : Nat → Side) : (most n : Nat) → Gap → Nat × Gap
  | 0, n, g => (n, g)
  | most + 1, n, g =>
    if g.isExhausted then (n, g) else narrowWhile turns most (n + 1) (g.narrow (turns n))

end Gap

end Kanban.Position
