import Kanban.Position
import Kanban.Tasks.Basic

/-!
# Reordering a shown list

A list that a user sees and reorders by dragging (`ReorderList`): the tasks of a bucket or a
project, or the buckets of a board.  A drag takes effect at once and yields the request that makes
it last (`PendingMove`).  When the answer comes, the shown item is replaced by the stored one
(`ReorderList.reconcile`).
-/

namespace Kanban

/-- Items with an id and a key in each scope. -/
class Orderable (α : Type) where
  id : α → Int
  key : Scope → α → Double
  withKey : Scope → Double → α → α

instance : Orderable Task where
  id := Task.id
  key scope t := t.key scope
  withKey scope x t := t.withKey scope x

/-- Buckets have one key, whatever the scope. -/
instance : Orderable Bucket where
  id := Bucket.id
  key _ b := b.position
  withKey _ x b := { b with position := x }

/-- A drag that is not stored yet. -/
structure PendingMove where
  id : Int
  /-- The key that the item has got in the list. -/
  position : Double
  before : Option Int
  after : Option Int
  bucketId : Option Int
  scope : Scope
  /-- The neighbors left no room between them. -/
  needsRebalance : Bool

namespace PendingMove

/-- The request that moves a task in the same way. -/
def request (m : PendingMove) : TaskMove where
  bucketId := m.bucketId
  beforeId := m.before
  afterId := m.after
  scope := m.scope

/-- The request that moves a bucket in the same way. -/
def bucketRequest (m : PendingMove) : BucketUpdate := { position := some m.position }

end PendingMove

/-- A list of items in the order of their keys in one scope. -/
structure ReorderList (α : Type) where
  items : List α
  scope : Scope
  bucketId : Option Int := none

namespace ReorderList

variable {α : Type} [Orderable α]

/-- The order of the list: by key, where all doubles are in order, then by id. -/
def itemLe (scope : Scope) (a b : α) : Bool :=
  ((Orderable.key scope a).totalCompare (Orderable.key scope b)
    |>.then (compare (Orderable.id a) (Orderable.id b))).isLE

def sorted (scope : Scope) (items : List α) : List α := items.mergeSort (itemLe scope)

/-- A list of items, brought into order. -/
def ofItems (items : List α) (scope : Scope) (bucketId : Option Int := none) : ReorderList α :=
  ⟨sorted scope items, scope, bucketId⟩

/-- The item directly before an index. -/
def itemBefore {α : Type} (items : List α) (index : Nat) : Option α :=
  if index = 0 then none else items[index - 1]?

/-- Puts an item at an index and gives it a key between its new neighbors. -/
def place (l : ReorderList α) (item : α) (index : Nat) : PendingMove × ReorderList α :=
  let before := itemBefore l.items index
  let after := l.items[index]?
  let beforeKey := before.map (Orderable.key l.scope)
  let afterKey := after.map (Orderable.key l.scope)
  let key := Position.allocate beforeKey afterKey
  let pending : PendingMove := {
    id := Orderable.id item
    position := key
    before := before.map Orderable.id
    after := after.map Orderable.id
    bucketId := l.bucketId
    scope := l.scope
    needsRebalance := Position.needsRebalance beforeKey afterKey key }
  (pending,
    { l with items := l.items.insertIdx index (Orderable.withKey l.scope key item) })

/-- Moves an item to another index, if both are in the list. -/
def move (l : ReorderList α) (source target : Nat) : Option (PendingMove × ReorderList α) :=
  if source = target ∨ l.items.length ≤ target then none
  else
    l.items[source]?.map fun item =>
      place { l with items := l.items.eraseIdx source } item target

/-- Inserts an item of another list, at the end if the index is beyond it. -/
def insert (l : ReorderList α) (item : α) (index : Nat) : PendingMove × ReorderList α :=
  l.place item (min index l.items.length)

/-- Takes an item out of the list. -/
def remove (l : ReorderList α) (id : Int) : Option (α × ReorderList α) :=
  (l.items.find? (Orderable.id · == id)).map fun item =>
    (item, { l with items := l.items.eraseP (Orderable.id · == id) })

/-- Puts the stored item in the place of the shown one, and tells whether it then stands at another
index.  An item that the list did not show is added. -/
def reconcile (l : ReorderList α) (stored : α) : Bool × ReorderList α :=
  match l.items.findIdx? (Orderable.id · == Orderable.id stored) with
  | none => (false, { l with items := sorted l.scope (l.items ++ [stored]) })
  | some index =>
    let items := sorted l.scope (l.items.set index stored)
    (items[index]?.all (Orderable.id · != Orderable.id stored), { l with items })

/-- Some neighbors are not strictly in order. -/
def needsRebalance (l : ReorderList α) : Bool :=
  (l.items.zip l.items.tail).any fun (a, b) =>
    !decide (Orderable.key l.scope a < Orderable.key l.scope b)

end ReorderList

end Kanban
