import Mathlib.Data.List.Basic

/-! # The interval tree

`IntervalTree` of `interval_tree.cpp`: an AVL-shaped search tree ordered on `(low, high)`, whose
nodes record the largest `high` below them. The `int` fields are `Int`; nothing here comes near
their bounds.

`insertRecursive` hands its `new_interval` to the recursive call with `std::move` and reads it
again in its balancing conditions. Wherever a node needs rebalancing that read goes through a
null `std::unique_ptr`, and the model returns `none`. -/

namespace Classifier

structure Interval where
  low : Int
  high : Int
  dataId : Int := 0
  deriving DecidableEq, Repr

/-- A `std::unique_ptr<IntervalNode>`: `nil`, or a node. A node's interval is never null. -/
inductive IntervalNode where
  | nil
  | node (interval : Interval) (maxHigh : Int) (left right : IntervalNode) (height : Int)
  deriving DecidableEq, Repr

namespace IntervalNode

/-- `IntervalNode(std::move(i))`. -/
def leaf (i : Interval) : IntervalNode := node i i.high nil nil 1

def getHeight : IntervalNode → Int
  | nil => 0
  | node _ _ _ _ h => h

def getBalanceFactor : IntervalNode → Int
  | nil => 0
  | node _ _ l r _ => l.getHeight - r.getHeight

/-- `updateMaxHigh` of a node with interval `i` and children `left` and `right`. -/
def updateMaxHigh (i : Interval) (left right : IntervalNode) : Int :=
  let m := match left with
    | nil => i.high
    | node _ lm _ _ _ => max i.high lm
  match right with
  | nil => m
  | node _ rm _ _ _ => max m rm

/-- A node with children `left` and `right`, after `updateNodeHeight` and `updateMaxHigh`. -/
def fix (i : Interval) (left right : IntervalNode) : IntervalNode :=
  node i (updateMaxHigh i left right) left right (1 + max left.getHeight right.getHeight)

/-- The source dereferences the left child; the balance factors its callers check rule out a
missing one, and the model then leaves the node as it is. -/
def rotateRight : IntervalNode → IntervalNode
  | node yi _ (node xi _ xl xr _) yr _ => fix xi xl (fix yi xr yr)
  | n => n

def rotateLeft : IntervalNode → IntervalNode
  | node xi _ xl (node yi _ yl yr _) _ => fix yi (fix xi xl yl) yr
  | n => n

/-- `insertRecursive`: down by `low`, ties by `high` (equal goes right). `none` where the
balancing code reads the moved-from `new_interval`. -/
def insertRecursive : IntervalNode → Interval → Option IntervalNode
  | nil, i => some (leaf i)
  | node iv _ l r _, i => do
    let n ← if i.low < iv.low then (insertRecursive l i).map (fix iv · r)
      else if i.low > iv.low then (insertRecursive r i).map (fix iv l ·)
      else if i.high < iv.high then (insertRecursive l i).map (fix iv · r)
      else (insertRecursive r i).map (fix iv l ·)
    if n.getBalanceFactor > 1 ∨ n.getBalanceFactor < -1 then none else some n

/-- `findMin(node)->interval` for a node with interval `i` and left child `left`. -/
def findMin (i : Interval) : IntervalNode → Interval
  | nil => i
  | node j _ l _ _ => findMin j l

/-- The tail of `removeRecursive`: heights and `max_high` brought up to date, then the four
AVL cases. -/
def removeBalance : IntervalNode → IntervalNode
  | nil => nil
  | node i _ l r _ =>
    match fix i l r with
    | nil => nil
    | n@(node _ m _ _ h) =>
      if n.getBalanceFactor > 1 ∧ l.getBalanceFactor ≥ 0 then rotateRight n
      else if n.getBalanceFactor > 1 ∧ l.getBalanceFactor < 0 then
        rotateRight (node i m (rotateLeft l) r h)
      else if n.getBalanceFactor < -1 ∧ r.getBalanceFactor ≤ 0 then rotateLeft n
      else if n.getBalanceFactor < -1 ∧ r.getBalanceFactor > 0 then
        rotateLeft (node i m l (rotateRight r) h)
      else n

/-- `removeRecursive`: down by `(low, high)` to the first node of the target's range. Only if its
`data_id` is the target's is that node removed; otherwise nothing is. -/
def removeRecursive : IntervalNode → Interval → IntervalNode
  | nil, _ => nil
  | node iv m l r h, t =>
    if t.low < iv.low ∨ (t.low = iv.low ∧ t.high < iv.high) then
      removeBalance (node iv m (removeRecursive l t) r h)
    else if t.low > iv.low ∨ (t.low = iv.low ∧ t.high > iv.high) then
      removeBalance (node iv m l (removeRecursive r t) h)
    else if iv.dataId = t.dataId then
      match l, r with
      | nil, r => r
      | l, nil => l
      | l, node ri rm rl rr rh =>
        -- The successor's copy replaces the interval; then the successor is removed below.
        let s := findMin ri rl
        removeBalance (node s m l (removeRecursive (node ri rm rl rr rh) s) h)
    else removeBalance (node iv m l r h)

/-- `findOverlappingRecursive` for a point: this node, the left subtree if its `max_high`
reaches the point, the right subtree if the point is at or after this node's `low`. -/
def findOverlappingPoint : IntervalNode → Int → List Interval
  | nil, _ => []
  | node iv _ l r _, p =>
    (if p ≥ iv.low ∧ p ≤ iv.high then [iv] else []) ++
    (match l with
      | nil => []
      | node _ lm _ _ _ => if lm ≥ p then findOverlappingPoint l p else []) ++
    (match r with
      | nil => []
      | node _ rm _ _ _ =>
        if p ≥ iv.low then findOverlappingPoint r p
        else if rm ≥ p ∧ p > iv.high then findOverlappingPoint r p
        else [])

/-- `findOverlappingRecursive` for a query interval. -/
def findOverlappingRange : IntervalNode → Interval → List Interval
  | nil, _ => []
  | node iv _ l r _, q =>
    (if q.low ≤ iv.high ∧ q.high ≥ iv.low then [iv] else []) ++
    (match l with
      | nil => []
      | node _ lm _ _ _ => if lm ≥ q.low then findOverlappingRange l q else []) ++
    (match r with
      | nil => []
      | node .. => if q.high ≥ iv.low then findOverlappingRange r q else [])

end IntervalNode

structure IntervalTree where
  root : IntervalNode := .nil
  deriving DecidableEq, Repr

namespace IntervalTree

open IntervalNode

/-- `insert(low, high, data_id)`: an empty interval is refused; `none` when the insertion
dereferences the moved-from pointer. -/
def insert (t : IntervalTree) (low high dataId : Int) : Option IntervalTree :=
  if low > high then some t else (insertRecursive t.root ⟨low, high, dataId⟩).map (⟨·⟩)

/-- `remove(low, high, data_id)` always returns true. -/
def remove (t : IntervalTree) (low high dataId : Int) : Bool × IntervalTree :=
  (true, ⟨removeRecursive t.root ⟨low, high, dataId⟩⟩)

def findOverlappingIntervals (t : IntervalTree) (point : Int) : List Interval :=
  findOverlappingPoint t.root point

/-- The range overload; its query is `Interval(low, high)`, with `data_id` 0. -/
def findOverlappingIntervalsRange (t : IntervalTree) (low high : Int) : List Interval :=
  if low > high then [] else findOverlappingRange t.root ⟨low, high, 0⟩

inductive Op where
  | insert (low high dataId : Int)
  | remove (low high dataId : Int)
  deriving DecidableEq, Repr

def apply (t : IntervalTree) : Op → Option IntervalTree
  | .insert low high dataId => t.insert low high dataId
  | .remove low high dataId => some (t.remove low high dataId).2

def run (ops : List Op) : Option IntervalTree :=
  ops.foldlM apply {}

/-! ## The multiset of intervals the calls describe -/

def abstractApply (s : List Interval) : Op → List Interval
  | .insert low high dataId => if low ≤ high then ⟨low, high, dataId⟩ :: s else s
  | .remove low high dataId => s.erase ⟨low, high, dataId⟩

def abstractRun (ops : List Op) : List Interval := ops.foldl abstractApply []

end IntervalTree

/-- `remove(10, 20, 2)` stops at the stored `(10, 20, 1)`, whose id differs, so both intervals
stay, where the multiset `abstractRun` keeps one. And in `InsertMultipleNonOverlappingIntervals` the
third insertion unbalances the root, where `insertRecursive` reads its moved-from pointer. -/
theorem remove_stops_at_first_equal_range :
    (∃ t, IntervalTree.run [.insert 10 20 1, .insert 10 20 2, .remove 10 20 2] = some t ∧
      t.findOverlappingIntervals 15 = [⟨10, 20, 1⟩, ⟨10, 20, 2⟩] ∧
      (IntervalTree.abstractRun [.insert 10 20 1, .insert 10 20 2, .remove 10 20 2]).filter
        (fun i => decide (i.low ≤ 15 ∧ 15 ≤ i.high)) = [⟨10, 20, 1⟩]) ∧
    IntervalTree.run [.insert 10 20 1, .insert 30 40 2, .insert 50 60 3] = none :=
  ⟨⟨_, rfl, by decide, by decide⟩, by decide⟩

/-- After `insert(10, 20, 1)` and `insert(30, 40, 2)` the root has one right child. Inserting
`(50, 60)`, with `low ≤ high`, goes right twice; the root's balance becomes -2, and the balancing
conditions read `new_interval`, which was moved into the recursive call. -/
theorem insert_reads_moved_interval :
    IntervalTree.run [.insert 10 20 1, .insert 30 40 2] =
        some ⟨.node ⟨10, 20, 1⟩ 40 .nil (.leaf ⟨30, 40, 2⟩) 2⟩ ∧
      (IntervalNode.fix ⟨10, 20, 1⟩ .nil
        (IntervalNode.fix ⟨30, 40, 2⟩ .nil (.leaf ⟨50, 60, 3⟩))).getBalanceFactor = -2 ∧
      (⟨.node ⟨10, 20, 1⟩ 40 .nil (.leaf ⟨30, 40, 2⟩) 2⟩ : IntervalTree).insert 50 60 3 = none :=
  ⟨rfl, rfl, rfl⟩

/-- Three intervals of equal `low`: each goes right by its `high`, the third leaves the root
with balance -2, and the balancing conditions, which compare `low` alone, read the moved-from
`new_interval`: no tree results. -/
theorem equal_lows_unbalance_root :
    IntervalTree.run [.insert 10 20 1, .insert 10 30 2] =
        some ⟨.node ⟨10, 20, 1⟩ 30 .nil (.leaf ⟨10, 30, 2⟩) 2⟩ ∧
      (IntervalNode.fix ⟨10, 20, 1⟩ .nil
        (IntervalNode.fix ⟨10, 30, 2⟩ .nil (.leaf ⟨10, 40, 3⟩))).getBalanceFactor = -2 ∧
      IntervalTree.run [.insert 10 20 1, .insert 10 30 2, .insert 10 40 3] = none :=
  ⟨rfl, rfl, rfl⟩

end Classifier
