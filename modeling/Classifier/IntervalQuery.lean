import Classifier.IntervalTree
import Mathlib.Data.List.Sort

/-! # What the interval tree's queries return

The intervals of a tree are its in-order list. On a tree sorted by `low` whose every `max_high`
is the largest `high` below it, each query returns exactly the tree's intervals that overlap
it, each once, in preorder. -/

namespace Classifier

namespace IntervalNode

def toList : IntervalNode → List Interval
  | nil => []
  | node i _ l r _ => l.toList ++ i :: r.toList

def SortedByLow (n : IntervalNode) : Prop := n.toList.Sorted fun a b => a.low ≤ b.low

def MaxHighExact : IntervalNode → Prop
  | nil => True
  | node i m l r h =>
    MaxHighExact l ∧ MaxHighExact r ∧
      (∀ j ∈ (node i m l r h).toList, j.high ≤ m) ∧ ∃ j ∈ (node i m l r h).toList, j.high = m

theorem sorted_node {R : Interval → Interval → Prop} {i : Interval} {m h : Int}
    {l r : IntervalNode} (hs : (node i m l r h).toList.Sorted R) :
    l.toList.Sorted R ∧ r.toList.Sorted R ∧ (∀ j ∈ l.toList, R j i) ∧ ∀ j ∈ r.toList, R i j := by
  simp only [List.Sorted, toList, List.pairwise_append, List.pairwise_cons, List.mem_cons] at hs
  exact ⟨hs.1, hs.2.1.2, fun j hj => hs.2.2 j hj i (.inl rfl), hs.2.1.1⟩

theorem filter_eq_nil_of_maxHigh_lt {i : Interval} {m h : Int} {l r : IntervalNode}
    (hm : MaxHighExact (node i m l r h)) (p : Int) (hp : m < p) (P : Interval → Bool)
    (hP : ∀ j, P j = true → p ≤ j.high) : (node i m l r h).toList.filter P = [] :=
  List.filter_eq_nil_iff.mpr fun j hj hPj => by
    have := hm.2.2.1 j hj
    have := hP j hPj
    omega

theorem filter_eq_nil_of_lt_low {n : IntervalNode} (p : Int) (hl : ∀ j ∈ n.toList, p < j.low)
    (P : Interval → Bool) (hP : ∀ j, P j = true → j.low ≤ p) : n.toList.filter P = [] :=
  List.filter_eq_nil_iff.mpr fun j hj hPj => by
    have := hl j hj
    have := hP j hPj
    omega

/-! ## The point query -/

def containsPoint (p : Int) (j : Interval) : Bool := decide (j.low ≤ p ∧ p ≤ j.high)

theorem findOverlappingPoint_perm {n : IntervalNode} (hs : SortedByLow n)
    (hm : MaxHighExact n) (p : Int) :
    (findOverlappingPoint n p).Perm (n.toList.filter (containsPoint p)) := by
  induction n with
  | nil => exact .nil
  | node i m l r h ihl ihr =>
    obtain ⟨hsl, hsr, -, hr⟩ := sorted_node hs
    obtain ⟨hml, hmr, -⟩ := hm
    -- The left subtree: searched, or holds nothing that reaches `p`.
    have hleft : (match l with
        | nil => []
        | node _ lm _ _ _ => if lm ≥ p then findOverlappingPoint l p else []).Perm
        (l.toList.filter (containsPoint p)) := by
      cases l with
      | nil => exact .nil
      | node _ lm _ _ _ =>
        dsimp only
        split_ifs with hp
        · exact ihl hsl hml
        · rw [filter_eq_nil_of_maxHigh_lt hml p (by omega) _ fun j hj => by
            simp [containsPoint] at hj; omega]
    -- The right subtree: searched, or holds nothing that contains `p`.
    have hright : (match r with
        | nil => []
        | node _ rm _ _ _ =>
          if p ≥ i.low then findOverlappingPoint r p
          else if rm ≥ p ∧ p > i.high then findOverlappingPoint r p else []).Perm
        (r.toList.filter (containsPoint p)) := by
      cases r with
      | nil => exact .nil
      | node _ rm _ _ _ =>
        have ih := ihr hsr hmr
        dsimp only
        split_ifs with h₁ h₂
        · exact ih
        · exact ih
        · rw [filter_eq_nil_of_lt_low p (fun j hj => by have := hr j hj; omega) _ fun j hj => by
            simp [containsPoint] at hj; omega]
    simp only [findOverlappingPoint, toList, List.filter_append, List.filter_cons]
    have hnode : List.Perm (if p ≥ i.low ∧ p ≤ i.high then [i] else []) (if containsPoint p i then [i] else []) := by
      simp [containsPoint, and_comm]
    -- Preorder against in-order: the node's own interval moves to the middle.
    refine ((hnode.append hleft).append hright).trans ?_
    split <;> simp [List.perm_middle.symm]

/-! ## The range query -/

def meetsRange (q j : Interval) : Bool := decide (q.low ≤ j.high ∧ j.low ≤ q.high)

theorem findOverlappingRange_perm {n : IntervalNode} (hs : SortedByLow n)
    (hm : MaxHighExact n) (q : Interval) :
    (findOverlappingRange n q).Perm (n.toList.filter (meetsRange q)) := by
  induction n with
  | nil => exact .nil
  | node i m l r h ihl ihr =>
    obtain ⟨hsl, hsr, -, hr⟩ := sorted_node hs
    obtain ⟨hml, hmr, -⟩ := hm
    have hleft : (match l with
        | nil => []
        | node _ lm _ _ _ => if lm ≥ q.low then findOverlappingRange l q else []).Perm
        (l.toList.filter (meetsRange q)) := by
      cases l with
      | nil => exact .nil
      | node _ lm _ _ _ =>
        dsimp only
        split_ifs with hq
        · exact ihl hsl hml
        · rw [filter_eq_nil_of_maxHigh_lt hml q.low (by omega) _ fun j hj => by
            simp [meetsRange] at hj; omega]
    have hright : (match r with
        | nil => []
        | node .. => if q.high ≥ i.low then findOverlappingRange r q else []).Perm
        (r.toList.filter (meetsRange q)) := by
      cases r with
      | nil => exact .nil
      | node =>
        dsimp only
        split_ifs with hq
        · exact ihr hsr hmr
        · rw [filter_eq_nil_of_lt_low q.high (fun j hj => by have := hr j hj; omega) _ fun j hj => by
            simp [meetsRange] at hj; omega]
    simp only [findOverlappingRange, toList, List.filter_append, List.filter_cons]
    have hnode : List.Perm (if q.low ≤ i.high ∧ q.high ≥ i.low then [i] else []) (if meetsRange q i then [i] else []) := by
      simp [meetsRange, and_comm]
    -- Preorder against in-order: the node's own interval moves to the middle.
    refine ((hnode.append hleft).append hright).trans ?_
    split <;> simp [List.perm_middle.symm]

/-! ## Both overloads -/

/-- On a tree sorted by `low` with exact `max_high`, whatever its balance, the point overload
appends exactly the intervals that contain the point and the range overload exactly those that
meet the range, each once. -/
theorem findOverlappingRecursive_exact {n : IntervalNode} (hs : SortedByLow n)
    (hm : MaxHighExact n) :
    (∀ p, (findOverlappingPoint n p).Perm (n.toList.filter (containsPoint p))) ∧
      ∀ lo hi dataId, (findOverlappingRange n ⟨lo, hi, dataId⟩).Perm
        (n.toList.filter (meetsRange ⟨lo, hi, dataId⟩)) :=
  ⟨findOverlappingPoint_perm hs hm, fun _ _ _ => findOverlappingRange_perm hs hm _⟩

theorem findOverlappingRecursive_exact_two_levels :
    let n := node ⟨10, 20, 1⟩ 40 (node ⟨5, 40, 2⟩ 40 nil nil 1) nil 2
    SortedByLow n ∧ MaxHighExact n ∧
      ((∀ p, (findOverlappingPoint n p).Perm (n.toList.filter (containsPoint p))) ∧
        ∀ lo hi dataId, (findOverlappingRange n ⟨lo, hi, dataId⟩).Perm
          (n.toList.filter (meetsRange ⟨lo, hi, dataId⟩))) :=
  have hs : SortedByLow (node ⟨10, 20, 1⟩ 40 (node ⟨5, 40, 2⟩ 40 nil nil 1) nil 2) := by
    unfold SortedByLow; decide
  have hm : MaxHighExact (node ⟨10, 20, 1⟩ 40 (node ⟨5, 40, 2⟩ 40 nil nil 1) nil 2) := by
    simp [MaxHighExact, toList]
  ⟨hs, hm, findOverlappingRecursive_exact hs hm⟩

end IntervalNode

end Classifier
