import Classifier.IntervalRuns
import Mathlib.Algebra.Group.Nat.Basic
import Mathlib.Data.Nat.Log

/-! # Heights and balance of the interval tree

The conditions the tree keeps at every node: in order by `low` then `high`, a height one more
than the taller child's, `max_high` as `updateMaxHigh` computes it, and children's heights within
one of each other. A successful insertion never rotates, and it fails wherever a balance would
leave `[-1, 1]`; removal is the AVL deletion with its four rotations. So every tree that a run
builds without reading the moved-from pointer meets all four. -/

namespace Classifier

namespace IntervalNode

/-! ## The order by `low`, then `high` -/

def LowHighLe (a b : Interval) : Prop := a.low < b.low ∨ (a.low = b.low ∧ a.high ≤ b.high)

theorem lowHighLe_refl (a : Interval) : LowHighLe a a := .inr ⟨rfl, le_rfl⟩

theorem lowHighLe_trans (a b c : Interval) (hab : LowHighLe a b) (hbc : LowHighLe b c) :
    LowHighLe a c := by
  unfold LowHighLe at *; omega

theorem lowHighLe_of_lowHighLt (a b : Interval) (h : LowHighLt a b) : LowHighLe a b := by
  unfold LowHighLe LowHighLt at *; omega

theorem lowHighLe_of_not_lowHighLt (a b : Interval) (h : ¬ LowHighLt a b) : LowHighLe b a := by
  unfold LowHighLe LowHighLt at *; omega

/-! ## Heights -/

def Avl : IntervalNode → Prop
  | nil => True
  | node i m l r h => Avl l ∧ Avl r ∧ h = 1 + max l.getHeight r.getHeight ∧
      m = updateMaxHigh i l r ∧ -1 ≤ l.getHeight - r.getHeight ∧ l.getHeight - r.getHeight ≤ 1

@[simp] theorem getHeight_nil : nil.getHeight = 0 := rfl

@[simp] theorem getHeight_node (i : Interval) (m : Int) (l r : IntervalNode) (h : Int) :
    (node i m l r h).getHeight = h := rfl

@[simp] theorem getBalanceFactor_node (i : Interval) (m : Int) (l r : IntervalNode) (h : Int) :
    (node i m l r h).getBalanceFactor = l.getHeight - r.getHeight := rfl

@[simp] theorem getHeight_fix (i : Interval) (l r : IntervalNode) :
    (fix i l r).getHeight = 1 + max l.getHeight r.getHeight := rfl

theorem Avl.getHeight_nonneg : ∀ {n : IntervalNode}, Avl n → 0 ≤ n.getHeight
  | nil, _ => le_rfl
  | node _ _ _ _ _, ⟨hl, _, hh, _⟩ => by
    have := hl.getHeight_nonneg
    simp only [getHeight_node, hh]
    omega

theorem avl_fix {i : Interval} {l r : IntervalNode} (hl : Avl l) (hr : Avl r)
    (hb : -1 ≤ l.getHeight - r.getHeight ∧ l.getHeight - r.getHeight ≤ 1) : Avl (fix i l r) :=
  ⟨hl, hr, rfl, rfl, hb⟩

/-! ## Height and size -/

theorem pow_half_succ_le {a b : Nat} (hab : a ≤ b + 1) :
    2 ^ ((a + 1) / 2) ≤ 2 ^ (a / 2) + 2 ^ (b / 2) := by
  obtain ⟨k, rfl | rfl⟩ : ∃ k, a = 2 * k ∨ a = 2 * k + 1 := ⟨a / 2, by omega⟩
  · have h₁ : (2 * k + 1) / 2 = k := by omega
    have h₂ : 2 * k / 2 = k := by omega
    rw [h₁, h₂]
    exact Nat.le_add_right _ _
  · have h₁ : (2 * k + 1 + 1) / 2 = k + 1 := by omega
    have h₂ : (2 * k + 1) / 2 = k := by omega
    have h₃ : 2 ^ k ≤ 2 ^ (b / 2) := Nat.pow_le_pow_right (by decide) (by omega)
    rw [h₁, h₂, Nat.pow_succ]
    omega

theorem Avl.pow_height_le : ∀ {n : IntervalNode}, Avl n →
    2 ^ (n.getHeight.toNat / 2) ≤ n.toList.length + 1
  | nil, _ => le_rfl
  | node i m l r h, ⟨hl, hr, hh, _, hb⟩ => by
    have ihl := hl.pow_height_le
    have ihr := hr.pow_height_le
    have hl₀ := hl.getHeight_nonneg
    have hr₀ := hr.getHeight_nonneg
    simp only [getHeight_node, toList, List.length_append, List.length_cons]
    -- The taller child is one below the node, the other at most two.
    rcases le_total l.getHeight r.getHeight with hle | hle
    · have e : h.toNat = r.getHeight.toNat + 1 := by rw [hh, max_eq_right hle]; omega
      have := pow_half_succ_le (a := r.getHeight.toNat) (b := l.getHeight.toNat) (by omega)
      rw [e]
      omega
    · have e : h.toNat = l.getHeight.toNat + 1 := by rw [hh, max_eq_left hle]; omega
      have := pow_half_succ_le (a := l.getHeight.toNat) (b := r.getHeight.toNat) (by omega)
      rw [e]
      omega

theorem Avl.height_le_log {n : IntervalNode} (hn : Avl n) :
    n.getHeight.toNat ≤ 2 * Nat.log 2 (n.toList.length + 1) + 1 := by
  have := Nat.le_log_of_pow_le (by decide) hn.pow_height_le
  omega

/-! ## The rotations of removal

Their height arithmetic first, apart from the trees. -/

theorem double_rotation_heights {a b c d g : Int} (hg : g = 1 + max b c)
    (hbc : -1 ≤ b - c ∧ b - c ≤ 1) (ha : a = g - 1) (hd : d = g - 1) :
    (-1 ≤ a - b ∧ a - b ≤ 1) ∧ (-1 ≤ c - d ∧ c - d ≤ 1) ∧ max a b = g - 1 ∧ max c d = g - 1 := by
  omega

/-! ## The rotations themselves

Each applies to a node whose children are AVL trees two apart in height. -/

theorem avl_rotateRight {i : Interval} {m h : Int} {l r : IntervalNode} (hl : Avl l)
    (hr : Avl r) (hd : l.getHeight = r.getHeight + 2) (hlb : 0 ≤ l.getBalanceFactor) :
    Avl (rotateRight (node i m l r h)) ∧ l.getHeight ≤ (rotateRight (node i m l r h)).getHeight ∧
      (rotateRight (node i m l r h)).getHeight ≤ l.getHeight + 1 := by
  have := hr.getHeight_nonneg
  cases l with
  | nil => simp only [getHeight_nil] at hd; omega
  | node xi _ xl xr xh =>
    obtain ⟨hxl, hxr, hxh, -, hxb⟩ := hl
    simp only [getHeight_node, getBalanceFactor_node] at hd hlb
    show Avl (fix xi xl (fix i xr r)) ∧ xh ≤ (fix xi xl (fix i xr r)).getHeight ∧
      (fix xi xl (fix i xr r)).getHeight ≤ xh + 1
    simp only [getHeight_fix]
    exact ⟨avl_fix hxl (avl_fix hxr hr (by omega)) (by simp only [getHeight_fix]; omega),
      by omega, by omega⟩

theorem avl_rotateRight_rotateLeft {i : Interval} {m h : Int} {l r : IntervalNode} (hl : Avl l)
    (hr : Avl r) (hd : l.getHeight = r.getHeight + 2) (hlb : l.getBalanceFactor < 0) :
    Avl (rotateRight (node i m (rotateLeft l) r h)) ∧
      (rotateRight (node i m (rotateLeft l) r h)).getHeight = l.getHeight := by
  cases l with
  | nil => exact (lt_irrefl 0 hlb).elim
  | node xi _ xl xr xh =>
    obtain ⟨hxl, hxr, hxh, -, hxb⟩ := hl
    have := hxl.getHeight_nonneg
    cases xr with
    | nil => simp only [getBalanceFactor_node, getHeight_nil] at hlb; omega
    | node yi _ yl yr yh =>
      obtain ⟨hyl, hyr, hyh, -, hyb⟩ := hxr
      simp only [getHeight_node, getBalanceFactor_node] at hd hlb hxh hxb
      have hx : xh = yh + 1 := by omega
      obtain ⟨h₁, h₂, h₃, h₄⟩ := double_rotation_heights (a := xl.getHeight) (d := r.getHeight) hyh hyb
        (by omega) (by omega)
      show Avl (fix yi (fix xi xl yl) (fix i yr r)) ∧
        (fix yi (fix xi xl yl) (fix i yr r)).getHeight = xh
      simp only [getHeight_fix, h₃, h₄, max_self, hx]
      exact ⟨avl_fix (avl_fix hxl hyl h₁) (avl_fix hyr hr h₂)
        (by simp only [getHeight_fix, h₃, h₄, Int.sub_self]; decide), by omega⟩

theorem avl_rotateLeft {i : Interval} {m h : Int} {l r : IntervalNode} (hl : Avl l)
    (hr : Avl r) (hd : r.getHeight = l.getHeight + 2) (hrb : r.getBalanceFactor ≤ 0) :
    Avl (rotateLeft (node i m l r h)) ∧ r.getHeight ≤ (rotateLeft (node i m l r h)).getHeight ∧
      (rotateLeft (node i m l r h)).getHeight ≤ r.getHeight + 1 := by
  have := hl.getHeight_nonneg
  cases r with
  | nil => simp only [getHeight_nil] at hd; omega
  | node yi _ yl yr yh =>
    obtain ⟨hyl, hyr, hyh, -, hyb⟩ := hr
    simp only [getHeight_node, getBalanceFactor_node] at hd hrb
    show Avl (fix yi (fix i l yl) yr) ∧ yh ≤ (fix yi (fix i l yl) yr).getHeight ∧
      (fix yi (fix i l yl) yr).getHeight ≤ yh + 1
    simp only [getHeight_fix]
    exact ⟨avl_fix (avl_fix hl hyl (by omega)) hyr (by simp only [getHeight_fix]; omega),
      by omega, by omega⟩

theorem avl_rotateLeft_rotateRight {i : Interval} {m h : Int} {l r : IntervalNode} (hl : Avl l)
    (hr : Avl r) (hd : r.getHeight = l.getHeight + 2) (hrb : 0 < r.getBalanceFactor) :
    Avl (rotateLeft (node i m l (rotateRight r) h)) ∧
      (rotateLeft (node i m l (rotateRight r) h)).getHeight = r.getHeight := by
  cases r with
  | nil => exact (lt_irrefl 0 hrb).elim
  | node yi _ yl yr yh =>
    obtain ⟨hyl, hyr, hyh, -, hyb⟩ := hr
    have := hyr.getHeight_nonneg
    cases yl with
    | nil => simp only [getBalanceFactor_node, getHeight_nil] at hrb; omega
    | node xi _ xl xr xh =>
      obtain ⟨hxl, hxr, hxh, -, hxb⟩ := hyl
      simp only [getHeight_node, getBalanceFactor_node] at hd hrb hyh hyb
      have hy : yh = xh + 1 := by omega
      obtain ⟨h₁, h₂, h₃, h₄⟩ := double_rotation_heights (a := l.getHeight) (d := yr.getHeight) hxh hxb
        (by omega) (by omega)
      show Avl (fix xi (fix i l xl) (fix yi xr yr)) ∧
        (fix xi (fix i l xl) (fix yi xr yr)).getHeight = yh
      simp only [getHeight_fix, h₃, h₄, max_self, hy]
      exact ⟨avl_fix (avl_fix hl hxl h₁) (avl_fix hxr hyr h₂)
        (by simp only [getHeight_fix, h₃, h₄, Int.sub_self]; decide), by omega⟩

theorem avl_removeBalance {i : Interval} {m h : Int} {l r : IntervalNode} (hl : Avl l)
    (hr : Avl r) (hd : -2 ≤ l.getHeight - r.getHeight ∧ l.getHeight - r.getHeight ≤ 2) :
    Avl (removeBalance (node i m l r h)) ∧
      max l.getHeight r.getHeight ≤ (removeBalance (node i m l r h)).getHeight ∧
      (removeBalance (node i m l r h)).getHeight ≤ 1 + max l.getHeight r.getHeight ∧
      (-1 ≤ l.getHeight - r.getHeight → l.getHeight - r.getHeight ≤ 1 →
        (removeBalance (node i m l r h)).getHeight = 1 + max l.getHeight r.getHeight) := by
  generalize hn : removeBalance (node i m l r h) = n
  simp only [removeBalance, fix, getBalanceFactor_node] at hn
  split_ifs at hn with h₁ h₂ h₃ h₄ <;> subst hn
  · obtain ⟨ha, hlo, hhi⟩ := avl_rotateRight (i := i) (m := updateMaxHigh i l r)
      (h := 1 + max l.getHeight r.getHeight) hl hr (by omega) h₁.2
    exact ⟨ha, by omega, by omega, by omega⟩
  · obtain ⟨ha, heq⟩ := avl_rotateRight_rotateLeft (i := i) (m := updateMaxHigh i l r)
      (h := 1 + max l.getHeight r.getHeight) hl hr (by omega) (by omega)
    exact ⟨ha, by omega, by omega, by omega⟩
  · obtain ⟨ha, hlo, hhi⟩ := avl_rotateLeft (i := i) (m := updateMaxHigh i l r)
      (h := 1 + max l.getHeight r.getHeight) hl hr (by omega) h₃.2
    exact ⟨ha, by omega, by omega, by omega⟩
  · obtain ⟨ha, heq⟩ := avl_rotateLeft_rotateRight (i := i) (m := updateMaxHigh i l r)
      (h := 1 + max l.getHeight r.getHeight) hl hr (by omega) (by omega)
    exact ⟨ha, by omega, by omega, by omega⟩
  · exact ⟨avl_fix hl hr (by omega), by simp only [getHeight_node]; omega,
      by simp only [getHeight_node]; omega, fun _ _ => rfl⟩

theorem avl_removeBalance_of_lower {i : Interval} {m h h' : Int} {l r l' r' : IntervalNode}
    (hl : Avl l') (hr : Avl r') (hh : h = 1 + max l.getHeight r.getHeight)
    (hb : -1 ≤ l.getHeight - r.getHeight ∧ l.getHeight - r.getHeight ≤ 1)
    (hll : l.getHeight - 1 ≤ l'.getHeight ∧ l'.getHeight ≤ l.getHeight)
    (hrr : r.getHeight - 1 ≤ r'.getHeight ∧ r'.getHeight ≤ r.getHeight) :
    Avl (removeBalance (node i m l' r' h')) ∧ h - 1 ≤ (removeBalance (node i m l' r' h')).getHeight ∧
      (removeBalance (node i m l' r' h')).getHeight ≤ h := by
  obtain ⟨ha, hlo, hhi, heq⟩ := avl_removeBalance (i := i) (m := m) (h := h') hl hr (by omega)
  refine ⟨ha, ?_, by omega⟩
  -- Two apart, the taller child is one that kept its height.
  by_cases hw : -1 ≤ l'.getHeight - r'.getHeight ∧ l'.getHeight - r'.getHeight ≤ 1
  · have := heq hw.1 hw.2
    omega
  · omega

theorem avl_removeRecursive {n : IntervalNode} (hn : Avl n) (t : Interval) :
    Avl (removeRecursive n t) ∧ n.getHeight - 1 ≤ (removeRecursive n t).getHeight ∧
      (removeRecursive n t).getHeight ≤ n.getHeight := by
  induction n generalizing t with
  | nil => exact ⟨trivial, show (0 : Int) - 1 ≤ 0 by decide, le_rfl⟩
  | node iv m l r h ihl ihr =>
    obtain ⟨hl, hr, hh, -, hb⟩ := hn
    have hl₀ := hl.getHeight_nonneg
    have hr₀ := hr.getHeight_nonneg
    unfold removeRecursive
    split_ifs with hless hgreater hid
    · -- Down the left.
      obtain ⟨ha, hlo, hhi⟩ := ihl hl t
      exact avl_removeBalance_of_lower ha hr hh hb ⟨hlo, hhi⟩ ⟨by omega, le_rfl⟩
    · -- Down the right.
      obtain ⟨ha, hlo, hhi⟩ := ihr hr t
      exact avl_removeBalance_of_lower hl ha hh hb ⟨by omega, le_rfl⟩ ⟨hlo, hhi⟩
    · -- The node itself goes.
      split
      · simp only [getHeight_nil] at hh hb
        exact ⟨hr, by simp only [getHeight_node]; omega, by simp only [getHeight_node]; omega⟩
      · simp only [getHeight_nil] at hh hb
        exact ⟨hl, by simp only [getHeight_node]; omega, by simp only [getHeight_node]; omega⟩
      · obtain ⟨ha, hlo, hhi⟩ := ihr hr (findMin _ _)
        exact avl_removeBalance_of_lower hl ha hh hb ⟨by omega, le_rfl⟩ ⟨hlo, hhi⟩
    · -- Same range, another id: nothing is removed.
      exact avl_removeBalance_of_lower hl hr hh hb ⟨by omega, le_rfl⟩ ⟨by omega, le_rfl⟩

/-! ## Insertion -/

theorem avl_insertRecursive {n n' : IntervalNode} {i : Interval}
    (hins : insertRecursive n i = some n') (hn : Avl n) : Avl n' := by
  induction n generalizing n' with
  | nil =>
    cases hins
    exact ⟨trivial, trivial, rfl, rfl, by decide⟩
  | node iv m l r h ihl ihr =>
    obtain ⟨hl, hr, -⟩ := hn
    obtain ⟨hbal, hl' | hr'⟩ := insertRecursive_node hins
    · obtain ⟨l', hl', rfl, -⟩ := hl'
      exact avl_fix (ihl hl' hl) hr hbal
    · obtain ⟨r', hr', rfl, -⟩ := hr'
      exact avl_fix hl (ihr hr' hr) hbal

end IntervalNode

namespace IntervalTree

open IntervalNode

/-! ## Runs -/

structure Balanced (t : IntervalTree) : Prop where
  inv : Inv t
  sorted : t.root.toList.Sorted LowHighLe
  avl : Avl t.root

theorem balanced_empty : Balanced {} := ⟨inv_empty, List.sorted_nil, trivial⟩

theorem Balanced.insert {t t' : IntervalTree} {low high dataId : Int} (h : Balanced t)
    (hins : t.insert low high dataId = some t') : Balanced t' := by
  have hinv := (h.inv.insert hins).1
  unfold IntervalTree.insert at hins
  split_ifs at hins
  · cases hins
    exact h
  · obtain ⟨n', hn', rfl⟩ := Option.map_eq_some'.mp hins
    exact ⟨hinv, (insertRecursive_spec lowHighLe_trans lowHighLe_of_lowHighLt
      lowHighLe_of_not_lowHighLt hn' h.sorted h.inv.maxHigh).1, avl_insertRecursive hn' h.avl⟩

theorem Balanced.remove {t : IntervalTree} (h : Balanced t) (low high dataId : Int) :
    Balanced (t.remove low high dataId).2 :=
  ⟨(h.inv.remove low high dataId).1, (removeRecursive_spec lowHighLe_refl lowHighLe_trans h.sorted
    h.inv.maxHigh _).1, (avl_removeRecursive h.avl _).1⟩

theorem Balanced.foldlM {ops : List Op} {t₀ t : IntervalTree} (h₀ : Balanced t₀)
    (h : ops.foldlM apply t₀ = some t) : Balanced t := by
  induction ops generalizing t₀ with
  | nil =>
    cases h
    exact h₀
  | cons op ops ih =>
    obtain ⟨t₁, h₁, h₂⟩ := Option.bind_eq_some.mp h
    cases op with
    | insert low high dataId => exact ih (h₀.insert h₁) h₂
    | remove low high dataId =>
      cases h₁
      exact ih (h₀.remove low high dataId) h₂

theorem balanced_run {ops : List Op} {t : IntervalTree} (h : run ops = some t) : Balanced t :=
  balanced_empty.foldlM h

/-- Every tree a run builds without crashing is at most `2 log₂ (n + 1) + 1` high for its `n`
intervals, so a search from the root visits no more nodes than that. -/
theorem height_le_log_of_run {ops : List Op} {t : IntervalTree} (h : run ops = some t) :
    t.root.getHeight.toNat ≤ 2 * Nat.log 2 (t.root.toList.length + 1) + 1 :=
  (balanced_run h).avl.height_le_log

theorem height_le_log_of_run_three_inserts :
    ∃ t, run [.insert 10 20 1, .insert 5 8 2, .insert 30 40 3] = some t ∧
      t.root.getHeight.toNat ≤ 2 * Nat.log 2 (t.root.toList.length + 1) + 1 :=
  ⟨_, rfl, @height_le_log_of_run [.insert 10 20 1, .insert 5 8 2, .insert 30 40 3] _ rfl⟩

end IntervalTree

end Classifier
