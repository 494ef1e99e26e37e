import Classifier.IntervalQuery

/-! # The interval tree over runs

A successful insertion adds its interval and keeps the tree sorted by `low` with exact
`max_high`; a removal keeps both and only ever keeps intervals the tree had. So after any run
that does not crash, each query returns exactly the overlapping intervals the tree holds. -/

namespace Classifier

namespace IntervalNode

/-! ## Building blocks -/

def maxHighOr (n : IntervalNode) (d : Int) : Int :=
  match n with
  | nil => d
  | node _ m _ _ _ => m

theorem updateMaxHigh_eq (i : Interval) (l r : IntervalNode) :
    updateMaxHigh i l r = max (max i.high (l.maxHighOr i.high)) (r.maxHighOr i.high) := by
  cases l <;> cases r <;> simp only [updateMaxHigh, maxHighOr] <;> omega

theorem high_le_maxHighOr {n : IntervalNode} (hn : MaxHighExact n) (d : Int) :
    ∀ j ∈ n.toList, j.high ≤ n.maxHighOr d := by
  cases n with
  | nil => simp [toList]
  | node => exact hn.2.2.1

theorem maxHighOr_attained {n : IntervalNode} (hn : MaxHighExact n) (d : Int) :
    n.maxHighOr d = d ∨ ∃ j ∈ n.toList, j.high = n.maxHighOr d := by
  cases n with
  | nil => exact .inl rfl
  | node => exact .inr hn.2.2.2

@[simp] theorem toList_fix (i : Interval) (l r : IntervalNode) :
    (fix i l r).toList = l.toList ++ i :: r.toList := rfl

theorem maxHighExact_fix {i : Interval} {l r : IntervalNode} (hl : MaxHighExact l)
    (hr : MaxHighExact r) : MaxHighExact (fix i l r) := by
  have hm := updateMaxHigh_eq i l r
  refine ⟨hl, hr, fun j hj => ?_, ?_⟩
  · simp only [toList, List.mem_append, List.mem_cons] at hj
    rcases hj with hj | rfl | hj
    · have := high_le_maxHighOr hl i.high j hj; omega
    · omega
    · have := high_le_maxHighOr hr i.high j hj; omega
  · -- The largest of the three is attained by the node or by a child.
    simp only [toList, List.mem_append, List.mem_cons]
    rcases maxHighOr_attained hl i.high with hl' | ⟨j, hj, hjl⟩ <;>
      rcases maxHighOr_attained hr i.high with hr' | ⟨k, hk, hkr⟩
    · exact ⟨i, .inr (.inl rfl), by omega⟩
    · by_cases hmax : k.high ≤ i.high
      · exact ⟨i, .inr (.inl rfl), by omega⟩
      · exact ⟨k, .inr (.inr hk), by omega⟩
    · by_cases hmax : j.high ≤ i.high
      · exact ⟨i, .inr (.inl rfl), by omega⟩
      · exact ⟨j, .inl hj, by omega⟩
    · by_cases hmax : j.high ≤ i.high ∧ k.high ≤ i.high
      · exact ⟨i, .inr (.inl rfl), by omega⟩
      · by_cases hjk : k.high ≤ j.high
        · exact ⟨j, .inl hj, by omega⟩
        · exact ⟨k, .inr (.inr hk), by omega⟩

theorem toList_rotateRight (n : IntervalNode) : (rotateRight n).toList = n.toList := by
  unfold rotateRight; split <;> simp [toList]

theorem toList_rotateLeft (n : IntervalNode) : (rotateLeft n).toList = n.toList := by
  unfold rotateLeft; split <;> simp [toList]

theorem maxHighExact_rotateRight {i : Interval} {m h : Int} {l r : IntervalNode}
    (hl : MaxHighExact l) (hr : MaxHighExact r) (hnil : l = nil → MaxHighExact (node i m l r h)) :
    MaxHighExact (rotateRight (node i m l r h)) := by
  cases l with
  | nil => exact hnil rfl
  | node => exact maxHighExact_fix hl.1 (maxHighExact_fix hl.2.1 hr)

theorem maxHighExact_rotateLeft {i : Interval} {m h : Int} {l r : IntervalNode}
    (hl : MaxHighExact l) (hr : MaxHighExact r) (hnil : r = nil → MaxHighExact (node i m l r h)) :
    MaxHighExact (rotateLeft (node i m l r h)) := by
  cases r with
  | nil => exact hnil rfl
  | node => exact maxHighExact_fix (maxHighExact_fix hl hr.1) hr.2.1

theorem maxHighExact_rotateRight_of {n : IntervalNode} (hn : MaxHighExact n) :
    MaxHighExact (rotateRight n) := by
  cases n with
  | nil => exact hn
  | node => exact maxHighExact_rotateRight hn.1 hn.2.1 fun _ => hn

theorem maxHighExact_rotateLeft_of {n : IntervalNode} (hn : MaxHighExact n) :
    MaxHighExact (rotateLeft n) := by
  cases n with
  | nil => exact hn
  | node => exact maxHighExact_rotateLeft hn.1 hn.2.1 fun _ => hn

theorem rotateLeft_eq_nil {n : IntervalNode} (h : rotateLeft n = nil) : n = nil := by
  unfold rotateLeft at h; split at h <;> simp_all [fix]

theorem rotateRight_eq_nil {n : IntervalNode} (h : rotateRight n = nil) : n = nil := by
  unfold rotateRight at h; split at h <;> simp_all [fix]

/-! ## Orders the tree keeps

Insertion and removal keep a tree sorted by any transitive order the insertion's comparison
agrees with: by `low`, and by `low` then `high`. -/

def LowHighLt (a b : Interval) : Prop := a.low < b.low ∨ (a.low = b.low ∧ a.high < b.high)

theorem low_le_of_lowHighLt {a b : Interval} (h : LowHighLt a b) : a.low ≤ b.low := by
  unfold LowHighLt at h; omega

theorem low_le_of_not_lowHighLt {a b : Interval} (h : ¬ LowHighLt a b) : b.low ≤ a.low := by
  unfold LowHighLt at h; omega

theorem sorted_of {R : Interval → Interval → Prop} (htrans : ∀ a b c, R a b → R b c → R a c)
    {i : Interval} {m h : Int} {l r : IntervalNode} (hl : l.toList.Sorted R)
    (hr : r.toList.Sorted R) (hli : ∀ j ∈ l.toList, R j i) (hir : ∀ j ∈ r.toList, R i j) :
    (node i m l r h).toList.Sorted R := by
  simp only [List.Sorted, toList, List.pairwise_append, List.pairwise_cons, List.mem_cons]
  refine ⟨hl, ⟨hir, hr⟩, fun j hj k hk => ?_⟩
  rcases hk with rfl | hk
  · exact hli j hj
  · exact htrans _ _ _ (hli j hj) (hir k hk)

/-! ## Removal -/

theorem removeBalance_spec {i : Interval} {m h : Int} {l r : IntervalNode}
    (hl : MaxHighExact l) (hr : MaxHighExact r) :
    MaxHighExact (removeBalance (node i m l r h)) ∧
      (removeBalance (node i m l r h)).toList = l.toList ++ i :: r.toList := by
  have hfix := maxHighExact_fix (i := i) hl hr
  simp only [removeBalance, fix]
  split_ifs
  · exact ⟨maxHighExact_rotateRight hl hr fun _ => hfix, by rw [toList_rotateRight]; rfl⟩
  · refine ⟨maxHighExact_rotateRight (maxHighExact_rotateLeft_of hl) hr fun h₀ => ?_, ?_⟩
    · obtain rfl := rotateLeft_eq_nil h₀; exact hfix
    · rw [toList_rotateRight]; simp [toList, toList_rotateLeft]
  · exact ⟨maxHighExact_rotateLeft hl hr fun _ => hfix, by rw [toList_rotateLeft]; rfl⟩
  · refine ⟨maxHighExact_rotateLeft hl (maxHighExact_rotateRight_of hr) fun h₀ => ?_, ?_⟩
    · obtain rfl := rotateRight_eq_nil h₀; exact hfix
    · rw [toList_rotateLeft]; simp [toList, toList_rotateRight]
  · exact ⟨hfix, rfl⟩

theorem findMin_head (i : Interval) (l : IntervalNode) (tail : List Interval) :
    ∃ rest, l.toList ++ i :: tail = findMin i l :: rest := by
  induction l generalizing i tail with
  | nil => exact ⟨tail, rfl⟩
  | node j _ l' r' _ ih =>
    obtain ⟨rest, hrest⟩ := ih j (r'.toList ++ i :: tail)
    exact ⟨rest, by simpa [toList, findMin] using hrest⟩

theorem findMin_spec {R : Interval → Interval → Prop} (hrefl : ∀ a, R a a) {i : Interval}
    {m h : Int} {l r : IntervalNode} (hs : (node i m l r h).toList.Sorted R) :
    findMin i l ∈ (node i m l r h).toList ∧ ∀ j ∈ (node i m l r h).toList, R (findMin i l) j := by
  obtain ⟨rest, he⟩ := findMin_head i l r.toList
  have he : (node i m l r h).toList = findMin i l :: rest := he
  rw [he, List.sorted_cons] at hs
  rw [he]
  exact ⟨List.mem_cons_self _ _, fun j hj =>
    (List.mem_cons.mp hj).elim (fun h => h ▸ hrefl _) (hs.1 j)⟩

theorem removeRecursive_spec {R : Interval → Interval → Prop} (hrefl : ∀ a, R a a)
    (htrans : ∀ a b c, R a b → R b c → R a c) {n : IntervalNode} (hs : n.toList.Sorted R)
    (hm : MaxHighExact n) (t : Interval) :
    (removeRecursive n t).toList.Sorted R ∧ MaxHighExact (removeRecursive n t) ∧
      ∀ j ∈ (removeRecursive n t).toList, j ∈ n.toList := by
  induction n generalizing t with
  | nil => exact ⟨hs, hm, fun _ h => h⟩
  | node iv m l r h ihl ihr =>
    obtain ⟨hsl, hsr, hli, hir⟩ := sorted_node hs
    obtain ⟨hml, hmr, -⟩ := hm
    have hmem : ∀ j, j ∈ (node iv m l r h).toList ↔ j ∈ l.toList ∨ j = iv ∨ j ∈ r.toList := by
      simp [toList]
    unfold removeRecursive
    split_ifs with hless hgreater hid
    · -- Down the left.
      obtain ⟨hsl', hml', hsub⟩ := ihl hsl hml t
      obtain ⟨hmb, hlist⟩ := removeBalance_spec (i := iv) (m := m) (h := h) hml' hmr
      refine ⟨?_, hmb, fun j hj => ?_⟩
      · rw [hlist]
        exact sorted_of (m := m) (h := h) htrans hsl' hsr (fun j hj => hli j (hsub j hj)) hir
      · rw [hlist, List.mem_append, List.mem_cons] at hj
        exact (hmem j).mpr (hj.imp (hsub j) id)
    · -- Down the right.
      obtain ⟨hsr', hmr', hsub⟩ := ihr hsr hmr t
      obtain ⟨hmb, hlist⟩ := removeBalance_spec (i := iv) (m := m) (h := h) hml hmr'
      refine ⟨?_, hmb, fun j hj => ?_⟩
      · rw [hlist]
        exact sorted_of (m := m) (h := h) htrans hsl hsr' hli fun j hj => hir j (hsub j hj)
      · rw [hlist, List.mem_append, List.mem_cons] at hj
        exact (hmem j).mpr (hj.imp id (Or.imp id (hsub j)))
    · -- The node itself goes.
      split
      · exact ⟨hsr, hmr, fun j hj => (hmem j).mpr (.inr (.inr hj))⟩
      · exact ⟨hsl, hml, fun j hj => (hmem j).mpr (.inl hj)⟩
      · rename_i ri rm rl rr rh _
        obtain ⟨hsmem, hsmin⟩ := findMin_spec hrefl hsr
        obtain ⟨hsr', hmr', hsub⟩ := ihr hsr hmr (findMin ri rl)
        obtain ⟨hmb, hlist⟩ := removeBalance_spec (i := findMin ri rl) (m := m) (h := h) hml hmr'
        refine ⟨?_, hmb, fun j hj => ?_⟩
        · rw [hlist]
          exact sorted_of (m := m) (h := h) htrans hsl hsr'
            (fun j hj => htrans _ _ _ (hli j hj) (hir _ hsmem)) fun j hj => hsmin j (hsub j hj)
        · rw [hlist, List.mem_append, List.mem_cons] at hj
          rcases hj with hj | rfl | hj
          · exact (hmem j).mpr (.inl hj)
          · exact (hmem _).mpr (.inr (.inr hsmem))
          · exact (hmem j).mpr (.inr (.inr (hsub j hj)))
    · -- Same range, another id: nothing is removed.
      obtain ⟨hmb, hlist⟩ := removeBalance_spec (i := iv) (m := m) (h := h) hml hmr
      exact ⟨by rw [hlist]; exact hs, hmb, fun j hj => by rwa [hlist] at hj⟩

/-! ## Insertion -/

theorem insertRecursive_node {iv i : Interval} {m h : Int} {l r n' : IntervalNode}
    (hins : insertRecursive (node iv m l r h) i = some n') :
    (-1 ≤ n'.getBalanceFactor ∧ n'.getBalanceFactor ≤ 1) ∧
      ((∃ l', insertRecursive l i = some l' ∧ n' = fix iv l' r ∧ LowHighLt i iv) ∨
        (∃ r', insertRecursive r i = some r' ∧ n' = fix iv l r' ∧ ¬ LowHighLt i iv)) := by
  unfold insertRecursive at hins
  dsimp only at hins
  split_ifs at hins with h₁ h₂ h₃ <;> obtain ⟨n, hn, hb⟩ := Option.bind_eq_some.mp hins <;>
    split_ifs at hb with hbal <;> cases hb <;> obtain ⟨x, hx, rfl⟩ := Option.map_eq_some'.mp hn <;>
    refine ⟨by omega, ?_⟩ <;> unfold LowHighLt
  · exact .inl ⟨x, hx, rfl, by omega⟩
  · exact .inr ⟨x, hx, rfl, by omega⟩
  · exact .inl ⟨x, hx, rfl, by omega⟩
  · exact .inr ⟨x, hx, rfl, by omega⟩

theorem insertRecursive_spec {R : Interval → Interval → Prop}
    (htrans : ∀ a b c, R a b → R b c → R a c) (hlt : ∀ a b, LowHighLt a b → R a b)
    (hge : ∀ a b, ¬ LowHighLt a b → R b a) {n n' : IntervalNode} {i : Interval}
    (hins : insertRecursive n i = some n') (hs : n.toList.Sorted R) (hm : MaxHighExact n) :
    n'.toList.Sorted R ∧ MaxHighExact n' ∧ n'.toList.Perm (i :: n.toList) := by
  induction n generalizing n' with
  | nil =>
    cases hins
    exact ⟨List.sorted_singleton i, ⟨trivial, trivial, by simp [toList], i, by simp [toList]⟩,
      .refl _⟩
  | node iv m l r h ihl ihr =>
    obtain ⟨hsl, hsr, hli, hir⟩ := sorted_node hs
    obtain ⟨hml, hmr, -⟩ := hm
    rcases (insertRecursive_node hins).2 with ⟨l', hl', rfl, hlow⟩ | ⟨r', hr', rfl, hlow⟩
    · -- Down the left.
      obtain ⟨hsl', hml', hp⟩ := ihl hl' hsl hml
      refine ⟨sorted_of htrans hsl' hsr (fun j hj => ?_) hir, maxHighExact_fix hml' hmr,
        hp.append_right _⟩
      rcases List.mem_cons.mp (hp.subset hj) with rfl | hj
      · exact hlt _ _ hlow
      · exact hli j hj
    · -- Down the right: the new interval moves past the node's own.
      obtain ⟨hsr', hmr', hp⟩ := ihr hr' hsr hmr
      refine ⟨sorted_of htrans hsl hsr' hli (fun j hj => ?_), maxHighExact_fix hml hmr',
        ((hp.cons iv).append_left _).trans (((List.Perm.swap i iv _).append_left _).trans
          List.perm_middle)⟩
      rcases List.mem_cons.mp (hp.subset hj) with rfl | hj
      · exact hge _ _ hlow
      · exact hir j hj

end IntervalNode

namespace IntervalTree

open IntervalNode

/-! ## Runs -/

structure Inv (t : IntervalTree) : Prop where
  sorted : t.root.SortedByLow
  maxHigh : t.root.MaxHighExact
  valid : ∀ j ∈ t.root.toList, j.low ≤ j.high

theorem inv_empty : Inv {} := ⟨List.sorted_nil, trivial, fun _ h => nomatch h⟩

theorem Inv.insert {t t' : IntervalTree} {low high dataId : Int} (h : Inv t)
    (hins : t.insert low high dataId = some t') :
    Inv t' ∧ t'.root.toList.Perm (abstractApply t.root.toList (.insert low high dataId)) := by
  unfold IntervalTree.insert at hins
  split_ifs at hins with hlh
  · cases hins
    exact ⟨h, by simp only [abstractApply, if_neg (not_le.mpr hlh)]; exact .refl _⟩
  · obtain ⟨n', hn', rfl⟩ := Option.map_eq_some'.mp hins
    obtain ⟨hs', hm', hp⟩ := insertRecursive_spec (R := fun a b => a.low ≤ b.low)
      (fun _ _ _ => le_trans) (fun _ _ => low_le_of_lowHighLt) (fun _ _ => low_le_of_not_lowHighLt)
      hn' h.sorted h.maxHigh
    refine ⟨⟨hs', hm', fun j hj => ?_⟩, by simpa [abstractApply, not_lt.mp hlh] using hp⟩
    rcases List.mem_cons.mp (hp.subset hj) with rfl | hj
    · exact not_lt.mp hlh
    · exact h.valid j hj

theorem Inv.remove {t : IntervalTree} (h : Inv t) (low high dataId : Int) :
    Inv (t.remove low high dataId).2 ∧
      ∀ j ∈ (t.remove low high dataId).2.root.toList, j ∈ t.root.toList := by
  obtain ⟨hs, hm, hsub⟩ := removeRecursive_spec (R := fun a b => a.low ≤ b.low) (fun _ => le_rfl)
    (fun _ _ _ => le_trans) h.sorted h.maxHigh ⟨low, high, dataId⟩
  exact ⟨⟨hs, hm, fun j hj => h.valid j (hsub j hj)⟩, hsub⟩

theorem Inv.foldlM {ops : List Op} {t₀ t : IntervalTree} (h₀ : Inv t₀)
    (h : ops.foldlM apply t₀ = some t) :
    Inv t ∧ ∀ j ∈ t.root.toList, j ∈ t₀.root.toList ∨ Op.insert j.low j.high j.dataId ∈ ops := by
  induction ops generalizing t₀ with
  | nil => cases h; exact ⟨h₀, fun j hj => .inl hj⟩
  | cons op ops ih =>
    obtain ⟨t₁, h₁, h⟩ := Option.bind_eq_some.mp h
    have step : Inv t₁ ∧ ∀ j ∈ t₁.root.toList, j ∈ t₀.root.toList ∨ op = .insert j.low j.high j.dataId := by
      cases op with
      | insert low high dataId =>
        obtain ⟨hi, hp⟩ := h₀.insert h₁
        refine ⟨hi, fun j hj => ?_⟩
        have := hp.subset hj
        simp only [abstractApply] at this
        split_ifs at this
        · rcases List.mem_cons.mp this with rfl | hj
          · exact .inr rfl
          · exact .inl hj
        · exact .inl this
      | remove low high dataId =>
        cases h₁
        exact (h₀.remove low high dataId).imp_right fun hsub j hj => .inl (hsub j hj)
    obtain ⟨hi, hsub⟩ := ih step.1 h
    refine ⟨hi, fun j hj => ?_⟩
    rcases hsub j hj with hj | hj
    · exact (step.2 j hj).imp_right fun he => List.mem_cons.mpr (.inl he.symm)
    · exact .inr (List.mem_cons_of_mem _ hj)

theorem inv_run {ops : List Op} {t : IntervalTree} (h : run ops = some t) :
    Inv t ∧ ∀ j ∈ t.root.toList, Op.insert j.low j.high j.dataId ∈ ops :=
  (inv_empty.foldlM h).imp_right fun hsub j hj => (hsub j hj).resolve_left nofun

theorem run_inserts_perm {ops : List Op} {t : IntervalTree}
    (hops : ∀ op ∈ ops, ∃ low high dataId, op = .insert low high dataId)
    (h : run ops = some t) : t.root.toList.Perm (abstractRun ops) := by
  suffices ∀ (t₀ : IntervalTree) (s₀ : List Interval), Inv t₀ → t₀.root.toList.Perm s₀ →
      ops.foldlM apply t₀ = some t → t.root.toList.Perm (ops.foldl abstractApply s₀) from
    this {} [] inv_empty (.refl _) h
  clear h
  induction ops with
  | nil => intro t₀ s₀ _ hp h; cases h; exact hp
  | cons op ops ih =>
    intro t₀ s₀ h₀ hp h
    obtain ⟨low, high, dataId, rfl⟩ := hops op (List.mem_cons_self _ _)
    obtain ⟨t₁, h₁, h⟩ := Option.bind_eq_some.mp h
    obtain ⟨hi, hp₁⟩ := h₀.insert h₁
    refine ih (fun op hop => hops op (List.mem_cons_of_mem _ hop)) t₁ _ hi (hp₁.trans ?_) h
    simp only [abstractApply]
    split_ifs
    · exact hp.cons _
    · exact hp

/-! ## Queries after a run -/

theorem findOverlappingIntervals_run {ops : List Op} {t : IntervalTree} (h : run ops = some t)
    (point : Int) :
    (t.findOverlappingIntervals point).Perm (t.root.toList.filter (containsPoint point)) :=
  have hi := (inv_run h).1
  findOverlappingPoint_perm hi.sorted hi.maxHigh point

theorem findOverlappingIntervalsRange_run {ops : List Op} {t : IntervalTree}
    (h : run ops = some t) {low high : Int} (hlh : low ≤ high) :
    (t.findOverlappingIntervalsRange low high).Perm
      (t.root.toList.filter (meetsRange ⟨low, high, 0⟩)) := by
  have hi := (inv_run h).1
  rw [findOverlappingIntervalsRange, if_neg (not_lt.mpr hlh)]
  exact findOverlappingRange_perm hi.sorted hi.maxHigh _

/-- After any run that does not crash, the tree holds only intervals the run inserted, a point
query returns each stored interval that contains the point once, and a range query each one that
meets the range once. -/
theorem queries_exact_of_run {ops : List Op} {t : IntervalTree} (h : run ops = some t) :
    (∀ j ∈ t.root.toList, Op.insert j.low j.high j.dataId ∈ ops) ∧
      (∀ point, (t.findOverlappingIntervals point).Perm
        (t.root.toList.filter (containsPoint point))) ∧
      ∀ low high, low ≤ high → (t.findOverlappingIntervalsRange low high).Perm
        (t.root.toList.filter (meetsRange ⟨low, high, 0⟩)) :=
  ⟨(inv_run h).2, findOverlappingIntervals_run h, fun _ _ => findOverlappingIntervalsRange_run h⟩

theorem queries_exact_of_run_after_remove :
    ∃ t, run [.insert 10 20 1, .insert 5 8 2, .remove 5 8 2] = some t ∧
      (∀ j ∈ t.root.toList, Op.insert j.low j.high j.dataId ∈
        [Op.insert 10 20 1, .insert 5 8 2, .remove 5 8 2]) ∧
      (∀ point, (t.findOverlappingIntervals point).Perm
        (t.root.toList.filter (containsPoint point))) ∧
      ∀ low high, low ≤ high → (t.findOverlappingIntervalsRange low high).Perm
        (t.root.toList.filter (meetsRange ⟨low, high, 0⟩)) :=
  ⟨_, rfl, queries_exact_of_run rfl⟩

/-- On a run of insertions only, a point query returns, once each, the intervals of the multiset
`abstractRun` that contain the point. -/
theorem findOverlappingIntervals_refines {ops : List Op} {t : IntervalTree}
    (hops : ∀ op ∈ ops, ∃ low high dataId, op = .insert low high dataId)
    (h : run ops = some t) (point : Int) :
    (t.findOverlappingIntervals point).Perm ((abstractRun ops).filter (containsPoint point)) :=
  (findOverlappingIntervals_run h point).trans ((run_inserts_perm hops h).filter _)

theorem findOverlappingIntervals_refines_two_inserts :
    (∀ op ∈ [Op.insert 10 20 1, .insert 5 18 2], ∃ low high dataId, op = .insert low high dataId) ∧
      ∃ t, run [.insert 10 20 1, .insert 5 18 2] = some t ∧
        (t.findOverlappingIntervals 15).Perm
          ((abstractRun [.insert 10 20 1, .insert 5 18 2]).filter (containsPoint 15)) :=
  have hops : ∀ op ∈ [Op.insert 10 20 1, .insert 5 18 2], ∃ low high dataId,
      op = .insert low high dataId := by simp
  ⟨hops, _, rfl, findOverlappingIntervals_refines hops rfl 15⟩

end IntervalTree

end Classifier
