import Classifier.HashContents

/-! # Runs of the hash table against a map

The abstract table: the map, as its entries with one per key, and the capacity. `insert`
overwrites or adds a key, `remove` drops it, `resize` changes only the capacity. A run without
removals whose every step fits the capacity is defined throughout, and each lookup after it reads
the abstract map. -/

namespace Classifier

namespace ConcurrentHashTable

structure AbsTable where
  entries : List (String × Int)
  capacity : Nat
  deriving DecidableEq, Repr

namespace AbsTable

def apply (s : AbsTable) : Op → AbsTable
  | .insert key value => { s with entries := (key, value) :: s.entries.filter (·.1 ≠ key) }
  | .remove key => { s with entries := s.entries.filter (·.1 ≠ key) }
  | .resize newCapacity => { s with capacity := newCapacity }

def fits (s : AbsTable) : Op → Bool
  | .insert key value => (s.apply (.insert key value)).entries.length ≤ s.capacity
  | .remove _ => true
  | .resize newCapacity => 0 < newCapacity && s.entries.length ≤ newCapacity

def allFit (s : AbsTable) : List Op → Bool
  | [] => true
  | op :: ops => s.fits op && (s.apply op).allFit ops

def init (initialSize : Nat) : AbsTable := ⟨[], (new initialSize).capacity⟩

end AbsTable

/-! ## Entry lists -/

theorem lookup_cons_eq (a k : String) (b : Int) (l : List (String × Int)) :
    ((a, b) :: l).lookup k = if k = a then some b else l.lookup k := by
  simp only [List.lookup_cons]
  split <;> simp_all

theorem lookup_filter_ne (l : List (String × Int)) (key k : String) :
    (l.filter (·.1 ≠ key)).lookup k = if k = key then none else l.lookup k := by
  induction l with
  | nil => simp
  | cons p l ih =>
    obtain ⟨a, b⟩ := p
    by_cases ha : a = key
    · subst ha
      rw [List.filter_cons_of_neg (by simp), ih, lookup_cons_eq]
      split_ifs <;> rfl
    · rw [List.filter_cons_of_pos (by simpa using ha), lookup_cons_eq, ih, lookup_cons_eq]
      split_ifs <;> simp_all

theorem length_filter_ne {l : List (String × Int)} (hnd : (l.map (·.1)).Nodup) (key : String) :
    (l.filter (·.1 ≠ key)).length + (if (l.lookup key).isSome then 1 else 0) = l.length := by
  induction l with
  | nil => simp
  | cons p l ih =>
    obtain ⟨a, b⟩ := p
    obtain ⟨ha, hnd⟩ := List.nodup_cons.mp hnd
    by_cases hak : a = key
    · subst hak
      have hall : l.filter (·.1 ≠ a) = l := List.filter_eq_self.mpr fun p hp => by
        simp only [ne_eq, decide_eq_true_eq]
        rintro rfl
        exact ha (List.mem_map.mpr ⟨p, hp, rfl⟩)
      rw [List.filter_cons_of_neg (by simp), hall, lookup_cons_eq, if_pos rfl]
      rfl
    · have := ih hnd
      simp only [List.filter_cons, ne_eq, hak, not_false_eq_true, decide_True, if_true,
        List.length_cons, lookup_cons_eq, Ne.symm hak, if_false] at this ⊢
      omega

theorem nodup_insert {l : List (String × Int)} (hnd : (l.map (·.1)).Nodup) (key : String)
    (value : Int) : (((key, value) :: l.filter (·.1 ≠ key)).map (·.1)).Nodup := by
  refine List.nodup_cons.mpr ⟨fun h => ?_, ((List.filter_sublist l).map _).nodup hnd⟩
  obtain ⟨p, hp, hpk⟩ := List.mem_map.mp h
  exact absurd hpk (by simpa using (List.mem_filter.mp hp).2)

section Calls

variable (hashFunction : String → Nat) {t : ConcurrentHashTable} {s : AbsTable}

/-! ## The refinement -/

structure Implements (t : ConcurrentHashTable) (s : AbsTable) : Prop where
  good : Good hashFunction t
  capacity_eq : t.capacity = s.capacity
  holds_iff : ∀ k v, t.Holds k v ↔ s.entries.lookup k = some v
  currentSize_eq : t.currentSize = s.entries.length
  nodup : (s.entries.map (·.1)).Nodup

theorem implements_new (initialSize : Nat) :
    Implements hashFunction (new initialSize) (AbsTable.init initialSize) := by
  have hcap : 0 < (new initialSize).capacity := (wf_new initialSize).capacity_pos
  obtain ⟨hg, hnone⟩ := good_fresh hashFunction hcap
  exact ⟨hg, rfl, fun k v => ⟨fun h => absurd h (hnone k v), fun h => by simp [AbsTable.init] at h⟩,
    rfl, List.nodup_nil⟩

theorem Implements.apply (hi : Implements hashFunction t s) {op : Op}
    (hop : ∀ key, op ≠ .remove key) (hfit : s.fits op) :
    ∃ t', t.apply hashFunction op = some t' ∧ Implements hashFunction t' (s.apply op) := by
  cases op with
  | insert key value =>
    have hlen := length_filter_ne hi.nodup key
    have hroom : (∃ v, t.Holds key v) ∨ t.currentSize < t.capacity := by
      cases hk : s.entries.lookup key with
      | some v => exact .inl ⟨v, (hi.holds_iff key v).mpr hk⟩
      | none =>
        simp only [AbsTable.fits, AbsTable.apply, List.length_cons, decide_eq_true_eq] at hfit
        simp only [hk, Option.isSome_none, Bool.false_eq_true, if_false, Nat.add_zero] at hlen
        exact .inr (by rw [hi.currentSize_eq, hi.capacity_eq]; omega)
    obtain ⟨t', hins, hg', hholds, hcap, hsame, hnew⟩ := hi.good.insert hashFunction key value hroom
    refine ⟨t', hins, hg', hcap.trans hi.capacity_eq, fun k v => ?_, ?_, nodup_insert hi.nodup _ _⟩
    · rw [hholds, AbsTable.apply, lookup_cons_eq, lookup_filter_ne]
      split_ifs
      · exact ⟨fun h => h ▸ rfl, fun h => (Option.some_injective _ h).symm⟩
      · exact hi.holds_iff k v
    · simp only [AbsTable.apply, List.length_cons]
      cases hk : s.entries.lookup key with
      | some v =>
        rw [hsame ⟨v, (hi.holds_iff key v).mpr hk⟩, hi.currentSize_eq]
        simp only [hk, Option.isSome_some, if_true] at hlen
        omega
      | none =>
        rw [hnew fun ⟨v, hv⟩ => by simp [(hi.holds_iff key v).mp hv] at hk, hi.currentSize_eq]
        simp only [hk, Option.isSome_none, Bool.false_eq_true, if_false, Nat.add_zero] at hlen
        omega
  | remove key => exact absurd rfl (hop key)
  | resize newCapacity =>
    simp only [AbsTable.fits, Bool.and_eq_true, decide_eq_true_eq] at hfit
    obtain ⟨t', hres, hg', hcap, hholds, hsize⟩ :=
      hi.good.resize hashFunction hfit.1 (by rw [hi.currentSize_eq]; exact hfit.2)
    refine ⟨t', hres, hg', hcap, fun k v => (hholds k v).trans (hi.holds_iff k v), ?_, hi.nodup⟩
    rw [hsize, hi.currentSize_eq]
    rfl

/-! ## Runs -/

theorem implements_run (initialSize : Nat) (ops : List Op) (hrem : ∀ key, Op.remove key ∉ ops)
    (hfit : (AbsTable.init initialSize).allFit ops) :
    ∃ t, run hashFunction initialSize ops = some t ∧
      Implements hashFunction t (ops.foldl AbsTable.apply (AbsTable.init initialSize)) := by
  suffices ∀ t₀ s₀, Implements hashFunction t₀ s₀ → s₀.allFit ops →
      ∃ t, ops.foldlM (apply hashFunction) t₀ = some t ∧
        Implements hashFunction t (ops.foldl AbsTable.apply s₀) from
    this _ _ (implements_new hashFunction initialSize) hfit
  clear hfit
  induction ops with
  | nil => exact fun t₀ _ hi _ => ⟨t₀, rfl, hi⟩
  | cons op ops ih =>
    intro t₀ s₀ hi hfit
    simp only [AbsTable.allFit, Bool.and_eq_true] at hfit
    obtain ⟨t₁, h₁, hi₁⟩ := hi.apply hashFunction
      (fun key h => hrem key (by rw [← h]; exact List.mem_cons_self _ _)) hfit.1
    obtain ⟨t, h, hi'⟩ := ih (fun key hk => hrem key (List.mem_cons_of_mem _ hk)) t₁ _ hi₁ hfit.2
    exact ⟨t, by simp [h₁, h], hi'⟩

/-- After a run without removals whose every step fits, every lookup reads the abstract map. -/
theorem lookup_run (initialSize : Nat) (ops : List Op) (hrem : ∀ key, Op.remove key ∉ ops)
    (hfit : (AbsTable.init initialSize).allFit ops) :
    ∃ t, run hashFunction initialSize ops = some t ∧ ∀ key, t.lookup hashFunction key =
      some ((ops.foldl AbsTable.apply (AbsTable.init initialSize)).entries.lookup key) := by
  obtain ⟨t, h, hi⟩ := implements_run hashFunction initialSize ops hrem hfit
  exact ⟨t, h, hi.good.wf.lookup_of_represents hashFunction hi.good.unique
    fun k v => (hi.holds_iff k v).symm⟩

theorem lookup_run_colliding_keys :
    (∀ key, Op.remove key ∉ [Op.insert "a" 1, .insert "b" 2, .insert "a" 3]) ∧
      (AbsTable.init 2).allFit [.insert "a" 1, .insert "b" 2, .insert "a" 3] = true ∧
      ∃ t, run (fun _ => 0) 2 [.insert "a" 1, .insert "b" 2, .insert "a" 3] = some t ∧
        ∀ key, t.lookup (fun _ => 0) key = some (([Op.insert "a" 1, .insert "b" 2, .insert "a" 3].foldl
          AbsTable.apply (AbsTable.init 2)).entries.lookup key) :=
  have hrem : ∀ key, Op.remove key ∉ [Op.insert "a" 1, .insert "b" 2, .insert "a" 3] := by simp
  have hfit : (AbsTable.init 2).allFit [.insert "a" 1, .insert "b" 2, .insert "a" 3] = true := by
    decide
  ⟨hrem, hfit, lookup_run (fun _ => 0) 2 _ hrem hfit⟩

/-! ## Removals

`remove` frees a slot that may stand inside another key's probe chain, and `insert` and `remove`
stop at the first free slot. -/

/-- Every key hashed to slot 0, capacity 2. `remove("a")` frees the head of the chain `"b"` sits
on: `remove("b")` then stops there and returns `false` while the map holds `"b"`; and
`insert("b", 3)` claims the freed slot, so after `remove("b")` the old copy is still found. -/
theorem remove_breaks_probe_chain :
    (AbsTable.init 2).allFit
        [.insert "a" 1, .insert "b" 2, .remove "a", .insert "b" 3, .remove "b"] = true ∧
      ([Op.insert "a" 1, .insert "b" 2, .remove "a"].foldl AbsTable.apply
        (AbsTable.init 2)).entries.lookup "b" = some 2 ∧
      (∃ t, run (fun _ => 0) 2 [.insert "a" 1, .insert "b" 2, .remove "a"] = some t ∧
        (t.remove (fun _ => 0) "b").map (·.1) = some false) ∧
      ([Op.insert "a" 1, .insert "b" 2, .remove "a", .insert "b" 3, .remove "b"].foldl
        AbsTable.apply (AbsTable.init 2)).entries.lookup "b" = none ∧
      ∃ t, run (fun _ => 0) 2
          [.insert "a" 1, .insert "b" 2, .remove "a", .insert "b" 3, .remove "b"] = some t ∧
        t.lookup (fun _ => 0) "b" = some (some 2) :=
  ⟨by decide, by decide, ⟨_, rfl, rfl⟩, by decide, _, rfl, rfl⟩

/-! ## A resize to no slot -/

/-- `resize(0)`, whatever the hash function and the initial size: after an `insert`, re-inserting
the key takes `% 0`; on a table with no key stored it leaves no slot and capacity 0, and the next
`lookup`, `insert` or `remove` takes `% 0`. -/
theorem resize_zero_breaks_capacity (initialSize : Nat) (key : String) (value : Int) :
    run hashFunction initialSize [.insert key value, .resize 0] = none ∧
      ∃ t, run hashFunction initialSize [.resize 0] = some t ∧ t.capacity = 0 ∧ t.table = [] ∧
        t.lookup hashFunction key = none ∧ t.insert hashFunction key value = none ∧
        t.remove hashFunction key = none := by
  have hcap := (wf_new initialSize).capacity_pos
  have hfree : ∀ e ∈ (new initialSize).table, e.inUse = false := fun e he => by
    rw [(List.mem_replicate.mp he).2]
  refine ⟨?_, ⟨[], 0, 0⟩, ?_, rfl, rfl, rfl, rfl, rfl⟩
  swap
  · simp [run, apply, resize_zero_of_free hashFunction _ hfree]
  obtain ⟨t₁, h₁, hg₁, hholds, -⟩ := (good_fresh hashFunction hcap).1.insert hashFunction key value
    (.inr hcap)
  -- The inserted key is in use in some slot.
  obtain ⟨i, hi, hu, -⟩ := (hholds key value).mpr (by simp)
  have hi' : i < t₁.table.length := hg₁.wf.length_table ▸ hi
  have hmem : t₁.slotAt i ∈ t₁.table := slotAt_eq hi' ▸ List.getElem_mem hi'
  have h₁' : (new initialSize).insert hashFunction key value = some t₁ := h₁
  simp [run, apply, h₁', resize_zero_of_inUse hashFunction t₁ ⟨_, hmem, hu⟩]

end Calls

end ConcurrentHashTable

end Classifier
