import Classifier.ConcurrentHash

/-! # What the hash table stands for

A table stands for the map that sends a key to the value of a slot in use that holds it. With
distinct keys in use, `lookup` reads that map. On every well-formed table, removals or not,
`lookup` right after `insert` reads the value written. Without removals, `insert` updates the map
when there is room and `resize` keeps it. What lets `insert` find a key already stored is that
every key in use sits after an unbroken run of used slots from its home slot; `remove` leaves a
free slot in such a run, and the map is not kept across it. -/

namespace Classifier

namespace ConcurrentHashTable

/-! ## The map a table stands for -/

def Holds (t : ConcurrentHashTable) (key : String) (value : Int) : Prop :=
  ∃ i < t.capacity, (t.slotAt i).inUse ∧ (t.slotAt i).key = key ∧ (t.slotAt i).value = value

def Represents (t : ConcurrentHashTable) (m : String → Option Int) : Prop :=
  ∀ key value, m key = some value ↔ t.Holds key value

def UniqueKeys (t : ConcurrentHashTable) : Prop :=
  ∀ i j, i < t.capacity → j < t.capacity → (t.slotAt i).inUse → (t.slotAt j).inUse →
    (t.slotAt i).key = (t.slotAt j).key → i = j

theorem slotAt_writeSlot {t : ConcurrentHashTable} {i : Nat} (hi : i < t.table.length)
    {key : String} (value : Int) (hs : stopsAt key (t.slotAt i)) (j : Nat) :
    (t.writeSlot i key value).slotAt j = if j = i then { key, value, inUse := true }
      else t.slotAt j := by
  have hset (u : ConcurrentHashTable) (e : TableEntry) (hu : u.table = t.table.set i e) :
      u.slotAt j = if j = i then e else t.slotAt j := by
    rw [slotAt, hu, List.getD_eq_getElem?_getD, List.getElem?_set]
    by_cases hj : j = i
    · subst hj; simp [hi]
    · simp [hj, Ne.symm hj, slotAt, List.getD_eq_getElem?_getD]
  unfold writeSlot
  by_cases hu : (t.slotAt i).inUse
  · -- The slot holds `key` already: only its value changes.
    have hk : (t.slotAt i).key = key := by simpa [stopsAt, hu] using hs
    rw [if_neg (by simp [hu]), hset _ _ rfl]
    simp only [hk, hu]
  · rw [if_pos (by simpa using hu)]
    exact hset _ _ rfl

section Calls

variable (hashFunction : String → Nat) {t : ConcurrentHashTable}

theorem Wf.lookup_of_represents (h : Wf t) (hu : UniqueKeys t) {m : String → Option Int}
    (hm : Represents t m) (key : String) : t.lookup hashFunction key = some (m key) := by
  have hi := Nat.mod_lt (hashFunction key) h.capacity_pos
  rw [h.lookup_eq]
  congr 1
  cases hmk : m key with
  | none =>
    refine List.findSome?_eq_none_iff.mpr fun d _ => ?_
    simp only [valueFor]
    split_ifs with hk
    · have := (hm key _).mpr ⟨_, Nat.mod_lt _ h.capacity_pos, hk.1, hk.2, rfl⟩
      simp [hmk] at this
    · rfl
  | some v =>
    obtain ⟨i, hi', hin, hk, hv⟩ := (hm key v).mp hmk
    obtain ⟨d, hd, rfl⟩ := probe_surjective hi hi'
    cases hf : (List.range t.capacity).findSome? fun d =>
        valueFor key (t.entryAt (hashFunction key % t.capacity) d) with
    | none =>
      have := List.findSome?_eq_none_iff.mp hf d (List.mem_range.mpr hd)
      rw [valueFor, entryAt, if_pos ⟨hin, hk⟩] at this
      cases this
    | some w =>
      obtain ⟨d', -, hw⟩ := List.exists_of_findSome?_eq_some hf
      simp only [valueFor, entryAt] at hw
      split_ifs at hw with hk'
      cases hw
      rw [hu _ _ (Nat.mod_lt _ h.capacity_pos) (Nat.mod_lt _ h.capacity_pos) hk'.1 hin
        (hk'.2.trans hk.symm), hv]

/-! ## Insertion over holes

`insert` stops at the first slot that is free or holds the key, and `lookup` reads the first slot
in use that holds it, free slots or not. So `insert` followed by `lookup` agree on every
well-formed table, holes that `remove` left included. -/

theorem valueFor_writeSlot {i : Nat} (hi : i < t.table.length) {key key' : String} (value : Int)
    (hs : stopsAt key (t.slotAt i)) (hk : key' ≠ key) (j : Nat) :
    valueFor key' ((t.writeSlot i key value).slotAt j) = valueFor key' (t.slotAt j) := by
  rw [slotAt_writeSlot hi value hs]
  split_ifs with hj
  · subst hj
    have hne : ¬ ((t.slotAt j).inUse ∧ (t.slotAt j).key = key') := fun ⟨hu, hk'⟩ => by
      simp only [stopsAt, hu, Bool.not_true, Bool.false_or, beq_iff_eq] at hs
      exact hk (hk'.symm.trans hs)
    simp [valueFor, Ne.symm hk, hne]
  · rfl

/-- On every well-formed table, `lookup` right after `insert(key, value)` reads `value` for `key`
and what it read before for every other key; unless every slot holds another key, and then
`insert` drops the key and leaves the table as it was. -/
theorem Wf.lookup_after_insert (h : Wf t) (key : String) (value : Int) :
    ∃ t', t.insert hashFunction key value = some t' ∧
      if t.table.all (fun e => e.inUse && e.key != key) then t' = t
      else ∀ key', t'.lookup hashFunction key' =
        if key' = key then some (some value) else t.lookup hashFunction key' := by
  have hinit := Nat.mod_lt (hashFunction key) h.capacity_pos
  refine ⟨_, h.insert_eq hashFunction key value, ?_⟩
  cases hf : t.firstStop key (hashFunction key % t.capacity) t.capacity 0 with
  | none =>
    -- No slot stops `insert`: each one holds another key.
    have hall : t.table.all (fun e => e.inUse && e.key != key) = true := by
      refine List.all_eq_true.mpr fun e he => ?_
      obtain ⟨i, hi, rfl⟩ := List.getElem_of_mem he
      obtain ⟨d, hd, hdi⟩ := probe_surjective hinit (h.length_table ▸ hi)
      have := List.find?_eq_none.mp hf d (List.mem_range'_1.mpr ⟨Nat.zero_le _, by omega⟩)
      rw [entryAt, hdi, slotAt_eq hi] at this
      simpa [stopsAt] using this
    rw [if_pos hall]
    rfl
  | some d =>
    obtain ⟨hs, hd, hb⟩ := List.find?_range'_eq_some.mp hf
    have hd' : d < t.capacity := by simpa using (List.mem_range'_1.mp hd).2
    have hi : (hashFunction key % t.capacity + d) % t.capacity < t.table.length := by
      rw [h.length_table]; exact Nat.mod_lt _ h.capacity_pos
    -- The slot where `insert` stops is free or holds the key.
    have hnot : ¬ t.table.all (fun e => e.inUse && e.key != key) = true := fun hall => by
      have := List.all_eq_true.mp hall _ (List.getElem_mem hi)
      rw [← slotAt_eq hi] at this
      simp only [stopsAt, entryAt] at hs
      simp_all
    rw [if_neg hnot, Option.map_some', Option.getD_some]
    intro key'
    rw [(h.writeSlot (Nat.mod_lt _ h.capacity_pos) key value).lookup_eq, h.lookup_eq]
    simp only [entryAt, capacity_writeSlot]
    split_ifs with hk
    · -- Before the stop every slot holds another key; at the stop, the value written.
      rw [hk]
      congr 1
      refine List.findSome?_eq_some_iff.mpr ⟨List.range d, d,
        ((List.range (t.capacity - d - 1)).map Nat.succ).map (d + ·), ?_, ?_, fun x hx => ?_⟩
      · conv_lhs => rw [show t.capacity = d + (t.capacity - d - 1 + 1) by omega, List.range_add,
          List.range_succ_eq_map]
        simp
      · rw [slotAt_writeSlot hi value hs, if_pos rfl]
        simp [valueFor]
      · have hxd := List.mem_range.mp hx
        have hne : (hashFunction key % t.capacity + x) % t.capacity ≠
            (hashFunction key % t.capacity + d) % t.capacity :=
          fun he => absurd (probe_injective hinit (by omega) hd' he) (by omega)
        rw [slotAt_writeSlot hi value hs, if_neg hne]
        have := hb x (Nat.zero_le _) hxd
        simp only [stopsAt, entryAt] at this
        simp_all [valueFor]
    · congr 2
      funext d'
      exact valueFor_writeSlot hi value hs hk _

theorem lookup_after_insert_over_hole :
    ∃ t, run (fun _ => 0) 2 [.insert "a" 1, .insert "b" 2, .remove "a"] = some t ∧ Wf t ∧
      ∃ t', t.insert (fun _ => 0) "b" 3 = some t' ∧
        if t.table.all (fun e => e.inUse && e.key != "b") then t' = t
        else ∀ key', t'.lookup (fun _ => 0) key' =
          if key' = "b" then some (some 3) else t.lookup (fun _ => 0) key' :=
  have hw : Wf ⟨[{ key := "a", value := 1, inUse := false }, { key := "b", value := 2, inUse := true }],
      1, 2⟩ := ⟨by decide, rfl, rfl⟩
  ⟨_, rfl, hw, Wf.lookup_after_insert (fun _ => 0) hw "b" 3⟩

/-! ## Insertion without removals -/

def NoHoles (t : ConcurrentHashTable) : Prop :=
  ∀ key d, d < t.capacity → (t.entryAt (hashFunction key % t.capacity) d).inUse →
    (t.entryAt (hashFunction key % t.capacity) d).key = key →
      ∀ d' < d, (t.entryAt (hashFunction key % t.capacity) d').inUse

structure Good (t : ConcurrentHashTable) : Prop where
  wf : Wf t
  unique : UniqueKeys t
  noHoles : NoHoles hashFunction t

theorem Good.firstStop_of_holds (hg : Good hashFunction t) {key : String} {d : Nat}
    (hd : d < t.capacity) (hin : (t.entryAt (hashFunction key % t.capacity) d).inUse)
    (hk : (t.entryAt (hashFunction key % t.capacity) d).key = key) :
    t.firstStop key (hashFunction key % t.capacity) t.capacity 0 = some d := by
  have hi := Nat.mod_lt (hashFunction key) hg.wf.capacity_pos
  refine List.find?_range'_eq_some.mpr ⟨by simp [stopsAt, hk], List.mem_range'_1.mpr ⟨by omega,
    by omega⟩, fun j _ hj => ?_⟩
  have hj' := hg.noHoles key d hd hin hk j hj
  have hne : (t.entryAt (hashFunction key % t.capacity) j).key ≠ key := fun hkj =>
    absurd (probe_injective hi (by omega) hd (hg.unique _ _ (Nat.mod_lt _ hg.wf.capacity_pos)
      (Nat.mod_lt _ hg.wf.capacity_pos) hj' hin (hkj.trans hk.symm))) (by omega)
  simp [stopsAt, hj', hne]

theorem Wf.firstStop_of_room (h : Wf t) (key : String) (hroom : t.currentSize < t.capacity) :
    ∃ d, t.firstStop key (hashFunction key % t.capacity) t.capacity 0 = some d ∧
      d < t.capacity ∧ stopsAt key (t.entryAt (hashFunction key % t.capacity) d) ∧
      ∀ d' < d, (t.entryAt (hashFunction key % t.capacity) d').inUse := by
  have hi := Nat.mod_lt (hashFunction key) h.capacity_pos
  obtain ⟨i, hi', hfree⟩ : ∃ i < t.capacity, (t.slotAt i).inUse = false := by
    have : ¬ ∀ e ∈ t.table, e.inUse := fun hall => by
      have := List.countP_eq_length.mpr hall
      rw [← h.currentSize_eq, h.length_table] at this
      omega
    push_neg at this
    obtain ⟨e, he, hfree⟩ := this
    obtain ⟨i, hi', rfl⟩ := List.mem_iff_getElem.mp he
    exact ⟨i, h.length_table ▸ hi', by simpa [slotAt_eq hi'] using hfree⟩
  obtain ⟨df, hdf, rfl⟩ := probe_surjective hi hi'
  cases hs : t.firstStop key (hashFunction key % t.capacity) t.capacity 0 with
  | none =>
    have := List.find?_range'_eq_none.mp hs df (Nat.zero_le _) (by omega)
    simp only [stopsAt, entryAt, hfree, Bool.not_false, Bool.true_or, Bool.not_true,
      Bool.false_eq_true] at this
  | some d =>
    obtain ⟨hp, hmem, hbefore⟩ := List.find?_range'_eq_some.mp hs
    refine ⟨d, rfl, by simpa using (List.mem_range'_1.mp hmem).2, hp, fun d' hd' => ?_⟩
    have := hbefore d' (Nat.zero_le _) hd'
    simp only [stopsAt, Bool.not_or, Bool.not_not, Bool.and_eq_true] at this
    exact this.1

theorem Good.writeSlot (hg : Good hashFunction t) {key : String} (value : Int) {d : Nat}
    (hd : d < t.capacity) (hs : stopsAt key (t.entryAt (hashFunction key % t.capacity) d))
    (hrun : ∀ d' < d, (t.entryAt (hashFunction key % t.capacity) d').inUse)
    (hother : ∀ j < t.capacity, j ≠ (hashFunction key % t.capacity + d) % t.capacity →
      (t.slotAt j).inUse → (t.slotAt j).key ≠ key) :
    Good hashFunction (t.writeSlot ((hashFunction key % t.capacity + d) % t.capacity) key value) ∧
      ∀ k v, (t.writeSlot ((hashFunction key % t.capacity + d) % t.capacity) key value).Holds k v ↔
        if k = key then v = value else t.Holds k v := by
  have hi := Nat.mod_lt (hashFunction key % t.capacity + d) hg.wf.capacity_pos
  generalize hid : (hashFunction key % t.capacity + d) % t.capacity = i at hi hother ⊢
  have hslot := slotAt_writeSlot (hg.wf.length_table ▸ hi) value (by rwa [entryAt, hid] at hs)
  have hcap := capacity_writeSlot t i key value
  have hmono : ∀ j, (t.slotAt j).inUse → ((t.writeSlot i key value).slotAt j).inUse := by
    intro j hj; rw [hslot]; split_ifs <;> simp [hj]
  refine ⟨⟨hg.wf.writeSlot hi key value, ?_, ?_⟩, ?_⟩
  · -- Keys stay distinct: the only new key in use is `key`, at `i`.
    intro j j' hj hj' hu hu' hk
    rw [hcap] at hj hj'
    rw [hslot, hslot] at hk
    rw [hslot] at hu hu'
    split_ifs at hu hu' hk with hji hj'i
    · exact hji.trans hj'i.symm
    · exact absurd hk.symm (hother j' hj' hj'i hu')
    · exact absurd hk (hother j hj hji hu)
    · exact hg.unique j j' hj hj' hu hu' hk
  · -- A run of used slots only grows; the new key's run is `hrun`.
    intro key' e he hin hk d' hd'
    simp only [entryAt, hcap] at he hin hk ⊢
    rw [hslot] at hin hk
    split_ifs at hin hk with hie
    · subst hk
      have hed : e = d :=
        probe_injective (Nat.mod_lt _ hg.wf.capacity_pos) he hd (hie.trans hid.symm)
      exact hmono _ (hrun d' (hed ▸ hd'))
    · exact hmono _ (hg.noHoles key' e he hin hk d' hd')
  · -- `key` now has `value`; other keys keep their slots.
    intro k v
    simp only [Holds, hcap, hslot]
    split_ifs with hk
    · subst hk
      constructor
      · rintro ⟨j, hj, hu, hk, hv⟩
        split_ifs at hu hk hv with hji
        · exact hv.symm
        · exact absurd hk (hother j hj hji hu)
      · rintro rfl
        exact ⟨i, hi, by simp⟩
    · constructor
      · rintro ⟨j, hj, hu, hk', hv⟩
        split_ifs at hu hk' hv with hji
        · exact absurd hk'.symm hk
        · exact ⟨j, hj, hu, hk', hv⟩
      · rintro ⟨j, hj, hu, hk', hv⟩
        refine ⟨j, hj, ?_⟩
        split_ifs with hji
        · subst hji
          simp only [stopsAt, entryAt, hid, hu, Bool.not_true, Bool.false_or, beq_iff_eq] at hs
          exact absurd (hk'.symm.trans hs) hk
        · exact ⟨hu, hk', hv⟩

theorem Good.insert (hg : Good hashFunction t) (key : String) (value : Int)
    (hroom : (∃ v, t.Holds key v) ∨ t.currentSize < t.capacity) :
    ∃ t', t.insert hashFunction key value = some t' ∧ Good hashFunction t' ∧
      (∀ k v, t'.Holds k v ↔ if k = key then v = value else t.Holds k v) ∧
      t'.capacity = t.capacity ∧ ((∃ v, t.Holds key v) → t'.currentSize = t.currentSize) ∧
      ((¬∃ v, t.Holds key v) → t'.currentSize = t.currentSize + 1) := by
  have hi := Nat.mod_lt (hashFunction key) hg.wf.capacity_pos
  rw [hg.wf.insert_eq]
  by_cases hkey : ∃ v, t.Holds key v
  · -- The key is stored: `insert` stops at its slot.
    obtain ⟨v₀, i, hi', hin, hk, -⟩ := hkey
    obtain ⟨d, hd, rfl⟩ := probe_surjective hi hi'
    rw [hg.firstStop_of_holds hashFunction hd hin hk]
    obtain ⟨hgood, hholds⟩ := hg.writeSlot hashFunction value hd
      (by simp only [stopsAt, entryAt, hk, beq_self_eq_true, Bool.or_true])
      (fun d' hd' => hg.noHoles key d hd hin hk d' hd')
      (fun j hj hji hu hkj => hji (hg.unique j _ hj hi' hu hin (hkj.trans hk.symm)))
    refine ⟨_, rfl, hgood, hholds, capacity_writeSlot .., fun _ => ?_,
      fun hn => absurd ⟨_, _, hi', hin, hk, rfl⟩ hn⟩
    simp only [Option.map_some', Option.getD_some, currentSize_writeSlot]
    exact if_pos hin
  · -- A new key: `insert` claims the first free slot.
    obtain ⟨d, hs, hd, hstop, hrun⟩ :=
      hg.wf.firstStop_of_room hashFunction key (hroom.resolve_left hkey)
    rw [hs]
    have hother : ∀ j < t.capacity, (t.slotAt j).inUse → (t.slotAt j).key ≠ key :=
      fun j hj hu hkj => hkey ⟨_, j, hj, hu, hkj, rfl⟩
    have hfree : (t.entryAt (hashFunction key % t.capacity) d).inUse = false := by
      by_contra hu
      simp only [Bool.not_eq_false] at hu
      simp only [stopsAt, hu, Bool.not_true, Bool.false_or, beq_iff_eq] at hstop
      exact hother _ (Nat.mod_lt _ hg.wf.capacity_pos) hu hstop
    obtain ⟨hgood, hholds⟩ := hg.writeSlot hashFunction value hd hstop hrun
      (fun j hj _ => hother j hj)
    refine ⟨_, rfl, hgood, hholds, capacity_writeSlot .., fun h => absurd h hkey, fun _ => ?_⟩
    rw [Option.map_some', Option.getD_some, currentSize_writeSlot]
    exact if_neg (by simp [entryAt] at hfree; simp [hfree])

/-! ## Resizing -/

theorem good_fresh {n : Nat} (hn : 0 < n) :
    Good hashFunction ⟨List.replicate n {}, 0, n⟩ ∧ ∀ k v, ¬ Holds ⟨List.replicate n {}, 0, n⟩ k v := by
  have hfree : ∀ i, (slotAt ⟨List.replicate n {}, 0, n⟩ i).inUse = false := fun i => by
    simp only [slotAt, List.getD_eq_getElem?_getD, List.getElem?_replicate]
    split <;> rfl
  refine ⟨⟨⟨hn, by simp, by simp [List.countP_replicate]⟩, fun i _ _ _ hu => ?_, fun _ d _ hu => ?_⟩,
    fun _ _ ⟨i, _, hu, _⟩ => ?_⟩ <;> simp [entryAt, hfree] at hu

theorem Good.resizeLoop : ∀ (l : List TableEntry) (acc : ConcurrentHashTable),
    Good hashFunction acc → l.Pairwise (fun e e' => e.inUse → e'.inUse → e.key ≠ e'.key) →
    (∀ e ∈ l, e.inUse → ∀ v, ¬ acc.Holds e.key v) →
    acc.currentSize + l.countP (·.inUse) ≤ acc.capacity →
    ∃ t', l.foldlM (fun acc e => if e.inUse then acc.insert hashFunction e.key e.value
        else some acc) acc = some t' ∧ Good hashFunction t' ∧ t'.capacity = acc.capacity ∧
      (∀ k v, t'.Holds k v ↔ acc.Holds k v ∨ ∃ e ∈ l, e.inUse ∧ e.key = k ∧ e.value = v) ∧
      t'.currentSize = acc.currentSize + l.countP (·.inUse)
  | [], acc, hg, _, _, _ => ⟨acc, rfl, hg, rfl, by simp, rfl⟩
  | e :: l, acc, hg, hl, hfresh, hroom => by
    obtain ⟨he, hl⟩ := List.pairwise_cons.mp hl
    by_cases hu : e.inUse
    · -- `e` goes in, as a new key.
      have hnew := hfresh e (List.mem_cons_self _ _) hu
      obtain ⟨t₁, h₁, hg₁, hholds₁, hcap₁, -, hsize₁⟩ := hg.insert hashFunction e.key e.value
        (.inr (by simp [hu] at hroom; omega))
      have hfresh₁ : ∀ e' ∈ l, e'.inUse → ∀ v, ¬ t₁.Holds e'.key v := fun e' he' hu' v hv => by
        rw [hholds₁, if_neg (he e' he' hu hu').symm] at hv
        exact hfresh e' (List.mem_cons_of_mem _ he') hu' v hv
      have hsize := hsize₁ fun ⟨v, hv⟩ => hnew v hv
      obtain ⟨t', h', hg', hcap', hholds', hsize'⟩ := Good.resizeLoop l t₁ hg₁ hl hfresh₁
        (by rw [hsize, hcap₁]; simp [hu] at hroom; omega)
      refine ⟨t', by simp [hu, h₁, h'], hg', hcap'.trans hcap₁, fun k v => ?_,
        by rw [hsize', hsize]; simp [hu]; omega⟩
      rw [hholds', hholds₁]
      by_cases hk : k = e.key
      · subst hk
        simp only [if_true, List.mem_cons, exists_eq_or_imp, hu, true_and]
        constructor
        · rintro (rfl | h)
          exacts [.inr (.inl rfl), .inr (.inr h)]
        · rintro (h | rfl | h)
          · exact absurd h (hnew v)
          · exact .inl rfl
          · exact .inr h
      · simp [hk, Ne.symm hk, hu]
    · obtain ⟨t', h', hg', hcap', hholds', hsize'⟩ := Good.resizeLoop l acc hg hl
        (fun e' he' => hfresh e' (List.mem_cons_of_mem _ he')) (by simpa [hu] using hroom)
      exact ⟨t', by simpa [hu] using h', hg', hcap', fun k v => by simp [hholds', hu],
        by simp [hsize', hu]⟩

theorem Good.resize (hg : Good hashFunction t) {n : Nat} (hn : 0 < n) (hroom : t.currentSize ≤ n) :
    ∃ t', t.resize hashFunction n = some t' ∧ Good hashFunction t' ∧ t'.capacity = n ∧
      (∀ k v, t'.Holds k v ↔ t.Holds k v) ∧ t'.currentSize = t.currentSize := by
  obtain ⟨hgf, hnone⟩ := good_fresh hashFunction hn
  have hdistinct : t.table.Pairwise (fun e e' => e.inUse → e'.inUse → e.key ≠ e'.key) :=
    List.pairwise_iff_getElem.mpr fun i j hi hj hij hu hu' hk => by
      have := hg.unique i j (hg.wf.length_table ▸ hi) (hg.wf.length_table ▸ hj)
        (by rwa [slotAt_eq hi]) (by rwa [slotAt_eq hj]) (by rw [slotAt_eq hi, slotAt_eq hj]; exact hk)
      omega
  obtain ⟨t', h', hg', hcap', hholds', hsize'⟩ := Good.resizeLoop hashFunction t.table _ hgf
    hdistinct (fun e _ _ v hv => hnone _ _ hv) (by simpa [← hg.wf.currentSize_eq] using hroom)
  refine ⟨t', h', hg', hcap', fun k v => ?_, by rw [hsize', hg.wf.currentSize_eq, Nat.zero_add]⟩
  rw [hholds', or_iff_right (hnone k v)]
  constructor
  · rintro ⟨e, he, hu, hk, hv⟩
    obtain ⟨i, hi, rfl⟩ := List.mem_iff_getElem.mp he
    exact ⟨i, hg.wf.length_table ▸ hi, by simp [slotAt_eq hi, hu, hk, hv]⟩
  · rintro ⟨i, hi, hu, hk, hv⟩
    have hi' : i < t.table.length := hg.wf.length_table ▸ hi
    rw [slotAt_eq hi'] at hu hk hv
    exact ⟨_, List.getElem_mem hi', hu, hk, hv⟩

end Calls

end ConcurrentHashTable

end Classifier
