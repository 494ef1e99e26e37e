import Mathlib.Data.List.Basic

/-! # The concurrent hash table

`ConcurrentHashTable` of `interval_tree.cpp`, one call at a time: open addressing with linear
probing over `capacity` slots. The RCU and Robin Hood methods are placeholders that only print
or forward, and are left out. `std::hash<std::string>` is the parameter `hashFunction`. A
`% capacity` with a zero capacity, or a `table[index]` out of range, is undefined behaviour, and
the model returns `none` there.

`lookup` tries every slot; `insert` and `remove` stop at the first slot that is free or holds
the key. -/

namespace Classifier

/-- A slot; `TableEntry()` is `key("")`, `value(-1)`, `in_use(false)`. -/
structure TableEntry where
  key : String := ""
  value : Int := -1
  inUse : Bool := false
  deriving DecidableEq, Repr

/-- `current_size` is a `std::atomic<size_t>`; the invariant keeps it at the number of slots in
use, so its `fetch_sub` never wraps. -/
structure ConcurrentHashTable where
  table : List TableEntry
  currentSize : Nat
  capacity : Nat
  deriving DecidableEq, Repr

namespace ConcurrentHashTable

/-- `ConcurrentHashTable(initial_size)`; a size of 0 becomes 1024. -/
def new (initialSize : Nat := 1024) : ConcurrentHashTable :=
  let capacity := if initialSize = 0 then 1024 else initialSize
  { table := List.replicate capacity {}, currentSize := 0, capacity }

/-! ## The probe loops

Each loop is at `probe_distance = d` from `initial_index = init`, with `fuel` slots left. -/

/-- The `do … while` of `lookup`: `some (some v)` is `true` with `value = v`. -/
def lookupProbe (t : ConcurrentHashTable) (key : String) (init : Nat) :
    Nat → Nat → Option (Option Int)
  | 0, _ => some none
  | fuel + 1, d =>
    match t.table[(init + d) % t.capacity]? with
    | none => none
    | some e =>
      if e.inUse ∧ e.key = key then some (some e.value)
      else if d + 1 ≥ t.capacity ∨ (init + (d + 1)) % t.capacity = init then some none
      else lookupProbe t key init fuel (d + 1)

/-- The loop of `insert`: a free slot is claimed, a slot holding the key gets the new value, and
past the last slot the key is dropped ("Table is full"). -/
def insertProbe (t : ConcurrentHashTable) (key : String) (value : Int) (init : Nat) :
    Nat → Nat → Option ConcurrentHashTable
  | 0, _ => some t
  | fuel + 1, d =>
    match t.table[(init + d) % t.capacity]? with
    | none => none
    | some e =>
      if !e.inUse then
        some { t with table := t.table.set ((init + d) % t.capacity) { key, value, inUse := true },
                      currentSize := t.currentSize + 1 }
      else if e.key = key then
        some { t with table := t.table.set ((init + d) % t.capacity) { e with value } }
      else if d + 1 ≥ t.capacity then some t
      else insertProbe t key value init fuel (d + 1)

/-- The `do … while` of `remove`: a free slot ends it with `false`. -/
def removeProbe (t : ConcurrentHashTable) (key : String) (init : Nat) :
    Nat → Nat → Option (Bool × ConcurrentHashTable)
  | 0, _ => some (false, t)
  | fuel + 1, d =>
    match t.table[(init + d) % t.capacity]? with
    | none => none
    | some e =>
      if e.inUse then
        if e.key = key then
          some (true, { t with table := t.table.set ((init + d) % t.capacity) { e with inUse := false },
                               currentSize := t.currentSize - 1 })
        else if d + 1 ≥ t.capacity ∨ (init + (d + 1)) % t.capacity = init then some (false, t)
        else removeProbe t key init fuel (d + 1)
      else some (false, t)

section Calls

variable (hashFunction : String → Nat)

/-- `lookup(key, value)`: `some (some v)` for `true` with `value = v`, `some none` for `false`. -/
def lookup (t : ConcurrentHashTable) (key : String) : Option (Option Int) :=
  if t.capacity = 0 then none
  else t.lookupProbe key (hashFunction key % t.capacity) t.capacity 0

/-- `insert(key, value)`; the load-factor check only prints. -/
def insert (t : ConcurrentHashTable) (key : String) (value : Int) : Option ConcurrentHashTable :=
  if t.capacity = 0 then none
  else t.insertProbe key value (hashFunction key % t.capacity) t.capacity 0

def remove (t : ConcurrentHashTable) (key : String) : Option (Bool × ConcurrentHashTable) :=
  if t.capacity = 0 then none
  else t.removeProbe key (hashFunction key % t.capacity) t.capacity 0

/-- `resize(new_capacity)`: `new_capacity` default slots, then every slot in use of the old
table, in index order, inserted again. -/
def resize (t : ConcurrentHashTable) (newCapacity : Nat) : Option ConcurrentHashTable :=
  t.table.foldlM (fun acc e => if e.inUse then acc.insert hashFunction e.key e.value else some acc)
    { table := List.replicate newCapacity {}, currentSize := 0, capacity := newCapacity }

inductive Op where
  | insert (key : String) (value : Int)
  | remove (key : String)
  | resize (newCapacity : Nat)
  deriving DecidableEq, Repr

def apply (t : ConcurrentHashTable) : Op → Option ConcurrentHashTable
  | .insert key value => t.insert hashFunction key value
  | .remove key => (t.remove hashFunction key).map (·.2)
  | .resize newCapacity => t.resize hashFunction newCapacity

def run (initialSize : Nat) (ops : List Op) : Option ConcurrentHashTable :=
  ops.foldlM (apply hashFunction) (new initialSize)

end Calls

/-! ## Well-formed tables -/

structure Wf (t : ConcurrentHashTable) : Prop where
  capacity_pos : 0 < t.capacity
  length_table : t.table.length = t.capacity
  currentSize_eq : t.currentSize = t.table.countP (·.inUse)

theorem wf_new (initialSize : Nat) : Wf (new initialSize) := by
  refine ⟨?_, by simp [new], by simp [new, List.countP_replicate]⟩
  simp only [new]
  split <;> omega

def slotAt (t : ConcurrentHashTable) (i : Nat) : TableEntry := t.table.getD i {}

def entryAt (t : ConcurrentHashTable) (init d : Nat) : TableEntry :=
  t.slotAt ((init + d) % t.capacity)

theorem Wf.getElem?_probe {t : ConcurrentHashTable} (h : Wf t) (init d : Nat) :
    t.table[(init + d) % t.capacity]? = some (t.entryAt init d) := by
  have := Nat.mod_lt (init + d) h.capacity_pos
  simp [entryAt, slotAt, List.getD_eq_getElem?_getD, List.getElem?_eq_getElem, h.length_table,
    this]

theorem probe_mod {cap init d : Nat} (hi : init < cap) (hd : d < cap) :
    (init + d) % cap = if init + d < cap then init + d else init + d - cap := by
  split_ifs with h
  · exact Nat.mod_eq_of_lt h
  · rw [Nat.mod_eq_sub_mod (by omega), Nat.mod_eq_of_lt (by omega)]

theorem probe_ne_init {cap init k : Nat} (hi : init < cap) (hk : 0 < k) (hk' : k < cap) :
    (init + k) % cap ≠ init := by
  rw [probe_mod hi hk']; split_ifs <;> omega

theorem probe_injective {cap init d₁ d₂ : Nat} (hi : init < cap) (h₁ : d₁ < cap) (h₂ : d₂ < cap)
    (he : (init + d₁) % cap = (init + d₂) % cap) : d₁ = d₂ := by
  rw [probe_mod hi h₁, probe_mod hi h₂] at he; split_ifs at he <;> omega

theorem probe_surjective {cap init i : Nat} (hi : init < cap) (hj : i < cap) :
    ∃ d < cap, (init + d) % cap = i := by
  by_cases hle : init ≤ i
  · exact ⟨i - init, by omega, by rw [probe_mod hi (by omega)]; split_ifs <;> omega⟩
  · exact ⟨i + cap - init, by omega, by rw [probe_mod hi (by omega)]; split_ifs <;> omega⟩

def valueFor (key : String) (e : TableEntry) : Option Int :=
  if e.inUse ∧ e.key = key then some e.value else none

def stopsAt (key : String) (e : TableEntry) : Bool := !e.inUse || e.key == key

def writeSlot (t : ConcurrentHashTable) (i : Nat) (key : String) (value : Int) :
    ConcurrentHashTable :=
  if !(t.slotAt i).inUse then
    { t with table := t.table.set i { key, value, inUse := true }, currentSize := t.currentSize + 1 }
  else { t with table := t.table.set i { t.slotAt i with value } }

def clearSlot (t : ConcurrentHashTable) (i : Nat) : ConcurrentHashTable :=
  { t with table := t.table.set i { t.slotAt i with inUse := false },
           currentSize := t.currentSize - 1 }

def firstStop (t : ConcurrentHashTable) (key : String) (init fuel d : Nat) : Option Nat :=
  (List.range' d fuel).find? fun d' => stopsAt key (t.entryAt init d')

section Probes

variable {t : ConcurrentHashTable} (key : String) {init : Nat}

theorem fuel_eq_zero_of_last (hi : init < t.capacity) {fuel d : Nat}
    (hd : d + (fuel + 1) = t.capacity)
    (hw : d + 1 ≥ t.capacity ∨ (init + (d + 1)) % t.capacity = init) : fuel = 0 := by
  rcases hw with hw | hw
  · omega
  · by_contra hf
    exact probe_ne_init hi (by omega) (by omega) hw

theorem lookupProbe_eq (h : Wf t) (hi : init < t.capacity) : ∀ fuel d, d + fuel = t.capacity →
    t.lookupProbe key init fuel d =
      some ((List.range' d fuel).findSome? fun d' => valueFor key (t.entryAt init d'))
  | 0, _, _ => rfl
  | fuel + 1, d, hd => by
    simp only [lookupProbe, h.getElem?_probe, List.range'_succ, List.findSome?_cons]
    split_ifs with hv hw
    · simp [valueFor, hv]
    · obtain rfl := fuel_eq_zero_of_last hi hd hw
      simp [valueFor, hv]
    · rw [lookupProbe_eq h hi fuel (d + 1) (by omega)]
      simp [valueFor, hv]

theorem insertProbe_eq (h : Wf t) (value : Int) : ∀ fuel d, d + fuel = t.capacity →
    t.insertProbe key value init fuel d =
      some (((t.firstStop key init fuel d).map
        fun d' => t.writeSlot ((init + d') % t.capacity) key value).getD t)
  | 0, _, _ => rfl
  | fuel + 1, d, hd => by
    simp only [insertProbe, h.getElem?_probe, firstStop, List.range'_succ, List.find?_cons]
    split_ifs with hu hk hf
    · simp [stopsAt, writeSlot, entryAt] at hu ⊢
      simp [hu]
    · simp [stopsAt, writeSlot, entryAt] at hu hk ⊢
      simp [hu, hk]
    · obtain rfl : fuel = 0 := by omega
      simp [stopsAt, hu, beq_eq_false_iff_ne.mpr hk]
    · rw [insertProbe_eq h value fuel (d + 1) (by omega)]
      simp [stopsAt, hu, beq_eq_false_iff_ne.mpr hk, firstStop]

theorem removeProbe_eq (h : Wf t) (hi : init < t.capacity) : ∀ fuel d, d + fuel = t.capacity →
    t.removeProbe key init fuel d =
      some (match t.firstStop key init fuel d with
        | some d' => if (t.entryAt init d').inUse then (true, t.clearSlot ((init + d') % t.capacity))
          else (false, t)
        | none => (false, t))
  | 0, _, _ => rfl
  | fuel + 1, d, hd => by
    simp only [removeProbe, h.getElem?_probe, firstStop, List.range'_succ, List.find?_cons]
    split_ifs with hu hk hw
    · simp only [entryAt] at hu hk
      simp [stopsAt, clearSlot, entryAt, hu, hk]
    · obtain rfl := fuel_eq_zero_of_last hi hd hw
      simp [stopsAt, hu, beq_eq_false_iff_ne.mpr hk]
    · rw [removeProbe_eq h hi fuel (d + 1) (by omega)]
      simp [stopsAt, hu, beq_eq_false_iff_ne.mpr hk, firstStop]
    · simp [stopsAt, hu]

end Probes

/-! ## The calls keep the table well formed -/

theorem slotAt_eq {t : ConcurrentHashTable} {i : Nat} (hi : i < t.table.length) :
    t.slotAt i = t.table[i] := by
  simp [slotAt, List.getD_eq_getElem?_getD, List.getElem?_eq_getElem hi]

@[simp] theorem capacity_writeSlot (t : ConcurrentHashTable) (i : Nat) (key : String)
    (value : Int) : (t.writeSlot i key value).capacity = t.capacity := by
  unfold writeSlot; split <;> rfl

theorem currentSize_writeSlot (t : ConcurrentHashTable) (i : Nat) (key : String) (value : Int) :
    (t.writeSlot i key value).currentSize =
      if (t.slotAt i).inUse then t.currentSize else t.currentSize + 1 := by
  unfold writeSlot; split <;> simp_all

theorem Wf.writeSlot {t : ConcurrentHashTable} (h : Wf t) {i : Nat} (hi : i < t.capacity)
    (key : String) (value : Int) : Wf (t.writeSlot i key value) := by
  have hi' : i < t.table.length := h.length_table ▸ hi
  refine ⟨by simpa using h.capacity_pos, ?_, ?_⟩
  · unfold ConcurrentHashTable.writeSlot; split <;> simp [h.length_table]
  · have hc := h.currentSize_eq
    unfold ConcurrentHashTable.writeSlot
    rw [slotAt_eq hi']
    split_ifs with hu
    · simp_all [List.countP_set _ _ _ _ hi']
    · have hpos : 0 < t.table.countP (·.inUse) :=
        List.countP_pos_iff.mpr ⟨_, List.getElem_mem hi', by simpa using hu⟩
      simp_all [List.countP_set _ _ _ _ hi']

theorem Wf.clearSlot {t : ConcurrentHashTable} (h : Wf t) {i : Nat} (hi : i < t.capacity)
    (hu : (t.slotAt i).inUse) : Wf (t.clearSlot i) := by
  have hi' : i < t.table.length := h.length_table ▸ hi
  rw [slotAt_eq hi'] at hu
  have hpos : 0 < t.table.countP (·.inUse) := List.countP_pos_iff.mpr ⟨_, List.getElem_mem hi', hu⟩
  refine ⟨h.capacity_pos, by simp [ConcurrentHashTable.clearSlot, h.length_table], ?_⟩
  simp [ConcurrentHashTable.clearSlot, h.currentSize_eq, List.countP_set _ _ _ _ hi', slotAt_eq hi',
    hu]

section Calls

variable (hashFunction : String → Nat) {t : ConcurrentHashTable}

theorem Wf.lookup_eq (h : Wf t) (key : String) :
    t.lookup hashFunction key = some ((List.range t.capacity).findSome? fun d =>
      valueFor key (t.entryAt (hashFunction key % t.capacity) d)) := by
  rw [lookup, if_neg h.capacity_pos.ne', List.range_eq_range']
  exact lookupProbe_eq key h (Nat.mod_lt _ h.capacity_pos) _ 0 (Nat.zero_add _)

theorem Wf.insert_eq (h : Wf t) (key : String) (value : Int) :
    t.insert hashFunction key value =
      some (((t.firstStop key (hashFunction key % t.capacity) t.capacity 0).map fun d =>
        t.writeSlot ((hashFunction key % t.capacity + d) % t.capacity) key value).getD t) := by
  rw [insert, if_neg h.capacity_pos.ne']
  exact insertProbe_eq key h value _ 0 (Nat.zero_add _)

theorem Wf.remove_eq (h : Wf t) (key : String) :
    t.remove hashFunction key =
      some (match t.firstStop key (hashFunction key % t.capacity) t.capacity 0 with
        | some d => if (t.entryAt (hashFunction key % t.capacity) d).inUse then
            (true, t.clearSlot ((hashFunction key % t.capacity + d) % t.capacity))
          else (false, t)
        | none => (false, t)) := by
  rw [remove, if_neg h.capacity_pos.ne']
  exact removeProbe_eq key h (Nat.mod_lt _ h.capacity_pos) _ 0 (Nat.zero_add _)

theorem Wf.insert (h : Wf t) (key : String) (value : Int) :
    ∃ t', t.insert hashFunction key value = some t' ∧ Wf t' ∧ t'.capacity = t.capacity := by
  refine ⟨_, h.insert_eq hashFunction key value, ?_⟩
  cases t.firstStop key (hashFunction key % t.capacity) t.capacity 0 with
  | none => exact ⟨h, rfl⟩
  | some d => exact ⟨h.writeSlot (Nat.mod_lt _ h.capacity_pos) key value, capacity_writeSlot ..⟩

theorem Wf.remove (h : Wf t) (key : String) :
    ∃ r, t.remove hashFunction key = some r ∧ Wf r.2 ∧ r.2.capacity = t.capacity := by
  refine ⟨_, h.remove_eq hashFunction key, ?_⟩
  split
  · split_ifs with hu
    · exact ⟨h.clearSlot (Nat.mod_lt _ h.capacity_pos) hu, rfl⟩
    · exact ⟨h, rfl⟩
  · exact ⟨h, rfl⟩

theorem resize_of_pos {n : Nat} (hn : 0 < n) (t : ConcurrentHashTable) :
    ∃ t', t.resize hashFunction n = some t' ∧ Wf t' ∧ t'.capacity = n := by
  suffices ∀ (l : List TableEntry) (acc : ConcurrentHashTable), Wf acc →
      ∃ t', l.foldlM (fun acc e => if e.inUse then acc.insert hashFunction e.key e.value
        else some acc) acc = some t' ∧ Wf t' ∧ t'.capacity = acc.capacity from
    this t.table _ ⟨hn, by simp, by simp [List.countP_replicate]⟩
  intro l
  induction l with
  | nil => exact fun acc h => ⟨acc, rfl, h, rfl⟩
  | cons e l ih =>
    intro acc h
    by_cases hu : e.inUse
    · obtain ⟨t₁, h₁, hw₁, hc₁⟩ := h.insert hashFunction e.key e.value
      obtain ⟨t', h', hw', hc'⟩ := ih t₁ hw₁
      exact ⟨t', by simp [hu, h₁, h'], hw', hc'.trans hc₁⟩
    · simpa [hu] using ih acc h

theorem resize_zero_of_inUse (t : ConcurrentHashTable) (hu : ∃ e ∈ t.table, e.inUse) :
    t.resize hashFunction 0 = none := by
  suffices ∀ l : List TableEntry, (∃ e ∈ l, e.inUse) →
      l.foldlM (fun (acc : ConcurrentHashTable) (e : TableEntry) =>
        if e.inUse then acc.insert hashFunction e.key e.value else some acc)
        ⟨List.replicate 0 {}, 0, 0⟩ = none from this _ hu
  intro l
  induction l with
  | nil => simp
  | cons e l ih =>
    intro ⟨e', he', hu'⟩
    by_cases hu : e.inUse
    · simp [hu, insert]
    · rcases List.mem_cons.mp he' with rfl | he'
      · exact absurd hu' hu
      · simpa [hu] using ih ⟨e', he', hu'⟩

theorem resize_zero_of_free (t : ConcurrentHashTable) (hu : ∀ e ∈ t.table, e.inUse = false) :
    t.resize hashFunction 0 = some ⟨[], 0, 0⟩ := by
  suffices ∀ l : List TableEntry, (∀ e ∈ l, e.inUse = false) →
      l.foldlM (fun (acc : ConcurrentHashTable) (e : TableEntry) =>
        if e.inUse then acc.insert hashFunction e.key e.value else some acc)
        ⟨List.replicate 0 {}, 0, 0⟩ = some ⟨[], 0, 0⟩ from this _ hu
  intro l
  induction l with
  | nil => exact fun _ => rfl
  | cons e l ih =>
    intro hl
    simpa [hl e (List.mem_cons_self _ _)] using ih fun e' he' => hl e' (List.mem_cons_of_mem _ he')

/-- Every run without a `resize(0)` is defined throughout, and ends well formed. -/
theorem wf_run (initialSize : Nat) (ops : List Op)
    (hops : ∀ n, Op.resize n ∈ ops → 0 < n) :
    ∃ t, run hashFunction initialSize ops = some t ∧ Wf t := by
  suffices ∀ t₀, Wf t₀ → ∃ t, ops.foldlM (apply hashFunction) t₀ = some t ∧ Wf t from
    this _ (wf_new initialSize)
  induction ops with
  | nil => exact fun t₀ h => ⟨t₀, rfl, h⟩
  | cons op ops ih =>
    intro t₀ h
    have hstep : ∃ t₁, apply hashFunction t₀ op = some t₁ ∧ Wf t₁ := by
      cases op with
      | insert key value =>
        obtain ⟨t₁, h₁, hw, -⟩ := h.insert hashFunction key value
        exact ⟨t₁, h₁, hw⟩
      | remove key =>
        obtain ⟨r, h₁, hw, -⟩ := h.remove hashFunction key
        exact ⟨r.2, by simp [apply, h₁], hw⟩
      | resize n =>
        obtain ⟨t₁, h₁, hw, -⟩ := resize_of_pos hashFunction (hops n (List.mem_cons_self _ _)) t₀
        exact ⟨t₁, h₁, hw⟩
    obtain ⟨t₁, h₁, hw₁⟩ := hstep
    obtain ⟨t, h', hw⟩ := ih (fun n hn => hops n (List.mem_cons_of_mem _ hn)) t₁ hw₁
    exact ⟨t, by simp [h₁, h'], hw⟩

theorem wf_run_insert_resize_remove :
    (∀ n, Op.resize n ∈ [Op.insert "a" 1, .resize 4, .remove "a"] → 0 < n) ∧
      ∃ t, run (fun _ => 0) 2 [.insert "a" 1, .resize 4, .remove "a"] = some t ∧ Wf t :=
  have hops : ∀ n, Op.resize n ∈ [Op.insert "a" 1, .resize 4, .remove "a"] → 0 < n := by simp
  ⟨hops, wf_run (fun _ => 0) 2 _ hops⟩

end Calls

end ConcurrentHashTable

end Classifier
