import Classifier.MemoryPool
import Mathlib.Data.List.Nodup
import Mathlib.Algebra.Group.Nat.Basic

/-! # The memory pool over runs

A ghost list records the slots handed out and not given back. Over any run in which the caller
gives back only slots it holds and writes only into them, and the allocator returns blocks apart
from the pool's: the free list is a finite chain of distinct slots, and the slots of the blocks
are the free ones and the handed-out ones, each once. So `allocate` never hands out a slot twice,
and `getUsedCount` counts the slots handed out. When the allocator also returns memory on the
alignment `allocateNumaMemory` asks for, every slot handed out starts on a cache line. -/

namespace Classifier

/-! ## `size_t` arithmetic -/

theorem uint64_toNat_mul (a b : UInt64) : (a * b).toNat = a.toNat * b.toNat % 2 ^ 64 :=
  BitVec.toNat_mul ..

theorem uint64_toNat_add (a b : UInt64) : (a + b).toNat = (a.toNat + b.toNat) % 2 ^ 64 :=
  BitVec.toNat_add ..

theorem uint64_toNat_sub (a b : UInt64) : (a - b).toNat = (2 ^ 64 - b.toNat + a.toNat) % 2 ^ 64 :=
  BitVec.toNat_sub ..

theorem nat_toUInt64_toNat (n : Nat) : n.toUInt64.toNat = n % 2 ^ 64 := BitVec.toNat_ofNat ..

theorem uint64_toNat_lt (a : UInt64) : a.toNat < 2 ^ 64 := a.toBitVec.isLt

theorem mul_lt_of_last_write_fits {n a : Nat} (hn : 0 < n) (ha : a < 2 ^ 64)
    (hfit : (n - 1) * a + 8 ≤ n * a % 2 ^ 64) : n * a < 2 ^ 64 := by
  have hsplit : (n - 1) * a + a = n * a := by
    rw [← Nat.succ_mul, Nat.succ_eq_add_one, Nat.sub_add_cancel hn]
  omega

namespace PoolMachine

/-! ## The free list -/

def FreeList (mem : Nat → Nat) : Nat → List Nat → Prop
  | head, [] => head = 0
  | head, a :: l => head = a ∧ a ≠ 0 ∧ FreeList mem (mem a) l

theorem FreeList.update {mem : Nat → Nat} {head p v : Nat} {l : List Nat}
    (h : FreeList mem head l) (hp : p ∉ l) : FreeList (Function.update mem p v) head l := by
  induction l generalizing head with
  | nil => exact h
  | cons a l ih =>
    obtain ⟨rfl, ha, hl⟩ := h
    have hpa : head ≠ p := fun e => hp (e ▸ List.mem_cons_self _ _)
    refine ⟨rfl, ha, ?_⟩
    rw [Function.update_noteq hpa]
    exact ih hl fun hp' => hp (List.mem_cons_of_mem _ hp')

theorem countFree_of_freeList {mem : Nat → Nat} {head : Nat} {l : List Nat}
    (h : FreeList mem head l) {fuel : Nat} (hf : l.length ≤ fuel) :
    countFree mem fuel head = some l.length := by
  induction l generalizing head fuel with
  | nil =>
    have h0 : head = 0 := h
    cases fuel <;> simp [countFree, h0]
  | cons a l ih =>
    obtain ⟨rfl, ha, hl⟩ := h
    cases fuel with
    | zero => simp at hf
    | succ fuel => simp [countFree, ha, ih hl (by simpa using hf)]

/-! ## Blocks and their slots -/

def objectAddrs (size ptr n : Nat) : List Nat := (List.range n).map fun i => ptr + i * size

theorem objectAddrs_succ (size ptr n : Nat) :
    objectAddrs size ptr (n + 1) = ptr :: objectAddrs size (ptr + size) n := by
  simp only [objectAddrs, List.range_succ_eq_map, List.map_cons, List.map_map]
  congr 1
  · simp
  · exact List.map_congr_left fun i _ => by simp [Nat.succ_mul]; omega

theorem mem_objectAddrs {size ptr n x : Nat} :
    x ∈ objectAddrs size ptr n ↔ ∃ i < n, x = ptr + i * size := by
  simp [objectAddrs, eq_comm]

theorem nodup_objectAddrs {size : Nat} (hs : 0 < size) (ptr n : Nat) :
    (objectAddrs size ptr n).Nodup :=
  (List.nodup_range n).map fun i j h => by
    simp only [Nat.add_left_cancel_iff] at h
    exact Nat.eq_of_mul_eq_mul_right hs h

theorem linkObjects_spec {size : Nat} (hs : 0 < size) :
    ∀ (n ptr : Nat) (mem : Nat → Nat) (head : Nat) (l : List Nat), 0 < ptr →
      FreeList mem head l → (∀ x ∈ objectAddrs size ptr n, x ∉ l) →
      FreeList (linkObjects size n ptr mem head).2 (linkObjects size n ptr mem head).1
        ((objectAddrs size ptr n).reverse ++ l)
  | 0, _, _, _, _, _, h, _ => h
  | n + 1, ptr, mem, head, l, hptr, h, hnew => by
    rw [objectAddrs_succ] at hnew ⊢
    have hl : FreeList (Function.update mem ptr head) ptr (ptr :: l) :=
      ⟨rfl, by omega, by rw [Function.update_same]; exact h.update (hnew ptr (List.mem_cons_self _ _))⟩
    have := linkObjects_spec hs n (ptr + size) (Function.update mem ptr head) ptr (ptr :: l)
      (by omega) hl fun x hx hxl => by
        rcases List.mem_cons.mp hxl with rfl | hxl
        · obtain ⟨i, -, hi⟩ := mem_objectAddrs.mp hx
          omega
        · exact hnew x (List.mem_cons_of_mem _ hx) hxl
    simpa [linkObjects] using this

def blockSlots (size : Nat) (b : PoolBlock) : List Nat :=
  objectAddrs size b.memory (b.capacityBytes.toNat / size)

def slots (p : MemoryPool) : List Nat := p.memoryBlocks.flatMap (blockSlots p.actualObjectSize.toNat)

theorem mem_blockSlots_bounds {size : Nat} (hs : 0 < size) {b : PoolBlock} {x : Nat}
    (hx : x ∈ blockSlots size b) : b.memory ≤ x ∧ x + size ≤ b.memory + b.capacityBytes.toNat := by
  obtain ⟨i, hi, rfl⟩ := mem_objectAddrs.mp hx
  have := (Nat.le_div_iff_mul_le hs).mp hi
  rw [Nat.succ_mul] at this
  exact ⟨Nat.le_add_right _ _, by omega⟩

theorem FreeList.head_ne_zero {mem : Nat → Nat} {head : Nat} {l : List Nat}
    (h : FreeList mem head l) (hl : l ≠ []) : head ≠ 0 := by
  cases l with
  | nil => exact absurd rfl hl
  | cons a l => exact h.1 ▸ h.2.1

/-! ## The invariant -/

def Apart (p : MemoryPool) (base bytes : Nat) : Prop :=
  ∀ b ∈ p.memoryBlocks, base + bytes ≤ b.memory ∨ b.memory + b.capacityBytes.toNat ≤ base

structure Inv (m : PoolMachine) (allocated : List Nat) : Prop where
  freeList : ∃ l, FreeList m.mem m.pool.freeListHead l ∧ (l ++ allocated).Perm (slots m.pool)
  nodup : (slots m.pool).Nodup
  zero_not_mem : 0 ∉ slots m.pool
  capacity_eq : m.pool.currentCapacityObjects = (slots m.pool).length.toUInt64

variable {m m' : PoolMachine} {alloc : List Nat}

theorem block_fits {p : MemoryPool} {n : UInt64} {base : Nat} (h0 : ¬ n = 0)
    (hfail : ¬ (n * p.actualObjectSize = 0 ∨ base = 0))
    (hub : ¬ (n.toNat - 1) * p.actualObjectSize.toNat + pointerSize.toNat >
      (n * p.actualObjectSize).toNat) :
    0 < p.actualObjectSize.toNat ∧ 0 < n.toNat ∧ base ≠ 0 ∧
      (n * p.actualObjectSize).toNat = n.toNat * p.actualObjectSize.toNat := by
  have hN : 0 < n.toNat := Nat.pos_of_ne_zero fun h => h0 (UInt64.toNat.inj (by simpa using h))
  refine ⟨Nat.pos_of_ne_zero fun h => hfail (.inl (UInt64.toNat.inj (by
    rw [uint64_toNat_mul, h]; simp))), hN, fun h => hfail (.inr h), ?_⟩
  rw [uint64_toNat_mul] at hub ⊢
  have h8 : pointerSize.toNat = 8 := rfl
  exact Nat.mod_eq_of_lt (mul_lt_of_last_write_fits hN (uint64_toNat_lt _) (by omega))

theorem slots_addBlock (p : MemoryPool) (head : Nat) (n : UInt64) (base : Nat)
    (hs : 0 < p.actualObjectSize.toNat)
    (hbytes : (n * p.actualObjectSize).toNat = n.toNat * p.actualObjectSize.toNat) :
    slots { p with
      freeListHead := head,
      memoryBlocks := p.memoryBlocks ++ [⟨base, n * p.actualObjectSize⟩],
      currentCapacityObjects := p.currentCapacityObjects + n } =
      slots p ++ objectAddrs p.actualObjectSize.toNat base n.toNat := by
  simp [slots, List.flatMap_append, blockSlots, hbytes, Nat.mul_div_cancel _ hs]

theorem Inv.addNewBlock (hi : Inv m alloc) {n : UInt64} {base : Nat}
    (hbase : base ≠ 0 → Apart m.pool base (n.toNat * m.pool.actualObjectSize.toNat)) {ok : Bool}
    (h : m.addNewBlock n base = some (ok, m')) :
    Inv m' alloc ∧ m'.pool.actualObjectSize = m.pool.actualObjectSize ∧
      (ok = true → n ≠ 0 → m'.pool.freeListHead ≠ 0) := by
  unfold PoolMachine.addNewBlock at h
  dsimp only at h
  split_ifs at h with h0 hfail hub
  · cases h; exact ⟨hi, rfl, fun _ hn => absurd h0 hn⟩
  · cases h; exact ⟨hi, rfl, nofun⟩
  cases h
  -- The block holds exactly `n` objects: the product did not wrap.
  obtain ⟨hs, hN, hbase0, hbytes⟩ := block_fits h0 hfail hub
  have hslots := slots_addBlock m.pool
    (linkObjects m.pool.actualObjectSize.toNat n.toNat base m.mem m.pool.freeListHead).1 n base hs
    hbytes
  set a := m.pool.actualObjectSize.toNat
  set S := objectAddrs a base n.toNat
  -- The new objects are none of the old ones.
  have hfresh : ∀ x ∈ S, x ∉ slots m.pool := fun x hx hxs => by
    obtain ⟨i, hi', rfl⟩ := mem_objectAddrs.mp hx
    obtain ⟨b, hb, hxb⟩ := List.mem_flatMap.mp hxs
    have := mem_blockSlots_bounds hs hxb
    have hia : i * a + a ≤ n.toNat * a := by rw [← Nat.succ_mul]; exact Nat.mul_le_mul_right _ hi'
    rcases hbase hbase0 b hb with hb' | hb' <;> omega
  obtain ⟨l, hfl, hperm⟩ := hi.freeList
  have hlsub : ∀ x ∈ l, x ∈ slots m.pool := fun x hx =>
    hperm.subset (List.mem_append_left _ hx)
  have hlink := linkObjects_spec hs n.toNat base m.mem m.pool.freeListHead l
    (Nat.pos_of_ne_zero hbase0) hfl fun x hx hxl => hfresh x hx (hlsub x hxl)
  refine ⟨⟨⟨_, hlink, ?_⟩, ?_, ?_, ?_⟩, rfl, fun _ _ => hlink.head_ne_zero ?_⟩
  · -- The new objects join the free list.
    rw [hslots, List.append_assoc]
    exact (((List.reverse_perm S).append hperm).trans List.perm_append_comm)
  · rw [hslots]
    exact List.nodup_append.mpr ⟨hi.nodup, nodup_objectAddrs hs _ _,
      fun x hx hxS => hfresh x hxS hx⟩
  · rw [hslots]
    intro h0'
    rcases List.mem_append.mp h0' with h0' | h0'
    · exact hi.zero_not_mem h0'
    · obtain ⟨i, -, hi0⟩ := mem_objectAddrs.mp h0'
      omega
  · rw [hslots]
    apply UInt64.toNat.inj
    simp only [uint64_toNat_add, nat_toUInt64_toNat, hi.capacity_eq, List.length_append, S,
      objectAddrs, List.length_map, List.length_range]
    omega
  · simp only [S, objectAddrs, ne_eq, List.append_eq_nil, List.reverse_eq_nil_iff,
      List.map_eq_nil_iff, List.range_eq_nil]
    omega

def handedOut (alloc : List Nat) : Except PoolError Nat → List Nat
  | .ok p => p :: alloc
  | .error _ => alloc

@[simp] theorem slots_freeListHead (p : MemoryPool) (head : Nat) :
    slots { p with freeListHead := head } = slots p := rfl

theorem Inv.takeFree (hi : Inv m alloc) :
    Inv m.takeFree.1 (handedOut alloc m.takeFree.2) ∧ slots m.takeFree.1.pool = slots m.pool ∧
      ∀ p, m.takeFree.2 = .ok p → p ∉ alloc ∧ p ∈ slots m.pool := by
  unfold PoolMachine.takeFree
  split_ifs with h0
  · exact ⟨hi, rfl, nofun⟩
  obtain ⟨l, hfl, hperm⟩ := hi.freeList
  cases l with
  | nil => exact absurd hfl h0
  | cons a l =>
    obtain ⟨rfl, -, hfl⟩ := hfl
    have hnd := hperm.nodup_iff.mpr hi.nodup
    refine ⟨⟨⟨l, hfl, ?_⟩, hi.nodup, hi.zero_not_mem, hi.capacity_eq⟩, rfl, ?_⟩
    · exact List.perm_middle.trans hperm
    · rintro p ⟨⟩
      exact ⟨fun ha => List.disjoint_of_nodup_append hnd (List.mem_cons_self _ _) ha,
        hperm.subset (List.mem_append_left _ (List.mem_cons_self _ _))⟩

theorem Inv.allocate (hi : Inv m alloc) {base : Nat}
    (hbase : m.pool.freeListHead = 0 → base ≠ 0 → Apart m.pool base
      ((if m.pool.currentCapacityObjects > 0 then m.pool.currentCapacityObjects else 1024).toNat *
        m.pool.actualObjectSize.toNat))
    {res : PoolMachine × Except PoolError Nat} (h : m.allocate base = some res) :
    Inv res.1 (handedOut alloc res.2) ∧ ∀ p, res.2 = .ok p → p ∉ alloc ∧ p ∈ slots res.1.pool := by
  unfold PoolMachine.allocate at h
  by_cases h0 : m.pool.freeListHead = 0
  · rw [if_pos h0] at h
    generalize (if m.pool.currentCapacityObjects > 0 then m.pool.currentCapacityObjects
      else 1024) = n at h hbase
    dsimp only at h
    split at h
    · cases h
    · cases h
      exact ⟨(hi.addNewBlock (hbase h0) ‹_›).1, nofun⟩
    · rename_i m₁ hadd
      cases h
      obtain ⟨hi', hslots, hp⟩ := (hi.addNewBlock (hbase h0) hadd).1.takeFree
      exact ⟨hi', fun p hr => hslots ▸ hp p hr⟩
  · rw [if_neg h0] at h
    cases h
    obtain ⟨hi', hslots, hp⟩ := hi.takeFree
    exact ⟨hi', fun p hr => hslots ▸ hp p hr⟩

theorem Inv.deallocate (hi : Inv m alloc) {ptr : Nat} (hp : ptr ∈ alloc) :
    Inv (m.deallocate ptr) (alloc.erase ptr) := by
  obtain ⟨l, hfl, hperm⟩ := hi.freeList
  have hnd := hperm.nodup_iff.mpr hi.nodup
  have hp0 : ptr ≠ 0 := fun h => hi.zero_not_mem (h ▸ hperm.subset (List.mem_append_right _ hp))
  have hpl : ptr ∉ l := fun h => List.disjoint_of_nodup_append hnd h hp
  unfold PoolMachine.deallocate
  rw [if_neg hp0]
  refine ⟨⟨ptr :: l, ⟨rfl, hp0, ?_⟩, ?_⟩, hi.nodup, hi.zero_not_mem, hi.capacity_eq⟩
  · dsimp only
    rw [Function.update_same]
    exact hfl.update hpl
  · exact (List.perm_middle.symm.trans ((List.perm_cons_erase hp).symm.append_left l)).trans hperm

theorem Inv.write (hi : Inv m alloc) {ptr : Nat} (hp : ptr ∈ alloc) (value : Nat) :
    Inv { m with mem := Function.update m.mem ptr value } alloc := by
  obtain ⟨l, hfl, hperm⟩ := hi.freeList
  have hpl : ptr ∉ l := fun h => List.disjoint_of_nodup_append (hperm.nodup_iff.mpr hi.nodup) h hp
  exact ⟨⟨l, hfl.update hpl, hperm⟩, hi.nodup, hi.zero_not_mem, hi.capacity_eq⟩

theorem Inv.getUsedCount (hi : Inv m alloc) {fuel : Nat} (hf : (slots m.pool).length ≤ fuel) :
    m.getUsedCount fuel = some alloc.length.toUInt64 := by
  obtain ⟨l, hfl, hperm⟩ := hi.freeList
  have hlen := hperm.length_eq
  rw [List.length_append] at hlen
  rw [PoolMachine.getUsedCount, countFree_of_freeList hfl (by omega), Option.map_some',
    hi.capacity_eq]
  congr 1
  apply UInt64.toNat.inj
  rw [uint64_toNat_sub, nat_toUInt64_toNat, nat_toUInt64_toNat, nat_toUInt64_toNat, ← hlen]
  omega

theorem inv_new {objectSize initialCapacity : UInt64} {numaNodeId : Int} {mem : Nat → Nat}
    {base : Nat} (h : new objectSize initialCapacity numaNodeId mem base = some (.ok m)) :
    Inv m [] := by
  unfold PoolMachine.new at h
  split_ifs at h
  · cases h
  dsimp only at h
  split at h
  · cases h
  · cases h
  · rename_i m₁ hadd
    cases h
    refine (Inv.addNewBlock ?_ ?_ hadd).1
    · exact ⟨⟨[], rfl, .nil⟩, List.nodup_nil, List.not_mem_nil 0, rfl⟩
    · exact fun _ _ hb => absurd hb (List.not_mem_nil _)

/-! ## Objects share no byte -/

def Separated (size : Nat) (xs : List Nat) : Prop :=
  xs.Pairwise fun x y => x + size ≤ y ∨ y + size ≤ x

theorem separated_objectAddrs (size base n : Nat) : Separated size (objectAddrs size base n) := by
  unfold Separated objectAddrs
  rw [List.pairwise_map]
  refine (List.pairwise_lt_range n).imp fun {i j} hij => .inl ?_
  have := Nat.mul_le_mul_right size (Nat.succ_le_of_lt hij)
  rw [Nat.succ_mul] at this
  omega

theorem Separated.addNewBlock (hsep : Separated m.pool.actualObjectSize.toNat (slots m.pool))
    {n : UInt64} {base : Nat}
    (hbase : base ≠ 0 → Apart m.pool base (n.toNat * m.pool.actualObjectSize.toNat)) {ok : Bool}
    (h : m.addNewBlock n base = some (ok, m')) :
    Separated m'.pool.actualObjectSize.toNat (slots m'.pool) := by
  unfold PoolMachine.addNewBlock at h
  dsimp only at h
  split_ifs at h with h0 hfail hub
  · cases h
    exact hsep
  · cases h
    exact hsep
  cases h
  obtain ⟨hs, -, hbase0, hbytes⟩ := block_fits h0 hfail hub
  dsimp only
  rw [slots_addBlock _ _ _ _ hs hbytes]
  refine List.pairwise_append.mpr ⟨hsep, separated_objectAddrs _ _ _, fun x hx y hy => ?_⟩
  obtain ⟨b, hb, hxb⟩ := List.mem_flatMap.mp hx
  have := mem_blockSlots_bounds hs hxb
  obtain ⟨i, hi, rfl⟩ := mem_objectAddrs.mp hy
  have hia := Nat.mul_le_mul_right m.pool.actualObjectSize.toNat (Nat.succ_le_of_lt hi)
  rw [Nat.succ_mul] at hia
  rcases hbase hbase0 b hb with hb' | hb' <;> omega

@[simp] theorem takeFree_actualObjectSize (m : PoolMachine) :
    m.takeFree.1.pool.actualObjectSize = m.pool.actualObjectSize := by
  unfold PoolMachine.takeFree
  split_ifs <;> rfl

@[simp] theorem slots_takeFree (m : PoolMachine) : slots m.takeFree.1.pool = slots m.pool := by
  unfold PoolMachine.takeFree
  split_ifs <;> rfl

theorem Separated.allocate (hsep : Separated m.pool.actualObjectSize.toNat (slots m.pool))
    {base : Nat}
    (hbase : m.pool.freeListHead = 0 → base ≠ 0 → Apart m.pool base
      ((if m.pool.currentCapacityObjects > 0 then m.pool.currentCapacityObjects else 1024).toNat *
        m.pool.actualObjectSize.toNat))
    {res : PoolMachine × Except PoolError Nat} (h : m.allocate base = some res) :
    Separated res.1.pool.actualObjectSize.toNat (slots res.1.pool) := by
  unfold PoolMachine.allocate at h
  by_cases h0 : m.pool.freeListHead = 0
  · rw [if_pos h0] at h
    generalize (if m.pool.currentCapacityObjects > 0 then m.pool.currentCapacityObjects
      else 1024) = n at h hbase
    dsimp only at h
    split at h
    · cases h
    · cases h
      exact hsep.addNewBlock (hbase h0) ‹_›
    · cases h
      rw [takeFree_actualObjectSize, slots_takeFree]
      exact hsep.addNewBlock (hbase h0) ‹_›
  · rw [if_neg h0] at h
    cases h
    rwa [takeFree_actualObjectSize, slots_takeFree]

theorem separated_new {objectSize initialCapacity : UInt64} {numaNodeId : Int} {mem : Nat → Nat}
    {base : Nat} (h : new objectSize initialCapacity numaNodeId mem base = some (.ok m)) :
    Separated m.pool.actualObjectSize.toNat (slots m.pool) := by
  unfold PoolMachine.new at h
  split_ifs at h
  · cases h
  dsimp only at h
  split at h
  · cases h
  · cases h
  · rename_i m₁ hadd
    cases h
    refine Separated.addNewBlock ?_ (fun _ _ hb => absurd hb (List.not_mem_nil _)) hadd
    exact List.Pairwise.nil

/-! ## Objects on cache lines -/

structure BlocksAligned (a : Nat) (p : MemoryPool) : Prop where
  size_dvd : a ∣ p.actualObjectSize.toNat
  memory_dvd : ∀ b ∈ p.memoryBlocks, a ∣ b.memory

theorem BlocksAligned.dvd_of_mem_slots {a : Nat} {p : MemoryPool} (hal : BlocksAligned a p)
    {x : Nat} (hx : x ∈ slots p) : a ∣ x := by
  obtain ⟨b, hb, hxb⟩ := List.mem_flatMap.mp hx
  obtain ⟨i, -, rfl⟩ := mem_objectAddrs.mp hxb
  exact Nat.dvd_add (hal.memory_dvd b hb) (Nat.dvd_trans hal.size_dvd (Nat.dvd_mul_left _ i))

theorem cacheLineSize_dvd_alignUp (size : UInt64) :
    cacheLineSize.toNat ∣ (alignUp size cacheLineSize).toNat := by
  have hmask : (~~~(cacheLineSize - 1)).toNat &&& 2 ^ 6 - 1 = 0 := by decide
  rw [Nat.dvd_iff_mod_eq_zero, alignUp, UInt64.and_toNat, show cacheLineSize.toNat = 2 ^ 6 from rfl,
    ← Nat.and_pow_two_sub_one_eq_mod, Nat.and_assoc, hmask, Nat.and_zero]

theorem blockAlignment_true : blockAlignment true = cacheLineSize := by decide

theorem BlocksAligned.addNewBlock {a : Nat} (hal : BlocksAligned a m.pool) {n : UInt64}
    {base : Nat} (hbase : a ∣ base) {ok : Bool} (h : m.addNewBlock n base = some (ok, m')) :
    BlocksAligned a m'.pool := by
  unfold PoolMachine.addNewBlock at h
  dsimp only at h
  split_ifs at h
  · cases h
    exact hal
  · cases h
    exact hal
  cases h
  refine ⟨hal.size_dvd, fun b hb => ?_⟩
  rcases List.mem_append.mp hb with hb | hb
  · exact hal.memory_dvd b hb
  · exact List.mem_singleton.mp hb ▸ hbase

theorem BlocksAligned.takeFree {a : Nat} (hal : BlocksAligned a m.pool) :
    BlocksAligned a m.takeFree.1.pool := by
  unfold PoolMachine.takeFree
  split_ifs <;> exact ⟨hal.1, hal.2⟩

theorem BlocksAligned.allocate {a : Nat} (hal : BlocksAligned a m.pool) {base : Nat}
    (hbase : a ∣ base) {res : PoolMachine × Except PoolError Nat}
    (h : m.allocate base = some res) : BlocksAligned a res.1.pool := by
  unfold PoolMachine.allocate at h
  by_cases h0 : m.pool.freeListHead = 0
  · rw [if_pos h0] at h
    dsimp only at h
    split at h
    · cases h
    · cases h
      exact hal.addNewBlock hbase ‹_›
    · cases h
      exact (hal.addNewBlock hbase ‹_›).takeFree
  · rw [if_neg h0] at h
    cases h
    exact hal.takeFree

theorem cacheAlignObjects_addNewBlock {n : UInt64} {base : Nat} {ok : Bool}
    (h : m.addNewBlock n base = some (ok, m')) :
    m'.pool.cacheAlignObjects = m.pool.cacheAlignObjects := by
  unfold PoolMachine.addNewBlock at h
  dsimp only at h
  split_ifs at h <;> cases h <;> rfl

theorem blocksAligned_new {objectSize initialCapacity : UInt64} {numaNodeId : Int}
    {mem : Nat → Nat} {base : Nat} (h : new objectSize initialCapacity numaNodeId mem base = some (.ok m))
    (hbase : (blockAlignment m.pool.cacheAlignObjects).toNat ∣ base) :
    m.pool.cacheAlignObjects = true ∧ BlocksAligned cacheLineSize.toNat m.pool := by
  unfold PoolMachine.new at h
  split_ifs at h
  · cases h
  dsimp only at h
  split at h
  · cases h
  · cases h
  · rename_i m₁ hadd
    cases h
    have hc := cacheAlignObjects_addNewBlock hadd
    rw [hc, blockAlignment_true] at hbase
    exact ⟨hc, BlocksAligned.addNewBlock
      ⟨cacheLineSize_dvd_alignUp _, fun _ hb => absurd hb (List.not_mem_nil _)⟩ hbase hadd⟩

end PoolMachine

/-! ## Runs -/

inductive PoolOp where
  | allocate (base : Nat)
  | deallocate (ptr : Nat)
  | grow (additionalObjects : UInt64) (base : Nat)
  | write (ptr value : Nat)
  deriving DecidableEq, Repr

def PoolOp.blockAddress : PoolOp → Option Nat
  | .allocate base => some base
  | .grow _ base => some base
  | .deallocate _ => none
  | .write _ _ => none

structure PoolSys where
  machine : PoolMachine
  allocated : List Nat

namespace PoolSys

open PoolMachine

def step (s : PoolSys) : PoolOp → Option PoolSys
  | .allocate base =>
    (s.machine.allocate base).map fun res => ⟨res.1, handedOut s.allocated res.2⟩
  | .deallocate ptr => some ⟨s.machine.deallocate ptr, s.allocated.erase ptr⟩
  | .grow n base => (s.machine.grow n base).map fun res => ⟨res.2, s.allocated⟩
  | .write ptr value =>
    some ⟨{ s.machine with mem := Function.update s.machine.mem ptr value }, s.allocated⟩

def Allowed (s : PoolSys) : PoolOp → Prop
  | .allocate base => s.machine.pool.freeListHead = 0 → base ≠ 0 → Apart s.machine.pool base
      ((if s.machine.pool.currentCapacityObjects > 0 then s.machine.pool.currentCapacityObjects
        else 1024).toNat * s.machine.pool.actualObjectSize.toNat)
  | .deallocate ptr => ptr ∈ s.allocated
  | .grow n base => base ≠ 0 → Apart s.machine.pool base (n.toNat * s.machine.pool.actualObjectSize.toNat)
  | .write ptr _ => ptr ∈ s.allocated

theorem inv_step {s s' : PoolSys} (hi : Inv s.machine s.allocated) {op : PoolOp}
    (ha : s.Allowed op) (h : s.step op = some s') : Inv s'.machine s'.allocated := by
  cases op with
  | allocate base =>
    obtain ⟨res, hres, rfl⟩ := Option.map_eq_some'.mp h
    exact (hi.allocate ha hres).1
  | deallocate ptr => cases h; exact hi.deallocate ha
  | grow n base =>
    obtain ⟨res, hres, rfl⟩ := Option.map_eq_some'.mp h
    exact (hi.addNewBlock ha hres).1
  | write ptr value => cases h; exact hi.write ha value

inductive Run : PoolSys → List PoolOp → PoolSys → Prop
  | nil (s : PoolSys) : Run s [] s
  | cons {s s₁ s₂ : PoolSys} {op : PoolOp} {ops : List PoolOp} :
    s.Allowed op → s.step op = some s₁ → Run s₁ ops s₂ → Run s (op :: ops) s₂

theorem Run.inv {s s' : PoolSys} {ops : List PoolOp} (hr : Run s ops s')
    (hi : Inv s.machine s.allocated) : Inv s'.machine s'.allocated := by
  induction hr with
  | nil => exact hi
  | cons ha hs _ ih => exact ih (inv_step hi ha hs)

theorem separated_step {s s' : PoolSys}
    (hsep : Separated s.machine.pool.actualObjectSize.toNat (slots s.machine.pool)) {op : PoolOp}
    (ha : s.Allowed op) (h : s.step op = some s') :
    Separated s'.machine.pool.actualObjectSize.toNat (slots s'.machine.pool) := by
  cases op with
  | allocate base =>
    obtain ⟨res, hres, rfl⟩ := Option.map_eq_some'.mp h
    exact hsep.allocate ha hres
  | deallocate ptr =>
    cases h
    unfold PoolMachine.deallocate
    split_ifs
    · exact hsep
    · exact hsep
  | grow n base =>
    obtain ⟨res, hres, rfl⟩ := Option.map_eq_some'.mp h
    exact hsep.addNewBlock ha hres
  | write ptr value =>
    cases h
    exact hsep

theorem Run.separated {s s' : PoolSys} {ops : List PoolOp} (hr : Run s ops s')
    (hsep : Separated s.machine.pool.actualObjectSize.toNat (slots s.machine.pool)) :
    Separated s'.machine.pool.actualObjectSize.toNat (slots s'.machine.pool) := by
  induction hr with
  | nil => exact hsep
  | cons ha hs _ ih => exact ih (separated_step hsep ha hs)

/-- After any run from a constructed pool, no two slots handed out share a byte. -/
theorem allocated_separated {m₀ : PoolMachine} {objectSize initialCapacity : UInt64}
    {numaNodeId : Int} {mem : Nat → Nat} {base₀ : Nat}
    (h₀ : new objectSize initialCapacity numaNodeId mem base₀ = some (.ok m₀)) {ops : List PoolOp}
    {s : PoolSys} (hr : Run ⟨m₀, []⟩ ops s) :
    Separated s.machine.pool.actualObjectSize.toNat s.allocated := by
  obtain ⟨l, -, hperm⟩ := (hr.inv (inv_new h₀)).freeList
  have := (hperm.pairwise_iff fun h => Or.symm h).mpr (hr.separated (separated_new h₀))
  exact (List.pairwise_append.mp this).2.1

theorem allocated_separated_two_allocations :
    ∃ m₀ s, PoolMachine.new 8 2 0 (fun _ => 0) 4096 = some (.ok m₀) ∧
      Run ⟨m₀, []⟩ [.allocate 0, .allocate 0] s ∧ s.allocated = [4096, 4160] ∧
      Separated s.machine.pool.actualObjectSize.toNat s.allocated := by
  let m₀ : PoolMachine := ⟨⟨8, 64, 2, [⟨4096, 128⟩], 4160, 0, true⟩,
    Function.update (Function.update (fun _ => 0) 4096 0) 4160 4096⟩
  have h₀ : PoolMachine.new 8 2 0 (fun _ => 0) 4096 = some (.ok m₀) := rfl
  have hr : Run ⟨m₀, []⟩ [.allocate 0, .allocate 0] _ :=
    .cons (fun h => absurd h (by decide)) rfl (.cons (fun h => absurd h (by decide)) rfl (.nil _))
  exact ⟨_, _, h₀, hr, rfl, allocated_separated h₀ hr⟩

theorem blocksAligned_step {a : Nat} {s s' : PoolSys} (hal : BlocksAligned a s.machine.pool)
    {op : PoolOp} (hop : ∀ base ∈ op.blockAddress, a ∣ base) (h : s.step op = some s') :
    BlocksAligned a s'.machine.pool := by
  cases op with
  | allocate base =>
    obtain ⟨res, hres, rfl⟩ := Option.map_eq_some'.mp h
    exact hal.allocate (hop base rfl) hres
  | deallocate ptr =>
    cases h
    unfold PoolMachine.deallocate
    split_ifs <;> exact ⟨hal.1, hal.2⟩
  | grow n base =>
    obtain ⟨res, hres, rfl⟩ := Option.map_eq_some'.mp h
    exact hal.addNewBlock (hop base rfl) hres
  | write ptr value =>
    cases h
    exact hal

theorem Run.blocksAligned {a : Nat} {s s' : PoolSys} {ops : List PoolOp} (hr : Run s ops s')
    (hops : ∀ op ∈ ops, ∀ base ∈ op.blockAddress, a ∣ base)
    (hal : BlocksAligned a s.machine.pool) : BlocksAligned a s'.machine.pool := by
  induction hr with
  | nil => exact hal
  | cons _ hs _ ih =>
    exact ih (fun op hop => hops op (List.mem_cons_of_mem _ hop))
      (blocksAligned_step hal (hops _ (List.mem_cons_self _ _)) hs)

/-- When the allocator returns memory on the alignment the pool's blocks ask `allocateNumaMemory`
for, every slot handed out after any run from a constructed pool starts on a cache line. -/
theorem allocated_cache_aligned {m₀ : PoolMachine} {objectSize initialCapacity : UInt64}
    {numaNodeId : Int} {mem : Nat → Nat} {base₀ : Nat}
    (h₀ : new objectSize initialCapacity numaNodeId mem base₀ = some (.ok m₀))
    (hb₀ : (blockAlignment m₀.pool.cacheAlignObjects).toNat ∣ base₀) {ops : List PoolOp}
    (hops : ∀ op ∈ ops, ∀ base ∈ op.blockAddress, (blockAlignment m₀.pool.cacheAlignObjects).toNat ∣ base)
    {s : PoolSys} (hr : Run ⟨m₀, []⟩ ops s) :
    ∀ p ∈ s.allocated, cacheLineSize.toNat ∣ p := by
  obtain ⟨hc, hal₀⟩ := blocksAligned_new h₀ hb₀
  rw [hc, blockAlignment_true] at hops
  obtain ⟨l, -, hperm⟩ := (hr.inv (inv_new h₀)).freeList
  exact fun p hp => (hr.blocksAligned hops hal₀).dvd_of_mem_slots
    (hperm.subset (List.mem_append_right l hp))

theorem allocated_cache_aligned_three_allocations :
    ∃ m₀ s, PoolMachine.new 8 2 0 (fun _ => 0) 4096 = some (.ok m₀) ∧
      (blockAlignment m₀.pool.cacheAlignObjects).toNat ∣ 4096 ∧
      (∀ op ∈ [PoolOp.allocate 0, .allocate 0, .allocate 8192], ∀ base ∈ op.blockAddress,
        (blockAlignment m₀.pool.cacheAlignObjects).toNat ∣ base) ∧
      Run ⟨m₀, []⟩ [.allocate 0, .allocate 0, .allocate 8192] s ∧
      s.allocated = [8256, 4096, 4160] ∧ ∀ p ∈ s.allocated, cacheLineSize.toNat ∣ p := by
  have h₀ : PoolMachine.new 8 2 0 (fun _ => 0) 4096 = some (.ok ⟨⟨8, 64, 2, [⟨4096, 128⟩], 4160, 0,
      true⟩, Function.update (Function.update (fun _ => 0) 4096 0) 4160 4096⟩) := rfl
  have hr : Run ⟨⟨⟨8, 64, 2, [⟨4096, 128⟩], 4160, 0, true⟩,
      Function.update (Function.update (fun _ => 0) 4096 0) 4160 4096⟩, []⟩
      [.allocate 0, .allocate 0, .allocate 8192] _ :=
    .cons (fun h => absurd h (by decide)) rfl (.cons (fun h => absurd h (by decide)) rfl
      (.cons (by unfold Allowed Apart; decide) rfl (.nil _)))
  exact ⟨_, _, h₀, by decide, by decide, hr, rfl,
    allocated_cache_aligned h₀ (by decide) (by decide) hr⟩

/-- After any run from a constructed pool, `allocate` hands out a slot that is not out, and
`getUsedCount`, with fuel for every slot, is the number of slots out. -/
theorem allocate_fresh_and_used_count {m₀ : PoolMachine} {objectSize initialCapacity : UInt64}
    {numaNodeId : Int} {mem : Nat → Nat} {base₀ : Nat}
    (h₀ : new objectSize initialCapacity numaNodeId mem base₀ = some (.ok m₀)) {ops : List PoolOp}
    {s : PoolSys} (hr : Run ⟨m₀, []⟩ ops s) :
    (∀ base p m', s.Allowed (.allocate base) → s.machine.allocate base = some (m', .ok p) →
      p ∉ s.allocated) ∧
    ∀ fuel, (slots s.machine.pool).length ≤ fuel →
      s.machine.getUsedCount fuel = some s.allocated.length.toUInt64 :=
  have hi := hr.inv (inv_new h₀)
  ⟨fun _ p _ ha h => (hi.allocate ha h).2 p rfl |>.1, fun _ hf => hi.getUsedCount hf⟩

theorem allocate_fresh_and_used_count_one_out :
    ∃ m₀ s, PoolMachine.new 8 2 0 (fun _ => 0) 4096 = some (.ok m₀) ∧
      Run ⟨m₀, []⟩ [.allocate 0] s ∧ s.allocated = [4160] ∧
      (∀ base p m', s.Allowed (.allocate base) → s.machine.allocate base = some (m', .ok p) →
        p ∉ s.allocated) ∧
      ∀ fuel, (slots s.machine.pool).length ≤ fuel →
        s.machine.getUsedCount fuel = some s.allocated.length.toUInt64 := by
  have h₀ : PoolMachine.new 8 2 0 (fun _ => 0) 4096 = some (.ok ⟨⟨8, 64, 2, [⟨4096, 128⟩], 4160, 0,
      true⟩, Function.update (Function.update (fun _ => 0) 4096 0) 4160 4096⟩) := rfl
  have hr : Run ⟨⟨⟨8, 64, 2, [⟨4096, 128⟩], 4160, 0, true⟩,
      Function.update (Function.update (fun _ => 0) 4096 0) 4160 4096⟩, []⟩ [.allocate 0] _ :=
    .cons (fun h => absurd h (by decide)) rfl (.nil _)
  exact ⟨_, _, h₀, hr, rfl, allocate_fresh_and_used_count h₀ hr⟩

/-! ## A block whose byte count wraps -/

/-- `MemoryPool(1, 1)`, then `grow(2^58 + 1)` with its block apart from the first: the byte
count `(2^58 + 1) * 64` wraps to 64, one slot, and the loop that links the objects writes past
the block. -/
theorem grow_wraps_block_bytes (mem : Nat → Nat) :
    ∃ m₀, PoolMachine.new 1 1 0 mem 4096 = some (.ok m₀) ∧
      288230376151711745 * m₀.pool.actualObjectSize = 64 ∧
      Allowed ⟨m₀, []⟩ (.grow 288230376151711745 8192) ∧
      step ⟨m₀, []⟩ (.grow 288230376151711745 8192) = none := by
  have ha : alignUp (max 1 pointerSize) cacheLineSize = 64 := rfl
  refine ⟨_, rfl, show (288230376151711745 * 64 : UInt64) = 64 by decide, ?_, ?_⟩
  · intro _ b hb
    simp only [List.nil_append, List.mem_singleton] at hb
    subst hb
    exact .inr (show 4096 + (1 * 64 : UInt64).toNat ≤ 8192 by decide)
  · simp only [step, grow, addNewBlock, ha]
    rfl

end PoolSys

end Classifier
