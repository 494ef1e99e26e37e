import Mathlib.Data.List.Basic

/-! # The memory pool

`MemoryPool` of `part_004`: slots of `actual_object_size` bytes carved from blocks, the free ones
threaded into a list through their first word. Addresses are `Nat`, 0 is `nullptr`, and `mem`
holds the first word of every address. Sizes are `size_t`, so `UInt64`. `allocateNumaMemory` is the
allocator: a call that may need a block takes the address it returns, 0 when it fails; of its body
the model keeps the alignment it asks for, `blockAlignment`. A write past the end of the new block
in `addNewBlock`'s loop is undefined behaviour, and the model returns `none` there. -/

namespace Classifier

/-- `CACHE_LINE_SIZE`. -/
def cacheLineSize : UInt64 := 64

/-- `alignof(std::max_align_t)` on x86-64. -/
def maxAlign : UInt64 := 16

/-- `sizeof(std::byte*)`. -/
def pointerSize : UInt64 := 8

/-- `alignUp(size, alignment)`, in `size_t`. -/
def alignUp (size alignment : UInt64) : UInt64 := (size + alignment - 1) &&& ~~~(alignment - 1)

/-! ## The alignment `allocateNumaMemory` asks for -/

/-- `(alignment & (alignment - 1)) != 0 || alignment == 0`: not a power of two. -/
def notPowerOfTwo (alignment : UInt64) : Bool :=
  alignment &&& (alignment - 1) != 0 || alignment == 0

/-- `while (pot_alignment < target) pot_alignment <<= 1;` for at most `fuel` rounds, `none` when a
doubling overflows to 0, where `allocateNumaMemory` takes its fallback. From 1, 64 doublings reach
0, so 64 rounds end every such loop. -/
def doubleUntil (target : UInt64) : Nat → UInt64 → Option UInt64
  | 0, pot => if pot < target then none else some pot
  | fuel + 1, pot =>
    if pot < target then
      if pot <<< 1 = 0 then none else doubleUntil target fuel (pot <<< 1)
    else some pot

/-- `alignment_final` of `allocateNumaMemory(bytes, numa_node_id, align_to_cache_line)`: made a
power of two, then a multiple of `sizeof(void*)`, then the last fallback. That fallback's loop
has no overflow check; its target is the constant `alignof(std::max_align_t)`. -/
def numaAlignment (alignToCacheLine : Bool) : UInt64 :=
  let requested := if alignToCacheLine then cacheLineSize else maxAlign
  let step1 :=
    if notPowerOfTwo requested then (doubleUntil requested 64 1).getD cacheLineSize else requested
  let step2 :=
    if step1 % pointerSize != 0 then
      let rounded := (step1 + pointerSize - 1) &&& ~~~(pointerSize - 1)
      if notPowerOfTwo rounded then
        (doubleUntil (max requested pointerSize) 64 1).getD cacheLineSize
      else rounded
    else step1
  if notPowerOfTwo step2 || step2 % pointerSize != 0 then
    let fallback := max maxAlign pointerSize
    if fallback &&& (fallback - 1) != 0 then (doubleUntil fallback 64 1).getD fallback
    else fallback
  else step2

/-- The alignment of the memory `allocateNumaMemory` returns: `posix_memalign` is asked for
`alignment_final` when the cache line is requested or `alignment_final` exceeds
`alignof(std::max_align_t)`, and `malloc` gives `alignof(std::max_align_t)` otherwise. -/
def blockAlignment (alignToCacheLine : Bool) : UInt64 :=
  if alignToCacheLine || numaAlignment alignToCacheLine > maxAlign then
    numaAlignment alignToCacheLine
  else maxAlign

structure PoolBlock where
  memory : Nat
  capacityBytes : UInt64
  deriving DecidableEq, Repr

structure MemoryPool where
  requestedObjectSize : UInt64
  actualObjectSize : UInt64
  currentCapacityObjects : UInt64
  memoryBlocks : List PoolBlock
  freeListHead : Nat
  numaNode : Int
  cacheAlignObjects : Bool
  deriving DecidableEq, Repr

/-- The exceptions the pool throws. -/
inductive PoolError where
  | invalidArgument
  | badAlloc
  | runtimeError
  deriving DecidableEq, Repr

/-- The pool, and the first word at every address. -/
structure PoolMachine where
  pool : MemoryPool
  mem : Nat → Nat

namespace PoolMachine

/-- The loop of `addNewBlock` from `current_object_ptr = ptr`, with `n` objects left: each is
pushed on the free list through its first word. -/
def linkObjects (objectSize : Nat) : Nat → Nat → (Nat → Nat) → Nat → Nat × (Nat → Nat)
  | 0, _, mem, head => (head, mem)
  | n + 1, ptr, mem, head =>
    linkObjects objectSize n (ptr + objectSize) (Function.update mem ptr head) ptr

/-- `addNewBlock(num_objects_in_block)`, the allocator returning `base`. The byte count is a
`size_t` product. -/
def addNewBlock (m : PoolMachine) (numObjects : UInt64) (base : Nat) : Option (Bool × PoolMachine) :=
  if numObjects = 0 then some (true, m)
  else
    let blockSizeBytes := numObjects * m.pool.actualObjectSize
    if blockSizeBytes = 0 ∨ base = 0 then some (false, m)
    else if (numObjects.toNat - 1) * m.pool.actualObjectSize.toNat + pointerSize.toNat >
        blockSizeBytes.toNat then none
    else
      let linked := linkObjects m.pool.actualObjectSize.toNat numObjects.toNat base m.mem
        m.pool.freeListHead
      let pool := { m.pool with
        freeListHead := linked.1
        memoryBlocks := m.pool.memoryBlocks ++ [⟨base, blockSizeBytes⟩]
        currentCapacityObjects := m.pool.currentCapacityObjects + numObjects }
      some (true, ⟨pool, linked.2⟩)

/-- The end of `allocate`: the head of the free list is taken. -/
def takeFree (m : PoolMachine) : PoolMachine × Except PoolError Nat :=
  if m.pool.freeListHead = 0 then (m, .error .runtimeError)
  else ({ m with pool := { m.pool with freeListHead := m.mem m.pool.freeListHead } },
    .ok m.pool.freeListHead)

/-- `allocate()`: the pool after the call, and the slot or the exception thrown. An empty free
list first grows the pool by its capacity, or by 1024. -/
def allocate (m : PoolMachine) (base : Nat) : Option (PoolMachine × Except PoolError Nat) :=
  if m.pool.freeListHead = 0 then
    let objectsToAdd : UInt64 :=
      if m.pool.currentCapacityObjects > 0 then m.pool.currentCapacityObjects else 1024
    match m.addNewBlock objectsToAdd base with
    | none => none
    | some (false, m') => some (m', .error .badAlloc)
    | some (true, m') => some m'.takeFree
  else some m.takeFree

/-- `deallocate(ptr)`: a null pointer is ignored. -/
def deallocate (m : PoolMachine) (ptr : Nat) : PoolMachine :=
  if ptr = 0 then m
  else { pool := { m.pool with freeListHead := ptr },
         mem := Function.update m.mem ptr m.pool.freeListHead }

/-- `grow(additional_objects)`. -/
def grow (m : PoolMachine) (additionalObjects : UInt64) (base : Nat) : Option (Bool × PoolMachine) :=
  m.addNewBlock additionalObjects base

/-- The `while (current)` of `getUsedCount`, for at most `fuel` nodes: `none` when they run out. -/
def countFree (mem : Nat → Nat) : Nat → Nat → Option Nat
  | 0, current => if current = 0 then some 0 else none
  | fuel + 1, current =>
    if current = 0 then some 0 else (countFree mem fuel (mem current)).map (· + 1)

/-- `getUsedCount()`, a `size_t` difference. -/
def getUsedCount (m : PoolMachine) (fuel : Nat) : Option UInt64 :=
  (countFree m.mem fuel m.pool.freeListHead).map fun freeCount =>
    m.pool.currentCapacityObjects - freeCount.toUInt64

/-- `MemoryPool(object_size, initial_capacity, numa_node_id)` over memory `mem`. -/
def new (objectSize initialCapacity : UInt64) (numaNodeId : Int) (mem : Nat → Nat) (base : Nat) :
    Option (Except PoolError PoolMachine) :=
  if objectSize = 0 ∨ initialCapacity = 0 then some (.error .invalidArgument)
  else
    let cacheAlignObjects := true
    let minSize := max objectSize pointerSize
    let actualObjectSize :=
      if cacheAlignObjects then alignUp minSize cacheLineSize else alignUp minSize maxAlign
    let m : PoolMachine :=
      ⟨⟨objectSize, actualObjectSize, 0, [], 0, numaNodeId, cacheAlignObjects⟩, mem⟩
    match m.addNewBlock initialCapacity base with
    | none => none
    | some (false, _) => some (.error .badAlloc)
    | some (true, m') => some (.ok m')

end PoolMachine

end Classifier
