import Mathlib.Data.List.Basic

/-! # The Bloom filter

`BloomFilter` of `bloom_filter.cpp`. The bit positions come from two base hashes: `std::hash` of
the bytes, the parameter `stdHash`, and DJB2 in `uint64_t`. The second constructor's
`calculateOptimalParams` works in `double`; its two `static_cast`s are the inputs `rawSize` and
`rawHashes`, and the rest of its control flow is kept. A filter only ever sets bits, so nothing
inserted is ever reported absent. -/

namespace Classifier

structure BloomFilter where
  bitArraySize : UInt64
  numHashFunctions : Int
  bitArray : List Bool
  currentInsertions : UInt64
  deriving DecidableEq, Repr

namespace BloomFilter

/-- `BloomFilter(size, num_hashes)`: a zero size becomes 1024, a non-positive count 3. -/
def ofSize (size : UInt64) (numHashes : Int) : BloomFilter :=
  let bitArraySize := if size = 0 then 1024 else size
  { bitArraySize, numHashFunctions := if numHashes ≤ 0 then 3 else numHashes,
    bitArray := List.replicate bitArraySize.toNat false, currentInsertions := 0 }

/-- `calculateOptimalParams(num_items, false_positive_prob)`. `probValid` is
`0 < false_positive_prob < 1`; `rawSize` and `rawHashes` are the casts of the `ceil` formulas of
the branch taken. -/
def calculateOptimalParams (numItems : UInt64) (probValid : Bool) (rawSize : UInt64)
    (rawHashes : Nat) : UInt64 × Int :=
  if numItems = 0 ∨ !probValid then
    if numItems = 0 ∧ probValid then
      (if rawSize = 0 then 100 else rawSize, if rawHashes = 0 then 1 else rawHashes)
    else (1024, 3)
  else
    let k : Int := if rawHashes = 0 then 1 else rawHashes
    (if rawSize = 0 then 100 else rawSize, if k > 16 then 16 else k)

/-- `BloomFilter(num_items, false_positive_prob)`. -/
def ofParams (numItems : UInt64) (probValid : Bool) (rawSize : UInt64) (rawHashes : Nat) :
    BloomFilter :=
  let (size, numHashes) := calculateOptimalParams numItems probValid rawSize rawHashes
  let bitArraySize := if size = 0 then 1024 else size
  { bitArraySize, numHashFunctions := numHashes,
    bitArray := List.replicate bitArraySize.toNat false, currentInsertions := 0 }

inductive Ctor where
  | ofSize (size : UInt64) (numHashes : Int)
  | ofParams (numItems : UInt64) (probValid : Bool) (rawSize : UInt64) (rawHashes : Nat)

def Ctor.build : Ctor → BloomFilter
  | .ofSize size numHashes => BloomFilter.ofSize size numHashes
  | .ofParams numItems probValid rawSize rawHashes =>
    BloomFilter.ofParams numItems probValid rawSize rawHashes

inductive Item where
  | bytes (data : List UInt8)
  | string (item : String)

/-- The bytes the call hashes; the string overloads pass `c_str()` and `length()`. -/
def Item.data : Item → List UInt8
  | .bytes data => data
  | .string item => item.toUTF8.toList

/-- `hashFunction2`: DJB2, `hash * 33 + c` from 5381. -/
def hashFunction2 (data : List UInt8) : UInt64 :=
  data.foldl (fun h c => (h <<< 5) + h + c.toUInt64) 5381

section Hashing

variable (stdHash : List UInt8 → UInt64)

/-- `hash(data, len)`: position `i` is `h1`, `h2`, or `h1 + i * (h2 + i + 1)`, all modulo the
size. -/
def hash (b : BloomFilter) (data : List UInt8) : List UInt64 :=
  if b.numHashFunctions = 0 ∨ b.bitArraySize = 0 then []
  else
    let h1 := stdHash data
    let h2 := if b.numHashFunctions > 1 then hashFunction2 data else 0
    (List.range b.numHashFunctions.toNat).map fun i =>
      if i = 0 then h1 % b.bitArraySize
      else if i = 1 ∧ b.numHashFunctions > 1 then h2 % b.bitArraySize
      else (h1 + i.toUInt64 * (h2 + i.toUInt64 + 1)) % b.bitArraySize

/-- `insert(data, len)`. -/
def insert (b : BloomFilter) (data : List UInt8) : BloomFilter :=
  if b.bitArraySize = 0 then b
  else { b with
    bitArray := (b.hash stdHash data).foldl (fun bits h => bits.set h.toNat true) b.bitArray,
    currentInsertions := b.currentInsertions + 1 }

/-- `possiblyContains(data, len)`. -/
def possiblyContains (b : BloomFilter) (data : List UInt8) : Bool :=
  if b.bitArraySize = 0 then false
  else (b.hash stdHash data).all fun h => b.bitArray.getD h.toNat false

/-- The `std::string` overloads pass the string's bytes. -/
def insertString (b : BloomFilter) (item : String) : BloomFilter :=
  b.insert stdHash item.toUTF8.toList

def possiblyContainsString (b : BloomFilter) (item : String) : Bool :=
  b.possiblyContains stdHash item.toUTF8.toList

def insertItem (b : BloomFilter) : Item → BloomFilter
  | .bytes data => b.insert stdHash data
  | .string item => b.insertString stdHash item

def possiblyContainsItem (b : BloomFilter) : Item → Bool
  | .bytes data => b.possiblyContains stdHash data
  | .string item => b.possiblyContainsString stdHash item

end Hashing

/-! ## Bits are only ever set -/

theorem getD_set_true (bits : List Bool) (j i : Nat) :
    (bits.set j true).getD i false = (bits.getD i false || (j == i && decide (i < bits.length))) := by
  simp only [List.getD_eq_getElem?_getD, List.getElem?_set]
  by_cases hji : j = i
  · subst hji
    by_cases hlt : j < bits.length
    · simp [hlt, List.getElem?_eq_getElem]
    · simp [hlt, List.getElem?_eq_none (Nat.le_of_not_lt hlt)]
  · simp [hji]

theorem length_foldl_set (hs : List UInt64) (bits : List Bool) :
    (hs.foldl (fun bits h => bits.set h.toNat true) bits).length = bits.length := by
  induction hs generalizing bits <;> simp [*]

theorem getD_foldl_set (hs : List UInt64) (bits : List Bool) (i : Nat) :
    (hs.foldl (fun bits h => bits.set h.toNat true) bits).getD i false =
      (bits.getD i false || decide (i < bits.length ∧ ∃ x ∈ hs, x.toNat = i)) := by
  induction hs generalizing bits with
  | nil => simp
  | cons x hs ih =>
    rw [List.foldl_cons, ih, getD_set_true, List.length_set]
    by_cases hi : i < bits.length
    · by_cases hx : x.toNat = i
      · simp [hi, hx]
      · simp [hi, hx, beq_eq_false_iff_ne.mpr hx]
    · simp [hi]

theorem eq_of_getD_eq {l₁ l₂ : List Bool} (hl : l₁.length = l₂.length)
    (h : ∀ i, l₁.getD i false = l₂.getD i false) : l₁ = l₂ :=
  List.ext_getElem hl fun n h₁ h₂ => by
    simpa [List.getD_eq_getElem?_getD, List.getElem?_eq_getElem h₁, List.getElem?_eq_getElem h₂]
      using h n

theorem getD_foldl_set_of_getD {hs : List UInt64} {bits : List Bool} {i : Nat}
    (h : bits.getD i false = true) :
    (hs.foldl (fun bits h => bits.set h.toNat true) bits).getD i false = true := by
  induction hs generalizing bits with
  | nil => exact h
  | cons x hs ih => exact ih (by rw [getD_set_true, h, Bool.true_or])

theorem getD_foldl_set_of_mem {hs : List UInt64} {bits : List Bool} {x : UInt64} (hx : x ∈ hs)
    (hlt : x.toNat < bits.length) :
    (hs.foldl (fun bits h => bits.set h.toNat true) bits).getD x.toNat false = true := by
  induction hs generalizing bits with
  | nil => cases hx
  | cons y hs ih =>
    rcases List.mem_cons.mp hx with rfl | hx
    · show (hs.foldl _ (bits.set x.toNat true)).getD x.toNat false = true
      exact getD_foldl_set_of_getD (by rw [getD_set_true]; simp [hlt])
    · exact ih hx (by simpa using hlt)

/-! ## No false negatives -/

structure Wf (b : BloomFilter) : Prop where
  size_ne_zero : b.bitArraySize ≠ 0
  length_bitArray : b.bitArray.length = b.bitArraySize.toNat

theorem wf_ofSize (size : UInt64) (numHashes : Int) : Wf (ofSize size numHashes) := by
  refine ⟨?_, by simp [ofSize]⟩
  simp only [ofSize]
  split <;> simp_all

theorem wf_ofParams (numItems : UInt64) (probValid : Bool) (rawSize : UInt64) (rawHashes : Nat) :
    Wf (ofParams numItems probValid rawSize rawHashes) := by
  refine ⟨?_, by simp [ofParams]⟩
  simp only [ofParams]
  split <;> simp_all

theorem Ctor.wf_build (c : Ctor) : Wf c.build := by
  cases c
  · exact wf_ofSize ..
  · exact wf_ofParams ..

section Hashing

variable (stdHash : List UInt8 → UInt64) {b : BloomFilter}

theorem hash_lt (h : Wf b) (data : List UInt8) :
    ∀ x ∈ b.hash stdHash data, x.toNat < b.bitArray.length := by
  intro x hx
  have hpos : 0 < b.bitArraySize.toNat :=
    Nat.pos_of_ne_zero fun h0 => h.size_ne_zero (UInt64.toNat.inj (by simpa using h0))
  rw [h.length_bitArray]
  unfold hash at hx
  rw [if_neg fun hz => hz.elim (fun hz => by simp [hz] at hx) h.size_ne_zero] at hx
  obtain ⟨i, -, rfl⟩ := List.mem_map.mp hx
  split_ifs <;> rw [UInt64.toNat_mod] <;> exact Nat.mod_lt _ hpos

@[simp] theorem hash_insert (b : BloomFilter) (data x : List UInt8) :
    (b.insert stdHash data).hash stdHash x = b.hash stdHash x := by
  unfold insert; split <;> rfl

theorem Wf.insert (h : Wf b) (data : List UInt8) : Wf (b.insert stdHash data) := by
  unfold BloomFilter.insert
  split
  · exact h
  · exact ⟨h.size_ne_zero, by simp [length_foldl_set, h.length_bitArray]⟩

theorem possiblyContains_iff (h : Wf b) (data : List UInt8) :
    b.possiblyContains stdHash data = true ↔
      ∀ x ∈ b.hash stdHash data, b.bitArray.getD x.toNat false = true := by
  simp [possiblyContains, h.size_ne_zero]

theorem possiblyContains_insert_of (h : Wf b) {x : List UInt8}
    (hx : b.possiblyContains stdHash x = true) (data : List UInt8) :
    (b.insert stdHash data).possiblyContains stdHash x = true := by
  rw [possiblyContains_iff stdHash (h.insert stdHash data), hash_insert]
  intro p hp
  have := (possiblyContains_iff stdHash h x).mp hx p hp
  simp only [BloomFilter.insert, h.size_ne_zero, if_false]
  exact getD_foldl_set_of_getD this

theorem possiblyContains_insert_self (h : Wf b) (data : List UInt8) :
    (b.insert stdHash data).possiblyContains stdHash data = true := by
  rw [possiblyContains_iff stdHash (h.insert stdHash data), hash_insert]
  intro p hp
  simp only [BloomFilter.insert, h.size_ne_zero, if_false]
  exact getD_foldl_set_of_mem hp (hash_lt stdHash h data p hp)

theorem possiblyContains_after_inserts (h : Wf b) (data : List UInt8) (later : List (List UInt8)) :
    (later.foldl (insert stdHash) (b.insert stdHash data)).possiblyContains stdHash data = true := by
  suffices ∀ b', Wf b' → b'.possiblyContains stdHash data = true →
      (later.foldl (insert stdHash) b').possiblyContains stdHash data = true from
    this _ (h.insert stdHash data) (possiblyContains_insert_self stdHash h data)
  induction later with
  | nil => exact fun _ _ hb => hb
  | cons y later ih =>
    exact fun b' hw hb => ih _ (hw.insert stdHash y) (possiblyContains_insert_of stdHash hw hb y)

theorem Wf.foldl_insert (h : Wf b) (items : List (List UInt8)) :
    Wf (items.foldl (BloomFilter.insert stdHash) b) := by
  induction items generalizing b with
  | nil => exact h
  | cons data items ih => exact ih (h.insert stdHash data)

theorem insertItem_eq (b : BloomFilter) (x : Item) :
    b.insertItem stdHash x = b.insert stdHash x.data := by
  cases x <;> rfl

theorem possiblyContainsItem_eq (b : BloomFilter) (x : Item) :
    b.possiblyContainsItem stdHash x = b.possiblyContains stdHash x.data := by
  cases x <;> rfl

theorem foldl_insertItem (b : BloomFilter) (items : List Item) :
    items.foldl (insertItem stdHash) b = (items.map Item.data).foldl (insert stdHash) b := by
  rw [List.foldl_map]
  exact congrArg (items.foldl · b) (funext₂ (insertItem_eq stdHash))

/-- Whichever constructor built the filter, and whatever was inserted before and after, through
either overload, an inserted item is reported present at every later point. -/
theorem possiblyContains_of_inserted (c : Ctor) (before after : List Item) (x : Item) :
    let b := (before.foldl (insertItem stdHash) c.build).insertItem stdHash x
    (after.foldl (insertItem stdHash) b).possiblyContainsItem stdHash x = true := by
  simp only [foldl_insertItem, insertItem_eq, possiblyContainsItem_eq]
  exact possiblyContains_after_inserts stdHash (c.wf_build.foldl_insert stdHash _) x.data _

/-! ## Only the set of items counts -/

theorem getD_bitArray_foldl_insert (h : Wf b) (items : List (List UInt8)) (i : Nat) :
    (items.foldl (insert stdHash) b).bitArray.getD i false =
      (b.bitArray.getD i false ||
        decide (i < b.bitArray.length ∧ ∃ d ∈ items, ∃ x ∈ b.hash stdHash d, x.toNat = i)) := by
  induction items generalizing b with
  | nil => simp
  | cons d items ih =>
    have hd : (b.insert stdHash d).bitArray =
        (b.hash stdHash d).foldl (fun bits h => bits.set h.toNat true) b.bitArray := by
      simp only [BloomFilter.insert, h.size_ne_zero, if_false]
    rw [List.foldl_cons, ih (h.insert stdHash d)]
    simp only [hash_insert, hd, getD_foldl_set, length_foldl_set]
    by_cases hi : i < b.bitArray.length <;> simp [hi, Bool.or_assoc]

theorem bitArraySize_foldl_insert (items : List (List UInt8)) (b : BloomFilter) :
    (items.foldl (insert stdHash) b).bitArraySize = b.bitArraySize := by
  induction items generalizing b with
  | nil => rfl
  | cons d items ih => rw [List.foldl_cons, ih]; unfold BloomFilter.insert; split <;> rfl

theorem numHashFunctions_foldl_insert (items : List (List UInt8)) (b : BloomFilter) :
    (items.foldl (insert stdHash) b).numHashFunctions = b.numHashFunctions := by
  induction items generalizing b with
  | nil => rfl
  | cons d items ih => rw [List.foldl_cons, ih]; unfold BloomFilter.insert; split <;> rfl

theorem hash_foldl_insert (items : List (List UInt8)) (b : BloomFilter) (data : List UInt8) :
    (items.foldl (insert stdHash) b).hash stdHash data = b.hash stdHash data := by
  simp only [hash, numHashFunctions_foldl_insert, bitArraySize_foldl_insert]

theorem hash_ne_nil (h : Wf b) (hk : 0 < b.numHashFunctions) (data : List UInt8) :
    b.hash stdHash data ≠ [] := by
  rw [hash, if_neg fun hz => hz.elim (fun hz => by omega) h.size_ne_zero]
  simp only [ne_eq, List.map_eq_nil_iff, List.range_eq_nil]
  omega

theorem Ctor.getD_bitArray_build (c : Ctor) (i : Nat) : c.build.bitArray.getD i false = false := by
  have hclear (n : Nat) : (List.replicate n false).getD i false = false := by
    rw [List.getD_eq_getElem?_getD, List.getElem?_replicate]
    split <;> rfl
  cases c <;> exact hclear _

theorem Ctor.numHashFunctions_pos (c : Ctor) : 0 < c.build.numHashFunctions := by
  cases c with
  | ofSize size numHashes =>
    simp only [Ctor.build, BloomFilter.ofSize]
    split <;> omega
  | ofParams numItems probValid rawSize rawHashes =>
    simp only [Ctor.build, BloomFilter.ofParams, calculateOptimalParams]
    split_ifs <;> omega

/-- After any insertions, through either overload, into a filter fresh from either constructor,
`possiblyContains(x)` is `true` exactly when every position `x` hashes to is a position of some
inserted item; and `x` hashes to at least one position, so the filter reports nothing before
the first insertion. -/
theorem possiblyContains_iff_covered (c : Ctor) (items : List Item) (x : Item) :
    c.build.hash stdHash x.data ≠ [] ∧
      ((items.foldl (insertItem stdHash) c.build).possiblyContainsItem stdHash x = true ↔
        ∀ p ∈ c.build.hash stdHash x.data, ∃ d ∈ items, p ∈ c.build.hash stdHash d.data) := by
  have hw := c.wf_build
  refine ⟨hash_ne_nil stdHash hw c.numHashFunctions_pos _, ?_⟩
  rw [foldl_insertItem, possiblyContainsItem_eq, possiblyContains_iff stdHash (hw.foldl_insert stdHash _),
    hash_foldl_insert]
  refine forall₂_congr fun p hp => ?_
  rw [getD_bitArray_foldl_insert stdHash hw, Ctor.getD_bitArray_build, Bool.false_or,
    decide_eq_true_iff]
  simp only [hash_lt stdHash hw _ p hp, true_and, List.mem_map]
  constructor
  · rintro ⟨_, ⟨d, hd, rfl⟩, y, hy, hyp⟩
    exact ⟨d, hd, UInt64.toNat.inj hyp ▸ hy⟩
  · rintro ⟨d, hd, hpd⟩
    exact ⟨_, ⟨d, hd, rfl⟩, p, hpd, rfl⟩

/-- Two insertion sequences with the same items, in any order and with any repetitions, leave
filters that differ at most in `currentInsertions`, so no query can tell them apart. -/
theorem filter_eq_of_same_items (c : Ctor) {xs ys : List Item}
    (h : ∀ d, d ∈ xs.map Item.data ↔ d ∈ ys.map Item.data) :
    { xs.foldl (insertItem stdHash) c.build with currentInsertions := 0 } =
        { ys.foldl (insertItem stdHash) c.build with currentInsertions := 0 } ∧
      ∀ q, (xs.foldl (insertItem stdHash) c.build).possiblyContainsItem stdHash q =
        (ys.foldl (insertItem stdHash) c.build).possiblyContainsItem stdHash q := by
  have hw := c.wf_build
  have hbits : (xs.foldl (insertItem stdHash) c.build).bitArray =
      (ys.foldl (insertItem stdHash) c.build).bitArray := by
    simp only [foldl_insertItem]
    refine eq_of_getD_eq ?_ fun i => ?_
    · simp only [(hw.foldl_insert stdHash _).length_bitArray, bitArraySize_foldl_insert]
    · simp only [getD_bitArray_foldl_insert stdHash hw, h]
  have hrec : { xs.foldl (insertItem stdHash) c.build with currentInsertions := 0 } =
      { ys.foldl (insertItem stdHash) c.build with currentInsertions := 0 } := by
    simp only [foldl_insertItem] at hbits ⊢
    rw [BloomFilter.mk.injEq]
    exact ⟨by rw [bitArraySize_foldl_insert, bitArraySize_foldl_insert],
      by rw [numHashFunctions_foldl_insert, numHashFunctions_foldl_insert], hbits, rfl⟩
  refine ⟨hrec, fun q => ?_⟩
  have hq : ∀ b : BloomFilter, b.possiblyContainsItem stdHash q =
      { b with currentInsertions := 0 }.possiblyContainsItem stdHash q := fun _ => by
    cases q <;> rfl
  rw [hq, hrec, ← hq]

end Hashing

theorem filter_eq_of_same_items_swapped :
    (∀ d, d ∈ [Item.bytes [1], Item.string "a"].map Item.data ↔
        d ∈ [Item.string "a", Item.bytes [1], Item.string "a"].map Item.data) ∧
      { [Item.bytes [1], Item.string "a"].foldl (insertItem fun d => d.length.toUInt64)
          (Ctor.ofSize 8 2).build with currentInsertions := 0 } =
        { [Item.string "a", Item.bytes [1], Item.string "a"].foldl
          (insertItem fun d => d.length.toUInt64) (Ctor.ofSize 8 2).build with currentInsertions := 0 } :=
  have h : ∀ d, d ∈ [Item.bytes [1], Item.string "a"].map Item.data ↔
      d ∈ [Item.string "a", Item.bytes [1], Item.string "a"].map Item.data := fun d => by
    simp only [List.map_cons, List.map_nil, List.mem_cons, List.mem_singleton]
    tauto
  ⟨h, (filter_eq_of_same_items _ (.ofSize 8 2) h).1⟩

end BloomFilter

end Classifier
