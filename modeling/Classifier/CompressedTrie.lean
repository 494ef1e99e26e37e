import Mathlib.Data.List.Infix

/-! # The compressed trie

`CompressedTrie` of `compressed_trie.cpp`, whose compressions are placeholders: a character trie
whose nodes may carry a next hop. A `std::string` is its list of `char`s, each a byte. `remove`
only unmarks its node, so unmarked nodes stay behind.

What a trie stores is `get`: the next hop marked at the node a key's walk ends on. `insert` and
`remove` change `get` at their key alone, and `lookup` returns the value of the longest prefix of
the address that `get` knows. -/

namespace Classifier

/-- A `std::unique_ptr<TrieNode>`: `nil` where the `children` map has no entry. -/
inductive TrieNode where
  | nil
  | node (children : UInt8 → TrieNode) (nextHopInfo : Int) (isEndOfPrefix : Bool)

namespace TrieNode

/-- `TrieNode()`. -/
def new : TrieNode := node (fun _ => nil) (-1) false

def child : TrieNode → UInt8 → TrieNode
  | nil, _ => nil
  | node children _ _, c => children c

/-- `current->children[c] = ...`. -/
def setChild : TrieNode → UInt8 → TrieNode → TrieNode
  | nil, _, _ => nil
  | node children h e, c, t => node (fun d => if d = c then t else children d) h e

/-- The node itself, or the node `insert` makes where the map has none. -/
def orNew : TrieNode → TrieNode
  | nil => new
  | n => n

/-- The loop of `insert` from `n`: missing children made, the last node marked with `v`. -/
def insertAt : TrieNode → List UInt8 → Int → TrieNode
  | n, [], v =>
    match n.orNew with
    | node children _ _ => node children v true
    | nil => nil
  | n, c :: cs, v => n.orNew.setChild c (insertAt (n.orNew.child c) cs v)

/-- The loop of `lookup` below `n`: `longest` is the next hop of `longest_match_node` so far. -/
def lookupFrom : TrieNode → List UInt8 → Option Int → Option Int
  | _, [], longest => longest
  | n, c :: cs, longest =>
    match n.child c with
    | nil => longest
    | node children h e => lookupFrom (node children h e) cs (if e then some h else longest)

/-- `remove` from `n`: nothing if the walk leaves the trie, else the last node unmarked. -/
def removeAt : TrieNode → List UInt8 → TrieNode
  | node children _ true, [] => node children (-1) false
  | n, [] => n
  | n, c :: cs =>
    match n.child c with
    | nil => n
    | m => n.setChild c (removeAt m cs)

def get : TrieNode → List UInt8 → Option Int
  | nil, _ => none
  | node _ h e, [] => if e then some h else none
  | node children _ _, c :: cs => get (children c) cs

@[simp] theorem get_nil (k : List UInt8) : get nil k = none := by cases k <;> rfl

theorem get_cons (n : TrieNode) (c : UInt8) (k : List UInt8) :
    get n (c :: k) = get (n.child c) k := by
  cases n <;> simp [get, child]

@[simp] theorem get_orNew (n : TrieNode) (k : List UInt8) : get n.orNew k = get n k := by
  cases n with
  | nil => cases k <;> simp [orNew, new, get]
  | node => rfl

theorem get_setChild (n : TrieNode) (c : UInt8) (t : TrieNode) (k : List UInt8)
    (hn : n ≠ nil) :
    get (n.setChild c t) k =
      match k with
      | [] => get n []
      | d :: k => if d = c then get t k else get n (d :: k) := by
  cases n with
  | nil => exact absurd rfl hn
  | node => cases k <;> simp [setChild, get]; split_ifs <;> simp_all

theorem orNew_ne_nil (n : TrieNode) : n.orNew ≠ nil := by
  cases n <;> simp [orNew, new]

theorem insertAt_ne_nil (n : TrieNode) (s : List UInt8) (v : Int) : insertAt n s v ≠ nil := by
  cases s with
  | nil => cases h : n.orNew <;> simp_all [insertAt, orNew_ne_nil]
  | cons c s => cases h : n.orNew <;> simp_all [insertAt, setChild, orNew_ne_nil]

theorem removeAt_ne_nil {n : TrieNode} (hn : n ≠ nil) (s : List UInt8) : removeAt n s ≠ nil := by
  cases s with
  | nil => cases n with
    | nil => exact hn
    | node children h e => cases e <;> simp [removeAt]
  | cons c s =>
    cases hc : n.child c with
    | nil => simpa [removeAt, hc] using hn
    | node => cases n <;> simp_all [removeAt, setChild]

/-! ## `insert` and `remove` change one key -/

theorem get_insertAt (n : TrieNode) (s : List UInt8) (v : Int) (k : List UInt8) :
    get (insertAt n s v) k = if k = s then some v else get n k := by
  induction s generalizing n k with
  | nil =>
    have := orNew_ne_nil n
    cases h : n.orNew with
    | nil => exact absurd h this
    | node children h' e =>
      cases k with
      | nil => simp [insertAt, h, get]
      | cons d k => simp [insertAt, h, get, ← get_orNew n (d :: k)]
  | cons c s ih =>
    rw [insertAt, get_setChild _ _ _ _ (orNew_ne_nil n)]
    cases k with
    | nil => simp
    | cons d k =>
      by_cases hd : d = c
      · subst hd; simp [ih, ← get_cons]
      · simp [hd]

theorem get_removeAt (n : TrieNode) (s : List UInt8) (k : List UInt8) :
    get (removeAt n s) k = if k = s then none else get n k := by
  induction s generalizing n k with
  | nil =>
    cases n with
    | nil => simp [removeAt]
    | node children h e => cases e <;> cases k <;> simp [removeAt, get]
  | cons c s ih =>
    cases hc : n.child c with
    | nil =>
      -- The walk leaves the trie: nothing is stored at `c :: s`, and nothing changes.
      rw [show removeAt n (c :: s) = n by simp [removeAt, hc]]
      split_ifs with hk
      · rw [hk, get_cons, hc, get_nil]
      · rfl
    | node children h e =>
      have hn : n ≠ nil := by rintro rfl; simp [child] at hc
      rw [show removeAt n (c :: s) = n.setChild c (removeAt (node children h e) s) by
        simp [removeAt, hc], get_setChild _ _ _ _ hn]
      cases k with
      | nil => simp
      | cons d k =>
        by_cases hd : d = c
        · subst hd; simp [ih, get_cons, hc]
        · simp [hd]

/-! ## `lookup` is a longest-prefix match -/

def longestPrefix (f : List UInt8 → Option Int) : List UInt8 → Option Int
  | [] => f []
  | c :: cs => (longestPrefix (fun k => f (c :: k)) cs).or (f [])

theorem longestPrefix_none (a : List UInt8) : longestPrefix (fun _ => none) a = none := by
  induction a with
  | nil => rfl
  | cons c a ih => simp [longestPrefix, ih]

theorem lookupFrom_eq (n : TrieNode) (a : List UInt8) (longest : Option Int) :
    lookupFrom n a ((get n []).or longest) = (longestPrefix (get n) a).or longest := by
  induction a generalizing n longest with
  | nil => rfl
  | cons c a ih =>
    simp only [lookupFrom, longestPrefix, get_cons, Option.or_assoc]
    split
    · rename_i hc
      simp [hc, longestPrefix_none]
    · rename_i children h e hc
      rw [← ih, hc]
      cases e <;> simp [get]

theorem longestPrefix_eq_none {f : List UInt8 → Option Int} {a : List UInt8}
    (h : longestPrefix f a = none) : ∀ k, k <+: a → f k = none := by
  induction a generalizing f with
  | nil => exact fun k hk => by rwa [List.prefix_nil.mp hk]
  | cons c a ih =>
    simp only [longestPrefix, Option.or_eq_none] at h
    intro k hk
    cases k with
    | nil => exact h.2
    | cons d k =>
      obtain ⟨rfl, hpre⟩ := List.cons_prefix_cons.mp hk
      exact ih h.1 k hpre

theorem longestPrefix_eq_some {f : List UInt8 → Option Int} {a : List UInt8} {v : Int}
    (h : longestPrefix f a = some v) :
    ∃ k, k <+: a ∧ f k = some v ∧ ∀ k', k' <+: a → (f k').isSome → k'.length ≤ k.length := by
  induction a generalizing f with
  | nil => exact ⟨[], List.prefix_rfl, h, fun k hk _ => by simp [List.prefix_nil.mp hk]⟩
  | cons c a ih =>
    cases hl : longestPrefix (fun k => f (c :: k)) a with
    | some w =>
      -- A prefix longer than `[]` has the value.
      simp only [longestPrefix, hl, Option.or_some, Option.some.injEq] at h; subst h
      obtain ⟨k, hk, hv, hmax⟩ := ih hl
      refine ⟨c :: k, List.cons_prefix_cons.mpr ⟨rfl, hk⟩, hv, fun k' hk' hs => ?_⟩
      cases k' with
      | nil => simp
      | cons d k' =>
        obtain ⟨rfl, hpre⟩ := List.cons_prefix_cons.mp hk'
        simpa using hmax k' hpre hs
    | none =>
      simp only [longestPrefix, hl, Option.none_or] at h
      refine ⟨[], List.nil_prefix, h, fun k' hk' hs => ?_⟩
      cases k' with
      | nil => rfl
      | cons d k' =>
        obtain ⟨rfl, hpre⟩ := List.cons_prefix_cons.mp hk'
        simp [longestPrefix_eq_none hl k' hpre] at hs

end TrieNode

/-- The trie; its root always exists (`root = std::make_unique<TrieNode>()`). -/
structure CompressedTrie where
  root : TrieNode
  root_ne_nil : root ≠ .nil

namespace CompressedTrie

open TrieNode

def new : CompressedTrie := ⟨TrieNode.new, by simp [TrieNode.new]⟩

def insert (t : CompressedTrie) (ipPrefix : List UInt8) (nextHop : Int) : CompressedTrie :=
  ⟨insertAt t.root ipPrefix nextHop, insertAt_ne_nil _ _ _⟩

/-- `lookup`: the root's own mark first, then the walk; -1 when nothing matched. -/
def lookup (t : CompressedTrie) (ipAddress : List UInt8) : Int :=
  (lookupFrom t.root ipAddress (get t.root [])).getD (-1)

def remove (t : CompressedTrie) (ipPrefix : List UInt8) : CompressedTrie :=
  ⟨removeAt t.root ipPrefix, removeAt_ne_nil t.root_ne_nil _⟩

inductive Op where
  | insert (ipPrefix : List UInt8) (nextHop : Int)
  | remove (ipPrefix : List UInt8)

def apply (t : CompressedTrie) : Op → CompressedTrie
  | .insert ipPrefix nextHop => t.insert ipPrefix nextHop
  | .remove ipPrefix => t.remove ipPrefix

def run (ops : List Op) : CompressedTrie := ops.foldl apply new

/-! ## The map the calls build -/

def mapApply (m : List UInt8 → Option Int) : Op → List UInt8 → Option Int
  | .insert ipPrefix nextHop => fun k => if k = ipPrefix then some nextHop else m k
  | .remove ipPrefix => fun k => if k = ipPrefix then none else m k

def mapOf (ops : List Op) : List UInt8 → Option Int := ops.foldl mapApply fun _ => none

theorem get_run (ops : List Op) : get (run ops).root = mapOf ops := by
  suffices ∀ t m, get t.root = m → get (ops.foldl apply t).root = ops.foldl mapApply m from
    this _ _ (funext fun k => by simp [new, TrieNode.new]; cases k <;> rfl)
  induction ops with
  | nil => exact fun _ _ h => h
  | cons op ops ih =>
    intro t m h
    refine ih _ _ (funext fun k => ?_)
    cases op <;> simp [apply, insert, remove, mapApply, get_insertAt, get_removeAt, h]

theorem lookup_eq (t : CompressedTrie) (a : List UInt8) :
    t.lookup a = (longestPrefix (get t.root) a).getD (-1) := by
  have := lookupFrom_eq t.root a none
  simp only [Option.or_none] at this
  rw [lookup, this]

/-- After any `insert`/`remove` calls, `lookup(a)` is the value of the longest prefix of `a` in
the map they build, or -1 when no prefix of `a` is in it. -/
theorem lookup_longest_prefix (ops : List Op) (a : List UInt8) :
    (∃ k, k <+: a ∧ mapOf ops k = some ((run ops).lookup a) ∧
        ∀ k', k' <+: a → (mapOf ops k').isSome → k'.length ≤ k.length) ∨
      ((∀ k, k <+: a → mapOf ops k = none) ∧ (run ops).lookup a = -1) := by
  rw [lookup_eq, get_run]
  cases h : longestPrefix (mapOf ops) a with
  | some v => exact .inl (by simpa using longestPrefix_eq_some h)
  | none => exact .inr ⟨longestPrefix_eq_none h, rfl⟩

end CompressedTrie

end Classifier
