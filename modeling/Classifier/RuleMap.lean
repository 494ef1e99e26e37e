import Classifier.Rule

/-! # `std::map<int, T>`

Entries with strictly increasing keys, so that iterating them visits keys in order, as a
`std::map` does. A pointer to an entry is named by its key: `std::map` never moves an entry while
it is in the map. -/

namespace Classifier

structure RuleMap (α : Type) where
  entries : List (Int × α)
  sorted : entries.Pairwise (fun a b => a.1 < b.1)

namespace RuleMap

variable {α : Type}

/-! ## Operations -/

def empty : RuleMap α := ⟨[], .nil⟩

def keys (m : RuleMap α) : List Int := m.entries.map (·.1)

def lookupEntry (k : Int) : List (Int × α) → Option α
  | [] => none
  | e :: es => if e.1 = k then some e.2 else lookupEntry k es

/-- `find`: the value at `k`, if there is one. -/
def find? (m : RuleMap α) (k : Int) : Option α := lookupEntry k m.entries

def contains (m : RuleMap α) (k : Int) : Bool := (m.find? k).isSome

def insertEntry (k : Int) (v : α) : List (Int × α) → List (Int × α)
  | [] => [(k, v)]
  | e :: es =>
    if k < e.1 then (k, v) :: e :: es
    else if k = e.1 then e :: es
    else e :: insertEntry k v es

theorem mem_insertEntry {k : Int} {v : α} {es : List (Int × α)} {e : Int × α}
    (h : e ∈ insertEntry k v es) : e = (k, v) ∨ e ∈ es := by
  induction es with
  | nil => simpa [insertEntry] using h
  | cons x xs ih =>
    simp only [insertEntry] at h
    split_ifs at h
    · exact List.mem_cons.mp h
    · exact .inr h
    · rcases List.mem_cons.mp h with rfl | h
      · exact .inr (List.mem_cons_self _ _)
      · exact (ih h).imp_right (List.mem_cons_of_mem _)

theorem sorted_insertEntry (k : Int) (v : α) {es : List (Int × α)}
    (h : es.Pairwise (fun a b => a.1 < b.1)) :
    (insertEntry k v es).Pairwise (fun a b => a.1 < b.1) := by
  induction es with
  | nil => simp [insertEntry]
  | cons x xs ih =>
    rw [List.pairwise_cons] at h
    simp only [insertEntry]
    split_ifs with hlt heq
    · refine List.Pairwise.cons (fun e he => ?_) (List.Pairwise.cons h.1 h.2)
      rcases List.mem_cons.mp he with rfl | he
      · exact hlt
      · exact lt_trans hlt (h.1 e he)
    · exact List.Pairwise.cons h.1 h.2
    · refine List.Pairwise.cons (fun e he => ?_) (ih h.2)
      rcases mem_insertEntry he with rfl | he
      · show x.1 < k; omega
      · exact h.1 e he

/-- `emplace(k, v)`: adds the entry when `k` is absent, and leaves the map alone otherwise. The
flag is `pair.second`, whether it added the entry. -/
def emplace (m : RuleMap α) (k : Int) (v : α) : RuleMap α × Bool :=
  (⟨insertEntry k v m.entries, sorted_insertEntry k v m.sorted⟩, !m.contains k)

/-- `erase(k)`. -/
def erase (m : RuleMap α) (k : Int) : RuleMap α :=
  ⟨m.entries.filter (·.1 != k), m.sorted.sublist (List.filter_sublist _)⟩

theorem sorted_map_snd {f : Int × α → α} (es : List (Int × α))
    (h : es.Pairwise (fun a b => a.1 < b.1)) :
    (es.map fun e => (e.1, f e)).Pairwise (fun a b => a.1 < b.1) :=
  List.pairwise_map.mpr (h.imp id)

/-- `it->second = f(it->second)` at the entry of `k`. -/
def modify (m : RuleMap α) (k : Int) (f : α → α) : RuleMap α :=
  ⟨m.entries.map fun e => (e.1, if e.1 = k then f e.2 else e.2), sorted_map_snd _ m.sorted⟩

/-- `for (auto& pair : m) pair.second = f(pair.second)`. -/
def mapValues (m : RuleMap α) (f : α → α) : RuleMap α :=
  ⟨m.entries.map fun e => (e.1, f e.2), sorted_map_snd _ m.sorted⟩

/-! ## What each operation does to `find?` -/

theorem lookupEntry_insertEntry {k : Int} {v : α} {es : List (Int × α)} (j : Int)
    (h : lookupEntry k es = none) :
    lookupEntry j (insertEntry k v es) = if j = k then some v else lookupEntry j es := by
  induction es with
  | nil => simp [insertEntry, lookupEntry, eq_comm]
  | cons x xs ih =>
    simp only [lookupEntry] at h
    split_ifs at h with hx
    have hk : k ≠ x.1 := fun e => hx e.symm
    simp only [insertEntry, hk, if_false]
    split_ifs <;> simp_all [lookupEntry, eq_comm]

theorem lookupEntry_filter (k j : Int) (es : List (Int × α)) :
    lookupEntry j (es.filter (·.1 != k)) = if j = k then none else lookupEntry j es := by
  induction es with
  | nil => simp [lookupEntry]
  | cons x xs ih =>
    by_cases hx : x.1 = k <;> simp [List.filter_cons, hx, ih, lookupEntry] <;> split_ifs <;> simp_all

theorem lookupEntry_map (g : Int → α → α) (j : Int) (es : List (Int × α)) :
    lookupEntry j (es.map fun e => (e.1, g e.1 e.2)) = (lookupEntry j es).map (g j) := by
  induction es with
  | nil => rfl
  | cons x xs ih => by_cases h : x.1 = j <;> simp [lookupEntry, h, ih]

@[simp] theorem find?_empty (k : Int) : (empty : RuleMap α).find? k = none := rfl

theorem find?_emplace {m : RuleMap α} {k : Int} (v : α) (j : Int) (h : m.find? k = none) :
    (m.emplace k v).1.find? j = if j = k then some v else m.find? j :=
  lookupEntry_insertEntry j h

theorem emplace_added (m : RuleMap α) (k : Int) (v : α) :
    (m.emplace k v).2 = !m.contains k := rfl

theorem find?_erase (m : RuleMap α) (k j : Int) :
    (m.erase k).find? j = if j = k then none else m.find? j :=
  lookupEntry_filter k j m.entries

theorem find?_modify (m : RuleMap α) (k j : Int) (f : α → α) :
    (m.modify k f).find? j = if j = k then (m.find? k).map f else m.find? j := by
  rw [find?, modify, lookupEntry_map (fun i v => if i = k then f v else v) j]
  split_ifs with h
  · subst h; rfl
  · simp [find?]

theorem find?_mapValues (m : RuleMap α) (f : α → α) (j : Int) :
    (m.mapValues f).find? j = (m.find? j).map f :=
  lookupEntry_map (fun _ => f) j m.entries

/-! ## Keys -/

theorem mem_keys (m : RuleMap α) (k : Int) : k ∈ m.keys ↔ (m.find? k).isSome := by
  rw [keys, find?]
  induction m.entries with
  | nil => simp only [List.map_nil, List.not_mem_nil, lookupEntry, Option.isSome_none,
      Bool.false_eq_true]
  | cons x xs ih =>
    by_cases h : x.1 = k
    · simp only [List.map_cons, List.mem_cons, lookupEntry, h, if_true, true_or, Option.isSome_some]
    · simp only [List.map_cons, List.mem_cons, lookupEntry, h, if_false, ← ih]
      exact or_iff_right (Ne.symm h)

theorem keys_nodup (m : RuleMap α) : m.keys.Nodup :=
  (List.pairwise_map.mpr m.sorted).imp (fun h => ne_of_lt h)

@[simp] theorem keys_modify (m : RuleMap α) (k : Int) (f : α → α) :
    (m.modify k f).keys = m.keys := by
  simp [keys, modify, Function.comp_def]

@[simp] theorem keys_mapValues (m : RuleMap α) (f : α → α) : (m.mapValues f).keys = m.keys := by
  simp [keys, mapValues, Function.comp_def]

end RuleMap

end Classifier
