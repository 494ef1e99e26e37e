import Classifier.RuleMap

/-! # The rule store

`RuleManager` of `threading.cpp`. Each method is the change its body makes to `rules_by_id_` and
`rules_by_priority_cache_`, taken as one step; the locks the bodies take are modelled in
`LockOrder.lean`. The step of `addRule` for a new id and of `modifyRule` for a stored one is what
the body does past `detectConflict`, whose `ReadLockGuard`, nested in the method's own
`WriteLockGuard`, never returns: a run of a thread alone (`LockOrder.lean`) never reaches it. The
cache holds pointers into `rules_by_id_`, named by their keys. -/

namespace Classifier

/-- What the C++ standard promises of `std::sort(first, last, comp)`: a permutation in which
`comp(*j, *i)` is false whenever `j` comes after `i`. Which of two equivalent elements comes first
is not promised. `sorted` is stated for the comparators `rebuildPriorityCache` passes. -/
structure StdSort where
  sort : (Int → Int → Bool) → List Int → List Int
  perm : ∀ comp l, (sort comp l).Perm l
  sorted : ∀ (key : Int → Int) l,
    (sort (fun a b => decide (key a > key b)) l).Pairwise (fun a b => key b ≤ key a)

def insertionStdSort : StdSort where
  sort comp l := l.insertionSort (fun a b => comp b a = false)
  perm comp l := List.perm_insertionSort _ l
  sorted key l := by
    let r : Int → Int → Prop := fun a b => decide (key b > key a) = false
    haveI : IsTotal Int r := ⟨fun a b => by simp only [r, decide_eq_false_iff_not]; omega⟩
    haveI : IsTrans Int r := ⟨fun a b c => by simp only [r, decide_eq_false_iff_not]; omega⟩
    exact (List.sorted_insertionSort r l).imp (fun h => by simpa [r] using h)

structure RuleManager where
  rulesById : RuleMap ClassificationRule := .empty
  rulesByPriorityCache : List Int := []

namespace RuleManager

variable (srt : StdSort)

/-! ## Methods -/

/-- `getRule`: the rule stored under `ruleId`. -/
def getRule (rm : RuleManager) (ruleId : Int) : Option ClassificationRule :=
  rm.rulesById.find? ruleId

/-- `getRulesByPriority`: a copy of the cache. -/
def getRulesByPriority (rm : RuleManager) : List Int := rm.rulesByPriorityCache

/-- `getAllRules`: every stored rule by id, in key order. -/
def getAllRules (rm : RuleManager) : List (Int × ClassificationRule) := rm.rulesById.entries

def priorityOf (rm : RuleManager) (p : Int) : Int :=
  ((rm.getRule p).map (·.priority)).getD 0

/-- `rebuildPriorityCache`: the map's entries in key order, then `std::sort` by priority. -/
def rebuildPriorityCache (rm : RuleManager) : RuleManager :=
  { rm with rulesByPriorityCache :=
      srt.sort (fun a b => decide (rm.priorityOf a > rm.priorityOf b)) rm.rulesById.keys }

/-- `detectConflict` is a placeholder in the source: it finds no conflict. -/
def detectConflict (_rm : RuleManager) (_rule : ClassificationRule) : Bool := false

def addRule (rm : RuleManager) (rule : ClassificationRule) : Bool × RuleManager :=
  if rm.rulesById.contains rule.ruleId then (false, rm)
  else if rm.detectConflict rule then (false, rm)
  else
    let (rulesById, added) := rm.rulesById.emplace rule.ruleId rule
    if added then (true, rebuildPriorityCache srt { rm with rulesById }) else (false, rm)

def deleteRule (rm : RuleManager) (ruleId : Int) : Bool × RuleManager :=
  if rm.rulesById.contains ruleId then
    (true, rebuildPriorityCache srt { rm with rulesById := rm.rulesById.erase ruleId })
  else (false, rm)

/-- `modifyRule` assigns the whole of `new_rule_data`, counters included, and keeps the key. It
rebuilds the cache only when the priority changed or the cache is empty. -/
def modifyRule (rm : RuleManager) (ruleId : Int) (newRuleData : ClassificationRule) :
    Bool × RuleManager :=
  match rm.getRule ruleId with
  | none => (false, rm)
  | some old =>
    if rm.detectConflict { newRuleData with ruleId } then (false, rm)
    else
      let priorityChanged := old.priority != newRuleData.priority
      let rm' := { rm with
        rulesById := rm.rulesById.modify ruleId fun _ => { newRuleData with ruleId } }
      if priorityChanged || rm'.rulesByPriorityCache.isEmpty then
        (true, rebuildPriorityCache srt rm')
      else (true, rm')

def added (rm : RuleManager) (rule : ClassificationRule) : RuleManager :=
  rebuildPriorityCache srt { rm with rulesById := (rm.rulesById.emplace rule.ruleId rule).1 }

def modified (rm : RuleManager) (ruleId : Int) (newRuleData : ClassificationRule) : RuleManager :=
  { rm with rulesById := rm.rulesById.modify ruleId fun _ => { newRuleData with ruleId } }

/-- The statistics methods on one rule: find it, then update it in place. -/
def updateStatistics (rm : RuleManager) (ruleId : Int)
    (f : ClassificationRule → ClassificationRule) : Bool × RuleManager :=
  if rm.rulesById.contains ruleId then
    (true, { rm with rulesById := rm.rulesById.modify ruleId f })
  else (false, rm)

def incrementRuleMatchCount (rm : RuleManager) (ruleId : Int) (timestamp : UInt64) :
    Bool × RuleManager :=
  rm.updateStatistics ruleId fun r =>
    { r with matchCount := r.matchCount + 1, lastMatchTime := timestamp }

def resetRuleStatistics (rm : RuleManager) (ruleId : Int) : Bool × RuleManager :=
  rm.updateStatistics ruleId fun r => { r with matchCount := 0, lastMatchTime := 0 }

def resetAllRuleStatistics (rm : RuleManager) : Bool × RuleManager :=
  (true, { rm with
    rulesById := rm.rulesById.mapValues fun r => { r with matchCount := 0, lastMatchTime := 0 } })

/-! ## Runs -/

inductive Call where
  | addRule (rule : ClassificationRule)
  | deleteRule (ruleId : Int)
  | modifyRule (ruleId : Int) (newRuleData : ClassificationRule)
  | incrementRuleMatchCount (ruleId : Int) (timestamp : UInt64)
  | resetRuleStatistics (ruleId : Int)
  | resetAllRuleStatistics
  deriving DecidableEq, Repr

def call (rm : RuleManager) : Call → Bool × RuleManager
  | .addRule rule => rm.addRule srt rule
  | .deleteRule ruleId => rm.deleteRule srt ruleId
  | .modifyRule ruleId newRuleData => rm.modifyRule srt ruleId newRuleData
  | .incrementRuleMatchCount ruleId timestamp => rm.incrementRuleMatchCount ruleId timestamp
  | .resetRuleStatistics ruleId => rm.resetRuleStatistics ruleId
  | .resetAllRuleStatistics => rm.resetAllRuleStatistics

def runFrom (rm : RuleManager) (calls : List Call) : RuleManager :=
  calls.foldl (fun rm c => (rm.call srt c).2) rm

def run (calls : List Call) : RuleManager := runFrom srt {} calls

/-! ## What each method does to `getRule` -/

variable {srt}

@[simp] theorem rulesById_rebuildPriorityCache (rm : RuleManager) :
    (rm.rebuildPriorityCache srt).rulesById = rm.rulesById := rfl

@[simp] theorem getRule_empty (k : Int) : ({} : RuleManager).getRule k = none := rfl

theorem contains_iff (rm : RuleManager) (k : Int) :
    rm.rulesById.contains k = true ↔ (rm.getRule k).isSome := Iff.rfl

theorem addRule_of_isSome {rm : RuleManager} {rule : ClassificationRule}
    (h : (rm.getRule rule.ruleId).isSome) : rm.addRule srt rule = (false, rm) := by
  simp [addRule, contains_iff, h]

theorem addRule_of_none {rm : RuleManager} {rule : ClassificationRule}
    (h : rm.getRule rule.ruleId = none) : rm.addRule srt rule = (true, rm.added srt rule) := by
  simp [addRule, contains_iff, h, detectConflict, RuleMap.emplace_added, added]

theorem getRule_added {rm : RuleManager} {rule : ClassificationRule}
    (h : rm.getRule rule.ruleId = none) (k : Int) :
    (rm.added srt rule).getRule k = if k = rule.ruleId then some rule else rm.getRule k :=
  RuleMap.find?_emplace rule k h

theorem modifyRule_of_some {rm : RuleManager} {ruleId : Int} {old : ClassificationRule}
    (newRuleData : ClassificationRule) (h : rm.getRule ruleId = some old) :
    rm.modifyRule srt ruleId newRuleData =
      (true, if old.priority ≠ newRuleData.priority ∨ rm.rulesByPriorityCache = [] then
        rebuildPriorityCache srt (rm.modified ruleId newRuleData)
      else rm.modified ruleId newRuleData) := by
  simp only [modifyRule, h, detectConflict, Bool.false_eq_true, if_false, modified, bne_iff_ne,
    Bool.or_eq_true, decide_eq_true_eq, List.isEmpty_iff]
  split_ifs <;> rfl

theorem getRule_updateStatistics (rm : RuleManager) (ruleId : Int)
    (f : ClassificationRule → ClassificationRule) (k : Int) :
    (rm.updateStatistics ruleId f).2.getRule k =
      if k = ruleId then (rm.getRule k).map f else rm.getRule k := by
  unfold updateStatistics
  by_cases h : rm.rulesById.contains ruleId
  · simp only [h, if_true, getRule, RuleMap.find?_modify]
    split_ifs with hk <;> simp [hk]
  · by_cases hk : k = ruleId
    · subst hk
      have hn : rm.getRule k = none := by
        simpa [contains_iff, Option.not_isSome_iff_eq_none] using h
      simp [h, hn]
    · simp [h, hk]

theorem getRule_resetAllRuleStatistics (rm : RuleManager) (k : Int) :
    rm.resetAllRuleStatistics.2.getRule k =
      (rm.getRule k).map fun r => { r with matchCount := 0, lastMatchTime := 0 } :=
  RuleMap.find?_mapValues _ _ k

theorem updateStatistics_of_failed {rm : RuleManager} {ruleId : Int}
    {f : ClassificationRule → ClassificationRule} (h : (rm.updateStatistics ruleId f).1 = false) :
    (rm.updateStatistics ruleId f).2 = rm := by
  unfold updateStatistics at h ⊢
  split_ifs at h ⊢
  rfl

theorem call_of_failed {rm : RuleManager} {c : Call} (h : (rm.call srt c).1 = false) :
    (rm.call srt c).2 = rm := by
  cases c with
  | addRule rule =>
    dsimp only [call, addRule] at h ⊢
    split_ifs at h ⊢ <;> rfl
  | deleteRule ruleId =>
    dsimp only [call, deleteRule] at h ⊢
    split_ifs at h ⊢
    rfl
  | modifyRule ruleId newRuleData =>
    dsimp only [call, modifyRule] at h ⊢
    generalize rm.getRule ruleId = old at h ⊢
    rcases old with _ | old
    · rfl
    · dsimp only at h ⊢
      split_ifs at h ⊢
      rfl
  | incrementRuleMatchCount ruleId timestamp => exact updateStatistics_of_failed h
  | resetRuleStatistics ruleId => exact updateStatistics_of_failed h
  | resetAllRuleStatistics => cases h

end RuleManager

end Classifier
