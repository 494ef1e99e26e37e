import Classifier.PriorityCache
import Mathlib.Algebra.Group.Nat.Basic
import Mathlib.Data.UInt

/-! # Classification

`PacketClassifier` of `packet_classifier.cpp`, one call at a time. Its tries and interval trees
are updated by placeholders that only log, and no result reads its Bloom filter, so the state
here is the rule store; `PreFilter.lean` puts the filter back and proves it reaches no result.
`classify` reads the clock for `last_match_time`; the time is an argument. -/

namespace Classifier

structure PacketClassifier where
  useBloomFilter : Bool
  ruleManager : RuleManager := {}

namespace PacketClassifier

variable (srt : StdSort)

/-! ## Calls -/

/-- The loop of `classify` over the snapshot: the first rule that is enabled and whose filter
matches. A pointer of the snapshot always names a stored rule (`CacheInv`). -/
def firstMatch (rm : RuleManager) (header : PacketHeader) : List Int → Option ClassificationRule
  | [] => none
  | p :: ps =>
    match rm.getRule p with
    | some rule => if rule.admits header then some rule else firstMatch rm header ps
    | none => firstMatch rm header ps

/-- `classify`: the winner's result, and its match count raised. -/
def classify (pc : PacketClassifier) (header : PacketHeader) (now : UInt64) :
    ClassificationResult × PacketClassifier :=
  match firstMatch pc.ruleManager header pc.ruleManager.getRulesByPriority with
  | some rule =>
    (rule.result,
      { pc with ruleManager := (pc.ruleManager.incrementRuleMatchCount rule.ruleId now).2 })
  | none => (noMatch, pc)

def classifyBatch (pc : PacketClassifier) (headers : List PacketHeader) (now : UInt64) :
    List ClassificationResult × PacketClassifier :=
  headers.foldl (fun (out, pc) header =>
    let (res, pc) := pc.classify header now
    (out ++ [res], pc)) ([], pc)

/-- `updateSpecializedStructuresForRule`: its index updates are placeholders, so it fails only
when `getRule` does not find the rule. -/
def updateSpecializedStructuresForRule (rm : RuleManager) (ruleId : Int) : Bool :=
  (rm.getRule ruleId).isSome

def addRule (pc : PacketClassifier) (rule : ClassificationRule) : Bool × PacketClassifier :=
  let (ok, rm) := pc.ruleManager.addRule srt rule
  if ok then (updateSpecializedStructuresForRule rm rule.ruleId, { pc with ruleManager := rm })
  else (false, pc)

/-- `deleteRule`: `removeRuleFromSpecializedStructures` only logs, then the store decides. -/
def deleteRule (pc : PacketClassifier) (ruleId : Int) : Bool × PacketClassifier :=
  let (ok, rm) := pc.ruleManager.deleteRule srt ruleId
  (ok, { pc with ruleManager := rm })

def modifyRule (pc : PacketClassifier) (ruleId : Int) (newRuleData : ClassificationRule) :
    Bool × PacketClassifier :=
  let (ok, rm) := pc.ruleManager.modifyRule srt ruleId newRuleData
  if ok then (updateSpecializedStructuresForRule rm ruleId, { pc with ruleManager := rm })
  else (false, pc)

def getStatistics (pc : PacketClassifier) : List (Int × UInt64) :=
  pc.ruleManager.getAllRules.map fun (ruleId, rule) => (ruleId, rule.matchCount)

def getRuleStatistics (pc : PacketClassifier) (ruleId : Int) : UInt64 :=
  ((pc.ruleManager.getRule ruleId).map (·.matchCount)).getD 0

def resetStatistics (pc : PacketClassifier) : PacketClassifier :=
  { pc with ruleManager := pc.ruleManager.resetAllRuleStatistics.2 }

def resetRuleStatistics (pc : PacketClassifier) (ruleId : Int) : PacketClassifier :=
  { pc with ruleManager := (pc.ruleManager.resetRuleStatistics ruleId).2 }

inductive Call where
  | addRule (rule : ClassificationRule)
  | deleteRule (ruleId : Int)
  | modifyRule (ruleId : Int) (newRuleData : ClassificationRule)
  | classify (header : PacketHeader) (now : UInt64)
  | resetStatistics
  | resetRuleStatistics (ruleId : Int)

def call (pc : PacketClassifier) : Call → PacketClassifier
  | .addRule rule => (pc.addRule srt rule).2
  | .deleteRule ruleId => (pc.deleteRule srt ruleId).2
  | .modifyRule ruleId newRuleData => (pc.modifyRule srt ruleId newRuleData).2
  | .classify header now => (pc.classify header now).2
  | .resetStatistics => pc.resetStatistics
  | .resetRuleStatistics ruleId => pc.resetRuleStatistics ruleId

def run (useBloomFilter : Bool) (calls : List Call) : PacketClassifier :=
  calls.foldl (call srt) { useBloomFilter }

/-! ## The store stays well formed -/

variable {srt}

theorem call_ruleManager (pc : PacketClassifier) (c : Call) :
    ∃ rc : Option RuleManager.Call,
      (pc.call srt c).ruleManager = (rc.map fun rc => (pc.ruleManager.call srt rc).2).getD pc.ruleManager := by
  cases c with
  | addRule rule =>
    simp only [call, addRule]
    split
    · exact ⟨some (.addRule rule), rfl⟩
    · exact ⟨none, rfl⟩
  | deleteRule ruleId => exact ⟨some (.deleteRule ruleId), rfl⟩
  | modifyRule ruleId newRuleData =>
    simp only [call, modifyRule]
    split
    · exact ⟨some (.modifyRule ruleId newRuleData), rfl⟩
    · exact ⟨none, rfl⟩
  | classify header now =>
    simp only [call, classify]
    split
    · exact ⟨some (.incrementRuleMatchCount _ now), rfl⟩
    · exact ⟨none, rfl⟩
  | resetStatistics => exact ⟨some .resetAllRuleStatistics, rfl⟩
  | resetRuleStatistics ruleId => exact ⟨some (.resetRuleStatistics ruleId), rfl⟩

theorem cacheInv_call {pc : PacketClassifier} (h : RuleManager.CacheInv pc.ruleManager)
    (c : Call) : RuleManager.CacheInv (pc.call srt c).ruleManager := by
  obtain ⟨rc, hrc⟩ := @call_ruleManager srt pc c
  rw [hrc]
  cases rc with
  | none => exact h
  | some rc => exact h.call rc

theorem cacheInv_run (useBloomFilter : Bool) (calls : List Call) :
    RuleManager.CacheInv (run srt useBloomFilter calls).ruleManager := by
  suffices ∀ pc : PacketClassifier, RuleManager.CacheInv pc.ruleManager →
      RuleManager.CacheInv (calls.foldl (call srt) pc).ruleManager from
    this _ RuleManager.cacheInv_empty
  induction calls with
  | nil => exact fun _ h => h
  | cons c cs ih => exact fun pc h => ih _ (cacheInv_call h c)

/-! ## What `classify` returns -/

theorem firstMatch_eq_some {rm : RuleManager} {header : PacketHeader} :
    ∀ {l : List Int} {r : ClassificationRule}, firstMatch rm header l = some r →
      ∃ l₁ p l₂, l = l₁ ++ p :: l₂ ∧ rm.getRule p = some r ∧ r.admits header ∧
        ∀ q ∈ l₁, ∀ r', rm.getRule q = some r' → r'.admits header = false
  | [], _, h => by simp [firstMatch] at h
  | p :: ps, r, h => by
    simp only [firstMatch] at h
    split at h
    · rename_i rule hp
      split_ifs at h with ha
      · cases h; exact ⟨[], p, ps, rfl, hp, ha, by simp⟩
      · obtain ⟨l₁, q, l₂, rfl, hq, hr, hl₁⟩ := firstMatch_eq_some h
        refine ⟨p :: l₁, q, l₂, rfl, hq, hr, ?_⟩
        simp only [List.mem_cons, forall_eq_or_imp, hp, Option.some.injEq]
        exact ⟨fun r' e => e ▸ by simpa using ha, hl₁⟩
    · rename_i hp
      obtain ⟨l₁, q, l₂, rfl, hq, hr, hl₁⟩ := firstMatch_eq_some h
      refine ⟨p :: l₁, q, l₂, rfl, hq, hr, ?_⟩
      simp only [List.mem_cons, forall_eq_or_imp, hp, reduceCtorEq, false_implies, implies_true,
        true_and]
      exact hl₁

theorem firstMatch_eq_none {rm : RuleManager} {header : PacketHeader} :
    ∀ {l : List Int}, firstMatch rm header l = none →
      ∀ q ∈ l, ∀ r', rm.getRule q = some r' → r'.admits header = false
  | [], _ => by simp
  | p :: ps, h => by
    simp only [firstMatch] at h
    split at h
    · rename_i rule hp
      split_ifs at h with ha
      simp only [List.mem_cons, forall_eq_or_imp, hp, Option.some.injEq]
      exact ⟨fun r' e => e ▸ by simpa using ha, firstMatch_eq_none h⟩
    · rename_i hp
      simp only [List.mem_cons, forall_eq_or_imp, hp, reduceCtorEq, false_implies, implies_true,
        true_and]
      exact firstMatch_eq_none h

def ClassifyPost (rm : RuleManager) (header : PacketHeader) (res : ClassificationResult) : Prop :=
  (∃ r, rm.getRule r.ruleId = some r ∧ r.admits header ∧ res = r.result ∧
      ∀ r', rm.getRule r'.ruleId = some r' → r'.admits header → r'.priority ≤ r.priority) ∨
  (res = noMatch ∧ ∀ k r', rm.getRule k = some r' → r'.admits header = false)

theorem classify_post {pc : PacketClassifier} (h : RuleManager.CacheInv pc.ruleManager)
    (header : PacketHeader) (now : UInt64) :
    ClassifyPost pc.ruleManager header (pc.classify header now).1 := by
  unfold classify
  split
  · rename_i r hr
    obtain ⟨l₁, p, l₂, hl, hp, ha, hl₁⟩ := firstMatch_eq_some hr
    have hs := h.sorted
    rw [RuleManager.getRulesByPriority] at hl
    rw [hl, List.pairwise_append, List.pairwise_cons] at hs
    refine .inl ⟨r, (h.ids p r hp).symm ▸ hp, ha, rfl, fun r' hr' ha' => ?_⟩
    have hmem := (h.mem r'.ruleId).mpr (by simp [hr'])
    rw [hl, List.mem_append, List.mem_cons] at hmem
    rw [← RuleManager.priorityOf_of_getRule hp, ← RuleManager.priorityOf_of_getRule hr']
    rcases hmem with h₁ | rfl | h₂
    · simp [hl₁ _ h₁ r' hr'] at ha'
    · exact le_rfl
    · exact hs.2.1.1 _ h₂
  · rename_i hr
    refine .inr ⟨rfl, fun k r' hk => firstMatch_eq_none hr k ((h.mem k).mpr (by simp [hk])) r' hk⟩

/-! ## A batch and the statistics

`classify` changes only the winner's match count and time, and no classification reads either.
So a batch returns what each of its headers would get on its own, and each rule's count goes up by
the number of headers it wins. -/

theorem getRulesByPriority_incrementRuleMatchCount (rm : RuleManager) (ruleId : Int)
    (now : UInt64) :
    (rm.incrementRuleMatchCount ruleId now).2.getRulesByPriority = rm.getRulesByPriority := by
  unfold RuleManager.incrementRuleMatchCount RuleManager.updateStatistics
  split <;> rfl

theorem firstMatch_incrementRuleMatchCount (rm : RuleManager) (ruleId : Int) (now : UInt64)
    (header : PacketHeader) (ps : List Int) :
    (firstMatch (rm.incrementRuleMatchCount ruleId now).2 header ps).map ClassificationRule.result =
      (firstMatch rm header ps).map ClassificationRule.result := by
  induction ps with
  | nil => rfl
  | cons p ps ih =>
    have hp := RuleManager.getRule_updateStatistics rm ruleId
      (fun r => { r with matchCount := r.matchCount + 1, lastMatchTime := now }) p
    by_cases hpr : p = ruleId
    · rw [if_pos hpr] at hp
      cases hr : rm.getRule p with
      | none =>
        simp only [firstMatch, RuleManager.incrementRuleMatchCount, hp, hr, Option.map_none']
        exact ih
      | some r =>
        simp only [firstMatch, RuleManager.incrementRuleMatchCount, hp, hr, Option.map_some',
          ClassificationRule.admits]
        split_ifs
        · rfl
        · exact ih
    · rw [if_neg hpr] at hp
      simp only [firstMatch, RuleManager.incrementRuleMatchCount, hp]
      split
      · split_ifs
        · rfl
        · exact ih
      · exact ih

theorem classify_fst (pc : PacketClassifier) (header : PacketHeader) (now : UInt64) :
    (pc.classify header now).1 = ((firstMatch pc.ruleManager header
      pc.ruleManager.getRulesByPriority).map ClassificationRule.result).getD noMatch := by
  unfold classify
  split <;> simp_all

theorem classify_snd (pc : PacketClassifier) (header : PacketHeader) (now : UInt64) :
    (pc.classify header now).2 = pc ∨ ∃ ruleId, (pc.classify header now).2 =
      { pc with ruleManager := (pc.ruleManager.incrementRuleMatchCount ruleId now).2 } := by
  unfold classify
  split
  · exact .inr ⟨_, rfl⟩
  · exact .inl rfl

theorem classify_fst_classify (pc : PacketClassifier) (h₁ h₂ : PacketHeader) (n₁ n₂ : UInt64) :
    ((pc.classify h₁ n₁).2.classify h₂ n₂).1 = (pc.classify h₂ n₂).1 := by
  rcases classify_snd pc h₁ n₁ with h | ⟨ruleId, h⟩ <;> rw [h]
  rw [classify_fst, classify_fst, getRulesByPriority_incrementRuleMatchCount,
    firstMatch_incrementRuleMatchCount]

theorem getRuleStatistics_classify {pc : PacketClassifier} (h : RuleManager.CacheInv pc.ruleManager)
    (header : PacketHeader) (now : UInt64) (ruleId : Int) :
    (pc.classify header now).2.getRuleStatistics ruleId = pc.getRuleStatistics ruleId +
      if ((pc.classify header now).1.matched && (pc.classify header now).1.matchedRuleId == ruleId)
      then 1 else 0 := by
  unfold classify
  split
  · rename_i r hr
    obtain ⟨-, p, -, -, hp, -, -⟩ := firstMatch_eq_some hr
    obtain rfl := h.ids p r hp
    simp only [getRuleStatistics, RuleManager.incrementRuleMatchCount,
      RuleManager.getRule_updateStatistics, ClassificationRule.result]
    by_cases hk : ruleId = r.ruleId
    · subst hk
      simp [hp]
    · simp [hk, Ne.symm hk]
  · simp [noMatch]

theorem toUInt64_add_ite (n : Nat) (b : Bool) :
    (n + if b then 1 else 0).toUInt64 = n.toUInt64 + if b then 1 else 0 := by
  cases b
  · simp
  · exact congrArg UInt64.mk (BitVec.ofNat_add n 1)

theorem cacheInv_classify {pc : PacketClassifier} (h : RuleManager.CacheInv pc.ruleManager)
    (header : PacketHeader) (now : UInt64) :
    RuleManager.CacheInv (pc.classify header now).2.ruleManager := by
  rcases classify_snd pc header now with e | ⟨ruleId, e⟩ <;> rw [e]
  · exact h
  · exact h.updateStatistics ruleId (fun _ => rfl) (fun _ => rfl)

theorem foldl_classify_spec {now : UInt64}
    {F : List ClassificationResult × PacketClassifier → PacketHeader →
      List ClassificationResult × PacketClassifier}
    (hF : ∀ out pc header,
      F (out, pc) header = (out ++ [(pc.classify header now).1], (pc.classify header now).2))
    (ruleId : Int) (headers : List PacketHeader) (out : List ClassificationResult)
    {pc : PacketClassifier} (h : RuleManager.CacheInv pc.ruleManager) :
    (headers.foldl F (out, pc)).1 = out ++ headers.map (fun header => (pc.classify header now).1) ∧
      (headers.foldl F (out, pc)).2.getRuleStatistics ruleId = pc.getRuleStatistics ruleId +
        (headers.countP fun header => (pc.classify header now).1.matched &&
          (pc.classify header now).1.matchedRuleId == ruleId).toUInt64 := by
  induction headers generalizing out pc with
  | nil => simp [show Nat.toUInt64 0 = 0 from rfl]
  | cons header hs ih =>
    have e : ∀ h', ((pc.classify header now).2.classify h' now).1 = (pc.classify h' now).1 :=
      fun h' => classify_fst_classify pc header h' now now
    obtain ⟨ih₁, ih₂⟩ := ih (out ++ [(pc.classify header now).1]) (cacheInv_classify h header now)
    simp only [e] at ih₁ ih₂
    rw [List.foldl_cons, hF]
    refine ⟨ih₁.trans (by simp), ?_⟩
    rw [ih₂, getRuleStatistics_classify h, List.countP_cons, toUInt64_add_ite, add_assoc]
    exact congrArg _ (add_comm _ _)

/-- After any calls, a batch returns what `classify` returns for each of its headers on its own,
and each rule's statistic grows by the number of headers whose result names it. -/
theorem classifyBatch_counts_wins (srt : StdSort) (useBloomFilter : Bool) (calls : List Call)
    (headers : List PacketHeader) (now : UInt64) (ruleId : Int) :
    ((run srt useBloomFilter calls).classifyBatch headers now).1 =
        headers.map (fun header => ((run srt useBloomFilter calls).classify header now).1) ∧
      ((run srt useBloomFilter calls).classifyBatch headers now).2.getRuleStatistics ruleId =
        (run srt useBloomFilter calls).getRuleStatistics ruleId +
          (headers.countP fun header =>
            ((run srt useBloomFilter calls).classify header now).1.matched &&
              ((run srt useBloomFilter calls).classify header now).1.matchedRuleId ==
                ruleId).toUInt64 :=
  have h := foldl_classify_spec (F := fun acc header =>
      (acc.1 ++ [(acc.2.classify header now).1], (acc.2.classify header now).2))
    (fun _ _ _ => rfl) ruleId headers [] (cacheInv_run useBloomFilter calls)
  by rw [List.nil_append] at h; exact h

/-! ## The linear scan with prefixes

The reading of a filter in which both prefixes are checked too. It is not the code: these
definitions state what `classify` is compared with. -/

end PacketClassifier

end Classifier
