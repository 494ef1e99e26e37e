import Classifier.RuleManager

/-! # The priority cache

After any sequence of store methods, `getRulesByPriority` names every stored rule once, with
priorities non-increasing. Ties come out in whatever order `std::sort` leaves them. -/

namespace Classifier

namespace RuleManager

variable {srt : StdSort}

structure CacheInv (rm : RuleManager) : Prop where
  ids : ∀ k r, rm.getRule k = some r → r.ruleId = k
  nodup : rm.rulesByPriorityCache.Nodup
  mem : ∀ p, p ∈ rm.rulesByPriorityCache ↔ (rm.getRule p).isSome
  sorted : rm.rulesByPriorityCache.Pairwise fun a b => rm.priorityOf b ≤ rm.priorityOf a

theorem cacheInv_empty : CacheInv ({} : RuleManager) :=
  ⟨by simp, .nil, by simp, .nil⟩

theorem cacheInv_rebuildPriorityCache {rm : RuleManager}
    (ids : ∀ k r, rm.getRule k = some r → r.ruleId = k) :
    CacheInv (rm.rebuildPriorityCache srt) where
  ids := ids
  nodup := (srt.perm _ _).nodup_iff.mpr rm.rulesById.keys_nodup
  mem p := (srt.perm _ _).mem_iff.trans (rm.rulesById.mem_keys p)
  sorted := srt.sorted rm.priorityOf _

theorem CacheInv.of_same_priorities {rm rm' : RuleManager} (h : CacheInv rm)
    (cache : rm'.rulesByPriorityCache = rm.rulesByPriorityCache)
    (prio : ∀ k, (rm'.getRule k).map (·.priority) = (rm.getRule k).map (·.priority))
    (ids : ∀ k r, rm'.getRule k = some r → r.ruleId = k) : CacheInv rm' := by
  have hp : rm'.priorityOf = rm.priorityOf := funext fun k => by simp only [priorityOf, prio]
  have hs : ∀ k, (rm'.getRule k).isSome = (rm.getRule k).isSome := fun k => by
    simpa using congrArg Option.isSome (prio k)
  exact ⟨ids, cache ▸ h.nodup, fun p => by rw [cache, hs, h.mem], by rw [cache, hp]; exact h.sorted⟩

theorem CacheInv.addRule {rm : RuleManager} (h : CacheInv rm) (rule : ClassificationRule) :
    CacheInv (rm.addRule srt rule).2 := by
  cases hr : rm.getRule rule.ruleId with
  | some _ => rwa [addRule_of_isSome (by simp [hr])]
  | none =>
    rw [addRule_of_none hr]
    refine cacheInv_rebuildPriorityCache fun k r hk => ?_
    have e := @getRule_added srt _ _ hr k
    rw [added, getRule, rulesById_rebuildPriorityCache] at e
    rw [getRule, e] at hk
    split_ifs at hk with hkr
    · cases hk; exact hkr.symm
    · exact h.ids k r hk

theorem CacheInv.deleteRule {rm : RuleManager} (h : CacheInv rm) (ruleId : Int) :
    CacheInv (rm.deleteRule srt ruleId).2 := by
  unfold RuleManager.deleteRule
  split_ifs
  · refine cacheInv_rebuildPriorityCache fun k r hr => h.ids k r ?_
    simp only [getRule, RuleMap.find?_erase] at hr
    split_ifs at hr
    exact hr
  · exact h

theorem CacheInv.modifyRule {rm : RuleManager} (h : CacheInv rm) (ruleId : Int)
    (newRuleData : ClassificationRule) : CacheInv (rm.modifyRule srt ruleId newRuleData).2 := by
  cases hr : rm.getRule ruleId with
  | none => simpa [RuleManager.modifyRule, hr] using h
  | some old =>
    have ids : ∀ k r, (rm.modified ruleId newRuleData).getRule k = some r → r.ruleId = k := by
      intro k r hk
      simp only [getRule, modified, RuleMap.find?_modify] at hk
      split_ifs at hk with hkr
      · obtain ⟨_, _, rfl⟩ := Option.map_eq_some'.mp hk; exact hkr.symm
      · exact h.ids k r hk
    rw [modifyRule_of_some newRuleData hr]
    split_ifs with hre
    · exact cacheInv_rebuildPriorityCache ids
    · -- Same priority: the cache is kept, and still right.
      refine h.of_same_priorities rfl (fun k => ?_) ids
      simp only [getRule, modified, RuleMap.find?_modify]
      split_ifs with hk
      · subst hk; simp only [getRule] at hr; simp [hr]; tauto
      · rfl

theorem CacheInv.updateStatistics {rm : RuleManager} (h : CacheInv rm) (ruleId : Int)
    {f : ClassificationRule → ClassificationRule} (hid : ∀ r, (f r).ruleId = r.ruleId)
    (hprio : ∀ r, (f r).priority = r.priority) : CacheInv (rm.updateStatistics ruleId f).2 := by
  refine h.of_same_priorities (by unfold RuleManager.updateStatistics; split_ifs <;> rfl)
    (fun k => ?_) (fun k r hr => ?_)
  · rw [getRule_updateStatistics]; split_ifs <;> simp [Option.map_map, Function.comp_def, hprio]
  · rw [getRule_updateStatistics] at hr
    split_ifs at hr
    · obtain ⟨r₀, h₀, rfl⟩ := Option.map_eq_some'.mp hr
      rw [hid]; exact h.ids k r₀ h₀
    · exact h.ids k r hr

theorem CacheInv.resetAllRuleStatistics {rm : RuleManager} (h : CacheInv rm) :
    CacheInv rm.resetAllRuleStatistics.2 := by
  refine h.of_same_priorities rfl (fun k => ?_) (fun k r hr => ?_)
  · simp [getRule_resetAllRuleStatistics, Option.map_map, Function.comp_def]
  · rw [getRule_resetAllRuleStatistics] at hr
    obtain ⟨r₀, h₀, rfl⟩ := Option.map_eq_some'.mp hr
    exact h.ids k r₀ h₀

theorem CacheInv.call {rm : RuleManager} (h : CacheInv rm) : ∀ c, CacheInv (rm.call srt c).2
  | .addRule rule => h.addRule rule
  | .deleteRule ruleId => h.deleteRule ruleId
  | .modifyRule ruleId newRuleData => h.modifyRule ruleId newRuleData
  | .incrementRuleMatchCount _ _ => h.updateStatistics _ (fun _ => rfl) (fun _ => rfl)
  | .resetRuleStatistics _ => h.updateStatistics _ (fun _ => rfl) (fun _ => rfl)
  | .resetAllRuleStatistics => h.resetAllRuleStatistics

theorem CacheInv.runFrom {rm : RuleManager} (h : CacheInv rm) (calls : List Call) :
    CacheInv (runFrom srt rm calls) := by
  induction calls generalizing rm with
  | nil => exact h
  | cons c cs ih => exact ih (h.call c)

theorem cacheInv_run (srt : StdSort) (calls : List Call) : CacheInv (run srt calls) :=
  cacheInv_empty.runFrom calls

/-! ## What `getRulesByPriority` returns -/

theorem priorityOf_of_getRule {rm : RuleManager} {k : Int} {r : ClassificationRule}
    (h : rm.getRule k = some r) : rm.priorityOf k = r.priority := by
  simp [priorityOf, h]

/-- After any sequence of store methods the cache points at every stored rule exactly once, in
non-increasing priority. -/
theorem getRulesByPriority_sorted_permutation (srt : StdSort) (calls : List Call) :
    let rm := run srt calls
    rm.getRulesByPriority.Nodup ∧ (∀ p, p ∈ rm.getRulesByPriority ↔ (rm.getRule p).isSome) ∧
      rm.getRulesByPriority.Pairwise fun a b =>
        ∀ ra rb, rm.getRule a = some ra → rm.getRule b = some rb → rb.priority ≤ ra.priority := by
  have h := cacheInv_run srt calls
  refine ⟨h.nodup, h.mem, h.sorted.imp fun hab ra rb ha hb => ?_⟩
  rwa [← priorityOf_of_getRule ha, ← priorityOf_of_getRule hb]

end RuleManager

end Classifier
