import Classifier.Classify
import Classifier.ReadWriteLock
import Mathlib.Data.List.Permutation

/-! # Concurrent calls

Threads each run one `PacketClassifier` call on one classifier. Each `RuleManager` method is one
atomic step, as if `rw_lock_` made it so (that `addRule` and `modifyRule` block on `rw_lock_`
itself is the subject of `LockOrder`). `specialized_structures_lock_` is a `LockSystem`, so its
steps are the lock's own. Between steps a thread sits at a program point of its call.

The helpers' own `WriteLockGuard` re-enters a lock their thread already holds, which no other
thread can observe: each helper is one step, its `getRule`. `classify` reads a rule through its
pointer in one step; pointers are named by key, so a pointer to an erased entry reads as `none`.
The Bloom filter's reads of the store change nothing and are left out. -/

namespace Classifier

/-! ## Sequential histories of the store -/

namespace RuleManager

variable (srt : StdSort)

def Sequential (rm : RuleManager) : List (Call × Bool) → Bool
  | [] => true
  | (c, ok) :: history => (rm.call srt c).1 == ok && Sequential (rm.call srt c).2 history

def Linearizable (rm : RuleManager) (history : List (Call × Bool)) : Prop :=
  ∃ order : List (Call × Bool), order.Perm history ∧ Sequential srt rm order = true

variable {srt}

theorem runFrom_append_singleton (rm : RuleManager) (calls : List Call) (c : Call) :
    runFrom srt rm (calls ++ [c]) = ((runFrom srt rm calls).call srt c).2 := by
  simp [runFrom]

theorem sequential_append_singleton (rm : RuleManager) (history : List (Call × Bool)) (c : Call)
    (ok : Bool) : Sequential srt rm (history ++ [(c, ok)]) =
      (Sequential srt rm history && ((runFrom srt rm (history.map (·.1))).call srt c).1 == ok) := by
  induction history generalizing rm with
  | nil => simp [Sequential, runFrom]
  | cons e history ih => simp [Sequential, runFrom, ih, Bool.and_assoc]

theorem runFrom_succeeded {rm : RuleManager} {history : List (Call × Bool)}
    (h : Sequential srt rm history = true) :
    runFrom srt rm (history.map (·.1)) = runFrom srt rm ((history.filter (·.2)).map (·.1)) := by
  induction history generalizing rm with
  | nil => rfl
  | cons e history ih =>
    obtain ⟨c, ok⟩ := e
    simp only [Sequential, Bool.and_eq_true, beq_iff_eq] at h
    obtain ⟨rfl, h⟩ := h
    cases hok : (rm.call srt c).1
    · -- A failed call leaves the store as it was.
      have := call_of_failed hok
      simp only [List.map_cons, List.filter_cons, hok, runFrom, List.foldl_cons, this] at ih ⊢
      exact ih (this ▸ h)
    · simp only [List.map_cons, List.filter_cons, hok, runFrom, List.foldl_cons, if_true] at ih ⊢
      exact ih h

end RuleManager

/-! ## Threads -/

/-- Where a thread is in its call: the step it takes next. The lock steps are on
`specialized_structures_lock_` (`writeWait` is a waiting writer's return from its wait); `classify`
takes its snapshot, scans the pointers it has not read yet, and counts its winner; the `Store`
steps are the store calls of the writes and resets; `update` is
`updateSpecializedStructuresForRule`; `wrote stored ok` is a write that returned `ok` after its
store call returned `stored`; `crashed` is `classify` reading through a pointer to an erased
entry. -/
inductive Proc where
  | readLock (next : Proc)
  | readUnlock (next : Proc)
  | writeLock (next : Proc)
  | writeWait (next : Proc)
  | writeUnlock (next : Proc)
  | classifySnapshot (header : PacketHeader) (now : UInt64)
  | classifyScan (header : PacketHeader) (now : UInt64) (rules : List Int)
  | classifyCount (now : UInt64) (rule : ClassificationRule)
  | addStore (rule : ClassificationRule)
  | modifyStore (ruleId : Int) (newRuleData : ClassificationRule)
  | deleteStore (ruleId : Int)
  | resetStore (c : RuleManager.Call)
  | update (ruleId : Int)
  | classified (result : ClassificationResult)
  | wrote (stored ok : Bool)
  | reset
  | crashed
  deriving DecidableEq, Repr

def Proc.Sound : Proc → Prop
  | .readLock p | .readUnlock p | .writeLock p | .writeWait p | .writeUnlock p => p.Sound
  | .wrote stored ok => ok = true → stored = true
  | _ => True

def Proc.stored? : Proc → Option Bool
  | .readLock p | .readUnlock p | .writeLock p | .writeWait p | .writeUnlock p => p.stored?
  | .update _ => some true
  | .wrote stored _ => some stored
  | _ => none

/-- Where each call starts: `classify` and `deleteRule` at their guard on
`specialized_structures_lock_`, the others at the store. -/
def Proc.start : PacketClassifier.Call → Proc
  | .classify header now => .readLock (.classifySnapshot header now)
  | .addRule rule => .addStore rule
  | .deleteRule ruleId => .writeLock (.writeUnlock (.deleteStore ruleId))
  | .modifyRule ruleId newRuleData => .modifyStore ruleId newRuleData
  | .resetStatistics => .resetStore .resetAllRuleStatistics
  | .resetRuleStatistics ruleId => .resetStore (.resetRuleStatistics ruleId)

/-- The classifier's store and lock, each thread's program point, and the store calls made so
far: the thread, the call and what it returned, in the order they ran. -/
structure Sys where
  rm : RuleManager
  spec : LockSystem := {}
  threads : List Proc
  log : List (ThreadId × RuleManager.Call × Bool) := []

namespace Sys

variable (srt : StdSort)

def init (rm : RuleManager) (calls : List PacketClassifier.Call) : Sys :=
  { rm, threads := calls.map Proc.start }

def goto (s : Sys) (t : ThreadId) (p : Proc) : Sys := { s with threads := s.threads.set t p }

def store (s : Sys) (t : ThreadId) (c : RuleManager.Call) (next : Bool → Proc) : Sys :=
  { rm := (s.rm.call srt c).2, spec := s.spec, threads := s.threads.set t (next (s.rm.call srt c).1),
    log := s.log ++ [(t, c, (s.rm.call srt c).1)] }

def lockStep (s : Sys) (t : ThreadId) (op : LockOp) (next : Proc) : Option Sys :=
  (s.spec.step t op).map fun spec => { s with spec, threads := s.threads.set t next }

/-- The next step of thread `t`; `none` when it is blocked or has returned. -/
def step (s : Sys) (t : ThreadId) : Option Sys :=
  match s.threads[t]? with
  | some (.readLock next) => s.lockStep t .readLock next
  | some (.readUnlock next) => s.lockStep t .readUnlock next
  | some (.writeLock next) => s.lockStep t .writeLock (.writeWait next)
  | some (.writeWait next) => s.lockStep t .writeLockWake next
  | some (.writeUnlock next) => s.lockStep t .writeUnlock next
  | some (.classifySnapshot header now) =>
    some (s.goto t (.classifyScan header now s.rm.getRulesByPriority))
  | some (.classifyScan _ _ []) => some (s.goto t (.readUnlock (.classified noMatch)))
  | some (.classifyScan header now (p :: ps)) =>
    some <| s.goto t <| match s.rm.getRule p with
      | some rule => if rule.admits header then .classifyCount now rule else .classifyScan header now ps
      | none => .crashed
  | some (.classifyCount now rule) =>
    some (s.store srt t (.incrementRuleMatchCount rule.ruleId now) fun _ =>
      .readUnlock (.classified rule.result))
  | some (.addStore rule) =>
    some (s.store srt t (.addRule rule) fun ok =>
      if ok then .writeLock (.update rule.ruleId) else .wrote false false)
  | some (.modifyStore ruleId newRuleData) =>
    some (s.store srt t (.modifyRule ruleId newRuleData) fun ok =>
      if ok then .writeLock (.update ruleId) else .wrote false false)
  | some (.deleteStore ruleId) => some (s.store srt t (.deleteRule ruleId) fun ok => .wrote ok ok)
  | some (.resetStore c) => some (s.store srt t c fun _ => .reset)
  | some (.update ruleId) =>
    some (s.goto t (.writeUnlock
      (.wrote true (PacketClassifier.updateSpecializedStructuresForRule s.rm ruleId))))
  | _ => none

inductive Steps : Sys → Sys → Prop
  | refl (s : Sys) : Steps s s
  | head {s s₁ s₂ : Sys} (t : ThreadId) : s.step srt t = some s₁ → Steps s₁ s₂ → Steps s s₂

def interleave (s : Sys) : List ThreadId → Option Sys
  | [] => some s
  | t :: ts => (s.step srt t).bind fun s => interleave s ts

def trace (s : Sys) : List ThreadId → Option (List Sys)
  | [] => some [s]
  | t :: ts => (s.step srt t).bind fun s₁ => (trace s₁ ts).map (s :: ·)

variable {srt}

/-! ## What one step does -/

theorem step_store {s s' : Sys} {t : ThreadId} (h : s.step srt t = some s') :
    (s'.rm = s.rm ∧ s'.log = s.log) ∨
      ∃ c, s'.rm = (s.rm.call srt c).2 ∧ s'.log = s.log ++ [(t, c, (s.rm.call srt c).1)] := by
  unfold step lockStep store goto at h
  split at h
  all_goals first
    | (obtain ⟨_, -, rfl⟩ := Option.map_eq_some'.mp h; exact .inl ⟨rfl, rfl⟩)
    | (cases h; first | exact .inl ⟨rfl, rfl⟩ | exact .inr ⟨_, rfl, rfl⟩)
    | cases h

theorem step_thread {s s' : Sys} {t : ThreadId} (h : s.step srt t = some s') :
    ∃ p p', s.threads[t]? = some p ∧ s'.threads = s.threads.set t p' ∧ (p.Sound → p'.Sound) ∧
      ∀ b, p'.stored? = some b → p.stored? = some b ∨ ∃ c, (t, c, b) ∈ s'.log := by
  unfold step lockStep store goto at h
  split at h
  all_goals first
    | (obtain ⟨_, -, rfl⟩ := Option.map_eq_some'.mp h)
    | cases h
  all_goals refine ⟨_, _, ‹_›, rfl, ?_⟩
  all_goals first
    -- A step on the lock unwraps the program point.
    | exact ⟨id, fun _ hb => .inl hb⟩
    -- Points that hold no store call.
    | exact ⟨fun _ => trivial, fun _ hb => nomatch hb⟩
    | (split <;> (try split) <;> exact ⟨fun _ => trivial, fun _ hb => nomatch hb⟩)
    -- `update` passes on what its store call returned.
    | exact ⟨fun _ _ => rfl, fun _ hb => .inl hb⟩
    -- `deleteRule` returns what its store call returned.
    | exact ⟨fun _ => id, fun _ hb => .inr ⟨_, by
        cases hb; exact List.mem_append_right _ (List.mem_singleton_self _)⟩⟩
    -- `addRule` and `modifyRule` go on to `update` when their store call succeeded.
    | (beta_reduce
       split <;> rename_i hok
       · exact ⟨fun _ => trivial, fun _ hb => .inr ⟨_, List.mem_append_right _
           (List.mem_singleton.mpr (by cases hb; rw [hok]))⟩⟩
       · exact ⟨fun _ => id, fun _ hb => .inr ⟨_, List.mem_append_right _
           (List.mem_singleton.mpr (by cases hb; rw [Bool.eq_false_iff.mpr hok]))⟩⟩)

/-! ## What every interleaving keeps -/

structure Consistent (srt : StdSort) (rm₀ : RuleManager) (s : Sys) : Prop where
  sequential : RuleManager.Sequential srt rm₀ (s.log.map (·.2)) = true
  store : s.rm = RuleManager.runFrom srt rm₀ ((s.log.map (·.2)).map (·.1))
  threads : ∀ t p, s.threads[t]? = some p →
    p.Sound ∧ ∀ b, p.stored? = some b → ∃ c, (t, c, b) ∈ s.log

theorem consistent_init (rm₀ : RuleManager) (calls : List PacketClassifier.Call) :
    Consistent srt rm₀ (init rm₀ calls) where
  sequential := rfl
  store := rfl
  threads t p h := by
    simp only [init, List.getElem?_map, Option.map_eq_some'] at h
    obtain ⟨c, -, rfl⟩ := h
    -- No call starts past its store call.
    cases c <;> exact ⟨trivial, fun _ hb => nomatch hb⟩

theorem Consistent.step {rm₀ : RuleManager} {s s' : Sys} {t : ThreadId}
    (hc : Consistent srt rm₀ s) (h : s.step srt t = some s') : Consistent srt rm₀ s' := by
  have hlog : ∀ e ∈ s.log, e ∈ s'.log := by
    rcases step_store h with ⟨-, hl⟩ | ⟨c, -, hl⟩ <;> simp_all
  refine ⟨?_, ?_, fun u q hq => ?_⟩
  · rcases step_store h with ⟨-, hl⟩ | ⟨c, -, hl⟩
    · exact hl ▸ hc.sequential
    · simp only [hl, List.map_append, List.map_cons, List.map_nil,
        RuleManager.sequential_append_singleton, hc.sequential, ← hc.store, beq_self_eq_true,
        Bool.and_self]
  · rcases step_store h with ⟨hr, hl⟩ | ⟨c, hr, hl⟩
    · rw [hr, hl]; exact hc.store
    · simp only [hr, hl, List.map_append, List.map_cons, List.map_nil,
        RuleManager.runFrom_append_singleton, ← hc.store]
  · obtain ⟨p, p', hp, hth, hsound, hstored⟩ := step_thread h
    by_cases hu : t = u
    · -- The thread that stepped.
      subst hu
      rw [hth, List.getElem?_set_self (List.getElem?_eq_some_iff.mp hp).1] at hq
      cases hq
      obtain ⟨h₁, h₂⟩ := hc.threads _ p hp
      refine ⟨hsound h₁, fun b hb => (hstored b hb).elim (fun hb => ?_) id⟩
      exact (h₂ b hb).imp fun c => hlog _
    · rw [hth, List.getElem?_set_ne hu] at hq
      obtain ⟨h₁, h₂⟩ := hc.threads u q hq
      exact ⟨h₁, fun b hb => (h₂ b hb).imp fun c => hlog _⟩

theorem Consistent.reach {rm₀ : RuleManager} {s s' : Sys} (hc : Consistent srt rm₀ s)
    (h : Steps srt s s') : Consistent srt rm₀ s' := by
  induction h with
  | refl => exact hc
  | head _ hs _ ih => exact ih (hc.step hs)

theorem steps_of_interleave {s s' : Sys} :
    ∀ (sched : List ThreadId), interleave srt s sched = some s' → Steps srt s s'
  | [], h => by cases h; exact .refl _
  | t :: ts, h => by
    simp only [interleave, Option.bind_eq_some] at h
    obtain ⟨s₁, h₁, h₂⟩ := h
    exact .head t h₁ (steps_of_interleave ts h₂)

theorem steps_of_interleave_isSome {s : Sys} (sched : List ThreadId)
    (h : (interleave srt s sched).isSome) : Steps srt s ((interleave srt s sched).getD s) := by
  obtain ⟨s', hs⟩ := Option.isSome_iff_exists.mp h
  rw [hs]
  exact steps_of_interleave sched hs

end Sys

/-! ## `classify` against concurrent writers -/

/-- `classify` takes its snapshot, then `modifyRule` moves rule 1 below rule 2 and changes its
actions, and `classify` reads rule 1 through its pointer: it returns rule 1 with its new actions,
which a sequential `classify` gives on no store state of the run. -/
theorem classify_mixes_store_states :
    let rule₁ : ClassificationRule :=
      { ruleId := 1, priority := 10, actions := { primaryAction := .forward } }
    let rule₂ : ClassificationRule := { ruleId := 2, priority := 5 }
    let newRule₁ : ClassificationRule :=
      { ruleId := 1, priority := 1, actions := { primaryAction := .log } }
    let header : PacketHeader := ⟨0xC0A80101, 0x08080808, 33333, 80, 6⟩
    let start := Sys.init (RuleManager.run insertionStdSort [.addRule rule₁, .addRule rule₂])
      [.classify header 0, .modifyRule 1 newRule₁]
    let result : ClassificationResult :=
      { matched := true, matchedRuleId := 1, actions := newRule₁.actions }
    ∃ tr, Sys.trace insertionStdSort start [0, 0, 1, 0, 0, 0] = some tr ∧
      tr.getLast?.bind (·.threads[0]?) = some (.classified result) ∧
      ∀ s ∈ tr, (PacketClassifier.classify ⟨false, s.rm⟩ header 0).1 ≠ result := by
  intro rule₁ rule₂ newRule₁ header start result
  exact ⟨_, rfl, by decide⟩

/-! ## Concurrent writers -/

def PacketClassifier.Call.write? : PacketClassifier.Call → Option RuleManager.Call
  | .addRule rule => some (.addRule rule)
  | .deleteRule ruleId => some (.deleteRule ruleId)
  | .modifyRule ruleId newRuleData => some (.modifyRule ruleId newRuleData)
  | _ => none

def writeHistory (calls : List PacketClassifier.Call) (s : Sys) : List (RuleManager.Call × Bool) :=
  (calls.zip s.threads).filterMap fun (c, p) =>
    match c.write?, p with
    | some w, .wrote _ ok => some (w, ok)
    | _, _ => none

/-- `addRule` stores its rule; a `deleteRule` then runs whole and erases it; `addRule`'s
`updateSpecializedStructuresForRule` does not find it, and `addRule` returns false. Neither order of
the two calls explains that history. -/
theorem writes_not_linearizable :
    ¬ ∀ (srt : StdSort) (rm₀ : RuleManager) (calls : List PacketClassifier.Call) (s : Sys),
      Sys.Steps srt (Sys.init rm₀ calls) s → RuleManager.Linearizable srt rm₀ (writeHistory calls s) := by
  intro h
  let rule : ClassificationRule := { ruleId := 1, priority := 100 }
  let calls : List PacketClassifier.Call := [.addRule rule, .deleteRule 1]
  let start := Sys.init {} calls
  let sched := [0, 1, 1, 1, 1, 0, 0, 0, 0]
  let s := (Sys.interleave insertionStdSort start sched).getD start
  obtain ⟨order, hp, hs⟩ :=
    h insertionStdSort {} calls s (Sys.steps_of_interleave_isSome sched (by decide))
  have hw : writeHistory calls s = [(.addRule rule, false), (.deleteRule 1, true)] := by decide
  have key : ∀ o ∈ (writeHistory calls s).permutations',
      RuleManager.Sequential insertionStdSort {} o = false := by
    rw [hw]; decide
  simp [key order (List.mem_permutations'.mpr hp)] at hs

/-- In every interleaving the store calls, in the order they ran, are a sequential history from
the initial store, and the store is the run of those that succeeded; a write that returns true
had its own store call succeed, and that call is in the history. -/
theorem writes_take_effect_at_store_call (srt : StdSort) (rm₀ : RuleManager)
    (calls : List PacketClassifier.Call) {s : Sys} (h : Sys.Steps srt (Sys.init rm₀ calls) s) :
    RuleManager.Sequential srt rm₀ (s.log.map (·.2)) = true ∧
      s.rm = RuleManager.runFrom srt rm₀ (((s.log.map (·.2)).filter (·.2)).map (·.1)) ∧
      ∀ t stored ok, s.threads[t]? = some (.wrote stored ok) →
        (ok = true → stored = true) ∧ ∃ c, (t, c, stored) ∈ s.log := by
  have hc := (Sys.consistent_init rm₀ calls).reach h
  refine ⟨hc.sequential, hc.store.trans (RuleManager.runFrom_succeeded hc.sequential), ?_⟩
  intro t stored ok ht
  obtain ⟨h₁, h₂⟩ := hc.threads t _ ht
  exact ⟨h₁, h₂ stored rfl⟩

theorem add_delete_run_takes_effect :
    let calls : List PacketClassifier.Call := [.addRule { ruleId := 1, priority := 100 }, .deleteRule 1]
    let start := Sys.init {} calls
    let sched := [0, 1, 1, 1, 1, 0, 0, 0, 0]
    let s := (Sys.interleave insertionStdSort start sched).getD start
    Sys.Steps insertionStdSort start s ∧
      RuleManager.Sequential insertionStdSort {} (s.log.map (·.2)) = true ∧
      s.rm = RuleManager.runFrom insertionStdSort {} (((s.log.map (·.2)).filter (·.2)).map (·.1)) ∧
      ∀ t stored ok, s.threads[t]? = some (.wrote stored ok) →
        (ok = true → stored = true) ∧ ∃ c, (t, c, stored) ∈ s.log := by
  intro calls start sched s
  have h : Sys.Steps insertionStdSort start s := Sys.steps_of_interleave_isSome sched (by decide)
  exact ⟨h, writes_take_effect_at_store_call insertionStdSort {} calls h⟩

end Classifier
