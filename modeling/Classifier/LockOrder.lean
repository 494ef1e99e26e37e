import Classifier.Classify
import Classifier.ReadWriteLock

/-! # The lock calls of the store's methods

The calls each `RuleManager` and `PacketClassifier` method makes on `rw_lock_`, in the order its
body makes them, and what happens when one thread runs them. `addRule` and `modifyRule` hold the
lock in write mode when `detectConflict` asks for it in read mode. A method made by a thread alone
is its lock calls, then its store step when they all return: the store step of `addRule` for a new
id is never reached, so no rule ever enters the store. -/

namespace Classifier

/-- A call of a `ReadWriteLock` method; `writeLock` is both of its steps. -/
inductive LockCall where
  | readLock
  | readUnlock
  | writeLock
  | writeUnlock
  deriving DecidableEq, Repr

namespace LockSystem

def lockCall (s : LockSystem) (t : ThreadId) : LockCall → Option LockSystem
  | .readLock => s.step t .readLock
  | .readUnlock => s.step t .readUnlock
  | .writeLock => (s.step t .writeLock).bind fun s' =>
      if t ∈ s'.waiting then s'.step t .writeLockWake else some s'
  | .writeUnlock => s.step t .writeUnlock

def runAlone (s : LockSystem) (t : ThreadId) : List LockCall → Option LockSystem
  | [] => some s
  | c :: cs => (s.lockCall t c).bind fun s => runAlone s t cs

end LockSystem

/-! ## The methods -/

/-- `WriteLockGuard`, then `detectConflict`'s `ReadLockGuard`, released in reverse order: the
calls of `addRule` for a new id, and of `modifyRule` for a stored one. -/
def writeWithConflictCheckLocks : List LockCall :=
  [.writeLock, .readLock, .readUnlock, .writeUnlock]

/-- A `WriteLockGuard` alone: `deleteRule`, the statistics methods, and `addRule`/`modifyRule`
when they fail before `detectConflict`. -/
def writeLocks : List LockCall := [.writeLock, .writeUnlock]

/-- A `ReadLockGuard` alone: `getRule`, `getRulesByPriority`, `getAllRules`. -/
def readLocks : List LockCall := [.readLock, .readUnlock]

/-- The calls on `rw_lock_` of one `RuleManager` method on a store. -/
def RuleManager.Call.locks (rm : RuleManager) : RuleManager.Call → List LockCall
  | .addRule rule =>
    if (rm.getRule rule.ruleId).isSome then writeLocks else writeWithConflictCheckLocks
  | .modifyRule ruleId _ =>
    if (rm.getRule ruleId).isSome then writeWithConflictCheckLocks else writeLocks
  | _ => writeLocks

/-- The `getRule` of `addRule` and `modifyRule` for the Bloom filter, made after
`updateSpecializedStructuresForRule` succeeded on the store `rm` the write left. -/
def PacketClassifier.bloomLocks (pc : PacketClassifier) (rm : RuleManager) (ruleId : Int) :
    List LockCall :=
  if PacketClassifier.updateSpecializedStructuresForRule rm ruleId && pc.useBloomFilter then readLocks
  else []

/-- The calls on `rw_lock_` of one `PacketClassifier` method. Every `getRule`,
`getRulesByPriority` and statistics call is a guard of its own: after a write the store accepted,
`modifyRule` makes the `getRule` of `removeRuleFromSpecializedStructures`, and both writes that of
`updateSpecializedStructuresForRule`; `deleteRule` makes the first before the store's.
`classify` copies the cache, then raises the winner's count. The guards on
`specialized_structures_lock_` nest a `WriteLockGuard` only inside one of the same thread, which
`writeLock` lets its owner take again. -/
def PacketClassifier.Call.locks (srt : StdSort) (pc : PacketClassifier) :
    PacketClassifier.Call → List LockCall
  | .addRule rule =>
    let (ok, rm) := pc.ruleManager.addRule srt rule
    RuleManager.Call.locks pc.ruleManager (.addRule rule) ++
      if ok then readLocks ++ pc.bloomLocks rm rule.ruleId else []
  | .deleteRule ruleId => readLocks ++ RuleManager.Call.locks pc.ruleManager (.deleteRule ruleId)
  | .modifyRule ruleId newRuleData =>
    let (ok, rm) := pc.ruleManager.modifyRule srt ruleId newRuleData
    RuleManager.Call.locks pc.ruleManager (.modifyRule ruleId newRuleData) ++
      if ok then readLocks ++ readLocks ++ pc.bloomLocks rm ruleId else []
  | .classify header _ =>
    readLocks ++
      if (PacketClassifier.firstMatch pc.ruleManager header
          pc.ruleManager.getRulesByPriority).isSome then writeLocks
      else []
  | .resetStatistics => writeLocks
  | .resetRuleStatistics _ => writeLocks

/-! ## Waiting on oneself -/

namespace LockSystem

def OwnedBy (t : ThreadId) (s : LockSystem) : Prop :=
  LockInv s ∧ s.lock.writerActive = true ∧ s.lock.writerThreadId = some t

theorem OwnedBy.of_step {t u : ThreadId} {s s' : LockSystem} {op : LockOp} (h : OwnedBy t s)
    (hu : u ≠ t) (hs : step s u op = some s') : OwnedBy t s' := by
  obtain ⟨hi, ha, hid⟩ := h
  refine ⟨hi.of_step hs, ?_⟩
  have hw : u ∉ s.writes := fun hm => hu ((hi.owner t hid).2.1 u hm)
  have hne : some u ≠ some t := by simpa using hu
  cases op <;> simp only [step, readersMayEnter_iff, writerMayEnter_iff, ha, hid, hw, hne,
    and_false, false_and, reduceCtorEq, Bool.true_eq_false] at hs <;> split_ifs at hs <;> cases hs
  all_goals simp_all [acquireRead]

theorem readLock_blocked_by_own_write {t : ThreadId} {s : LockSystem} (h : OwnedBy t s) :
    ∀ s', Reach (· ≠ t) s s' → step s' t .readLock = none := by
  intro s' hr
  have : OwnedBy t s' := by
    induction hr with
    | refl => exact h
    | tail _ hu hs ih => exact ih.of_step hu hs
  simp [step, readersMayEnter_iff, this.2.1]

end LockSystem

/-- `RuleManager::addRule` of a new rule, on a new store, by a thread alone: it takes the write
lock, then blocks in `detectConflict`'s `readLock` for good. -/
theorem addRule_blocks_on_own_lock (rule : ClassificationRule) :
    RuleManager.Call.locks {} (.addRule rule) = writeWithConflictCheckLocks ∧
      LockSystem.runAlone {} 1 writeWithConflictCheckLocks = none ∧
      ∃ s, LockSystem.lockCall {} 1 .writeLock = some s ∧
        ∀ s', LockSystem.Reach (· ≠ 1) s s' → s'.step 1 .readLock = none := by
  let sched : List (ThreadId × LockOp) := [(1, .writeLock), (1, .writeLockWake)]
  have hi := LockSystem.lockInv_init.reach (LockSystem.reach_of_runSchedule sched rfl)
  refine ⟨by simp [RuleManager.Call.locks], by decide, _, rfl,
    LockSystem.readLock_blocked_by_own_write ⟨hi, rfl, rfl⟩⟩

/-! ## A thread alone -/

namespace LockSystem

theorem runAlone_append (s : LockSystem) (t : ThreadId) (xs ys : List LockCall) :
    s.runAlone t (xs ++ ys) = (s.runAlone t xs).bind fun s' => s'.runAlone t ys := by
  induction xs generalizing s with
  | nil => rfl
  | cons c cs ih =>
    rw [List.cons_append]
    simp only [runAlone, ih, Option.bind_assoc]

@[simp] theorem runAlone_writeLocks : runAlone {} 1 writeLocks = some {} := by decide

@[simp] theorem runAlone_readLocks : runAlone {} 1 readLocks = some {} := by decide

@[simp] theorem runAlone_writeWithConflictCheckLocks :
    runAlone {} 1 writeWithConflictCheckLocks = none := by decide

end LockSystem

theorem foldlM_eq_some_of_stuck {α β : Type} {f : α → β → Option α} {a : α} {p : β → Prop}
    (hp : ∀ b, p b → f a b = none) (hq : ∀ b, ¬ p b → f a b = some a) :
    ∀ (l : List β) (a' : α), l.foldlM f a = some a' ↔ a' = a ∧ ∀ b ∈ l, ¬ p b
  | [], a' => by simp [eq_comm]
  | b :: l, a' => by
    by_cases hb : p b
    · simp [hp b hb, hb]
    · simp [hq b hb, hb, foldlM_eq_some_of_stuck hp hq l a']

namespace RuleManager

variable (srt : StdSort)

/-- Method `c` made by thread 1 with no other thread running, from the lock state `s`: the lock
state after its lock calls and what its store step returns; `none` when the thread blocks. -/
def callAlone (s : LockSystem) (rm : RuleManager) (c : Call) :
    Option (LockSystem × Bool × RuleManager) :=
  (s.runAlone 1 (c.locks rm)).map fun s' => (s', rm.call srt c)

def runAlone (calls : List Call) : Option (LockSystem × RuleManager) :=
  calls.foldlM (fun (s, rm) c => (callAlone srt s rm c).map fun (s', _, rm') => (s', rm')) ({}, {})

theorem callAlone_new_addRule (rule : ClassificationRule) :
    callAlone srt {} {} (.addRule rule) = none := by
  simp [callAlone, Call.locks]

theorem callAlone_new {c : Call} (hc : ¬ ∃ rule, c = .addRule rule) :
    callAlone srt {} {} c = some ({}, (({} : RuleManager).call srt c).1, {}) := by
  cases c
  case addRule rule => exact absurd ⟨rule, rfl⟩ hc
  all_goals rfl

end RuleManager

namespace PacketClassifier

variable (srt : StdSort)

/-- Method `c` made by thread 1 with no other thread running, from the lock state `s`; `none`
when the thread blocks. -/
def callAlone (s : LockSystem) (pc : PacketClassifier) (c : Call) :
    Option (LockSystem × PacketClassifier) :=
  (s.runAlone 1 (c.locks srt pc)).map fun s' => (s', pc.call srt c)

def runAlone (useBloomFilter : Bool) (calls : List Call) : Option (LockSystem × PacketClassifier) :=
  calls.foldlM (fun (s, pc) c => callAlone srt s pc c) ({}, { useBloomFilter })

theorem callAlone_new_addRule (useBloomFilter : Bool) (rule : ClassificationRule) :
    callAlone srt {} { useBloomFilter } (.addRule rule) = none := by
  simp [callAlone, Call.locks, RuleManager.Call.locks, LockSystem.runAlone_append]

theorem callAlone_new (useBloomFilter : Bool) {c : Call} (hc : ¬ ∃ rule, c = .addRule rule) :
    callAlone srt {} { useBloomFilter } c = some ({}, { useBloomFilter }) := by
  cases c
  case addRule rule => exact absurd ⟨rule, rfl⟩ hc
  all_goals rfl

/-- A thread alone gets no rule into the classifier's store: its run blocks at its first
`addRule`, and until then the classifier stays as constructed and the lock free. -/
theorem runAlone_blocks_at_first_addRule (useBloomFilter : Bool) (calls : List Call)
    (s : LockSystem × PacketClassifier) :
    runAlone srt useBloomFilter calls = some s ↔
      s = ({}, { useBloomFilter }) ∧ ∀ c ∈ calls, ¬ ∃ rule, c = .addRule rule :=
  foldlM_eq_some_of_stuck (fun _ ⟨rule, hc⟩ => hc ▸ callAlone_new_addRule srt useBloomFilter rule)
    (fun _ hc => callAlone_new srt useBloomFilter hc) calls s

end PacketClassifier

end Classifier
