import Mathlib.Data.List.Basic

/-! # The read-write lock

`ReadWriteLock` of `threading.cpp`, for any number of threads. Each method runs under `mutex_`, so
each is one step, except `writeLock`, which registers as a waiting writer and then waits: two
steps. A condition-variable wait is a step that may run once its predicate holds. Beside the
lock's fields the state records what each thread holds, which is what the lock is for. -/

namespace Classifier

/-- A thread, by its `std::thread::id`. The default `std::thread::id()` names no thread. -/
abbrev ThreadId := Nat

/-- The fields of `ReadWriteLock`. The counters are `int` and stay far from its bounds. -/
structure ReadWriteLock where
  activeReaders : Int := 0
  waitingWriters : Int := 0
  writerActive : Bool := false
  writerThreadId : Option ThreadId := none
  recursiveWriteCount : Int := 0
  deriving DecidableEq, Repr

/-- The atomic steps of the lock's methods: `writeLock` is its call, a recursive entry or
registering as a waiting writer, and `writeLockWake` its return from `writer_cv_.wait`. -/
inductive LockOp where
  | readLock
  | readUnlock
  | tryReadLock
  | writeLock
  | writeLockWake
  | writeUnlock
  | tryWriteLock
  deriving DecidableEq, Repr

/-- The lock, the threads blocked in `writeLock`, and one entry per acquisition each thread has
not released yet. -/
structure LockSystem where
  lock : ReadWriteLock := {}
  waiting : List ThreadId := []
  reads : List ThreadId := []
  writes : List ThreadId := []
  deriving DecidableEq, Repr

namespace LockSystem

/-- `reader_cv_`'s predicate. -/
def readersMayEnter (l : ReadWriteLock) : Bool := !l.writerActive && l.waitingWriters == 0

/-- `writer_cv_`'s predicate. -/
def writerMayEnter (l : ReadWriteLock) : Bool := !l.writerActive && l.activeReaders == 0

theorem readersMayEnter_iff (l : ReadWriteLock) :
    readersMayEnter l = true ↔ l.writerActive = false ∧ l.waitingWriters = 0 := by
  simp [readersMayEnter]

theorem writerMayEnter_iff (l : ReadWriteLock) :
    writerMayEnter l = true ↔ l.writerActive = false ∧ l.activeReaders = 0 := by
  simp [writerMayEnter]

def acquireRead (s : LockSystem) (t : ThreadId) : LockSystem :=
  { s with lock := { s.lock with activeReaders := s.lock.activeReaders + 1 }, reads := t :: s.reads }

/-- One step of thread `t`, or `none` when it cannot take it: it is blocked, or it would release
what it does not hold. A thread waiting in `writeLock` takes no other step. -/
def step (s : LockSystem) (t : ThreadId) : LockOp → Option LockSystem
  | .readLock =>
    if t ∉ s.waiting ∧ readersMayEnter s.lock then some (s.acquireRead t) else none
  | .readUnlock =>
    if t ∉ s.waiting ∧ t ∈ s.reads then
      some { s with lock := { s.lock with activeReaders := s.lock.activeReaders - 1 },
                    reads := s.reads.erase t }
    else none
  | .tryReadLock =>
    if t ∈ s.waiting then none
    else if readersMayEnter s.lock then some (s.acquireRead t) else some s
  | .writeLock =>
    if t ∈ s.waiting then none
    else if s.lock.writerActive ∧ s.lock.writerThreadId = some t then
      some { s with lock := { s.lock with recursiveWriteCount := s.lock.recursiveWriteCount + 1 },
                    writes := t :: s.writes }
    else
      some { s with lock := { s.lock with waitingWriters := s.lock.waitingWriters + 1 },
                    waiting := t :: s.waiting }
  | .writeLockWake =>
    if t ∈ s.waiting ∧ writerMayEnter s.lock then
      some { lock := { s.lock with waitingWriters := s.lock.waitingWriters - 1, writerActive := true,
                                   writerThreadId := some t, recursiveWriteCount := 1 },
             waiting := s.waiting.erase t, reads := s.reads, writes := t :: s.writes }
    else none
  | .writeUnlock =>
    if t ∉ s.waiting ∧ t ∈ s.writes then
      -- Not the recorded writer: the source returns without touching the lock.
      if !s.lock.writerActive || s.lock.writerThreadId != some t then
        some { s with writes := s.writes.erase t }
      else if s.lock.recursiveWriteCount - 1 = 0 then
        some { s with lock := { s.lock with recursiveWriteCount := 0, writerActive := false,
                                            writerThreadId := none },
                      writes := s.writes.erase t }
      else
        some { s with lock := { s.lock with recursiveWriteCount := s.lock.recursiveWriteCount - 1 },
                      writes := s.writes.erase t }
    else none
  | .tryWriteLock =>
    if t ∈ s.waiting then none
    else if s.lock.activeReaders = 0 ∧ !s.lock.writerActive then
      -- The writer's id and the recursion count are left as they were.
      some { s with lock := { s.lock with writerActive := true }, writes := t :: s.writes }
    else some s

inductive Reach (who : ThreadId → Prop) (s : LockSystem) : LockSystem → Prop where
  | refl : Reach who s s
  | tail {u v : LockSystem} {t : ThreadId} {op : LockOp} :
      Reach who s u → who t → step u t op = some v → Reach who s v

theorem Reach.trans {who : ThreadId → Prop} {a b c : LockSystem} (h₁ : Reach who a b)
    (h₂ : Reach who b c) : Reach who a c := by
  induction h₂ with
  | refl => exact h₁
  | tail _ hw hs ih => exact .tail ih hw hs

def Reachable (s : LockSystem) : Prop := Reach (fun _ => True) {} s

def runSchedule (s : LockSystem) : List (ThreadId × LockOp) → Option LockSystem
  | [] => some s
  | (t, op) :: rest => (step s t op).bind fun s => runSchedule s rest

theorem reach_of_runSchedule {s s' : LockSystem} :
    ∀ (sched : List (ThreadId × LockOp)), runSchedule s sched = some s' →
      Reach (fun _ => True) s s'
  | [], h => by cases h; exact .refl
  | (t, op) :: rest, h => by
    simp only [runSchedule, Option.bind_eq_some] at h
    obtain ⟨u, hu, hrest⟩ := h
    exact Reach.trans (.tail .refl trivial hu) (reach_of_runSchedule rest hrest)

/-! ## Mutual exclusion -/

structure LockInv (s : LockSystem) : Prop where
  readers : s.lock.activeReaders = s.reads.length
  noReaders : s.lock.writerActive = true → s.reads = []
  writerActive : s.writes ≠ [] → s.lock.writerActive = true
  owner : ∀ t, s.lock.writerThreadId = some t → s.lock.writerActive = true ∧
    (∀ u ∈ s.writes, u = t) ∧ s.lock.recursiveWriteCount = s.writes.length
  anonymous : s.lock.writerThreadId = none → s.writes.length ≤ 1

theorem lockInv_init : LockInv {} := ⟨rfl, by simp, by simp, by simp, by simp⟩

theorem LockInv.free {s : LockSystem} (h : LockInv s) (ha : s.lock.writerActive = false) :
    s.writes = [] ∧ s.lock.writerThreadId = none := by
  refine ⟨by_contra fun hw => by simp [h.writerActive hw] at ha, ?_⟩
  cases hid : s.lock.writerThreadId with
  | none => rfl
  | some t => simp [(h.owner t hid).1] at ha

theorem LockInv.acquire_read {s : LockSystem} (h : LockInv s) (t : ThreadId)
    (ha : s.lock.writerActive = false) : LockInv (s.acquireRead t) where
  readers := by simp [LockSystem.acquireRead, h.readers]
  noReaders := by simp [LockSystem.acquireRead, ha]
  writerActive := h.writerActive
  owner := h.owner
  anonymous := h.anonymous

section Steps

variable {s s' : LockSystem} {t : ThreadId}

theorem LockInv.readUnlock (h : LockInv s) (hs : step s t .readUnlock = some s') :
    LockInv s' := by
  simp only [step] at hs
  split_ifs at hs with h₁
  cases hs
  -- A reader holds the lock, so no writer does.
  have hw : s.lock.writerActive = false := by
    cases hw : s.lock.writerActive
    · rfl
    · simp [h.noReaders hw] at h₁
  refine ⟨?_, by simp [hw], h.writerActive, h.owner, h.anonymous⟩
  have := List.length_pos_of_mem h₁.2
  simp [h.readers, List.length_erase_of_mem h₁.2]; omega

theorem LockInv.writeLock (h : LockInv s) (hs : step s t .writeLock = some s') :
    LockInv s' := by
  simp only [step] at hs
  split_ifs at hs with h₁ h₂
  all_goals cases hs
  · -- A recursive entry by the owner.
    obtain ⟨ha, hid⟩ := h₂
    obtain ⟨-, hall, hc⟩ := h.owner t hid
    refine ⟨h.readers, h.noReaders, fun _ => ha, fun u hu => ?_, by simp [hid]⟩
    simp only [hid, Option.some.injEq] at hu; subst hu
    exact ⟨ha, fun v hv => (List.mem_cons.mp hv).elim id (hall v), by simp [hc]⟩
  · exact ⟨h.readers, h.noReaders, h.writerActive, h.owner, h.anonymous⟩

theorem LockInv.writeLockWake (h : LockInv s) (hs : step s t .writeLockWake = some s') :
    LockInv s' := by
  simp only [step, writerMayEnter_iff] at hs
  split_ifs at hs with h₁
  cases hs
  -- The lock was free.
  obtain ⟨hw, hid⟩ := h.free h₁.2.1
  have hr : s.reads = [] := List.eq_nil_of_length_eq_zero (by have := h.readers; omega)
  refine ⟨by simp [h.readers, hr], fun _ => hr, fun _ => rfl, fun u hu => ?_, by simp⟩
  simp only [Option.some.injEq] at hu; subst hu
  simp [hw]

theorem erase_eq_nil_of_length_le_one {l : List ThreadId} (ht : t ∈ l) (hl : l.length ≤ 1) :
    l.erase t = [] := by
  have := List.length_erase_of_mem ht
  exact List.eq_nil_of_length_eq_zero (by omega)

theorem LockInv.writeUnlock (h : LockInv s) (hs : step s t .writeUnlock = some s') :
    LockInv s' := by
  simp only [step] at hs
  split_ifs at hs with h₁ h₂ h₃
  all_goals cases hs
  · -- Not the recorded writer: then no writer is recorded, and `t` held the lock alone.
    have ha := h.writerActive (List.ne_nil_of_mem h₁.2)
    have hid : s.lock.writerThreadId = none := by
      cases hid : s.lock.writerThreadId with
      | none => rfl
      | some u =>
        have := (h.owner u hid).2.1 t h₁.2
        subst this; simp [ha, hid] at h₂
    have := erase_eq_nil_of_length_le_one h₁.2 (h.anonymous hid)
    exact ⟨h.readers, h.noReaders, by simp [this], by simp [hid], by simp [this]⟩
  · -- The owner's last release.
    simp only [Bool.or_eq_true, Bool.not_eq_true', bne_iff_ne, ne_eq, not_or, not_not,
      Bool.not_eq_false] at h₂
    obtain ⟨-, -, hc⟩ := h.owner t h₂.2
    have := erase_eq_nil_of_length_le_one h₁.2 (by omega)
    exact ⟨h.readers, by simp, by simp [this], by simp, by simp [this]⟩
  · -- The owner still holds it.
    simp only [Bool.or_eq_true, Bool.not_eq_true', bne_iff_ne, ne_eq, not_or, not_not,
      Bool.not_eq_false] at h₂
    obtain ⟨ha, hid⟩ := h₂
    obtain ⟨-, hall, hc⟩ := h.owner t hid
    refine ⟨h.readers, h.noReaders, fun _ => ha, fun u hu => ?_, by simp [hid]⟩
    simp only [hid, Option.some.injEq] at hu; subst hu
    refine ⟨ha, fun v hv => hall v (List.mem_of_mem_erase hv), ?_⟩
    have := List.length_pos_of_mem h₁.2
    simp [List.length_erase_of_mem h₁.2, hc]; omega

theorem LockInv.tryWriteLock (h : LockInv s) (hs : step s t .tryWriteLock = some s') :
    LockInv s' := by
  simp only [step] at hs
  split_ifs at hs with h₁ h₂
  all_goals cases hs
  · -- The lock was free.
    obtain ⟨hw, hid⟩ := h.free (by simpa using h₂.2)
    have hr : s.reads = [] := List.eq_nil_of_length_eq_zero (by have := h.readers; omega)
    exact ⟨by simp [h.readers, hr], fun _ => hr, fun _ => rfl, by simp [hid], by simp [hw]⟩
  · exact h

theorem LockInv.of_step {op : LockOp} (h : LockInv s) (hs : step s t op = some s') :
    LockInv s' := by
  cases op with
  | readLock =>
    simp only [step, readersMayEnter_iff] at hs
    split_ifs at hs with h₁
    cases hs
    exact h.acquire_read t h₁.2.1
  | tryReadLock =>
    simp only [step, readersMayEnter_iff] at hs
    split_ifs at hs with h₁ h₂ <;> cases hs
    · exact h.acquire_read t h₂.1
    · exact h
  | readUnlock => exact h.readUnlock hs
  | writeLock => exact h.writeLock hs
  | writeLockWake => exact h.writeLockWake hs
  | writeUnlock => exact h.writeUnlock hs
  | tryWriteLock => exact h.tryWriteLock hs

end Steps

theorem LockInv.reach {who : ThreadId → Prop} {s s' : LockSystem} (h : LockInv s)
    (hr : Reach who s s') : LockInv s' := by
  induction hr with
  | refl => exact h
  | tail _ _ hs ih => exact ih.of_step hs

def MutualExclusion (s : LockSystem) : Prop :=
  ∀ t u, t ≠ u → t ∈ s.writes → u ∉ s.reads ∧ u ∉ s.writes

theorem LockInv.mutualExclusion {s : LockSystem} (h : LockInv s) : MutualExclusion s := by
  intro t u hne ht
  have ha := h.writerActive (List.ne_nil_of_mem ht)
  refine ⟨by simp [h.noReaders ha], fun hu => hne ?_⟩
  cases hid : s.lock.writerThreadId with
  | none =>
    have := h.anonymous hid
    match hw : s.writes, ht, hu with
    | [_], ht, hu => simp at ht hu; rw [ht, hu]
    | [], ht, _ => simp at ht
    | _ :: _ :: _, _, _ => simp [hw] at this
  | some v => rw [(h.owner v hid).2.1 t ht, (h.owner v hid).2.1 u hu]

theorem reachable_mutual_exclusion {s : LockSystem} (h : Reachable s) : MutualExclusion s :=
  (lockInv_init.reach h).mutualExclusion

def recursiveWriterSchedule : List (ThreadId × LockOp) :=
  [(1, .writeLock), (1, .writeLockWake), (1, .writeLock), (2, .writeLock), (3, .tryReadLock)]

theorem recursive_writer_excludes :
    let s := (runSchedule {} recursiveWriterSchedule).getD {}
    Reachable s ∧ MutualExclusion s :=
  ⟨reach_of_runSchedule recursiveWriterSchedule rfl,
    reachable_mutual_exclusion (reach_of_runSchedule recursiveWriterSchedule rfl)⟩

/-! ## Writers first

`reader_cv_` lets readers in only while `waiting_writers_` is zero, and `waiting_writers_` counts
the threads blocked in `writeLock`. So once a writer waits, readers only leave. -/

def WaitCount (s : LockSystem) : Prop := s.lock.waitingWriters = s.waiting.length

theorem WaitCount.of_step {s s' : LockSystem} {t : ThreadId} {op : LockOp} (h : WaitCount s)
    (hs : step s t op = some s') : WaitCount s' := by
  cases op <;> simp only [step] at hs <;> split_ifs at hs with h₁ <;> cases hs
  all_goals first
    | exact h
    -- `writeLock` registers `t`; `writeLockWake` takes it off.
    | (show s.lock.waitingWriters + 1 = (t :: s.waiting).length
       rw [h, List.length_cons]
       omega)
    | (show s.lock.waitingWriters - 1 = (s.waiting.erase t).length
       have := List.length_pos_of_mem h₁.1
       rw [h, List.length_erase_of_mem h₁.1]
       omega)

theorem WaitCount.reach {who : ThreadId → Prop} {s s' : LockSystem} (h : WaitCount s)
    (hr : Reach who s s') : WaitCount s' := by
  induction hr with
  | refl => exact h
  | tail _ _ hs ih => exact ih.of_step hs

theorem reads_sublist_of_step {s s' : LockSystem} {w t : ThreadId} {op : LockOp}
    (hc : WaitCount s) (hw : w ∈ s.waiting) (ht : t ≠ w) (hs : step s t op = some s') :
    w ∈ s'.waiting ∧ s'.reads.Sublist s.reads := by
  -- Readers may not enter: `waiting_writers_` is positive.
  have hno : readersMayEnter s.lock = false := by
    have := List.length_pos_of_mem hw
    have hz : (s.lock.waitingWriters == 0) = false := by
      rw [hc, beq_eq_false_iff_ne]
      omega
    rw [readersMayEnter, hz, Bool.and_false]
  cases op <;> simp only [step, hno, and_false, if_false, Bool.false_eq_true] at hs <;>
    (try split_ifs at hs with h₁) <;> cases hs
  all_goals first
    | exact ⟨hw, .refl _⟩
    | exact ⟨hw, List.erase_sublist _ _⟩
    | exact ⟨List.mem_cons_of_mem _ hw, .refl _⟩
    | exact ⟨(List.mem_erase_of_ne ht.symm).mpr hw, .refl _⟩

/-- Writers go first: from any reachable state in which `w` waits in `writeLock`, whatever the
other threads do, `w` keeps waiting and no thread gains read access; readers only leave. -/
theorem readers_only_leave_while_writer_waits {s s' : LockSystem} {w : ThreadId}
    (hr : Reachable s) (hw : w ∈ s.waiting) (h : Reach (· ≠ w) s s') :
    w ∈ s'.waiting ∧ s'.reads.Sublist s.reads := by
  have hc : WaitCount s := (show WaitCount {} from rfl).reach hr
  induction h with
  | refl => exact ⟨hw, .refl _⟩
  | tail hr' ht hs ih =>
    obtain ⟨hw', hsub⟩ := ih
    exact (reads_sublist_of_step (hc.reach hr') hw' ht hs).imp_right (·.trans hsub)

theorem readers_only_leave_while_writer_waits_reader_leaves :
    ∃ s s', runSchedule {} [(1, .readLock), (2, .writeLock)] = some s ∧ Reach (· ≠ 2) s s' ∧
      2 ∈ s'.waiting ∧ s'.reads.Sublist s.reads ∧ s'.reads = [] :=
  have hr : Reach (· ≠ 2) _ _ := .tail .refl (show (1 : ThreadId) ≠ 2 by decide)
    (show step ⟨⟨1, 1, false, none, 0⟩, [2], [1], []⟩ 1 .readUnlock =
      some ⟨⟨0, 1, false, none, 0⟩, [2], [], []⟩ from rfl)
  have h := readers_only_leave_while_writer_waits
    (reach_of_runSchedule [(1, .readLock), (2, .writeLock)] rfl) (by decide) hr
  ⟨_, _, rfl, hr, h.1, h.2, rfl⟩

/-! ## A lock nobody holds -/

def Orphaned (s : LockSystem) : Prop :=
  s.lock.writerActive = true ∧ s.lock.writerThreadId = none ∧ s.reads = [] ∧ s.writes = []

theorem Orphaned.of_step {s s' : LockSystem} {t : ThreadId} {op : LockOp} (h : Orphaned s)
    (hs : step s t op = some s') : Orphaned s' := by
  obtain ⟨ha, hid, hr, hw⟩ := h
  cases op <;> simp only [LockSystem.step, readersMayEnter_iff, writerMayEnter_iff, ha, hid, hr, hw,
    List.not_mem_nil, and_false, false_and, reduceCtorEq] at hs <;> split_ifs at hs <;> cases hs
  all_goals simp_all [Orphaned]

theorem Orphaned.reach {who : ThreadId → Prop} {s s' : LockSystem} (h : Orphaned s)
    (hr : Reach who s s') : Orphaned s' := by
  induction hr with
  | refl => exact h
  | tail _ _ hs ih => exact ih.of_step hs

/-- `tryWriteLock` then `writeUnlock` by the same thread leave no acquisition outstanding, yet the
lock stays write-held: `tryWriteLock` does not record the writer, so `writeUnlock` returns early.
From then on no thread ever holds the lock. -/
theorem tryWriteLock_writeUnlock_orphans_lock :
    ∃ s, runSchedule {} [(1, .tryWriteLock), (1, .writeUnlock)] = some s ∧
      s.reads = [] ∧ s.writes = [] ∧ s.lock.writerActive = true ∧
      ∀ s', Reach (fun _ => True) s s' → s'.reads = [] ∧ s'.writes = [] := by
  refine ⟨_, rfl, rfl, rfl, rfl, fun s' hr => ?_⟩
  have := Orphaned.reach ⟨rfl, rfl, rfl, rfl⟩ hr
  exact ⟨this.2.2.1, this.2.2.2⟩

end LockSystem

end Classifier
