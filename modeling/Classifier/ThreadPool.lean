import Mathlib.Data.List.Count
import Mathlib.Data.List.Nodup

/-! # The thread pool

`SimpleThreadPool` of `threading.cpp`, as threads taking atomic steps: its workers, and callers of
`enqueue` and `stop`. Each critical section under `queue_mutex_` is one step, and so is each read
of `stop_` outside it; `stop_` is a plain `bool`, so those reads race with the write in `stop`,
and the model lets them read the value last written. A worker blocked in `condition_.wait`, or a
caller in `join`, has no step until what it waits for holds. Tasks are named by number and run
in one step; what a task does, and its exceptions, which the worker catches, are left out.

The state also records, as ghosts, the tasks run and the tasks pushed, split by whether `stop_`
was already set when they were pushed. -/

namespace Classifier

namespace SimpleThreadPool

/-- Where a worker is in its loop: at `condition_.wait` under the lock, out of the lock about to
run `task`, out of the loop, or joined. -/
inductive Worker where
  | waiting
  | running (task : Nat)
  | exited
  | joined
  deriving DecidableEq, Repr

/-- Where a caller is in `enqueue(task)` or `stop()`: `enqueue` and `stop` are about to read
`stop_`, `push` and `setStop` have read it clear; `join j` is at `workers_[j].joinable()` and
`joinWait j` in `workers_[j].join()`; `failed` is a `join()` that threw, another `stop()` having
joined the thread since this one saw it joinable. -/
inductive Caller where
  | enqueue (task : Nat)
  | push (task : Nat)
  | stop
  | setStop
  | join (j : Nat)
  | joinWait (j : Nat)
  | returned
  | failed
  deriving DecidableEq, Repr

inductive Call where
  | enqueue (task : Nat)
  | stop
  deriving DecidableEq, Repr

def Call.start : Call → Caller
  | .enqueue task => .enqueue task
  | .stop => .stop

def Call.task? : Call → Option Nat
  | .enqueue task => some task
  | .stop => none

/-- `stop_`, `tasks_`, the workers and callers, and the tasks run, pushed while `stop_` was clear
(`accepted`) and pushed after it was set (`late`). -/
structure Sys where
  stop : Bool
  tasks : List Nat
  workers : List Worker
  callers : List Caller
  ran : List Nat
  accepted : List Nat
  late : List Nat
  deriving DecidableEq, Repr

/-- `SimpleThreadPool(num_threads)`, with `hardware_concurrency()` as given, and the calls made
on it. -/
def new (numThreads hardwareConcurrency : Nat) (calls : List Call) : Sys :=
  let threadsToCreate := if numThreads = 0 then hardwareConcurrency else numThreads
  let threadsToCreate := if threadsToCreate = 0 then 1 else threadsToCreate
  { stop := false, tasks := [], workers := List.replicate threadsToCreate .waiting,
    callers := calls.map Call.start, ran := [], accepted := [], late := [] }

inductive Actor where
  | worker (i : Nat)
  | caller (i : Nat)
  deriving DecidableEq, Repr

namespace Sys

/-- One pass of worker `i`'s loop: under `queue_mutex_`, exit when `stop_` is set and `tasks_`
empty, else take the front task, blocking in `condition_.wait` while there is none; then, out of
the lock, run the task. -/
def workerStep (s : Sys) (i : Nat) : Option Sys :=
  match s.workers[i]? with
  | some .waiting =>
    if s.stop && s.tasks.isEmpty then some { s with workers := s.workers.set i .exited }
    else match s.tasks with
      | t :: rest => some { s with workers := s.workers.set i (.running t), tasks := rest }
      | [] => none
  | some (.running t) => some { s with workers := s.workers.set i .waiting, ran := s.ran ++ [t] }
  | _ => none

/-- One step of caller `i`. -/
def callerStep (s : Sys) (i : Nat) : Option Sys :=
  match s.callers[i]? with
  | some (.enqueue t) =>
    some { s with callers := s.callers.set i (if s.stop then .returned else .push t) }
  | some (.push t) =>
    some { s with
      callers := s.callers.set i .returned
      tasks := s.tasks ++ [t]
      accepted := if s.stop then s.accepted else s.accepted ++ [t]
      late := if s.stop then s.late ++ [t] else s.late }
  | some .stop =>
    some { s with callers := s.callers.set i (if s.stop then .returned else .setStop) }
  | some .setStop => some { s with callers := s.callers.set i (.join 0), stop := true }
  | some (.join j) =>
    match s.workers[j]? with
    | none => some { s with callers := s.callers.set i .returned }
    | some .joined => some { s with callers := s.callers.set i (.join (j + 1)) }
    | some _ => some { s with callers := s.callers.set i (.joinWait j) }
  | some (.joinWait j) =>
    match s.workers[j]? with
    | some .exited =>
      some { s with workers := s.workers.set j .joined, callers := s.callers.set i (.join (j + 1)) }
    | some .joined => some { s with callers := s.callers.set i .failed }
    | _ => none
  | _ => none

def step (s : Sys) : Actor → Option Sys
  | .worker i => s.workerStep i
  | .caller i => s.callerStep i

inductive Steps : Sys → Sys → Prop
  | refl (s : Sys) : Steps s s
  | head {s s₁ s₂ : Sys} (a : Actor) : s.step a = some s₁ → Steps s₁ s₂ → Steps s s₂

def interleave (s : Sys) : List Actor → Option Sys
  | [] => some s
  | a :: as => (s.step a).bind fun s => interleave s as

theorem steps_of_interleave {s s' : Sys} :
    ∀ (sched : List Actor), interleave s sched = some s' → Steps s s'
  | [], h => by cases h; exact .refl _
  | a :: as, h => by
    obtain ⟨s₁, h₁, h₂⟩ := Option.bind_eq_some.mp h
    exact .head a h₁ (steps_of_interleave as h₂)

end Sys

/-! ## What the threads hold -/

def Worker.task? : Worker → Option Nat
  | .running task => some task
  | .waiting | .exited | .joined => none

def Worker.done : Worker → Bool
  | .exited | .joined => true
  | .waiting | .running _ => false

def Caller.task? : Caller → Option Nat
  | .enqueue task | .push task => some task
  | .stop | .setStop | .join _ | .joinWait _ | .returned | .failed => none

def Caller.joinIndex? : Caller → Option Nat
  | .join j | .joinWait j => some j
  | .enqueue _ | .push _ | .stop | .setStop | .returned | .failed => none

def inFlight (workers : List Worker) : List Nat := workers.filterMap Worker.task?

def pending (callers : List Caller) : List Nat := callers.filterMap Caller.task?

/-! ## The invariant -/

theorem countP_set_add {α : Type} {l : List α} {i : Nat} {a : α} (h : l[i]? = some a)
    (p : α → Bool) (b : α) :
    (l.set i b).countP p + (if p a then 1 else 0) = l.countP p + (if p b then 1 else 0) := by
  obtain ⟨hi, rfl⟩ := List.getElem?_eq_some_iff.mp h
  rw [List.countP_set p l i b hi]
  have : (if p l[i] then 1 else 0) ≤ l.countP p := by
    split_ifs with hp
    · exact List.countP_pos_iff.mpr ⟨_, List.getElem_mem hi, hp⟩
    · exact Nat.zero_le _
  omega

theorem count_filterMap_set {α : Type} (f : α → Option Nat) {l : List α} {i : Nat} {a : α}
    (h : l[i]? = some a) (b : α) (x : Nat) :
    ((l.set i b).filterMap f).count x + (f a).toList.count x =
      (l.filterMap f).count x + (f b).toList.count x := by
  have := countP_set_add h (fun a => f a == some x) b
  rw [List.count_filterMap, List.count_filterMap]
  cases ha : f a <;> cases hb : f b <;> simp_all [List.count_singleton]

theorem mem_set_of_getElem? {α : Type} {l : List α} {i : Nat} {a : α} (h : l[i]? = some a)
    (b : α) : b ∈ l.set i b :=
  List.getElem?_mem (List.getElem?_set_self (List.getElem?_eq_some_iff.mp h).1)

theorem getElem?_set_of_joined {ws : List Worker} {i k : Nat} {w : Worker} (h : ws[i]? = some w)
    (hw : w ≠ .joined) (hk : ws[k]? = some .joined) (w' : Worker) :
    (ws.set i w')[k]? = some .joined := by
  rw [List.getElem?_set_ne fun hik => hw (by simp_all)]
  exact hk

structure Inv (tasks₀ : List Nat) (s : Sys) : Prop where
  workers_pos : 0 < s.workers.length
  conserved : (s.ran ++ inFlight s.workers ++ s.tasks).Perm (s.accepted ++ s.late)
  enqueued : (s.accepted ++ s.late ++ pending s.callers).Subperm tasks₀
  stop_of_done : (∃ w ∈ s.workers, w.done) → s.stop = true
  late_of_done : (∀ w ∈ s.workers, w.done) → s.tasks.Sublist s.late
  joined : ∀ c ∈ s.callers, ∀ j ∈ c.joinIndex?, ∀ k < j, s.workers[k]? = some .joined

theorem inv_new (numThreads hardwareConcurrency : Nat) (calls : List Call) :
    Inv (calls.filterMap Call.task?) (new numThreads hardwareConcurrency calls) where
  workers_pos := by simp only [new, List.length_replicate]; split_ifs <;> omega
  conserved := by simp [new, inFlight, List.filterMap_eq_nil_iff, Worker.task?]
  enqueued := by
    have : pending (calls.map Call.start) = calls.filterMap Call.task? := by
      rw [pending, List.filterMap_map]
      congr 1; funext c; cases c <;> rfl
    simp only [new, this, List.nil_append]
    exact .refl _
  stop_of_done := fun ⟨w, hw, hd⟩ => by rw [List.eq_of_mem_replicate hw] at hd; cases hd
  late_of_done _ := .slnil
  joined c hc j hj := by
    obtain ⟨call, -, rfl⟩ := List.mem_map.mp hc
    cases call <;> cases hj

namespace Inv

variable {tasks₀ : List Nat} {s : Sys}

theorem take (hi : Inv tasks₀ s) {i t : Nat} {rest : List Nat}
    (hw : s.workers[i]? = some .waiting) (ht : s.tasks = t :: rest) :
    Inv tasks₀ { s with workers := s.workers.set i (.running t), tasks := rest } where
  workers_pos := by simpa using hi.workers_pos
  conserved := by
    refine List.perm_iff_count.mpr fun x => ?_
    have h₁ := List.perm_iff_count.mp hi.conserved x
    have h₂ := count_filterMap_set Worker.task? hw (.running t) x
    simp only [List.count_append, inFlight, ht, List.count_cons, Worker.task?, Option.toList,
      List.count_singleton, List.count_nil, beq_iff_eq] at h₁ h₂ ⊢
    omega
  enqueued := hi.enqueued
  stop_of_done := fun ⟨w, hw', hd⟩ => hi.stop_of_done ⟨w,
    (List.mem_or_eq_of_mem_set hw').resolve_right (by rintro rfl; simp [Worker.done] at hd), hd⟩
  late_of_done hd := absurd (hd _ (mem_set_of_getElem? hw _)) (by simp [Worker.done])
  joined c hc j hj k hk := getElem?_set_of_joined hw (by simp) (hi.joined c hc j hj k hk) _

theorem run (hi : Inv tasks₀ s) {i t : Nat} (hw : s.workers[i]? = some (.running t)) :
    Inv tasks₀ { s with workers := s.workers.set i .waiting, ran := s.ran ++ [t] } where
  workers_pos := by simpa using hi.workers_pos
  conserved := by
    refine List.perm_iff_count.mpr fun x => ?_
    have h₁ := List.perm_iff_count.mp hi.conserved x
    have h₂ := count_filterMap_set Worker.task? hw .waiting x
    simp only [List.count_append, inFlight, Worker.task?, Option.toList, List.count_singleton,
      List.count_nil, beq_iff_eq] at h₁ h₂ ⊢
    omega
  enqueued := hi.enqueued
  stop_of_done := fun ⟨w, hw', hd⟩ => hi.stop_of_done ⟨w,
    (List.mem_or_eq_of_mem_set hw').resolve_right (by rintro rfl; simp [Worker.done] at hd), hd⟩
  late_of_done hd := absurd (hd _ (mem_set_of_getElem? hw _)) (by simp [Worker.done])
  joined c hc j hj k hk := getElem?_set_of_joined hw (by simp) (hi.joined c hc j hj k hk) _

theorem exit (hi : Inv tasks₀ s) {i : Nat} (hw : s.workers[i]? = some .waiting)
    (hs : s.stop = true) (ht : s.tasks = []) :
    Inv tasks₀ { s with workers := s.workers.set i .exited } where
  workers_pos := by simpa using hi.workers_pos
  conserved := by
    refine List.perm_iff_count.mpr fun x => ?_
    have h₁ := List.perm_iff_count.mp hi.conserved x
    have h₂ := count_filterMap_set Worker.task? hw .exited x
    simp only [List.count_append, inFlight] at h₁ h₂ ⊢
    simp [Worker.task?] at h₂
    omega
  enqueued := hi.enqueued
  stop_of_done _ := hs
  late_of_done _ := ht ▸ List.nil_sublist _
  joined c hc j hj k hk := getElem?_set_of_joined hw (by simp) (hi.joined c hc j hj k hk) _

theorem joinWorker (hi : Inv tasks₀ s) {j : Nat} (hw : s.workers[j]? = some .exited) :
    Inv tasks₀ { s with workers := s.workers.set j .joined } where
  workers_pos := by simpa using hi.workers_pos
  conserved := by
    refine List.perm_iff_count.mpr fun x => ?_
    have h₁ := List.perm_iff_count.mp hi.conserved x
    have h₂ := count_filterMap_set Worker.task? hw .joined x
    simp only [List.count_append, inFlight] at h₁ h₂ ⊢
    simp [Worker.task?] at h₂
    omega
  enqueued := hi.enqueued
  stop_of_done _ := hi.stop_of_done ⟨_, List.getElem?_mem hw, rfl⟩
  late_of_done hd := hi.late_of_done fun w hw' => by
    obtain ⟨k, hk⟩ := List.mem_iff_getElem?.mp hw'
    by_cases hjk : j = k
    · subst hjk; rw [hw] at hk; cases hk; rfl
    · exact hd w (List.getElem?_mem ((List.getElem?_set_ne hjk).trans hk))
  joined c hc i hi' k hk := by
    by_cases hjk : j = k
    · subst hjk; exact List.getElem?_set_self (List.getElem?_eq_some_iff.mp hw).1
    · rw [List.getElem?_set_ne hjk]; exact hi.joined c hc i hi' k hk

theorem setStop (hi : Inv tasks₀ s) : Inv tasks₀ { s with stop := true } where
  workers_pos := hi.workers_pos
  conserved := hi.conserved
  enqueued := hi.enqueued
  stop_of_done _ := rfl
  late_of_done := hi.late_of_done
  joined := hi.joined

theorem setCaller (hi : Inv tasks₀ s) {i : Nat} {c c' : Caller} (hc : s.callers[i]? = some c)
    (htask : ∀ t, c'.task? = some t → c.task? = some t)
    (hjoin : ∀ j ∈ c'.joinIndex?, ∀ k < j, s.workers[k]? = some .joined) :
    Inv tasks₀ { s with callers := s.callers.set i c' } where
  workers_pos := hi.workers_pos
  conserved := hi.conserved
  enqueued := by
    refine List.Subperm.trans ?_ hi.enqueued
    refine (List.subperm_append_left _).mpr (List.subperm_ext_iff.mpr fun x _ => ?_)
    have h₂ := count_filterMap_set Caller.task? hc c' x
    simp only [pending] at h₂ ⊢
    cases hx : c'.task? with
    | none => simp [hx] at h₂; omega
    | some y => simp [hx, htask y hx] at h₂; omega
  stop_of_done := hi.stop_of_done
  late_of_done := hi.late_of_done
  joined c'' hc'' := by
    rcases List.mem_or_eq_of_mem_set hc'' with hc'' | rfl
    · exact hi.joined c'' hc''
    · exact hjoin

theorem push (hi : Inv tasks₀ s) {i t : Nat} (hc : s.callers[i]? = some (.push t)) :
    Inv tasks₀ { s with
      callers := s.callers.set i .returned
      tasks := s.tasks ++ [t]
      accepted := if s.stop then s.accepted else s.accepted ++ [t]
      late := if s.stop then s.late ++ [t] else s.late } where
  workers_pos := hi.workers_pos
  conserved := by
    refine List.perm_iff_count.mpr fun x => ?_
    have h₁ := List.perm_iff_count.mp hi.conserved x
    split_ifs <;> simp only [List.count_append] at h₁ ⊢ <;> omega
  enqueued := by
    refine List.Subperm.trans (List.Perm.subperm (List.perm_iff_count.mpr fun x => ?_))
      hi.enqueued
    have h₂ := count_filterMap_set Caller.task? hc .returned x
    simp only [pending, Caller.task?, Option.toList, List.count_append, List.count_singleton,
      List.count_nil, beq_iff_eq] at h₂ ⊢
    split_ifs <;> simp only [List.count_append, List.count_singleton, beq_iff_eq] <;> omega
  stop_of_done := hi.stop_of_done
  late_of_done hd := by
    have hs := hi.stop_of_done
      ⟨_, List.getElem_mem hi.workers_pos, hd _ (List.getElem_mem hi.workers_pos)⟩
    simp only [hs, if_true]
    exact (hi.late_of_done hd).append (List.Sublist.refl _)
  joined c hc' := by
    rcases List.mem_or_eq_of_mem_set hc' with hc' | rfl
    · exact hi.joined c hc'
    · exact fun _ h => by cases h

end Inv

theorem joined_before_succ {ws : List Worker} {j : Nat} (hold : ∀ k < j, ws[k]? = some .joined)
    (hj : ws[j]? = some .joined) : ∀ k < j + 1, ws[k]? = some .joined := fun k hk =>
  (Nat.lt_succ_iff_lt_or_eq.mp hk).elim (hold k) fun h => h ▸ hj

theorem Inv.step {tasks₀ : List Nat} {s s' : Sys} (hi : Inv tasks₀ s) {a : Actor}
    (h : s.step a = some s') : Inv tasks₀ s' := by
  cases a with
  | worker i =>
    simp only [Sys.step, Sys.workerStep] at h
    split at h
    · split_ifs at h with hst
      · cases h
        simp only [Bool.and_eq_true, List.isEmpty_iff] at hst
        exact hi.exit ‹_› hst.1 hst.2
      · split at h
        · cases h; exact hi.take ‹_› ‹_›
        · cases h
    · cases h; exact hi.run ‹_›
    · cases h
  | caller i =>
    simp only [Sys.step, Sys.callerStep] at h
    split at h
    · -- `enqueue` reads `stop_`.
      cases h
      refine hi.setCaller ‹_› (fun t ht => ?_) (fun j hj => ?_)
      · split_ifs at ht
        exacts [(by cases ht), ht]
      · split_ifs at hj <;> cases hj
    · cases h; exact hi.push ‹_›
    · -- `stop` reads `stop_`.
      cases h
      refine hi.setCaller ‹_› (fun t ht => ?_) (fun j hj => ?_)
      · split_ifs at ht <;> cases ht
      · split_ifs at hj <;> cases hj
    · cases h
      refine (hi.setCaller ‹_› (fun _ h => by cases h) fun _ h k hk => ?_).setStop
      cases h
      exact absurd hk (Nat.not_lt_zero k)
    · -- `joinable()`.
      rename_i j hc
      have hold := hi.joined _ (List.getElem?_mem hc) j rfl
      split at h <;> cases h
      · exact hi.setCaller hc (fun _ h => by cases h) (fun _ h => by cases h)
      · refine hi.setCaller hc (fun _ h => by cases h) ?_
        simp only [Caller.joinIndex?, Option.mem_def, Option.some.injEq, forall_eq']
        exact joined_before_succ hold ‹_›
      · exact hi.setCaller hc (fun _ h => by cases h) (by simpa [Caller.joinIndex?] using hold)
    · -- `join()`.
      rename_i j hc
      split at h <;> cases h
      · rename_i hw
        have hj := hi.joinWorker hw
        refine hj.setCaller hc (fun _ h => by cases h) ?_
        simp only [Caller.joinIndex?, Option.mem_def, Option.some.injEq, forall_eq']
        exact joined_before_succ (hj.joined _ (List.getElem?_mem hc) j rfl)
          (List.getElem?_set_self (List.getElem?_eq_some_iff.mp hw).1)
      · exact hi.setCaller hc (fun _ h => by cases h) (fun _ h => by cases h)
    · cases h

theorem Inv.steps {tasks₀ : List Nat} {s s' : Sys} (hi : Inv tasks₀ s) (h : Sys.Steps s s') :
    Inv tasks₀ s' := by
  induction h with
  | refl => exact hi
  | head _ hs _ ih => exact ih (hi.step hs)

/-! ## What the pool guarantees -/

theorem Inv.ran_subperm {tasks₀ : List Nat} {s : Sys} (hi : Inv tasks₀ s) :
    s.ran.Subperm tasks₀ :=
  ((List.sublist_append_left _ _).trans (List.sublist_append_left _ _)).subperm.trans <|
    hi.conserved.subperm.trans <| (List.sublist_append_left _ _).subperm.trans hi.enqueued

/-- In every interleaving, each task has run at most as often as it was enqueued. -/
theorem ran_subperm_enqueued {numThreads hardwareConcurrency : Nat} {calls : List Call} {s : Sys}
    (h : Sys.Steps (new numThreads hardwareConcurrency calls) s) :
    s.ran.Subperm (calls.filterMap Call.task?) :=
  ((inv_new numThreads hardwareConcurrency calls).steps h).ran_subperm

theorem ran_subperm_enqueued_two_workers :
    ∃ s, Sys.Steps (new 2 2 [.enqueue 1, .enqueue 2, .stop]) s ∧ s.ran = [2, 1] ∧
      s.ran.Subperm ([Call.enqueue 1, .enqueue 2, .stop].filterMap Call.task?) := by
  have h : Sys.interleave (new 2 2 [.enqueue 1, .enqueue 2, .stop])
      [.caller 0, .caller 0, .caller 1, .caller 1, .worker 0, .worker 1, .worker 1, .worker 0] =
      some ⟨false, [], [.waiting, .waiting], [.returned, .returned, .stop], [2, 1], [1, 2], []⟩ :=
    rfl
  exact ⟨_, Sys.steps_of_interleave _ h, rfl, ran_subperm_enqueued (Sys.steps_of_interleave _ h)⟩

/-- When a `stop()` call has been through its join loop, every worker is joined, and every task
pushed while `stop_` was clear has run. -/
theorem accepted_ran_of_joined {numThreads hardwareConcurrency : Nat} {calls : List Call}
    {s : Sys} (h : Sys.Steps (new numThreads hardwareConcurrency calls) s) {i : Nat}
    (hc : s.callers[i]? = some (.join s.workers.length)) :
    (∀ w ∈ s.workers, w = .joined) ∧ s.accepted.Subperm s.ran := by
  have hi := (inv_new numThreads hardwareConcurrency calls).steps h
  have hj : ∀ w ∈ s.workers, w = .joined := fun w hw => by
    obtain ⟨k, hk⟩ := List.mem_iff_getElem?.mp hw
    have := hi.joined _ (List.getElem?_mem hc) _ rfl k (List.getElem?_eq_some_iff.mp hk).1
    exact Option.some.inj (hk.symm.trans this)
  refine ⟨hj, ?_⟩
  -- No worker runs a task, and `tasks_` holds only late tasks.
  have hfl : inFlight s.workers = [] :=
    List.filterMap_eq_nil_iff.mpr fun w hw => by rw [hj w hw]; rfl
  have hlate := hi.late_of_done fun w hw => by rw [hj w hw]; rfl
  have hcons := hi.conserved
  rw [hfl, List.append_nil] at hcons
  exact (List.subperm_append_right s.tasks).mp <|
    (hlate.append_left s.accepted).subperm.trans hcons.symm.subperm

theorem accepted_ran_of_joined_after_stop :
    ∃ s, Sys.Steps (new 1 1 [.enqueue 1, .stop]) s ∧ s.callers[1]? = some (.join s.workers.length) ∧
      (∀ w ∈ s.workers, w = .joined) ∧ s.accepted.Subperm s.ran := by
  have h : Sys.interleave (new 1 1 [.enqueue 1, .stop])
      [.caller 0, .caller 0, .worker 0, .worker 0, .caller 1, .caller 1, .worker 0, .caller 1,
        .caller 1] =
      some ⟨true, [], [.joined], [.returned, .join 1], [1], [1], []⟩ := rfl
  exact ⟨_, Sys.steps_of_interleave _ h, rfl,
    accepted_ran_of_joined (Sys.steps_of_interleave _ h) (i := 1) rfl⟩

/-! ## Order of service

`tasks_` is a vector pushed at the back and taken from the front. So in every interleaving the
workers have taken the earliest tasks pushed, and with one worker the tasks run in push order. -/

theorem pushed_order {stop : Bool} {accepted late : List Nat} (h : stop = false → late = [])
    (t : Nat) : ((if stop then accepted else accepted ++ [t]) ++
      if stop then late ++ [t] else late) = accepted ++ late ++ [t] := by
  cases stop
  · simp only [h rfl, Bool.false_eq_true, if_false, List.append_nil]
  · simp only [if_true, List.append_assoc]

theorem inFlight_set {ws : List Worker} {j : Nat} {w w' : Worker} (h : ws[j]? = some w)
    (hw : w.task? = w'.task?) : inFlight (ws.set j w') = inFlight ws := by
  induction ws generalizing j with
  | nil => cases h
  | cons x xs ih =>
    cases j with
    | zero =>
      simp only [List.getElem?_cons_zero, Option.some.injEq] at h
      subst h
      simp only [List.set_cons_zero, inFlight, List.filterMap_cons, hw]
    | succ j =>
      have := ih (by simpa only [List.getElem?_cons_succ] using h)
      simp only [inFlight] at this ⊢
      simp only [List.set_cons_succ, List.filterMap_cons, this]

theorem callerStep_order {s s' : Sys} {i : Nat} (hlate : s.stop = false → s.late = [])
    (h : s.callerStep i = some s') :
    s'.ran = s.ran ∧ s'.workers.length = s.workers.length ∧
      inFlight s'.workers = inFlight s.workers ∧ (s'.stop = false → s'.late = []) ∧
      ∃ pushed, s'.tasks = s.tasks ++ pushed ∧ s'.accepted ++ s'.late = s.accepted ++ s.late ++ pushed := by
  unfold Sys.callerStep at h
  split at h
  · cases h
    exact ⟨rfl, rfl, rfl, hlate, [], by simp⟩
  · -- A push at the back.
    cases h
    refine ⟨rfl, rfl, rfl, fun hs => ?_, [_], rfl, pushed_order hlate _⟩
    have hs : s.stop = false := hs
    simp only [hs, hlate hs, Bool.false_eq_true, if_false]
  · cases h
    exact ⟨rfl, rfl, rfl, hlate, [], by simp⟩
  · -- `stop_` is set for good.
    cases h
    exact ⟨rfl, rfl, rfl, fun h => absurd h Bool.true_eq_false.mp, [], by simp⟩
  · split at h <;> cases h <;> exact ⟨rfl, rfl, rfl, hlate, [], by simp⟩
  · split at h
    · -- The exited worker is joined.
      cases h
      exact ⟨rfl, List.length_set .., inFlight_set (w := .exited) ‹_› rfl, hlate, [], by simp⟩
    · cases h
      exact ⟨rfl, rfl, rfl, hlate, [], by simp⟩
    · cases h
  · cases h

structure Fifo (s : Sys) : Prop where
  late_nil : s.stop = false → s.late = []
  taken : ∃ taken, taken ++ s.tasks = s.accepted ++ s.late

theorem fifo_new (numThreads hardwareConcurrency : Nat) (calls : List Call) :
    Fifo (new numThreads hardwareConcurrency calls) := ⟨fun _ => rfl, [], rfl⟩

theorem Fifo.step {s s' : Sys} (hf : Fifo s) {a : Actor} (h : s.step a = some s') : Fifo s' := by
  obtain ⟨hlate, taken, ht⟩ := hf
  cases a with
  | worker i =>
    simp only [Sys.step, Sys.workerStep] at h
    split at h
    · split_ifs at h
      · cases h
        exact ⟨hlate, taken, ht⟩
      · split at h
        · -- The front task is taken.
          cases h
          rename_i t rest _
          exact ⟨hlate, taken ++ [t], by rw [← ht]; simp only [‹s.tasks = t :: rest›,
            List.append_assoc, List.singleton_append]⟩
        · cases h
    · cases h
      exact ⟨hlate, taken, ht⟩
    · cases h
  | caller i =>
    obtain ⟨-, -, -, hlate', pushed, htasks, hpush⟩ := callerStep_order hlate h
    exact ⟨hlate', taken, by rw [htasks, hpush, ← ht, List.append_assoc]⟩

theorem Fifo.steps {s s' : Sys} (hf : Fifo s) (h : Sys.Steps s s') : Fifo s' := by
  induction h with
  | refl => exact hf
  | head _ hs _ ih => exact ih (hf.step hs)

/-- In every interleaving the workers have taken the earliest tasks pushed, each as often as it
was pushed: `tasks_` holds the rest, in push order. -/
theorem taken_prefix_of_steps {numThreads hardwareConcurrency : Nat} {calls : List Call}
    {s : Sys} (h : Sys.Steps (new numThreads hardwareConcurrency calls) s) :
    ∃ taken, taken ++ s.tasks = s.accepted ++ s.late ∧
      (s.ran ++ inFlight s.workers).Perm taken := by
  obtain ⟨-, taken, ht⟩ := (fifo_new numThreads hardwareConcurrency calls).steps h
  have hcons := ((inv_new numThreads hardwareConcurrency calls).steps h).conserved
  rw [← ht] at hcons
  exact ⟨taken, ht, List.perm_append_right_iff _ |>.mp hcons⟩

theorem taken_prefix_of_steps_two_workers :
    ∃ s, Sys.Steps (new 2 2 [.enqueue 1, .enqueue 2, .enqueue 3]) s ∧
      ∃ taken, taken ++ s.tasks = s.accepted ++ s.late ∧
        (s.ran ++ inFlight s.workers).Perm taken := by
  have h : Sys.interleave (new 2 2 [.enqueue 1, .enqueue 2, .enqueue 3])
      [.caller 0, .caller 0, .caller 1, .caller 1, .caller 2, .caller 2, .worker 1, .worker 0] =
      some ⟨false, [3], [.running 2, .running 1], [.returned, .returned, .returned], [], [1, 2, 3],
        []⟩ := rfl
  exact ⟨_, Sys.steps_of_interleave _ h, taken_prefix_of_steps (Sys.steps_of_interleave _ h)⟩

structure InOrder (s : Sys) : Prop where
  late_nil : s.stop = false → s.late = []
  one : ∃ w, s.workers = [w]
  order : s.ran ++ inFlight s.workers ++ s.tasks = s.accepted ++ s.late

theorem inOrder_new (hardwareConcurrency : Nat) (calls : List Call) :
    InOrder (new 1 hardwareConcurrency calls) := ⟨fun _ => rfl, ⟨_, rfl⟩, rfl⟩

theorem getElem?_singleton_eq_some {w v : Worker} {i : Nat} (h : [w][i]? = some v) :
    i = 0 ∧ w = v := by
  cases i with
  | zero => exact ⟨rfl, Option.some.inj h⟩
  | succ i => simp only [List.getElem?_cons_succ, List.getElem?_nil] at h; cases h

theorem InOrder.step {s s' : Sys} (ho : InOrder s) {a : Actor} (h : s.step a = some s') :
    InOrder s' := by
  obtain ⟨hlate, ⟨w, hw⟩, ho⟩ := ho
  cases a with
  | worker i =>
    simp only [Sys.step, Sys.workerStep] at h
    split at h
    · obtain ⟨rfl, rfl⟩ := getElem?_singleton_eq_some (hw ▸ ‹s.workers[i]? = some Worker.waiting›)
      split_ifs at h
      · -- The worker exits.
        cases h
        exact ⟨hlate, ⟨_, by rw [hw]; rfl⟩, by rw [hw] at ho ⊢; exact ho⟩
      · split at h
        · -- It takes the front task.
          cases h
          rename_i t rest htasks
          refine ⟨hlate, ⟨_, by rw [hw]; rfl⟩, ?_⟩
          rw [hw, htasks] at ho
          rw [hw, ← ho]
          simp only [List.set_cons_zero, inFlight, List.filterMap_cons, List.filterMap_nil,
            Worker.task?, List.append_assoc, List.singleton_append, List.nil_append]
        · cases h
    · -- It has run its task.
      rename_i t hwi
      obtain ⟨rfl, rfl⟩ := getElem?_singleton_eq_some (hw ▸ hwi)
      cases h
      refine ⟨hlate, ⟨_, by rw [hw]; rfl⟩, ?_⟩
      rw [hw] at ho ⊢
      rw [← ho]
      simp only [List.set_cons_zero, inFlight, List.filterMap_cons, List.filterMap_nil,
        Worker.task?, List.append_assoc, List.singleton_append, List.nil_append]
    · cases h
  | caller i =>
    obtain ⟨hran, hlen, hfl, hlate', pushed, htasks, hpush⟩ := callerStep_order hlate h
    refine ⟨hlate', List.length_eq_one.mp (hlen.trans (by rw [hw]; rfl)), ?_⟩
    rw [hran, hfl, htasks, hpush, ← ho]
    simp only [List.append_assoc]

theorem InOrder.steps {s s' : Sys} (ho : InOrder s) (h : Sys.Steps s s') : InOrder s' := by
  induction h with
  | refl => exact ho
  | head _ hs _ ih => exact ih (ho.step hs)

/-- A pool of one thread runs its tasks in exactly the order they were pushed. -/
theorem ran_prefix_of_one_worker {hardwareConcurrency : Nat} {calls : List Call} {s : Sys}
    (h : Sys.Steps (new 1 hardwareConcurrency calls) s) : s.ran <+: s.accepted ++ s.late := by
  rw [← ((inOrder_new hardwareConcurrency calls).steps h).order, List.append_assoc]
  exact List.prefix_append _ _

theorem ran_prefix_of_one_worker_three_tasks :
    ∃ s, Sys.Steps (new 1 1 [.enqueue 1, .enqueue 2, .enqueue 3]) s ∧ s.ran = [1, 2] ∧
      s.ran <+: s.accepted ++ s.late := by
  have h : Sys.interleave (new 1 1 [.enqueue 1, .enqueue 2, .enqueue 3])
      [.caller 0, .caller 0, .caller 1, .caller 1, .worker 0, .worker 0, .worker 0, .caller 2,
        .caller 2, .worker 0] =
      some ⟨false, [3], [.waiting], [.returned, .returned, .returned], [1, 2], [1, 2, 3], []⟩ := rfl
  exact ⟨_, Sys.steps_of_interleave _ h, rfl, ran_prefix_of_one_worker
    (Sys.steps_of_interleave _ h)⟩

end SimpleThreadPool

end Classifier
