import Mathlib.Data.List.Count

/-! # The RCU utilities

`RcuUtils` of `threading.cpp`: threads each make a sequence of calls, and a step is one atomic
piece of a call. `rcuReadLock` loads `rcu_global_epoch` into the thread's `rcu_thread_epoch`;
`rcuReadUnlock` does nothing. `synchronizeRcu` adds one to the epoch, yields and may sleep, which
changes nothing, and then runs `processRcuCallbacks`, whose critical section under
`rcu_state_mutex` swaps out `deferred_callbacks`, and which then runs the callbacks it took one by
one. Callbacks are named by number; what they do, and their exceptions, which are caught, are
left out.

The state also records, as ghosts, whether each thread is inside a read-side critical section,
the callbacks queued and the callbacks run. -/

namespace Classifier

namespace RcuUtils

inductive Call where
  | rcuReadLock
  | rcuReadUnlock
  | synchronizeRcu (forceFullWait : Bool)
  | callRcu (callback : Nat)
  | processRcuCallbacks
  deriving DecidableEq, Repr

/-- Where a thread is inside a call: between calls, at the critical section of
`processRcuCallbacks`, or running the callbacks of `callbacks_to_run` not run yet. -/
inductive Pc where
  | idle
  | swap
  | running (callbacks : List Nat)
  deriving DecidableEq, Repr

/-- A thread, the calls it has still to make, its `rcu_thread_epoch`, and whether it is past an
`rcuReadLock` and not past the `rcuReadUnlock` after it. -/
structure Thread where
  pc : Pc
  calls : List Call
  epoch : UInt64
  reading : Bool
  deriving DecidableEq, Repr

def Thread.taken (th : Thread) : List Nat :=
  match th.pc with
  | .running callbacks => callbacks
  | _ => []

/-- `rcu_global_epoch`, `deferred_callbacks`, the threads, and the callbacks queued and run, in
order. -/
structure Sys where
  globalEpoch : UInt64
  deferred : List Nat
  threads : List Thread
  queued : List Nat
  ran : List Nat
  deriving DecidableEq, Repr

/-- Threads making the calls `programs`, from the start: `rcu_global_epoch(1)`, and every
`rcu_thread_epoch` 0. -/
def new (programs : List (List Call)) : Sys :=
  ⟨1, [], programs.map fun calls => ⟨.idle, calls, 0, false⟩, [], []⟩

namespace Sys

/-- The critical section of `processRcuCallbacks` by thread `t`, now `th`: return on an empty
queue, else take all of it. -/
def takeDeferred (s : Sys) (t : Nat) (th : Thread) : Sys :=
  match s.deferred with
  | [] => { s with threads := s.threads.set t { th with pc := .idle } }
  | callbacks =>
    { s with deferred := [], threads := s.threads.set t { th with pc := .running callbacks } }

/-- One step of thread `t`. -/
def step (s : Sys) (t : Nat) : Option Sys :=
  match s.threads[t]? with
  | none => none
  | some th =>
    match th.pc, th.calls with
    | .idle, [] => none
    | .idle, .rcuReadLock :: calls =>
      some { s with
        threads := s.threads.set t { th with calls, epoch := s.globalEpoch, reading := true } }
    | .idle, .rcuReadUnlock :: calls =>
      some { s with threads := s.threads.set t { th with calls, reading := false } }
    | .idle, .synchronizeRcu _ :: calls =>
      some { s with
        globalEpoch := s.globalEpoch + 1
        threads := s.threads.set t { th with calls, pc := .swap } }
    | .idle, .callRcu callback :: calls =>
      some { s with
        deferred := s.deferred ++ [callback]
        queued := s.queued ++ [callback]
        threads := s.threads.set t { th with calls } }
    | .idle, .processRcuCallbacks :: calls => some (s.takeDeferred t { th with calls })
    | .swap, _ => some (s.takeDeferred t th)
    | .running [], _ => some { s with threads := s.threads.set t { th with pc := .idle } }
    | .running (callback :: callbacks), _ =>
      some { s with
        ran := s.ran ++ [callback]
        threads := s.threads.set t { th with pc := .running callbacks } }

inductive Steps : Sys → Sys → Prop
  | refl (s : Sys) : Steps s s
  | head {s s₁ s₂ : Sys} (t : Nat) : s.step t = some s₁ → Steps s₁ s₂ → Steps s s₂

def interleave (s : Sys) : List Nat → Option Sys
  | [] => some s
  | t :: ts => (s.step t).bind fun s => interleave s ts

theorem steps_of_interleave {s s' : Sys} :
    ∀ (sched : List Nat), interleave s sched = some s' → Steps s s'
  | [], h => by cases h; exact .refl _
  | t :: ts, h => by
    obtain ⟨s₁, h₁, h₂⟩ := Option.bind_eq_some.mp h
    exact .head t h₁ (steps_of_interleave ts h₂)

/-! ## `synchronizeRcu` waits for no one -/

theorem flatMap_set_perm {α : Type} (g : α → List Nat) {l : List α} {i : Nat} {a : α}
    (h : l[i]? = some a) (b : α) :
    ((l.set i b).flatMap g ++ g a).Perm (l.flatMap g ++ g b) := by
  obtain ⟨hi, rfl⟩ := List.getElem?_eq_some_iff.mp h
  obtain ⟨l₁, l₂, h₁, -, h₂⟩ := @List.exists_of_set _ i b l hi
  have e : l.flatMap g = l₁.flatMap g ++ (g l[i] ++ l₂.flatMap g) := by
    conv_lhs => rw [h₁]
    simp
  rw [h₂, e, List.perm_iff_count]
  intro x
  simp only [List.flatMap_append, List.flatMap_cons, List.count_append]
  omega

def Conserved (s : Sys) : Prop :=
  (s.ran ++ s.threads.flatMap Thread.taken ++ s.deferred).Perm s.queued

theorem Conserved.set {s : Sys} (hs : s.Conserved) {t : Nat} {th : Thread}
    (h : s.threads[t]? = some th) (th' : Thread) {ran deferred queued : List Nat}
    (hmove : ∀ x, ran.count x + th'.taken.count x + deferred.count x + s.queued.count x =
      s.ran.count x + th.taken.count x + s.deferred.count x + queued.count x) :
    (ran ++ (s.threads.set t th').flatMap Thread.taken ++ deferred).Perm queued := by
  refine List.perm_iff_count.mpr fun x => ?_
  have h₁ := List.perm_iff_count.mp hs x
  have h₂ := List.perm_iff_count.mp (flatMap_set_perm Thread.taken h th') x
  simp only [List.count_append] at h₁ h₂ ⊢
  have := hmove x
  omega

theorem Conserved.takeDeferred {s : Sys} (hs : s.Conserved) {t : Nat} {th : Thread}
    (h : s.threads[t]? = some th) (hth : th.taken = []) (th' : Thread) :
    (s.takeDeferred t th').Conserved := by
  unfold Sys.takeDeferred
  split
  · exact hs.set h _ fun x => by rw [hth]; simp [Thread.taken]
  · exact hs.set h _ fun x => by rw [hth]; simp [Thread.taken]

theorem Conserved.step {s s' : Sys} (hs : s.Conserved) {t : Nat} (h : s.step t = some s') :
    s'.Conserved := by
  unfold Sys.step at h
  split at h
  · cases h
  rename_i th hth
  split at h <;> cases h
  · -- `rcuReadLock`
    exact hs.set hth _ fun x => by simp [Thread.taken, *]
  · -- `rcuReadUnlock`
    exact hs.set hth _ fun x => by simp [Thread.taken, *]
  · -- `synchronizeRcu` moves the epoch on.
    exact hs.set hth _ fun x => by simp [Thread.taken, *]
  · -- `callRcu` queues its callback.
    exact hs.set hth _ fun x => by simp [Thread.taken, *]; omega
  · -- `processRcuCallbacks`, and the same critical section inside `synchronizeRcu`.
    exact hs.takeDeferred hth (by simp [Thread.taken, *]) _
  · exact hs.takeDeferred hth (by simp [Thread.taken, *]) _
  · -- The last callback has run.
    exact hs.set hth _ fun x => by simp [Thread.taken, *]
  · -- A callback runs.
    exact hs.set hth _ fun x => by simp [Thread.taken, List.count_cons, *]; omega

theorem Conserved.steps {s s' : Sys} (hs : s.Conserved) (h : Steps s s') : s'.Conserved := by
  induction h with
  | refl => exact hs
  | head _ hst _ ih => exact ih (hs.step hst)

theorem conserved_new (programs : List (List Call)) : (new programs).Conserved := by
  -- Every thread starts idle, holding no callback.
  have hidle : (new programs).threads.flatMap Thread.taken = [] :=
    List.flatMap_eq_nil_iff.mpr fun _ h => by obtain ⟨_, -, rfl⟩ := List.mem_map.mp h; rfl
  unfold Conserved
  rw [hidle]
  exact .refl _

/-- In every interleaving, no callback has run more often than it was queued. -/
theorem ran_subperm_queued {programs : List (List Call)} {s : Sys} (h : Steps (new programs) s) :
    s.ran.Subperm s.queued :=
  ((List.sublist_append_left _ _).trans (List.sublist_append_left _ _)).subperm.trans
    ((conserved_new programs).steps h).subperm

theorem ran_subperm_queued_two_processors :
    ∃ s, Steps (new [[.callRcu 0, .processRcuCallbacks], [.callRcu 1, .processRcuCallbacks]]) s ∧
      s.ran = [0, 1] ∧ s.ran.Subperm s.queued := by
  have h : interleave (new [[.callRcu 0, .processRcuCallbacks], [.callRcu 1, .processRcuCallbacks]])
      [0, 1, 0, 1, 0, 0] = some _ := rfl
  exact ⟨_, steps_of_interleave _ h, rfl, ran_subperm_queued (steps_of_interleave _ h)⟩

end Sys

end RcuUtils

end Classifier
