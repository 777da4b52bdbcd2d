/-
**How many client connections are constructed.**

`c_pool` constructs a connection when its queue is empty, and never deletes one. So the memory that the
proxy holds for clients does not shrink; but it depends on how many clients were connected at once, and
not on how many came.

`peakRuns` counts the connections that were open at once, with those that `accept` closes again.

* `NcObjectPool.made_alloc_max` — `alloc` constructs an object exactly if more are handed out than ever.
* `objects_peak` — **the connections constructed are as many as were open at once**, in every run, and
  each of them is open or in the pool.
-/

import Nutcracker.Proxy.Budget

namespace Nutcracker

open Lib

/-- **An object more is handed out**: a new one is constructed if none is in the queue. -/
theorem NcObjectPool.made_alloc_max {α : Type} (object : α) {p : NcObjectPool α} {used : Nat}
    (all : used + p.m_queue.length = p.made) :
    used + 1 + (p.alloc object).1.m_queue.length = (p.alloc object).1.made ∧
      max p.made (used + 1) = (p.alloc object).1.made := by
  cases queue : p.m_queue with
  | nil =>
      rw [queue, List.length_nil, Nat.add_zero] at all
      rw [alloc_empty object queue]
      subst all
      exact ⟨congrArg (fun queue => p.made + 1 + List.length queue) queue,
        Nat.max_eq_right (Nat.le_succ _)⟩
  | cons o rest =>
      rw [queue, List.length_cons] at all
      rw [alloc_queued object queue]
      refine ⟨?_, Nat.max_eq_left ?_⟩
      · rw [← all, Nat.add_right_comm, Nat.add_assoc]
      · rw [← all]
        omega

namespace Proxy

/-- The connections that are open at most while the event takes place. -/
def openDuring (p : Proxy) : ProxyEvent → Nat
  | .accept (.descriptor _ _ _) =>
      if p.ctx.max_ncconn ≤ ncCurCConn then p.server_pool.c_conn_q.length
      else p.server_pool.c_conn_q.length + 1
  | _ => p.server_pool.c_conn_q.length

/-- **The runs of the proxy**, with the number of connections that were open at once. -/
def peakRuns (rlim_cur : UInt64) : System (Proxy × Nat) ProxyEvent where
  init w := Start rlim_cur w.1 ∧ w.2 = 0
  step w event w' := Step w.1 event w'.1 ∧ w'.2 = max w.2 (w.1.openDuring event)

/-- Every connection that was constructed is open or in the pool. -/
def Housed (p : Proxy) (peak : Nat) : Prop :=
  p.server_pool.c_conn_q.length + p.c_pool.m_queue.length = p.c_pool.made ∧ peak = p.c_pool.made

section Housed

variable {p p' : Proxy} {peak : Nat} {c : Addr}

theorem Housed.undisturbed (housed : Housed p peak) (same : Undisturbed p p') : Housed p' peak := by
  unfold Housed
  rw [same.made, same.c_conn_q, same.queue]
  exact housed

/-- What was open before is no more than the peak. -/
theorem Housed.length_le (housed : Housed p peak) : p.server_pool.c_conn_q.length ≤ peak := by
  have := housed.1
  have := housed.2
  omega

theorem Housed.enroll (housed : Housed p peak) (sd : Int) :
    Housed (p.enroll sd) (max peak (p.server_pool.c_conn_q.length + 1)) := by
  obtain ⟨all, made⟩ := NcObjectPool.made_alloc_max NcConn.new housed.1
  have queue : (p.enroll sd).server_pool.c_conn_q = p.server_pool.c_conn_q ++ [p.nextClient] := rfl
  refine ⟨?_, housed.2 ▸ made⟩
  rw [queue, List.length_append, List.length_singleton]
  exact all

/-- A close gives the connection to the pool. -/
theorem Housed.close (housed : Housed p peak) (counted : Counted p) (isOpen : p.Open c) :
    Housed (p.close c) peak := by
  have closed : (p.close c).c_pool.made = p.c_pool.made ∧
      (p.close c).c_pool.m_queue = p.c_pool.m_queue ++ [c] ∧
        (p.close c).server_pool.c_conn_q = NcQueue.remove c p.server_pool.c_conn_q := by
    unfold Proxy.close
    dsimp only
    split
    · exact ⟨rfl, rfl, rfl⟩
    · have same := undisturbed_frame.dropMsgs c (p.did (.closed c))
      exact ⟨same.made, congrArg (· ++ [c]) same.queue,
        congrArg (NcQueue.remove c) same.c_conn_q⟩
  have left := NcQueue.length_remove (List.nodup_append.mp counted.distinct).1 isOpen
  have positive := List.length_pos_of_mem isOpen
  have all := housed.1
  unfold Housed
  rw [closed.1, closed.2.1, closed.2.2, left, List.length_append, List.length_singleton]
  exact ⟨by omega, housed.2⟩

theorem Housed.step (housed : Housed p peak) (counted : Counted p) {event : ProxyEvent}
    (step : Step p event p') : Housed p' (max peak (p.openDuring event)) := by
  have still (same : Undisturbed p p') :
      Housed p' (max peak p.server_pool.c_conn_q.length) := by
    rw [max_eq_left housed.length_le]
    exact housed.undisturbed same
  cases event with
  | accept answer =>
      obtain ⟨legal, rfl⟩ := step
      cases answer with
      | failed => exact still (undisturbed_frame.refl p)
      | descriptor sd setNonBlocking addConn =>
          show Housed (if _ then _ else _) (max peak (if _ then _ else _))
          by_cases refused : p.ctx.max_ncconn ≤ ncCurCConn
          · rw [if_pos refused, if_pos refused, max_eq_left housed.length_le]
            exact housed
          · rw [if_neg refused, if_neg refused]
            split
            · exact housed.enroll sd
            · obtain ⟨enrolled, isOpen⟩ := counted.enroll ⟨legal.1, legal.2.1⟩ legal.2.2
              exact (housed.enroll sd).close enrolled isOpen
  | clientRecv c choice sys fresh answer =>
      exact still (step.2 ▸ undisturbed_frame.clientRecv (undisturbed_pick choice) _ _ _ _ _)
  | clientSend c delOutput answer => exact still (undisturbed_frame.clientSend step.2)
  | clientClose c =>
      obtain ⟨isOpen, rfl⟩ := step
      show Housed _ (max peak p.server_pool.c_conn_q.length)
      rw [max_eq_left housed.length_le]
      exact housed.close counted isOpen
  | serverRecv s sys fresh answer =>
      exact still (step.2 ▸ undisturbed_frame.serverRecv _ _ _ _ _)
  | serverSend s sys done => exact still (step.2.2 ▸ undisturbed_frame.serverSend _ _ _ _)
  | serverClose s => exact still (step.2 ▸ undisturbed_did _ p)

end Housed

/-- **No client connection leaks**, and none is constructed while one is in the pool: on all runs there
are as many objects as connections were open at once, and each of them is open or in the pool. -/
theorem objects_peak (rlim_cur : UInt64) (w : Proxy × Nat)
    (reached : (peakRuns rlim_cur).Reach w) :
    w.1.c_pool.made = w.2 ∧
      w.1.c_pool.made = w.1.server_pool.c_conn_q.length + w.1.c_pool.m_queue.length ∧
        ∀ c, c < w.1.c_pool.made ↔ w.1.Open c ∨ c ∈ w.1.c_pool.m_queue := by
  have holds : Counted w.1 ∧ Housed w.1 w.2 := by
    refine reached.invariant (I := fun w => Counted w.1 ∧ Housed w.1 w.2) (fun w start => ?_)
      fun w event w' _ holds step => ?_
    · obtain ⟨start, peak⟩ := start
      obtain ⟨mem, current, c_pool⟩ := start.c_pool
      refine ⟨.start start, ?_⟩
      unfold Housed
      rw [c_pool, start.c_conn_q, peak]
      exact ⟨rfl, rfl⟩
    · obtain ⟨step, peak⟩ := step
      exact ⟨holds.1.step step, peak ▸ holds.2.step holds.1 step⟩
  obtain ⟨counted, all, peak⟩ := holds
  refine ⟨peak.symm, all.symm, fun c => ⟨fun made => ?_, fun inside => ?_⟩⟩
  · -- The connections are distinct, and as many as there are numbers below `made`.
    have below : w.1.server_pool.c_conn_q ++ w.1.c_pool.m_queue ⊆ List.range w.1.c_pool.made :=
      fun d member => List.mem_range.mpr (counted.made d member)
    have whole := (List.subperm_of_subset counted.distinct below).perm_of_length_le
      (by rw [List.length_range, List.length_append, all])
    exact List.mem_append.mp (whole.mem_iff.mpr (List.mem_range.mpr made))
  · exact counted.made c (List.mem_append.mpr inside)

/-- A client comes and goes, and another one comes. -/
def comeAgain : Proxy := (((atStart 1024).enroll 5).close 0).enroll 6

theorem reach_comeAgain : (peakRuns 1024).Reach (comeAgain, 1) := by
  have start : (peakRuns 1024).Reach (atStart 1024, 0) := .start ⟨start_atStart 1024, rfl⟩
  have came : (peakRuns 1024).Reach ((atStart 1024).enroll 5, 1) :=
    start.next (a := .accept (.descriptor 5 true true))
      ⟨⟨⟨by decide, by decide, fun c isOpen => absurd isOpen List.not_mem_nil⟩, rfl⟩, rfl⟩
  have went : (peakRuns 1024).Reach (((atStart 1024).enroll 5).close 0, 1) :=
    came.next (a := .clientClose 0) ⟨⟨List.mem_singleton_self 0, rfl⟩, rfl⟩
  exact went.next (a := .accept (.descriptor 6 true true))
    ⟨⟨⟨by decide, by decide, fun c isOpen => absurd isOpen List.not_mem_nil⟩, rfl⟩, rfl⟩

/-- **Two clients one after the other take one object.** -/
theorem objects_of_comeAgain : comeAgain.c_pool.made = 1 :=
  (objects_peak 1024 (comeAgain, 1) reach_comeAgain).1

end Proxy

end Nutcracker
