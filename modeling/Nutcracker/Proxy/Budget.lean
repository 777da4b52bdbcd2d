/-
**The descriptor budget.**

`max_ncconn` is what the limit of the process leaves for clients, by unsigned subtraction; `accept`
compares it with a static counter that nobody increments; and the connections there are counted in
`nc_conn_q`. So `accept` refuses nobody, unless `max_ncconn` is 0.

* `Undisturbed` — the turns touch neither the counts nor the descriptors.
* `Counted.run` — `nc_conn_q` is the number of open connections on all runs: their descriptors are
  distinct, so the counter does not wrap.
* `descriptor_budget` — **the budget adds up for limits from 32 on, and the bound holds on the runs
  that accept no client at the limit, and on no others**.
* `accept_over_limit` — a limit of 33 leaves one client, and two are accepted.
-/

import Nutcracker.Proxy.Frame

namespace Nutcracker

open Lib

namespace Proxy

/-! ### What the turns leave -/

/-- The counts, the pool of client connections and the descriptors are the same. -/
structure Undisturbed (p p' : Proxy) : Prop where
  ctx : p'.ctx = p.ctx
  nc_conn_q : p'.server_pool.nc_conn_q = p.server_pool.nc_conn_q
  c_conn_q : p'.server_pool.c_conn_q = p.server_pool.c_conn_q
  queue : p'.c_pool.m_queue = p.c_pool.m_queue
  made : p'.c_pool.made = p.c_pool.made
  m_sd : ∀ c, (p'.client c).m_sd = (p.client c).m_sd

theorem undisturbed_frame : Frame Undisturbed where
  refl p := ⟨rfl, rfl, rfl, rfl, rfl, fun _ => rfl⟩
  trans one two :=
    ⟨two.ctx.trans one.ctx, two.nc_conn_q.trans one.nc_conn_q, two.c_conn_q.trans one.c_conn_q,
      two.queue.trans one.queue, two.made.trans one.made, fun c => (two.m_sd c).trans (one.m_sd c)⟩
  did _ p _ := ⟨rfl, rfl, rfl, rfl, rfl, fun _ => rfl⟩
  msgs _ p := ⟨rfl, rfl, rfl, rfl, rfl, fun _ => rfl⟩
  putServer _ _ p := ⟨rfl, rfl, rfl, rfl, rfl, fun _ => rfl⟩
  putClient c f p same := by
    refine ⟨rfl, rfl, rfl, rfl, rfl, fun d => ?_⟩
    show ((p.c_pool.put c f).mem d).m_sd = _
    by_cases isC : d = c
    · rw [isC, NcObjectPool.mem_put_self]
      exact same
    · rw [NcObjectPool.mem_put_of_ne _ _ isC]
      rfl

theorem undisturbed_did (act : Act) (p : Proxy) : Undisturbed p (p.did act) :=
  ⟨rfl, rfl, rfl, rfl, rfl, fun _ => rfl⟩

theorem undisturbed_pick (choice : Choice) (p : Proxy) : Undisturbed p (choice.pick p).1 := by
  cases choice with
  | any conn => exact undisturbed_frame.refl p
  | index idx =>
      show Undisturbed p (p.getConn idx).1
      unfold getConn
      split
      · exact undisturbed_frame.refl p
      · unfold serverGetConn
        dsimp only
        split
        · exact ⟨rfl, rfl, rfl, rfl, rfl, fun _ => rfl⟩
        · exact ⟨rfl, rfl, rfl, rfl, rfl, fun _ => rfl⟩

/-! ### The count -/

/-- **The count is the number of open connections.** They and the connections in the pool are
distinct, and so are their descriptors. -/
structure Counted (p : Proxy) : Prop where
  count : p.server_pool.nc_conn_q.toNat = p.server_pool.c_conn_q.length
  distinct : (p.server_pool.c_conn_q ++ p.c_pool.m_queue).Nodup
  made : ∀ c ∈ p.server_pool.c_conn_q ++ p.c_pool.m_queue, c < p.c_pool.made
  range : ∀ c, p.Open c → 0 ≤ (p.client c).m_sd ∧ (p.client c).m_sd < 2 ^ 31
  fds : ∀ c d, p.Open c → p.Open d → (p.client c).m_sd = (p.client d).m_sd → c = d

namespace Counted

variable {p p' : Proxy} {c : Addr}

theorem start {rlim_cur : UInt64} (start : Start rlim_cur p) : Counted p := by
  obtain ⟨mem, current, c_pool⟩ := start.c_pool
  have none (c : Addr) : ¬ p.Open c := by
    unfold Open
    rw [start.c_conn_q]
    exact List.not_mem_nil
  have empty : p.server_pool.c_conn_q ++ p.c_pool.m_queue = [] := by
    rw [start.c_conn_q, c_pool]
    rfl
  refine ⟨?_, ?_, ?_, fun c isOpen => absurd isOpen (none c), fun c d isOpen =>
    absurd isOpen (none c)⟩
  · rw [start.nc_conn_q, start.c_conn_q]
    rfl
  · rw [empty]
    exact List.nodup_nil
  · rw [empty]
    exact nofun

theorem undisturbed (counted : Counted p) (same : Undisturbed p p') : Counted p' := by
  have isOpen (c : Addr) : p'.Open c ↔ p.Open c := by
    unfold Open
    rw [same.c_conn_q]
  refine ⟨?_, ?_, ?_, fun c member => ?_, fun c d member member' equal => ?_⟩
  · rw [same.nc_conn_q, same.c_conn_q]
    exact counted.count
  · rw [same.c_conn_q, same.queue]
    exact counted.distinct
  · rw [same.c_conn_q, same.queue, same.made]
    exact counted.made
  · rw [same.m_sd]
    exact counted.range c ((isOpen c).mp member)
  · rw [same.m_sd, same.m_sd] at equal
    exact counted.fds c d ((isOpen c).mp member) ((isOpen d).mp member') equal

/-- There are fewer connections than the counter has values: their descriptors are distinct. -/
theorem length_le (counted : Counted p) : p.server_pool.c_conn_q.length ≤ 2 ^ 31 := by
  have distinct : (p.server_pool.c_conn_q.map fun c => (p.client c).m_sd.toNat).Nodup := by
    refine (List.nodup_append.mp counted.distinct).1.map_on fun c member d member' equal => ?_
    have := counted.range c member
    have := counted.range d member'
    exact counted.fds c d member member' (by omega)
  have below : (p.server_pool.c_conn_q.map fun c => (p.client c).m_sd.toNat) ⊆
      List.range (2 ^ 31) := by
    intro sd member
    obtain ⟨c, isOpen, rfl⟩ := List.mem_map.mp member
    have := counted.range c isOpen
    exact List.mem_range.mpr (by omega)
  have bound := (List.subperm_of_subset distinct below).length_le
  rw [List.length_map, List.length_range] at bound
  exact bound

/-- A connection leaves the pool's queue, or is new, and is open. -/
theorem enroll (counted : Counted p) {sd : Int} (range : 0 ≤ sd ∧ sd < 2 ^ 31)
    (fresh : ∀ c, p.Open c → (p.client c).m_sd ≠ sd) :
    Counted (p.enroll sd) ∧ (p.enroll sd).Open p.nextClient := by
  have member : (p.enroll sd).Open p.nextClient :=
    List.mem_append_right _ List.mem_cons_self
  have open_iff (c : Addr) : (p.enroll sd).Open c ↔ p.Open c ∨ c = p.nextClient :=
    List.mem_append.trans (or_congr_right List.mem_singleton)
  have taken := NcObjectPool.alloc_distinct NcConn.new counted.distinct counted.made
  have m_sd (c : Addr) : ((p.enroll sd).client c).m_sd =
      if c = p.nextClient then sd else (p.client c).m_sd := by
    have mem : (p.enroll sd).client c = (((p.c_pool.alloc NcConn.new).1.put p.nextClient fun conn =>
      { conn with m_sd := sd }).put p.nextClient fun conn =>
      { conn with m_owner := some pool }).mem c := rfl
    rw [mem]
    by_cases isNew : c = p.nextClient
    · rw [if_pos isNew, isNew, NcObjectPool.mem_put_self, NcObjectPool.mem_put_self]
    · rw [if_neg isNew, NcObjectPool.mem_put_of_ne _ _ isNew, NcObjectPool.mem_put_of_ne _ _ isNew,
        NcObjectPool.mem_alloc_of_ne _ _ isNew]
      rfl
  have bound := counted.length_le
  refine ⟨⟨?_, taken.1, taken.2, fun c isOpen => ?_, fun c d isOpen isOpen' equal => ?_⟩, member⟩
  · show (p.server_pool.nc_conn_q + 1).toNat = (p.server_pool.c_conn_q ++ [_]).length
    rw [List.length_append, List.length_singleton, UInt32.toNat_add, counted.count]
    exact Nat.mod_eq_of_lt (by show _ + 1 < 2 ^ 32; omega)
  · rw [m_sd]
    split
    · exact range
    next other => exact counted.range c (((open_iff c).mp isOpen).resolve_right other)
  · rw [m_sd, m_sd] at equal
    by_cases isNew : c = p.nextClient
    · by_cases isNew' : d = p.nextClient
      · rw [isNew, isNew']
      · rw [if_pos isNew, if_neg isNew'] at equal
        exact absurd equal.symm (fresh d (((open_iff d).mp isOpen').resolve_right isNew'))
    · have isOpen := ((open_iff c).mp isOpen).resolve_right isNew
      by_cases isNew' : d = p.nextClient
      · rw [if_neg isNew, if_pos isNew'] at equal
        exact absurd equal (fresh c isOpen)
      · rw [if_neg isNew, if_neg isNew'] at equal
        exact counted.fds c d isOpen (((open_iff d).mp isOpen').resolve_right isNew') equal

/-- A connection that is closed goes back to the queue. -/
theorem leave (counted : Counted p) (isOpen : p.Open c) (f : NcConn → NcConn) :
    Counted (((p.unref c).putClient c f).freeClient c) := by
  generalize final : ((p.unref c).putClient c f).freeClient c = q
  have count : q.server_pool.nc_conn_q = p.server_pool.nc_conn_q - 1 := final ▸ rfl
  have queue : q.server_pool.c_conn_q = NcQueue.remove c p.server_pool.c_conn_q := final ▸ rfl
  have back : q.c_pool.m_queue = p.c_pool.m_queue ++ [c] := final ▸ rfl
  have made : q.c_pool.made = p.c_pool.made := final ▸ rfl
  have m_sd (d : Addr) (other : d ≠ c) : (q.client d).m_sd = (p.client d).m_sd := by
    rw [← final]
    show (((((p.c_pool.put c _).put c f).put c _).mem d)).m_sd = _
    rw [NcObjectPool.mem_put_of_ne _ _ other, NcObjectPool.mem_put_of_ne _ _ other,
      NcObjectPool.mem_put_of_ne _ _ other]
    rfl
  have distinct := List.nodup_append.mp counted.distinct
  have member (d : Addr) : q.Open d ↔ p.Open d ∧ d ≠ c := by
    unfold Open
    rw [queue]
    exact NcQueue.mem_remove
  refine ⟨?_, ?_, fun d inside => ?_, fun d isOpen => ?_, fun d e isOpen isOpen' equal => ?_⟩
  · have positive := List.length_pos_of_mem isOpen
    have old := counted.count
    rw [count, queue, NcQueue.length_remove distinct.1 isOpen, ← old]
    exact UInt32.toNat_sub_of_le _ _ (UInt32.le_iff_toNat_le.mpr (by show 1 ≤ _; omega))
  · rw [queue, back, List.nodup_append]
    refine ⟨NcQueue.nodup_remove distinct.1, ?_, fun d kept e freed => ?_⟩
    · rw [List.nodup_append]
      refine ⟨distinct.2.1, List.nodup_singleton c, fun d queued e single => ?_⟩
      rw [List.mem_singleton.mp single]
      exact fun same => distinct.2.2 c isOpen d queued same.symm
    · have kept := NcQueue.mem_remove.mp kept
      rcases List.mem_append.mp freed with queued | single
      · exact distinct.2.2 d kept.1 e queued
      · rw [List.mem_singleton.mp single]
        exact kept.2
  · rw [made]
    rw [queue, back] at inside
    rcases List.mem_append.mp inside with kept | freed
    · exact counted.made d (List.mem_append_left _ (NcQueue.mem_remove.mp kept).1)
    · rcases List.mem_append.mp freed with queued | single
      · exact counted.made d (List.mem_append_right _ queued)
      · rw [List.mem_singleton.mp single]
        exact counted.made c (List.mem_append_left _ isOpen)
  · have kept := (member d).mp isOpen
    rw [m_sd d kept.2]
    exact counted.range d kept.1
  · have kept := (member d).mp isOpen
    have kept' := (member e).mp isOpen'
    rw [m_sd d kept.2, m_sd e kept'.2] at equal
    exact counted.fds d e kept.1 kept'.1 equal

theorem close (counted : Counted p) (isOpen : p.Open c) : Counted (p.close c) := by
  have noted : Counted (p.did (.closed c)) := counted.undisturbed (undisturbed_did _ p)
  unfold Proxy.close
  dsimp only
  split
  · have left := noted.leave isOpen id
    rw [show ((p.did (.closed c)).unref c).putClient c id = (p.did (.closed c)).unref c by
      unfold putClient NcObjectPool.put
      rw [id, Function.update_eq_self]] at left
    exact left
  · have same := undisturbed_frame.dropMsgs c (p.did (.closed c))
    refine (noted.undisturbed same).leave ?_ _
    unfold Open
    rw [same.c_conn_q]
    exact isOpen

theorem step (counted : Counted p) {event : ProxyEvent} (step : Step p event p') : Counted p' := by
  cases event with
  | accept answer =>
      rw [step.2]
      cases answer with
      | failed => exact counted
      | descriptor sd setNonBlocking addConn =>
          obtain ⟨least, greatest, fresh⟩ := step.1
          have admitted := counted.enroll ⟨least, greatest⟩ fresh
          show Counted (if _ then _ else _)
          split
          · exact counted
          · split
            · exact admitted.1
            · exact admitted.1.close admitted.2
  | clientRecv c choice sys fresh answer =>
      rw [step.2]
      exact counted.undisturbed (undisturbed_frame.clientRecv (undisturbed_pick choice) _ _ _ _ _)
  | clientSend c delOutput answer =>
      exact counted.undisturbed (undisturbed_frame.clientSend step.2)
  | clientClose c =>
      rw [step.2]
      exact counted.close step.1
  | serverRecv s sys fresh answer =>
      rw [step.2]
      exact counted.undisturbed (undisturbed_frame.serverRecv _ _ _ _ _)
  | serverSend s sys done =>
      rw [step.2.2]
      exact counted.undisturbed (undisturbed_frame.serverSend _ _ _ _)
  | serverClose s =>
      rw [step.2]
      exact counted.undisturbed (undisturbed_did _ p)

/-- **All runs.** -/
theorem run {rlim_cur : UInt64} (reached : (proxyRuns rlim_cur).Reach p) : Counted p :=
  reached.invariant (I := Counted) (fun _ initial => .start initial)
    fun _ _ _ _ counted taken => counted.step taken

end Counted

/-! ### The bound -/

/-- The client is refused, the connection is closed again, or there is room for it. -/
def Within (p : Proxy) : ProxyEvent → Prop
  | .accept (.descriptor _ setNonBlocking addConn) =>
      p.ctx.max_ncconn = 0 ∨ p.server_pool.nc_conn_q < p.ctx.max_ncconn ∨
        ¬ (setNonBlocking = true ∧ addConn = true)
  | _ => True

theorem close_counts (c : Addr) (p : Proxy) :
    (p.close c).ctx = p.ctx ∧
      (p.close c).server_pool.nc_conn_q = p.server_pool.nc_conn_q - 1 := by
  unfold close
  dsimp only
  split
  · exact ⟨rfl, rfl⟩
  · have same := undisturbed_frame.dropMsgs c (p.did (.closed c))
    exact ⟨same.ctx, congrArg (· - 1) same.nc_conn_q⟩

/-- An event changes the count by accepting or closing a client. -/
theorem step_counts {p p' : Proxy} {event : ProxyEvent} (counted : Counted p)
    (step : Step p event p') (bounded : p.server_pool.nc_conn_q ≤ p.ctx.max_ncconn) :
    p'.ctx = p.ctx ∧ (p'.server_pool.nc_conn_q ≤ p'.ctx.max_ncconn ↔ Within p event) := by
  have still (same : Undisturbed p p') (within : Within p event) :
      p'.ctx = p.ctx ∧ (p'.server_pool.nc_conn_q ≤ p'.ctx.max_ncconn ↔ Within p event) := by
    rw [same.ctx, same.nc_conn_q]
    exact ⟨rfl, iff_of_true bounded within⟩
  have bound := counted.length_le
  have count := counted.count
  rw [UInt32.le_iff_toNat_le] at bounded
  cases event with
  | accept answer =>
      cases answer with
      | failed => exact still (step.2 ▸ undisturbed_frame.refl p) trivial
      | descriptor sd setNonBlocking addConn =>
          have result : p' = if p.ctx.max_ncconn ≤ ncCurCConn then p
              else if setNonBlocking = true ∧ addConn = true then p.enroll sd
              else (p.enroll sd).close p.nextClient := step.2
          have limit : p.ctx.max_ncconn ≤ ncCurCConn ↔ p.ctx.max_ncconn = 0 := by
            rw [UInt32.le_iff_toNat_le, ← UInt32.toNat_inj]
            exact Nat.le_zero
          by_cases refused : p.ctx.max_ncconn ≤ ncCurCConn
          · rw [if_pos refused] at result
            exact still (result ▸ undisturbed_frame.refl p) (Or.inl (limit.mp refused))
          rw [if_neg refused] at result
          rw [limit] at refused
          by_cases registered : setNonBlocking = true ∧ addConn = true
          · rw [if_pos registered] at result
            have more : p'.server_pool.nc_conn_q = p.server_pool.nc_conn_q + 1 := result ▸ rfl
            have same : p'.ctx = p.ctx := result ▸ rfl
            have exact' : (p.server_pool.nc_conn_q + 1).toNat
                = p.server_pool.nc_conn_q.toNat + 1 := by
              rw [UInt32.toNat_add]
              exact Nat.mod_eq_of_lt (by show _ + 1 < 2 ^ 32; omega)
            refine ⟨same, ?_⟩
            rw [more, same, UInt32.le_iff_toNat_le, exact']
            show _ ↔ p.ctx.max_ncconn = 0 ∨ _ ∨ _
            rw [or_iff_right refused, or_iff_left (not_not.mpr registered),
              UInt32.lt_iff_toNat_lt]
            exact Nat.succ_le_iff
          · rw [if_neg registered] at result
            have closed := close_counts p.nextClient (p.enroll sd)
            rw [← result] at closed
            have same : p'.server_pool.nc_conn_q = p.server_pool.nc_conn_q :=
              closed.2.trans (UInt32.add_sub_cancel _ _)
            refine ⟨closed.1, iff_of_true ?_ (Or.inr (Or.inr registered))⟩
            rw [same, closed.1]
            exact UInt32.le_iff_toNat_le.mpr bounded
  | clientRecv c choice sys fresh answer =>
      exact still (step.2 ▸ undisturbed_frame.clientRecv (undisturbed_pick choice) _ _ _ _ _) trivial
  | clientSend c delOutput answer => exact still (undisturbed_frame.clientSend step.2) trivial
  | clientClose c =>
      have closed := close_counts c p
      rw [← step.2] at closed
      have positive := List.length_pos_of_mem step.1
      have less : (p.server_pool.nc_conn_q - 1).toNat = p.server_pool.nc_conn_q.toNat - 1 :=
        UInt32.toNat_sub_of_le _ _ (UInt32.le_iff_toNat_le.mpr (by show 1 ≤ _; omega))
      refine ⟨closed.1, iff_of_true ?_ trivial⟩
      rw [closed.1, closed.2, UInt32.le_iff_toNat_le, less]
      omega
  | serverRecv s sys fresh answer =>
      exact still (step.2 ▸ undisturbed_frame.serverRecv _ _ _ _ _) trivial
  | serverSend s sys done => exact still (step.2.2 ▸ undisturbed_frame.serverSend _ _ _ _) trivial
  | serverClose s => exact still (step.2 ▸ undisturbed_did _ p) trivial

/-- The limits stay as they were calculated. -/
theorem ctx_run {rlim_cur : UInt64} {p : Proxy} (reached : (proxyRuns rlim_cur).Reach p) :
    p.ctx = .calcConnections rlim_cur := by
  refine reached.invariant (I := fun p => p.ctx = .calcConnections rlim_cur)
    (fun p (initial : Start rlim_cur p) => initial.ctx) fun p event p' _ ctx step => ?_
  have same : p'.ctx = p.ctx := by
    cases event with
    | accept answer =>
        rw [step.2]
        cases answer with
        | failed => rfl
        | descriptor sd setNonBlocking addConn =>
            show Proxy.ctx (if _ then _ else _) = _
            split
            · rfl
            · split
              · rfl
              · exact (close_counts _ _).1
    | clientRecv c choice sys fresh answer =>
        exact (step.2 ▸ undisturbed_frame.clientRecv (undisturbed_pick choice) _ _ _ _ _ :
          Undisturbed p p').ctx
    | clientSend c delOutput answer => exact (undisturbed_frame.clientSend step.2).ctx
    | clientClose c => exact step.2 ▸ (close_counts c p).1
    | serverRecv s sys fresh answer =>
        exact (step.2 ▸ undisturbed_frame.serverRecv _ _ _ _ _ : Undisturbed p p').ctx
    | serverSend s sys done =>
        exact (step.2.2 ▸ undisturbed_frame.serverSend _ _ _ _ : Undisturbed p p').ctx
    | serverClose s => exact step.2 ▸ rfl
  exact same.trans ctx

/-- The parts of the limit add up, unless the subtraction wraps. -/
theorem calcConnections_adds_iff (rlim_cur : UInt64) :
    (NcContext.calcConnections rlim_cur).max_ncconn.toNat +
        (NcContext.calcConnections rlim_cur).max_nsconn.toNat + RESERVED_FDS.toNat ≤
      (NcContext.calcConnections rlim_cur).max_nfd.toNat ↔ 32 ≤ rlim_cur.toNat % 2 ^ 32 := by
  have reserved : RESERVED_FDS.toNat = 32 := rfl
  have nsconn : (NcContext.calcConnections rlim_cur).max_nsconn.toNat = 0 := rfl
  have nfd : (NcContext.calcConnections rlim_cur).max_nfd.toNat = rlim_cur.toNat % 2 ^ 32 :=
    UInt64.toNat_toUInt32 rlim_cur
  have ncconn : (NcContext.calcConnections rlim_cur).max_ncconn.toNat =
      (2 ^ 32 - 32 + rlim_cur.toNat % 2 ^ 32) % 2 ^ 32 := by
    show (rlim_cur.toUInt32 - 0 - RESERVED_FDS).toNat = _
    rw [UInt32.sub_zero, UInt32.toNat_sub, UInt64.toNat_toUInt32]
    rfl
  rw [reserved, nsconn, nfd, ncconn]
  omega

/-- **The descriptor budget.** On all runs `nc_conn_q` is the number of open connections, and the
limits add up exactly if the limit of the process is at least 32. On the runs whose accepts are
`Within` the limit, `nc_conn_q` is at most `max_ncconn`; an event keeps this bound exactly if it
is. -/
theorem descriptor_budget (rlim_cur : UInt64) :
    (∀ p, (proxyRuns rlim_cur).Reach p →
      p.server_pool.nc_conn_q.toNat = p.server_pool.c_conn_q.length ∧
        (p.ctx.max_ncconn.toNat + p.ctx.max_nsconn.toNat + RESERVED_FDS.toNat ≤
          p.ctx.max_nfd.toNat ↔ 32 ≤ rlim_cur.toNat % 2 ^ 32)) ∧
    (∀ p, ((proxyRuns rlim_cur).guarded Within).Reach p →
      p.server_pool.nc_conn_q ≤ p.ctx.max_ncconn) ∧
    ∀ p event p', (proxyRuns rlim_cur).Reach p → p.server_pool.nc_conn_q ≤ p.ctx.max_ncconn →
      Step p event p' → (p'.server_pool.nc_conn_q ≤ p'.ctx.max_ncconn ↔ Within p event) := by
  refine ⟨fun p reached => ⟨(Counted.run reached).count, ?_⟩, fun p reached => ?_,
    fun p event p' reached bounded step => (step_counts (Counted.run reached) step bounded).2⟩
  · rw [ctx_run reached]
    exact calcConnections_adds_iff rlim_cur
  · refine reached.invariant (I := fun p => p.server_pool.nc_conn_q ≤ p.ctx.max_ncconn)
      (fun p initial => ?_) fun p event p' inner bounded step => ?_
    · have initial : Start rlim_cur p := initial
      rw [initial.nc_conn_q]
      exact UInt32.le_iff_toNat_le.mpr (Nat.zero_le _)
    · exact (step_counts (Counted.run inner.of_guarded) step.2 bounded).2.mpr step.1

/-- One client, and a second one. -/
def oneAccepted : Proxy := (atStart 33).enroll 5

def twoAccepted : Proxy := oneAccepted.enroll 6

theorem step_oneAccepted : (proxyRuns 33).step (atStart 33) (.accept (.descriptor 5 true true))
    oneAccepted :=
  ⟨⟨by decide, by decide, fun c isOpen => absurd isOpen List.not_mem_nil⟩, rfl⟩

theorem step_twoAccepted : (proxyRuns 33).step oneAccepted (.accept (.descriptor 6 true true))
    twoAccepted := by
  refine ⟨⟨by decide, by decide, fun c isOpen => ?_⟩, rfl⟩
  rw [show c = 0 from List.mem_singleton.mp isOpen]
  decide

theorem descriptor_budget_oneAccepted :
    oneAccepted.server_pool.nc_conn_q.toNat = oneAccepted.server_pool.c_conn_q.length ∧
      oneAccepted.server_pool.nc_conn_q ≤ oneAccepted.ctx.max_ncconn :=
  ⟨((descriptor_budget 33).1 oneAccepted ((reach_atStart 33).next step_oneAccepted)).1,
    ((descriptor_budget 33).2.2 (atStart 33) (.accept (.descriptor 5 true true)) oneAccepted
      (reach_atStart 33) (by decide) step_oneAccepted).mpr (Or.inr (Or.inl (by decide)))⟩

/-- **A limit of 33 leaves one client, and two are accepted.** -/
theorem accept_over_limit :
    (proxyRuns 33).Reach twoAccepted ∧ twoAccepted.ctx.max_ncconn = 1 ∧
      twoAccepted.server_pool.nc_conn_q = 2 :=
  ⟨((reach_atStart 33).next step_oneAccepted).next step_twoAccepted, rfl, rfl⟩

end Proxy

end Nutcracker
