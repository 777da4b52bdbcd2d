/-
**A batch of events in the kqueue back end.**

`wait` walks the events that `kevent` returned and calls `callback` on the connection of each.
`delConn`, called from a callback, clears `flags` and `filter` of the next event of the same
descriptor and leaves `udata`; the loop passes over ignored errors and events without a connection,
and a cleared event is neither.

* `EventLoop.process` — the loop, with a record of what it calls (`LoopLog`).
* `event_eliminate` — what `delConn` does to the batch.
* `callback_iff` — **when the loop calls `callback` for an event**: it has been cleared, or is not an
  ignored error.
* `quiet_iff` — a removed connection is not called again exactly if every later event of it is an
  ignored error that no `delConn` clears.
* `callback_after_delConn` — a read and a write event of one connection, closed at the first.
-/

import Nutcracker.Event.Model

namespace Nutcracker

def ENOENT : Int := 2

def EINTR : Int := 4

def EBADF : Int := 9

namespace Kevent

/-- An error that the loop passes over. -/
def ignored (ev : Kevent) : Bool :=
  ev.flags &&& EV_ERROR ≠ 0 ∧
    (ev.data = EBADF ∨ ev.data = EINVAL ∨ ev.data = ENOENT ∨ ev.data = EINTR)

/-- The events that the loop passes to `callback`. -/
def events (ev : Kevent) : UInt32 :=
  (if ev.flags &&& EV_ERROR ≠ 0 then EVENT_ERR else 0) |||
    (if ev.filter = EVFILT_READ then EVENT_READ else 0) |||
    (if ev.filter = EVFILT_WRITE then EVENT_WRITE else 0)

theorem ignored_clear (ev : Kevent) : ev.clear.ignored = false :=
  decide_eq_false fun holds => holds.1 (show (0 : UInt16) &&& EV_ERROR = 0 by decide)

end Kevent

/-- What a callback does: calls of `NcEventBase`, and writes to connections. -/
inductive Effect
  | call (c : Addr) (call : EventCall)
  | store (c : Addr) (conn : NcConnBase)

/-- What happens while the event at position `i` is processed. -/
inductive LoopLog
  | callback (i : Nat) (c : Addr) (events : UInt32)
  | delConn (i : Nat) (c : Addr) (sd : Int)
  deriving DecidableEq

/-- The position of the event that is processed. -/
def LoopLog.position : LoopLog → Nat
  | .callback i _ _ => i
  | .delConn i _ _ => i

/-- The event queue and the connections. -/
structure EventLoop where
  kq : Kqueue
  conn : Addr → NcConnBase

namespace EventLoop

/-- One effect of a callback. -/
def effect (s : EventLoop × List LoopLog) : Effect → EventLoop × List LoopLog
  | .call c call =>
      let w := s.1
      let (conn, kq) := Kqueue.run c call (w.conn c) w.kq
      (⟨kq, Function.update w.conn c conn⟩,
        if call = .delConn then s.2 ++ [.delConn w.kq.nprocessed c (w.conn c).m_sd] else s.2)
  | .store c conn => (⟨s.1.kq, Function.update s.1.conn c conn⟩, s.2)

/-- One pass of the loop; `behave i` is what the callback of the event at position `i` does. -/
def handle (behave : Nat → List Effect) (s : EventLoop × List LoopLog) : EventLoop × List LoopLog :=
  match s.1.kq.event[s.1.kq.nprocessed]? with
  | none => s
  | some ev =>
      if ev.ignored then s
      else
        match ev.udata with
        | none => s
        | some c =>
            (behave s.1.kq.nprocessed).foldl effect
              (s.1, s.2 ++ [.callback s.1.kq.nprocessed c ev.events])

/-- `nprocessed++`. -/
def advance (s : EventLoop × List LoopLog) : EventLoop × List LoopLog :=
  (⟨{ s.1.kq with nprocessed := s.1.kq.nprocessed + 1 }, s.1.conn⟩, s.2)

/-- The loop of `wait`, for the events that are left. -/
def process (behave : Nat → List Effect) : Nat → EventLoop × List LoopLog → EventLoop × List LoopLog
  | 0, s => s
  | left + 1, s => process behave left (advance (handle behave s))

/-- `wait`, when `kevent` returns a batch. -/
def wait (behave : Nat → List Effect) (batch : List Kevent) (w : EventLoop) :
    EventLoop × List LoopLog :=
  process behave batch.length (⟨w.kq.kevent batch, w.conn⟩, [])

/-- **No callback after removal.** -/
def Quiet (log : List LoopLog) : Prop :=
  ∀ i c sd, .delConn i c sd ∈ log → ∀ k events, .callback k c events ∈ log → k ≤ i

/-- `k` is the position of the first event after `i` of the descriptor `sd`. -/
def FirstAfter (batch : List Kevent) (i : Nat) (sd : Int) (k : Nat) : Prop :=
  i < k ∧ (batch[k]?).map Kevent.ident = some sd ∧
    ∀ j, i < j → j < k → (batch[j]?).map Kevent.ident ≠ some sd

/-- Some `delConn` has cleared the event at position `k`. -/
def Cleared (batch : List Kevent) (log : List LoopLog) (k : Nat) : Prop :=
  ∃ i c sd, .delConn i c sd ∈ log ∧ FirstAfter batch i sd k

/-! ### What `delConn` does to the batch -/

theorem getElem?_clearFirst (sd : Int) (batch : List Kevent) (k : Nat) :
    ((batch[k]?).map Kevent.ident = some sd →
      (∀ j < k, (batch[j]?).map Kevent.ident ≠ some sd) →
      (Kqueue.clearFirst sd batch)[k]? = (batch[k]?).map Kevent.clear) ∧
    (¬ ((batch[k]?).map Kevent.ident = some sd ∧
        ∀ j < k, (batch[j]?).map Kevent.ident ≠ some sd) →
      (Kqueue.clearFirst sd batch)[k]? = batch[k]?) := by
  induction batch generalizing k with
  | nil => exact ⟨fun _ _ => rfl, fun _ => rfl⟩
  | cons ev rest ih =>
      unfold Kqueue.clearFirst
      by_cases isFirst : ev.ident = sd
      · rw [if_pos isFirst]
        cases k with
        | zero =>
            refine ⟨fun _ _ => rfl, fun not => absurd ⟨?_, ?_⟩ not⟩
            · exact congrArg some isFirst
            · exact fun j below => absurd below (Nat.not_lt_zero j)
        | succ k =>
            refine ⟨fun _ before => ?_, fun _ => rfl⟩
            exact absurd (congrArg some isFirst) (before 0 (Nat.succ_pos k))
      · rw [if_neg isFirst]
        cases k with
        | zero =>
            refine ⟨fun here _ => ?_, fun _ => rfl⟩
            exact absurd (Option.some.inj here) isFirst
        | succ k =>
            obtain ⟨clears, keeps⟩ := ih k
            refine ⟨fun here before => ?_, fun not => ?_⟩
            · exact clears here fun j below => before (j + 1) (Nat.succ_lt_succ below)
            · refine keeps fun first => not ⟨first.1, fun j below => ?_⟩
              cases j with
              | zero => exact fun here => isFirst (Option.some.inj here)
              | succ j => exact first.2 j (Nat.lt_of_succ_lt_succ below)

theorem length_clearFirst (sd : Int) (batch : List Kevent) :
    (Kqueue.clearFirst sd batch).length = batch.length := by
  induction batch with
  | nil => rfl
  | cons ev rest ih =>
      unfold Kqueue.clearFirst
      split
      · rfl
      · rw [List.length_cons, ih, List.length_cons]

/-- The batch with the pending event of a descriptor cleared. -/
theorem eliminate_parts {kq : Kqueue} (sd : Int) (whole : kq.nreturned = kq.event.length)
    (inside : kq.nprocessed < kq.event.length) :
    (kq.eliminate sd).event = kq.event.take (kq.nprocessed + 1) ++
      Kqueue.clearFirst sd (kq.event.drop (kq.nprocessed + 1)) := by
  show _ ++ _ ++ _ = _
  rw [whole, List.take_length, Nat.max_eq_left inside, List.drop_length, List.append_nil]

theorem length_eliminate {kq : Kqueue} (sd : Int) (whole : kq.nreturned = kq.event.length)
    (inside : kq.nprocessed < kq.event.length) :
    (kq.eliminate sd).event.length = kq.event.length := by
  rw [eliminate_parts sd whole inside, List.length_append, length_clearFirst, ← List.length_append,
    List.take_append_drop]

/-- **`delConn` clears the first later event of the descriptor**, and no other. -/
theorem event_eliminate {kq : Kqueue} (sd : Int) (whole : kq.nreturned = kq.event.length)
    (inside : kq.nprocessed < kq.event.length) (k : Nat) :
    (FirstAfter kq.event kq.nprocessed sd k →
      (kq.eliminate sd).event[k]? = (kq.event[k]?).map Kevent.clear) ∧
    (¬ FirstAfter kq.event kq.nprocessed sd k → (kq.eliminate sd).event[k]? = kq.event[k]?) := by
  have length : (kq.event.take (kq.nprocessed + 1)).length = kq.nprocessed + 1 :=
    List.length_take_of_le inside
  rw [eliminate_parts sd whole inside]
  by_cases later : kq.nprocessed < k
  · obtain ⟨n, rfl⟩ := Nat.exists_eq_add_of_le (show kq.nprocessed + 1 ≤ k from later)
    have shift : ∀ m, (kq.event.drop (kq.nprocessed + 1))[m]? =
        kq.event[kq.nprocessed + 1 + m]? := fun m => List.getElem?_drop
    have first : FirstAfter kq.event kq.nprocessed sd (kq.nprocessed + 1 + n) ↔
        ((kq.event.drop (kq.nprocessed + 1))[n]?).map Kevent.ident = some sd ∧
          ∀ j < n, ((kq.event.drop (kq.nprocessed + 1))[j]?).map Kevent.ident ≠ some sd := by
      rw [shift]
      constructor
      · rintro ⟨-, here, before⟩
        refine ⟨here, fun j below => ?_⟩
        rw [shift]
        exact before _ (by omega) (by omega)
      · rintro ⟨here, before⟩
        refine ⟨by omega, here, fun j after below => ?_⟩
        obtain ⟨m, rfl⟩ := Nat.exists_eq_add_of_le (show kq.nprocessed + 1 ≤ j from after)
        rw [← shift]
        exact before m (by omega)
    obtain ⟨clears, keeps⟩ := getElem?_clearFirst sd (kq.event.drop (kq.nprocessed + 1)) n
    rw [List.getElem?_append_right (by rw [length]; omega), length, Nat.add_sub_cancel_left, first,
      ← shift]
    exact ⟨fun both => clears both.1 both.2, keeps⟩
  · refine ⟨fun first => absurd first.1 later, fun _ => ?_⟩
    rw [List.getElem?_append_left (by rw [length]; omega), List.getElem?_take,
      if_pos (by omega)]

/-! ### What the loop keeps -/

/-- **The batch while its event `m` is processed**: the events of `kevent`, some of them cleared. -/
structure Tracks (batch : List Kevent) (m : Nat) (s : EventLoop × List LoopLog) : Prop where
  nprocessed : s.1.kq.nprocessed = m
  nreturned : s.1.kq.nreturned = s.1.kq.event.length
  length : s.1.kq.event.length = batch.length
  cleared : ∀ k, Cleared batch s.2 k → s.1.kq.event[k]? = (batch[k]?).map Kevent.clear
  kept : ∀ k, ¬ Cleared batch s.2 k → s.1.kq.event[k]? = batch[k]?

variable {batch : List Kevent} {m : Nat} {s : EventLoop × List LoopLog}

/-- The descriptors of the events stay. -/
theorem Tracks.ident (tracks : Tracks batch m s) (k : Nat) :
    (s.1.kq.event[k]?).map Kevent.ident = (batch[k]?).map Kevent.ident := by
  by_cases isCleared : Cleared batch s.2 k
  · rw [tracks.cleared k isCleared, Option.map_map]
    rfl
  · rw [tracks.kept k isCleared]

theorem Tracks.firstAfter_iff (tracks : Tracks batch m s) (i : Nat) (sd : Int) (k : Nat) :
    FirstAfter s.1.kq.event i sd k ↔ FirstAfter batch i sd k := by
  unfold FirstAfter
  simp only [tracks.ident]

/-- The batch is the same. -/
structure SameBatch (kq kq' : Kqueue) : Prop where
  event : kq'.event = kq.event
  nreturned : kq'.nreturned = kq.nreturned
  nprocessed : kq'.nprocessed = kq.nprocessed

theorem SameBatch.trans {kq₁ kq₂ kq₃ : Kqueue} (first : SameBatch kq₁ kq₂)
    (second : SameBatch kq₂ kq₃) : SameBatch kq₁ kq₃ :=
  ⟨second.event.trans first.event, second.nreturned.trans first.nreturned,
    second.nprocessed.trans first.nprocessed⟩

section Calls

variable (c : Addr) (conn : NcConnBase) (kq : Kqueue)

theorem sameBatch_addInput : SameBatch kq (Kqueue.addInput c conn kq).2 := by
  unfold Kqueue.addInput
  split <;> exact ⟨rfl, rfl, rfl⟩

theorem sameBatch_delInput : SameBatch kq (Kqueue.delInput c conn kq).2 := by
  unfold Kqueue.delInput
  split <;> exact ⟨rfl, rfl, rfl⟩

theorem sameBatch_addOutput : SameBatch kq (Kqueue.addOutput c conn kq).2 := by
  unfold Kqueue.addOutput
  split <;> exact ⟨rfl, rfl, rfl⟩

theorem sameBatch_delOutput : SameBatch kq (Kqueue.delOutput c conn kq).2 := by
  unfold Kqueue.delOutput
  split <;> exact ⟨rfl, rfl, rfl⟩

/-- A call other than `delConn` queues changes and leaves the batch. -/
theorem sameBatch_run {call : EventCall} (other : call ≠ .delConn) :
    SameBatch kq (Kqueue.run c call conn kq).2 := by
  cases call with
  | delConn => exact absurd rfl other
  | addInput => exact sameBatch_addInput c conn kq
  | delInput => exact sameBatch_delInput c conn kq
  | addOutput => exact sameBatch_addOutput c conn kq
  | delOutput => exact sameBatch_delOutput c conn kq
  | addConn events =>
      show SameBatch kq (Kqueue.addConn c events conn kq).2
      unfold Kqueue.addConn
      by_cases reads : events &&& EVENT_READ ≠ 0
      · by_cases writes : events &&& EVENT_WRITE ≠ 0
        · simp only [if_pos reads, if_pos writes]
          exact (sameBatch_addInput c conn kq).trans (sameBatch_addOutput c _ _)
        · simp only [if_pos reads, if_neg writes]
          exact sameBatch_addInput c conn kq
      · by_cases writes : events &&& EVENT_WRITE ≠ 0
        · simp only [if_neg reads, if_pos writes]
          exact sameBatch_addOutput c conn kq
        · simp only [if_neg reads, if_neg writes]
          exact ⟨rfl, rfl, rfl⟩

/-- The descriptor of a connection stays. -/
theorem sd_delConn :
    (Kqueue.delInput c (Kqueue.delOutput c conn kq).1 (Kqueue.delOutput c conn kq).2).1.m_sd =
      conn.m_sd := by
  have output : (Kqueue.delOutput c conn kq).1.m_sd = conn.m_sd := by
    unfold Kqueue.delOutput
    split <;> rfl
  unfold Kqueue.delInput
  split <;> exact output

/-- `delConn` eliminates a pending event of the descriptor, and does no more to the batch. -/
theorem sameBatch_delConn :
    SameBatch (kq.eliminate conn.m_sd) (Kqueue.run c .delConn conn kq).2 := by
  have queued := (sameBatch_delOutput c conn kq).trans
    (sameBatch_delInput c (Kqueue.delOutput c conn kq).1 (Kqueue.delOutput c conn kq).2)
  refine ⟨?_, queued.nreturned, queued.nprocessed⟩
  show (Kqueue.eliminate
    (Kqueue.delInput c (Kqueue.delOutput c conn kq).1 (Kqueue.delOutput c conn kq).2).1.m_sd
    (Kqueue.delInput c (Kqueue.delOutput c conn kq).1 (Kqueue.delOutput c conn kq).2).2).event = _
  rw [sd_delConn]
  unfold Kqueue.eliminate
  rw [queued.event, queued.nreturned, queued.nprocessed]

end Calls

theorem cleared_append {log : List LoopLog} {i : Nat} {c : Addr} {sd : Int} {k : Nat} :
    Cleared batch (log ++ [.delConn i c sd]) k ↔
      Cleared batch log k ∨ FirstAfter batch i sd k := by
  constructor
  · rintro ⟨i', c', sd', member, first⟩
    rcases List.mem_append.mp member with before | last
    · exact Or.inl ⟨i', c', sd', before, first⟩
    · obtain ⟨rfl, rfl, rfl⟩ := LoopLog.delConn.inj (List.mem_singleton.mp last)
      exact Or.inr first
  · rintro (⟨i', c', sd', member, first⟩ | first)
    · exact ⟨i', c', sd', List.mem_append_left _ member, first⟩
    · exact ⟨i, c, sd, List.mem_append_right _ (List.mem_singleton_self _), first⟩

/-- **One effect of a callback**: it calls no callback, and if it removes a connection, the record
says so. -/
theorem Tracks.effect (tracks : Tracks batch m s) (inside : m < batch.length) (e : Effect) :
    Tracks batch m (effect s e) ∧
      ((EventLoop.effect s e).2 = s.2 ∨
        ∃ c sd, (EventLoop.effect s e).2 = s.2 ++ [.delConn m c sd]) := by
  cases e with
  | store c conn =>
      exact ⟨⟨tracks.nprocessed, tracks.nreturned, tracks.length, tracks.cleared, tracks.kept⟩,
        Or.inl rfl⟩
  | call c call =>
      by_cases isDel : call = .delConn
      · obtain ⟨event, nreturned, nprocessed⟩ := sameBatch_delConn c (s.1.conn c) s.1.kq
        have log : (EventLoop.effect s (.call c call)).2 =
            s.2 ++ [.delConn m c (s.1.conn c).m_sd] := by
          rw [← tracks.nprocessed]
          exact if_pos isDel
        rw [isDel] at log ⊢
        have within : s.1.kq.nprocessed < s.1.kq.event.length := by
          rw [tracks.nprocessed, tracks.length]
          exact inside
        have change := event_eliminate (s.1.conn c).m_sd tracks.nreturned within
        simp only [tracks.firstAfter_iff, tracks.nprocessed] at change
        have sameLength := length_eliminate (s.1.conn c).m_sd tracks.nreturned within
        refine ⟨⟨nprocessed.trans tracks.nprocessed, ?_, ?_, fun k isCleared => ?_,
          fun k notCleared => ?_⟩, Or.inr ⟨c, _, log⟩⟩
        · refine nreturned.trans (tracks.nreturned.trans ?_)
          exact sameLength.symm.trans (congrArg List.length event.symm)
        · exact (congrArg List.length event).trans (sameLength.trans tracks.length)
        · rw [log, cleared_append] at isCleared
          refine (congrArg (·[k]?) event).trans ?_
          by_cases first : FirstAfter batch m (s.1.conn c).m_sd k
          · rw [(change k).1 first]
            by_cases before : Cleared batch s.2 k
            · rw [tracks.cleared k before, Option.map_map]
              rfl
            · rw [tracks.kept k before]
          · rw [(change k).2 first]
            exact tracks.cleared k (isCleared.resolve_right first)
        · rw [log, cleared_append, not_or] at notCleared
          refine (congrArg (·[k]?) event).trans ?_
          rw [(change k).2 notCleared.2]
          exact tracks.kept k notCleared.1
      · obtain ⟨event, nreturned, nprocessed⟩ := sameBatch_run c (s.1.conn c) s.1.kq isDel
        have log : (EventLoop.effect s (.call c call)).2 = s.2 := if_neg isDel
        refine ⟨⟨nprocessed.trans tracks.nprocessed, ?_, ?_, fun k isCleared => ?_,
          fun k notCleared => ?_⟩, Or.inl log⟩
        · exact nreturned.trans (tracks.nreturned.trans (congrArg List.length event.symm))
        · exact (congrArg List.length event).trans tracks.length
        · rw [log] at isCleared
          exact (congrArg (·[k]?) event).trans (tracks.cleared k isCleared)
        · rw [log] at notCleared
          exact (congrArg (·[k]?) event).trans (tracks.kept k notCleared)

/-- The record of a connection that is removed while the event `m` is processed. -/
def RemovesAt (m : Nat) (e : LoopLog) : Prop := ∃ c sd, e = .delConn m c sd

/-- **All effects of a callback.** -/
theorem Tracks.effects (tracks : Tracks batch m s) (inside : m < batch.length)
    (effects : List Effect) :
    Tracks batch m (effects.foldl EventLoop.effect s) ∧
      ∃ removals, (effects.foldl EventLoop.effect s).2 = s.2 ++ removals ∧
        ∀ e ∈ removals, RemovesAt m e := by
  induction effects generalizing s with
  | nil => exact ⟨tracks, [], (List.append_nil _).symm, nofun⟩
  | cons e effects ih =>
      obtain ⟨tracks', log⟩ := tracks.effect inside e
      obtain ⟨result, removals, appended, at_⟩ := ih tracks'
      refine ⟨result, ?_⟩
      rcases log with same | ⟨c, sd, removes⟩
      · refine ⟨removals, ?_, at_⟩
        rw [List.foldl_cons, appended, same]
      · refine ⟨.delConn m c sd :: removals, ?_, ?_⟩
        · rw [List.foldl_cons, appended, removes, List.append_assoc]
          rfl
        · exact List.forall_mem_cons.mpr ⟨⟨c, sd, rfl⟩, at_⟩

/-- **After some events are processed**: `callback` was called for those of them that were cleared,
or were no ignored error. -/
structure Processed (batch : List Kevent) (m : Nat) (s : EventLoop × List LoopLog) : Prop where
  tracks : Tracks batch m s
  before : ∀ e ∈ s.2, LoopLog.position e < m
  called : ∀ k < m, ∀ c, (∃ events, .callback k c events ∈ s.2) ↔
    ∃ ev, batch[k]? = some ev ∧ ev.udata = some c ∧ (Cleared batch s.2 k ∨ ev.ignored = false)

theorem cleared_congr {log log' : List LoopLog} {k : Nat}
    (same : ∀ i < k, ∀ c sd, .delConn i c sd ∈ log' ↔ .delConn i c sd ∈ log) :
    Cleared batch log' k ↔ Cleared batch log k := by
  constructor
  · rintro ⟨i, c, sd, member, first⟩
    exact ⟨i, c, sd, (same i first.1 c sd).mp member, first⟩
  · rintro ⟨i, c, sd, member, first⟩
    exact ⟨i, c, sd, (same i first.1 c sd).mpr member, first⟩

/-- The event at the position of the loop, as `delConn` may have left it. -/
theorem Tracks.here (tracks : Tracks batch m s) {ev : Kevent} (entry : batch[m]? = some ev) :
    (Cleared batch s.2 m ∧ s.1.kq.event[s.1.kq.nprocessed]? = some ev.clear) ∨
      (¬ Cleared batch s.2 m ∧ s.1.kq.event[s.1.kq.nprocessed]? = some ev) := by
  rw [tracks.nprocessed]
  by_cases isCleared : Cleared batch s.2 m
  · refine Or.inl ⟨isCleared, ?_⟩
    rw [tracks.cleared m isCleared, entry]
    rfl
  · exact Or.inr ⟨isCleared, (tracks.kept m isCleared).trans entry⟩

theorem tracks_advance (tracks : Tracks batch m s) : Tracks batch (m + 1) (advance s) where
  nprocessed := congrArg (· + 1) tracks.nprocessed
  nreturned := tracks.nreturned
  length := tracks.length
  cleared := tracks.cleared
  kept := tracks.kept

/-- A pass that calls nothing. -/
theorem Processed.skip (processed : Processed batch m s)
    (nothing : ∀ ev, batch[m]? = some ev → ev.udata = none ∨
      (¬ Cleared batch s.2 m ∧ ev.ignored = true)) :
    Processed batch (m + 1) (advance s) where
  tracks := tracks_advance processed.tracks
  before e member := Nat.lt_succ_of_lt (processed.before e member)
  called k below c := by
    rcases Nat.lt_or_eq_of_le (Nat.le_of_lt_succ below) with earlier | rfl
    · exact processed.called k earlier c
    · refine iff_of_false ?_ ?_
      · rintro ⟨events, member⟩
        exact Nat.lt_irrefl k (processed.before _ member)
      · rintro ⟨ev, entry, isFor, calls⟩
        rcases nothing ev entry with nobody | ⟨notCleared, ignored⟩
        · rw [nobody] at isFor
          cases isFor
        · rcases calls with isCleared | notIgnored
          · exact notCleared isCleared
          · rw [ignored] at notIgnored
            cases notIgnored

/-- A pass that calls the connection of the event. -/
theorem Processed.calls (processed : Processed batch m s) {ev : Kevent} {c : Addr}
    {events : UInt32} (entry : batch[m]? = some ev) (isFor : ev.udata = some c)
    (calls : Cleared batch s.2 m ∨ ev.ignored = false) (effects : List Effect) :
    Processed batch (m + 1)
      (advance (effects.foldl effect (s.1, s.2 ++ [.callback m c events]))) := by
  have inside : m < batch.length := (List.getElem?_eq_some_iff.mp entry).1
  have clearedCall : ∀ k, Cleared batch (s.2 ++ [.callback m c events]) k ↔
      Cleared batch s.2 k := fun k => cleared_congr fun i _ c' sd => by
    rw [List.mem_append, List.mem_singleton]
    exact or_iff_left nofun
  have start : Tracks batch m (s.1, s.2 ++ [.callback m c events]) :=
    ⟨processed.tracks.nprocessed, processed.tracks.nreturned, processed.tracks.length,
      fun k isCleared => processed.tracks.cleared k ((clearedCall k).mp isCleared),
      fun k notCleared => processed.tracks.kept k (mt (clearedCall k).mpr notCleared)⟩
  obtain ⟨tracks, removals, log, at_⟩ := start.effects inside effects
  -- what the callback removes, it removes at this position
  have clearedNow : ∀ k ≤ m, Cleared batch
      (effects.foldl effect (s.1, s.2 ++ [.callback m c events])).2 k ↔ Cleared batch s.2 k := by
    intro k low
    rw [← clearedCall k]
    refine cleared_congr fun i below c' sd => ?_
    rw [log, List.mem_append]
    refine or_iff_left fun removes => ?_
    obtain ⟨c'', sd', same⟩ := at_ _ removes
    obtain ⟨rfl, -, -⟩ := LoopLog.delConn.inj same
    omega
  have callbacks : ∀ k c' events', .callback k c' events' ∈
      (effects.foldl effect (s.1, s.2 ++ [.callback m c events])).2 ↔
        .callback k c' events' ∈ s.2 ∨ (k = m ∧ c' = c ∧ events' = events) := by
    intro k c' events'
    rw [log, List.mem_append, List.mem_append, List.mem_singleton, LoopLog.callback.injEq]
    refine or_iff_left fun removes => ?_
    obtain ⟨c'', sd', same⟩ := at_ _ removes
    cases same
  refine ⟨tracks_advance tracks, fun e member => ?_, fun k below c' => ?_⟩
  · have member : e ∈ (effects.foldl effect (s.1, s.2 ++ [.callback m c events])).2 := member
    rw [log] at member
    rcases List.mem_append.mp member with earlier | removes
    · rcases List.mem_append.mp earlier with old | call
      · exact Nat.lt_succ_of_lt (processed.before e old)
      · rw [List.mem_singleton.mp call]
        exact Nat.lt_succ_self m
    · obtain ⟨c'', sd', rfl⟩ := at_ e removes
      exact Nat.lt_succ_self m
  · show (∃ events', _ ∈ (effects.foldl effect _).2) ↔ ∃ ev, _ ∧ _ ∧ (Cleared batch
      (effects.foldl effect _).2 k ∨ _)
    simp only [callbacks, clearedNow k (Nat.le_of_lt_succ below)]
    rcases Nat.lt_or_eq_of_le (Nat.le_of_lt_succ below) with earlier | rfl
    · rw [← processed.called k earlier c']
      refine exists_congr fun events' => or_iff_left fun here => ?_
      exact absurd here.1 (Nat.ne_of_lt earlier)
    · constructor
      · rintro ⟨events', old | ⟨-, rfl, -⟩⟩
        · exact absurd (processed.before _ old) (Nat.lt_irrefl k)
        · exact ⟨ev, entry, isFor, calls⟩
      · rintro ⟨ev', entry', isFor', -⟩
        obtain rfl := Option.some.inj (entry.symm.trans entry')
        exact ⟨events, Or.inr ⟨rfl, Option.some.inj (isFor'.symm.trans isFor), rfl⟩⟩

/-- **One pass of the loop.** -/
theorem Processed.next (processed : Processed batch m s) (inside : m < batch.length)
    (behave : Nat → List Effect) : Processed batch (m + 1) (advance (handle behave s)) := by
  have entry := List.getElem?_eq_getElem inside
  unfold handle
  rcases processed.tracks.here entry with ⟨isCleared, here⟩ | ⟨notCleared, here⟩
  · rw [here]
    simp only [Kevent.ignored_clear, Bool.false_eq_true, if_false]
    cases isFor : batch[m].udata with
    | none =>
        simp only [show batch[m].clear.udata = none from isFor]
        refine processed.skip fun ev entry' => Or.inl ?_
        rw [← Option.some.inj (entry.symm.trans entry')]
        exact isFor
    | some c =>
        simp only [show batch[m].clear.udata = some c from isFor, processed.tracks.nprocessed]
        exact processed.calls entry isFor (Or.inl isCleared) (behave m)
  · rw [here]
    cases ignored : batch[m].ignored with
    | true =>
        simp only [ignored, if_true]
        refine processed.skip fun ev entry' => Or.inr ⟨notCleared, ?_⟩
        rw [← Option.some.inj (entry.symm.trans entry')]
        exact ignored
    | false =>
        simp only [ignored, Bool.false_eq_true, if_false]
        cases isFor : batch[m].udata with
        | none =>
            refine processed.skip fun ev entry' => Or.inl ?_
            rw [← Option.some.inj (entry.symm.trans entry')]
            exact isFor
        | some c =>
            simp only [processed.tracks.nprocessed]
            exact processed.calls entry isFor (Or.inr ignored) (behave m)

theorem Processed.process (behave : Nat → List Effect) {left : Nat}
    (processed : Processed batch m s) (count : m + left = batch.length) :
    Processed batch batch.length (EventLoop.process behave left s) := by
  induction left generalizing m s with
  | zero =>
      rw [← count]
      exact processed
  | succ left ih => exact ih (processed.next (by omega) behave) (by omega)

/-- **All of the batch.** -/
theorem processed_wait (behave : Nat → List Effect) (batch : List Kevent) (w : EventLoop) :
    Processed batch batch.length (wait behave batch w) := by
  refine Processed.process behave (m := 0) ⟨⟨rfl, rfl, rfl, ?_, fun _ _ => rfl⟩, nofun, ?_⟩
    (Nat.zero_add _)
  · rintro k ⟨i, c, sd, member, -⟩
    cases member
  · exact fun k below => absurd below (Nat.not_lt_zero k)

/-- **When the loop calls `callback`.** -/
theorem callback_iff (behave : Nat → List Effect) (batch : List Kevent) (w : EventLoop) (k : Nat)
    (c : Addr) :
    (∃ events, .callback k c events ∈ (wait behave batch w).2) ↔
      ∃ ev, batch[k]? = some ev ∧ ev.udata = some c ∧
        (Cleared batch (wait behave batch w).2 k ∨ ev.ignored = false) := by
  have processed := processed_wait behave batch w
  rcases Nat.lt_or_ge k batch.length with inside | outside
  · exact processed.called k inside c
  · refine iff_of_false ?_ ?_
    · rintro ⟨events, member⟩
      exact Nat.not_lt.mpr outside (processed.before _ member)
    · rintro ⟨ev, entry, -⟩
      exact Nat.not_lt.mpr outside (List.getElem?_eq_some_iff.mp entry).1

/-- **No callback after removal, exactly if** every later event of a removed connection is an error
that the loop ignores, and that no `delConn` clears. -/
theorem quiet_iff (behave : Nat → List Effect) (batch : List Kevent) (w : EventLoop) :
    Quiet (wait behave batch w).2 ↔
      ∀ i c sd, .delConn i c sd ∈ (wait behave batch w).2 →
        ∀ k ev, i < k → batch[k]? = some ev → ev.udata = some c →
          ev.ignored = true ∧ ¬ Cleared batch (wait behave batch w).2 k := by
  constructor
  · intro quiet i c sd removes k ev after entry isFor
    have notCalled : ¬ ∃ events, .callback k c events ∈ (wait behave batch w).2 := by
      rintro ⟨events, calls⟩
      exact Nat.not_lt.mpr (quiet i c sd removes k events calls) after
    rw [callback_iff] at notCalled
    refine ⟨?_, fun isCleared => notCalled ⟨ev, entry, isFor, Or.inl isCleared⟩⟩
    rw [← Bool.not_eq_false]
    exact fun notIgnored => notCalled ⟨ev, entry, isFor, Or.inr notIgnored⟩
  · intro silent i c sd removes k events calls
    refine Nat.le_of_not_lt fun after => ?_
    obtain ⟨ev, entry, isFor, reason⟩ := (callback_iff behave batch w k c).mp ⟨events, calls⟩
    obtain ⟨ignored, notCleared⟩ := silent i c sd removes k ev after entry isFor
    rcases reason with isCleared | notIgnored
    · exact notCleared isCleared
    · rw [ignored] at notIgnored
      cases notIgnored

/-! ### Two events of one connection -/

/-- A read event and a write event of the connection 1. -/
def readAndWrite : List Kevent :=
  [⟨7, EVFILT_READ, 0, 0, some 1⟩, ⟨7, EVFILT_WRITE, 0, 0, some 1⟩]

/-- The first callback fails, and closes the connection. -/
def closeFirst (i : Nat) : List Effect :=
  if i = 0 then [.call 1 .delConn, .store 1 ⟨-1, false, false⟩] else []

def oneConnection : EventLoop := ⟨⟨[], [], 0, 0, fun _ _ => true⟩, fun _ => ⟨7, true, true⟩⟩

/-- **The closed connection is called again**, with no event. -/
theorem callback_after_delConn :
    (wait closeFirst readAndWrite oneConnection).2 =
      [.callback 0 1 EVENT_READ, .delConn 0 1 7, .callback 1 1 0] ∧
    ¬ Quiet (wait closeFirst readAndWrite oneConnection).2 := by
  have log : (wait closeFirst readAndWrite oneConnection).2 =
      [.callback 0 1 EVENT_READ, .delConn 0 1 7, .callback 1 1 0] := by decide
  refine ⟨log, fun quiet => ?_⟩
  rw [log] at quiet
  have ordered := quiet 0 1 7 (by decide) 1 0 (by decide)
  exact absurd ordered (by decide)

end EventLoop

end Nutcracker
