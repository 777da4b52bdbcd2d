/-
**Are the interest flags truthful?**

The kqueue back end queues a change exactly when it changes a flag, so its flags are truthful on all
runs. The epoll back end sets both flags in `addConn`, whatever the mask, and does nothing in
`delInput`: a connection added for reading only counts as registered for writing, and `addOutput`
returns without a call.

* `Truthful.run` — every call of the kqueue back end keeps the flags truthful.
* `Epoll.Held.run` — so do the calls of the epoll back end whose `addConn` asks for both events.
* `Epoll.addConn_truthful_iff` — **and no other `addConn` does**.
* `interest_of_runs` — the flags, and the registrations of the two back ends, on all runs.
* `addOutput_ignored` — after the `addConn` of `accept`, `addOutput` registers nothing.
-/

import Nutcracker.Event.Model
import Nutcracker.Lib.Runs

namespace Nutcracker

open Lib

/-- The mask asks for both events. -/
def BothEvents (events : UInt32) : Prop := events &&& EVENT_READ ≠ 0 ∧ events &&& EVENT_WRITE ≠ 0

instance (events : UInt32) : Decidable (BothEvents events) := inferInstanceAs (Decidable (_ ∧ _))

/-! ### The epoll back end -/

namespace Epoll

/-- **The flags say what the descriptor is registered for.** -/
structure Truthful (s : Epoll) : Prop where
  recv : s.conn.m_recv_active = true ↔ s.ReadRegistered
  send : s.conn.m_send_active = true ↔ s.WriteRegistered

/-- What holds on the runs whose `addConn` asks for both events: the flags are off and the descriptor
is not registered, or it is registered for reading. -/
def Held (s : Epoll) : Prop :=
  match s.ep s.conn.m_sd with
  | none => s.conn.m_recv_active = false ∧ s.conn.m_send_active = false
  | some events =>
      s.conn.m_recv_active = true ∧ events &&& EPOLLIN ≠ 0 ∧
        (s.conn.m_send_active = true ↔ events &&& EPOLLOUT ≠ 0)

variable {s : Epoll} {events : UInt32}

theorem registeredFor_none {bit : UInt32} (absent : s.ep s.conn.m_sd = none) :
    ¬ s.RegisteredFor bit := by
  rintro ⟨events, present, -⟩
  rw [absent] at present
  cases present

theorem registeredFor_some {bit : UInt32} (present : s.ep s.conn.m_sd = some events) :
    s.RegisteredFor bit ↔ events &&& bit ≠ 0 := by
  constructor
  · rintro ⟨events', present', asks⟩
    rw [present] at present'
    rw [Option.some.inj present']
    exact asks
  · exact fun asks => ⟨events, present, asks⟩

theorem held_none (absent : s.ep s.conn.m_sd = none) :
    s.Held ↔ s.conn.m_recv_active = false ∧ s.conn.m_send_active = false := by
  unfold Held
  rw [absent]

theorem held_some (present : s.ep s.conn.m_sd = some events) :
    s.Held ↔ s.conn.m_recv_active = true ∧ events &&& EPOLLIN ≠ 0 ∧
      (s.conn.m_send_active = true ↔ events &&& EPOLLOUT ≠ 0) := by
  unfold Held
  rw [present]

theorem Held.truthful (held : s.Held) : s.Truthful := by
  cases entry : s.ep s.conn.m_sd with
  | none =>
      obtain ⟨recv, send⟩ := (held_none entry).mp held
      rw [← Bool.not_eq_true] at recv send
      exact ⟨iff_of_false recv (registeredFor_none entry),
        iff_of_false send (registeredFor_none entry)⟩
  | some events =>
      obtain ⟨recv, asks, send⟩ := (held_some entry).mp held
      exact ⟨iff_of_true recv ((registeredFor_some entry).mpr asks),
        send.trans (registeredFor_some entry).symm⟩

/-- `add` succeeds on a descriptor that is not registered. -/
theorem ctl_add {flags : NcConnBase → NcConnBase} (succeeds : 0 ≤ (ctl .add events flags s).2) :
    s.ep s.conn.m_sd = none ∧
      (ctl .add events flags s).1 =
        ⟨flags s.conn, Function.update s.ep s.conn.m_sd (some events)⟩ := by
  cases entry : s.ep s.conn.m_sd with
  | none =>
      refine ⟨rfl, ?_⟩
      unfold ctl epoll_ctl
      rw [entry]
  | some old =>
      unfold ctl epoll_ctl at succeeds
      rw [entry] at succeeds
      exact absurd (show (0 : Int) ≤ -1 from succeeds) (by decide)

/-- `mod` and `del` succeed on one that is. -/
theorem ctl_mod {flags : NcConnBase → NcConnBase} (succeeds : 0 ≤ (ctl .mod events flags s).2) :
    s.ep s.conn.m_sd ≠ none ∧
      (ctl .mod events flags s).1 =
        ⟨flags s.conn, Function.update s.ep s.conn.m_sd (some events)⟩ := by
  cases entry : s.ep s.conn.m_sd with
  | none =>
      unfold ctl epoll_ctl at succeeds
      rw [entry] at succeeds
      exact absurd (show (0 : Int) ≤ -1 from succeeds) (by decide)
  | some old =>
      refine ⟨Option.some_ne_none old, ?_⟩
      unfold ctl epoll_ctl
      rw [entry]

theorem ctl_del {flags : NcConnBase → NcConnBase} (succeeds : 0 ≤ (ctl .del events flags s).2) :
    s.ep s.conn.m_sd ≠ none ∧
      (ctl .del events flags s).1 = ⟨flags s.conn, Function.update s.ep s.conn.m_sd none⟩ := by
  cases entry : s.ep s.conn.m_sd with
  | none =>
      unfold ctl epoll_ctl at succeeds
      rw [entry] at succeeds
      exact absurd (show (0 : Int) ≤ -1 from succeeds) (by decide)
  | some old =>
      refine ⟨Option.some_ne_none old, ?_⟩
      unfold ctl epoll_ctl
      rw [entry]

/-- Which bits `addConn` registers. -/
theorem connMask_bits (events : UInt32) :
    ((connMask events ||| EPOLLET) &&& EPOLLIN ≠ 0 ↔ events &&& EVENT_READ ≠ 0) ∧
      ((connMask events ||| EPOLLET) &&& EPOLLOUT ≠ 0 ↔ events &&& EVENT_WRITE ≠ 0) := by
  unfold connMask
  by_cases reads : events &&& EVENT_READ ≠ 0
  · by_cases writes : events &&& EVENT_WRITE ≠ 0
    · rw [if_pos reads, if_pos writes]
      exact ⟨iff_of_true (by decide) reads, iff_of_true (by decide) writes⟩
    · rw [if_pos reads, if_neg writes]
      exact ⟨iff_of_true (by decide) reads, iff_of_false (by decide) writes⟩
  · by_cases writes : events &&& EVENT_WRITE ≠ 0
    · rw [if_neg reads, if_pos writes]
      exact ⟨iff_of_false (by decide) reads, iff_of_true (by decide) writes⟩
    · rw [if_neg reads, if_neg writes]
      exact ⟨iff_of_false (by decide) reads, iff_of_false (by decide) writes⟩

/-- A connection just registered with a mask. -/
theorem entry_update (conn : NcConnBase) (ep : Interest) (entry : Option UInt32) :
    (Epoll.mk conn (Function.update ep conn.m_sd entry)).ep conn.m_sd = entry :=
  Function.update_self ..

/-- **`addConn` leaves the flags truthful exactly if it asks for both events.** -/
theorem addConn_truthful_iff (succeeds : 0 ≤ (addConn events s).2) :
    (addConn events s).1.Truthful ↔ BothEvents events := by
  obtain ⟨-, result⟩ := ctl_add succeeds
  obtain ⟨reads, writes⟩ := connMask_bits events
  have entry := entry_update { s.conn with m_send_active := true, m_recv_active := true } s.ep
    (some (connMask events ||| EPOLLET))
  have result : (addConn events s).1 = _ := result
  rw [result]
  constructor
  · rintro ⟨recv, send⟩
    exact ⟨reads.mp ((registeredFor_some entry).mp (recv.mp rfl)),
      writes.mp ((registeredFor_some entry).mp (send.mp rfl))⟩
  · rintro ⟨asksRead, asksWrite⟩
    exact ⟨iff_of_true rfl ((registeredFor_some entry).mpr (reads.mpr asksRead)),
      iff_of_true rfl ((registeredFor_some entry).mpr (writes.mpr asksWrite))⟩

/-! ### What the epoll calls do when they succeed -/

/-- A held descriptor that is registered is registered for reading. -/
theorem Held.recv_active (held : s.Held) (present : s.ep s.conn.m_sd ≠ none) :
    s.conn.m_recv_active = true := by
  obtain ⟨old, entry⟩ := Option.ne_none_iff_exists'.mp present
  exact ((held_some entry).mp held).1

/-- `addInput` does nothing to a registered descriptor, and fails for another. -/
theorem Held.addInput_spec (held : s.Held) (succeeds : 0 ≤ (addInput s).2) :
    s.conn.m_recv_active = true ∧ (addInput s).1 = s := by
  unfold addInput at succeeds ⊢
  by_cases active : s.conn.m_recv_active = true
  · rw [if_pos active]
    exact ⟨active, rfl⟩
  · rw [if_neg active] at succeeds
    exact absurd (held.recv_active (ctl_mod succeeds).1) active

theorem addOutput_spec (succeeds : 0 ≤ (addOutput s).2) :
    (s.conn.m_send_active = true ∧ (addOutput s).1 = s) ∨
      (s.conn.m_send_active = false ∧ s.ep s.conn.m_sd ≠ none ∧
        (addOutput s).1 = ⟨{ s.conn with m_send_active := true },
          Function.update s.ep s.conn.m_sd (some (EPOLLIN ||| EPOLLOUT ||| EPOLLET))⟩) := by
  unfold addOutput at succeeds ⊢
  cases active : s.conn.m_send_active with
  | true => exact Or.inl ⟨rfl, rfl⟩
  | false =>
      rw [active, if_neg Bool.false_ne_true] at succeeds
      rw [if_neg Bool.false_ne_true]
      exact Or.inr ⟨rfl, ctl_mod succeeds⟩

theorem delOutput_spec (succeeds : 0 ≤ (delOutput s).2) :
    (s.conn.m_send_active = false ∧ (delOutput s).1 = s) ∨
      (s.conn.m_send_active = true ∧ s.ep s.conn.m_sd ≠ none ∧
        (delOutput s).1 = ⟨{ s.conn with m_send_active := false },
          Function.update s.ep s.conn.m_sd (some (EPOLLIN ||| EPOLLET))⟩) := by
  unfold delOutput at succeeds ⊢
  cases active : s.conn.m_send_active with
  | false => exact Or.inl ⟨rfl, rfl⟩
  | true =>
      rw [active, if_neg (by decide)] at succeeds
      rw [if_neg (by decide)]
      exact Or.inr ⟨rfl, ctl_mod succeeds⟩

theorem delConn_spec (succeeds : 0 ≤ (delConn s).2) :
    s.ep s.conn.m_sd ≠ none ∧
      (delConn s).1 = ⟨{ s.conn with m_recv_active := false, m_send_active := false },
        Function.update s.ep s.conn.m_sd none⟩ := ctl_del succeeds

/-- **Every other call keeps the flags truthful, and so does an `addConn` for both events.** -/
theorem Held.run (held : s.Held) {call : EventCall} (succeeds : 0 ≤ (run call s).2)
    (both : ∀ events, call = .addConn events → BothEvents events) : (Epoll.run call s).1.Held := by
  cases call with
  | addInput =>
      show (addInput s).1.Held
      rw [(held.addInput_spec succeeds).2]
      exact held
  | delInput => exact held
  | addOutput =>
      show (addOutput s).1.Held
      rcases addOutput_spec succeeds with ⟨-, same⟩ | ⟨-, present, after⟩
      · rw [same]
        exact held
      · rw [after]
        refine (held_some (entry_update { s.conn with m_send_active := true } s.ep _)).mpr ?_
        exact ⟨held.recv_active present, by decide, iff_of_true rfl (by decide)⟩
  | delOutput =>
      show (delOutput s).1.Held
      rcases delOutput_spec succeeds with ⟨-, same⟩ | ⟨-, present, after⟩
      · rw [same]
        exact held
      · rw [after]
        refine (held_some (entry_update { s.conn with m_send_active := false } s.ep _)).mpr ?_
        exact ⟨held.recv_active present, by decide, iff_of_false Bool.false_ne_true (by decide)⟩
  | addConn events =>
      show (addConn events s).1.Held
      obtain ⟨-, result⟩ := ctl_add (show 0 ≤ (ctl .add _ _ s).2 from succeeds)
      obtain ⟨reads, writes⟩ := connMask_bits events
      obtain ⟨asksRead, asksWrite⟩ := both events rfl
      have result : (addConn events s).1 = _ := result
      rw [result]
      refine (held_some (entry_update
        { s.conn with m_send_active := true, m_recv_active := true } s.ep _)).mpr ?_
      exact ⟨rfl, reads.mpr asksRead, iff_of_true rfl (writes.mpr asksWrite)⟩
  | delConn =>
      show (delConn s).1.Held
      rw [(delConn_spec succeeds).2]
      exact (held_none (entry_update
        { s.conn with m_recv_active := false, m_send_active := false } s.ep none)).mpr ⟨rfl, rfl⟩

/-- `addOutput` leaves the descriptor registered for writing. -/
theorem Held.addOutput (held : s.Held) (succeeds : 0 ≤ (addOutput s).2) :
    (Epoll.addOutput s).1.WriteRegistered := by
  have held' : (Epoll.addOutput s).1.Held :=
    Held.run held (show 0 ≤ (Epoll.run .addOutput s).2 from succeeds) nofun
  refine held'.truthful.send.mp ?_
  rcases addOutput_spec succeeds with ⟨active, same⟩ | ⟨-, -, after⟩
  · rw [same]
    exact active
  · rw [after]

end Epoll

/-! ### The kqueue back end -/

namespace Kqueue

variable {c : Addr} {conn : NcConnBase} {kq : Kqueue}

/-- **The flags say which filters are registered.** -/
structure Truthful (conn : NcConnBase) (kq : Kqueue) : Prop where
  recv : kq.registered conn.m_sd EVFILT_READ = conn.m_recv_active
  send : kq.registered conn.m_sd EVFILT_WRITE = conn.m_send_active

theorem registered_push (ev : Kevent) (kq : Kqueue) :
    (kq.push ev).registered = ev.apply kq.registered := List.foldl_append

/-- A queued `EV_ADD` sets one filter. -/
theorem registered_add {e : Kevent} (kq : Kqueue) (adds : e.flags &&& EV_ADD ≠ 0) (filter : Int) :
    (kq.push e).registered e.ident filter =
      if filter = e.filter then true else kq.registered e.ident filter := by
  rw [registered_push, Kevent.apply, if_pos adds, Function.update_self, Function.update_apply]

/-- A queued `EV_DELETE` clears one. -/
theorem registered_delete {e : Kevent} (kq : Kqueue) (adds : ¬ e.flags &&& EV_ADD ≠ 0)
    (deletes : e.flags &&& EV_DELETE ≠ 0) (filter : Int) :
    (kq.push e).registered e.ident filter =
      if filter = e.filter then false else kq.registered e.ident filter := by
  rw [registered_push, Kevent.apply, if_neg adds, if_pos deletes, Function.update_self,
    Function.update_apply]

theorem add_adds : (EV_ADD ||| EV_CLEAR) &&& EV_ADD ≠ 0 := by decide

theorem delete_deletes : ¬ EV_DELETE &&& EV_ADD ≠ 0 ∧ EV_DELETE &&& EV_DELETE ≠ 0 := by decide

theorem Truthful.addInput (truthful : Truthful conn kq) :
    Truthful (addInput c conn kq).1 (addInput c conn kq).2 := by
  unfold Kqueue.addInput
  by_cases active : conn.m_recv_active = true
  · rw [if_pos active]
    exact truthful
  · rw [if_neg active]
    have set := registered_add (e := EV_SET conn.m_sd EVFILT_READ _ c) kq add_adds
    exact ⟨set EVFILT_READ, (set EVFILT_WRITE).trans truthful.send⟩

theorem Truthful.delInput (truthful : Truthful conn kq) :
    Truthful (delInput c conn kq).1 (delInput c conn kq).2 := by
  unfold Kqueue.delInput
  by_cases idle : (!conn.m_recv_active) = true
  · rw [if_pos idle]
    exact truthful
  · rw [if_neg idle]
    have set := registered_delete (e := EV_SET conn.m_sd EVFILT_READ _ c) kq delete_deletes.1
      delete_deletes.2
    exact ⟨set EVFILT_READ, (set EVFILT_WRITE).trans truthful.send⟩

theorem Truthful.addOutput (truthful : Truthful conn kq) :
    Truthful (addOutput c conn kq).1 (addOutput c conn kq).2 := by
  unfold Kqueue.addOutput
  by_cases active : conn.m_send_active = true
  · rw [if_pos active]
    exact truthful
  · rw [if_neg active]
    have set := registered_add (e := EV_SET conn.m_sd EVFILT_WRITE _ c) kq add_adds
    exact ⟨(set EVFILT_READ).trans truthful.recv, set EVFILT_WRITE⟩

theorem Truthful.delOutput (truthful : Truthful conn kq) :
    Truthful (delOutput c conn kq).1 (delOutput c conn kq).2 := by
  unfold Kqueue.delOutput
  by_cases idle : (!conn.m_send_active) = true
  · rw [if_pos idle]
    exact truthful
  · rw [if_neg idle]
    have set := registered_delete (e := EV_SET conn.m_sd EVFILT_WRITE _ c) kq delete_deletes.1
      delete_deletes.2
    exact ⟨(set EVFILT_READ).trans truthful.recv, set EVFILT_WRITE⟩

/-- **Every call keeps the flags truthful.** -/
theorem Truthful.run (truthful : Truthful conn kq) (call : EventCall) :
    Truthful (run c call conn kq).1 (run c call conn kq).2 := by
  cases call with
  | addInput => exact truthful.addInput
  | delInput => exact truthful.delInput
  | addOutput => exact truthful.addOutput
  | delOutput => exact truthful.delOutput
  | addConn events =>
      show Truthful (addConn c events conn kq).1 (addConn c events conn kq).2
      unfold addConn
      by_cases reads : events &&& EVENT_READ ≠ 0
      · by_cases writes : events &&& EVENT_WRITE ≠ 0
        · simp only [if_pos reads, if_pos writes]
          exact truthful.addInput.addOutput
        · simp only [if_pos reads, if_neg writes]
          exact truthful.addInput
      · by_cases writes : events &&& EVENT_WRITE ≠ 0
        · simp only [if_neg reads, if_pos writes]
          exact truthful.addOutput
        · simp only [if_neg reads, if_neg writes]
          exact truthful
  | delConn =>
      obtain ⟨recv, send⟩ := (truthful.delOutput (c := c)).delInput (c := c)
      exact ⟨recv, send⟩

end Kqueue

/-! ### The two back ends side by side -/

/-- **The same call leaves the same flags**, if the epoll call succeeds, `addConn` asks for both
events, and `delInput` has nothing to do. -/
theorem flags_run {s : Epoll} (held : s.Held) {call : EventCall} (c : Addr) (kq : Kqueue)
    (succeeds : 0 ≤ (Epoll.run call s).2) (both : ∀ events, call = .addConn events → BothEvents events)
    (idle : call = .delInput → s.conn.m_recv_active = false) :
    (Epoll.run call s).1.conn = (Kqueue.run c call s.conn kq).1 := by
  cases call with
  | addInput =>
      obtain ⟨active, same⟩ := held.addInput_spec succeeds
      show (Epoll.addInput s).1.conn = (Kqueue.addInput c s.conn kq).1
      unfold Kqueue.addInput
      rw [same, if_pos active]
  | delInput =>
      show s.conn = (Kqueue.delInput c s.conn kq).1
      unfold Kqueue.delInput
      rw [if_pos (by rw [idle rfl]; rfl)]
  | addOutput =>
      show (Epoll.addOutput s).1.conn = (Kqueue.addOutput c s.conn kq).1
      unfold Kqueue.addOutput
      rcases Epoll.addOutput_spec succeeds with ⟨active, same⟩ | ⟨inactive, -, after⟩
      · rw [same, if_pos active]
      · rw [after, if_neg (Bool.eq_false_iff.mp inactive)]
  | delOutput =>
      show (Epoll.delOutput s).1.conn = (Kqueue.delOutput c s.conn kq).1
      unfold Kqueue.delOutput
      rcases Epoll.delOutput_spec succeeds with ⟨inactive, same⟩ | ⟨active, -, after⟩
      · rw [same, if_pos (by rw [inactive]; rfl)]
      · rw [after, if_neg (by rw [active]; decide)]
  | addConn events =>
      obtain ⟨reads, writes⟩ := both events rfl
      obtain ⟨absent, result⟩ := Epoll.ctl_add (show 0 ≤ (Epoll.ctl .add _ _ s).2 from succeeds)
      obtain ⟨recv, send⟩ := (Epoll.held_none absent).mp held
      show (Epoll.ctl .add _ _ s).1.conn = (Kqueue.addConn c events s.conn kq).1
      unfold Kqueue.addConn Kqueue.addInput Kqueue.addOutput
      rw [result]
      simp only [if_pos reads, if_pos writes, recv, send, Bool.false_eq_true, if_false]
  | delConn =>
      obtain ⟨present, after⟩ := Epoll.delConn_spec succeeds
      have recv := held.recv_active present
      show (Epoll.delConn s).1.conn = (Kqueue.delConn c s.conn kq).1
      unfold Kqueue.delConn Kqueue.delOutput Kqueue.delInput
      rw [after]
      cases send : s.conn.m_send_active with
      | true => simp only [recv, Bool.not_true, Bool.false_eq_true, if_false]
      | false =>
          simp only [recv, Bool.not_false, Bool.not_true, Bool.false_eq_true, if_true, if_false]
          rw [← send]

/-! ### Runs -/

/-- What happens to a connection: a call, or the next `kevent`, which takes the changes over. -/
inductive EventStep
  | call (call : EventCall)
  | wait (batch : List Kevent)

/-- A connection that is registered nowhere. -/
def unregistered (sd : Int) : NcConnBase := ⟨sd, false, false⟩

/-- **The runs of a connection in the epoll back end** whose calls succeed. -/
def epollSystem (sd : Int) : System Epoll EventStep where
  init s := s.conn = unregistered sd ∧ s.ep sd = none
  step s a s' :=
    match a with
    | .call call => 0 ≤ (Epoll.run call s).2 ∧ s' = (Epoll.run call s).1
    | .wait _ => s' = s

/-- **The runs of the connection `c` in the kqueue back end.** -/
def kqueueSystem (c : Addr) (sd : Int) : System (NcConnBase × Kqueue) EventStep where
  init s := s.1 = unregistered sd ∧ ∀ filter, s.2.registered sd filter = false
  step s a s' :=
    match a with
    | .call call => s' = Kqueue.run c call s.1 s.2
    | .wait batch => s' = (s.1, s.2.kevent batch)

/-- Every `addConn` asks for both events. -/
def AsksBoth (a : EventStep) : Prop := ∀ events, a = .call (.addConn events) → BothEvents events

/-- And `delInput` is not called for a connection that is registered for reading. -/
def SameEffect (s : Epoll) (a : EventStep) : Prop :=
  AsksBoth a ∧ (a = .call .delInput → s.conn.m_recv_active = false)

/-- **The two back ends give the same registration.** -/
def SameRegistration (s : Epoll) (conn : NcConnBase) (kq : Kqueue) : Prop :=
  (s.ReadRegistered ↔ kq.registered conn.m_sd EVFILT_READ = true) ∧
    (s.WriteRegistered ↔ kq.registered conn.m_sd EVFILT_WRITE = true)

theorem held_init {sd : Int} {s : Epoll} (initial : (epollSystem sd).init s) : s.Held := by
  obtain ⟨conn, absent⟩ := initial
  have entry : s.ep s.conn.m_sd = none := by
    rw [conn]
    exact absent
  refine (Epoll.held_none entry).mpr ?_
  rw [conn]
  exact ⟨rfl, rfl⟩

theorem held_step {sd : Int} {s s' : Epoll} {a : EventStep} (held : s.Held) (both : AsksBoth a)
    (step : (epollSystem sd).step s a s') : s'.Held := by
  cases a with
  | call call =>
      obtain ⟨succeeds, rfl⟩ := step
      exact held.run succeeds fun events isAdd => both events (congrArg EventStep.call isAdd)
  | wait batch =>
      rw [show s' = s from step]
      exact held

theorem held_of_reach {sd : Int} {s : Epoll}
    (reached : ((epollSystem sd).guarded fun _ a => AsksBoth a).Reach s) : s.Held := by
  refine reached.invariant (I := Epoll.Held) (fun s initial => ?_) fun s a s' _ held step => ?_
  · exact held_init initial
  · exact held_step held step.1 step.2

theorem truthful_init {c : Addr} {sd : Int} {s : NcConnBase × Kqueue}
    (initial : (kqueueSystem c sd).init s) : Kqueue.Truthful s.1 s.2 := by
  obtain ⟨conn, none⟩ := initial
  refine ⟨?_, ?_⟩
  · rw [conn]
    exact none EVFILT_READ
  · rw [conn]
    exact none EVFILT_WRITE

theorem truthful_step {c : Addr} {sd : Int} {s s' : NcConnBase × Kqueue} {a : EventStep}
    (truthful : Kqueue.Truthful s.1 s.2) (step : (kqueueSystem c sd).step s a s') :
    Kqueue.Truthful s'.1 s'.2 := by
  cases a with
  | call call =>
      rw [show s' = _ from step]
      exact truthful.run call
  | wait batch =>
      rw [show s' = _ from step]
      exact ⟨truthful.recv, truthful.send⟩

theorem truthful_of_reach {c : Addr} {sd : Int} {s : NcConnBase × Kqueue}
    (reached : (kqueueSystem c sd).Reach s) : Kqueue.Truthful s.1 s.2 :=
  reached.invariant (I := fun s => Kqueue.Truthful s.1 s.2) (fun _ initial => truthful_init initial)
    fun _ _ _ _ truthful step => truthful_step truthful step

/-- Both on one run. -/
theorem same_of_reach {c : Addr} {sd : Int} {s : Epoll × NcConnBase × Kqueue}
    (reached : (((epollSystem sd).product (kqueueSystem c sd)).guarded
      fun s a => SameEffect s.1 a).Reach s) :
    s.1.Held ∧ s.1.conn = s.2.1 ∧ Kqueue.Truthful s.2.1 s.2.2 := by
  let I : Epoll × NcConnBase × Kqueue → Prop := fun s =>
    s.1.Held ∧ s.1.conn = s.2.1 ∧ Kqueue.Truthful s.2.1 s.2.2
  refine reached.invariant (I := I) (fun s initial => ?_) fun s a s' _ holds step => ?_
  · exact ⟨held_init initial.1, initial.1.1.trans initial.2.1.symm, truthful_init initial.2⟩
  · obtain ⟨held, flags, truthful⟩ := holds
    obtain ⟨⟨both, idle⟩, epoll, kqueue⟩ := step
    refine ⟨held_step held both epoll, ?_, truthful_step truthful kqueue⟩
    cases a with
    | call call =>
        obtain ⟨succeeds, result⟩ := epoll
        rw [result, show s'.2 = _ from kqueue, ← flags]
        exact flags_run held c s.2.2 succeeds
          (fun events isAdd => both events (congrArg EventStep.call isAdd))
          fun isDel => idle (congrArg EventStep.call isDel)
    | wait batch =>
        rw [show s'.1 = s.1 from epoll, show s'.2 = _ from kqueue]
        exact flags

/-- **Interest flags.** The kqueue flags are truthful on all runs, and after `addOutput` the
connection is registered for writing. So it is in the epoll back end on the runs whose `addConn` asks
for both events, and an `addConn` leaves the flags truthful in no other case. The registrations are
the same on the runs that also never `delInput` a connection registered for reading. -/
theorem interest_of_runs (c : Addr) (sd : Int) :
    (∀ s, (kqueueSystem c sd).Reach s → Kqueue.Truthful s.1 s.2 ∧
      (Kqueue.addOutput c s.1 s.2).2.registered (Kqueue.addOutput c s.1 s.2).1.m_sd EVFILT_WRITE =
        true) ∧
    (∀ s, ((epollSystem sd).guarded fun _ a => AsksBoth a).Reach s → s.Truthful ∧
      (0 ≤ (Epoll.addOutput s).2 → (Epoll.addOutput s).1.WriteRegistered)) ∧
    (∀ events s, (epollSystem sd).Reach s → 0 ≤ (Epoll.addConn events s).2 →
      ((Epoll.addConn events s).1.Truthful ↔ BothEvents events)) ∧
    ∀ s, (((epollSystem sd).product (kqueueSystem c sd)).guarded
      fun s a => SameEffect s.1 a).Reach s → SameRegistration s.1 s.2.1 s.2.2 := by
  refine ⟨fun s reached => ?_, fun s reached => ?_, fun events s _ succeeds =>
    Epoll.addConn_truthful_iff succeeds, fun s reached => ?_⟩
  · have truthful := truthful_of_reach reached
    refine ⟨truthful, truthful.addOutput.send.trans ?_⟩
    unfold Kqueue.addOutput
    by_cases active : s.1.m_send_active = true
    · rw [if_pos active]
      exact active
    · rw [if_neg active]
  · have held := held_of_reach reached
    exact ⟨held.truthful, held.addOutput⟩
  · obtain ⟨held, flags, truthful⟩ := same_of_reach reached
    obtain ⟨recv, send⟩ := held.truthful
    refine ⟨?_, ?_⟩
    · rw [← recv, truthful.recv, flags]
    · rw [← send, truthful.send, flags]

/-! ### The `addConn` of `accept` -/

/-- A connection just accepted, with nothing in the interest list. -/
def accepted : Epoll := ⟨unregistered 7, fun _ => none⟩

theorem reach_accepted : (epollSystem 7).Reach accepted := .start ⟨rfl, rfl⟩

/-- Its `addConn` asks for reading only, and leaves the flags untrue. -/
theorem interest_of_accepted : ¬ (Epoll.addConn EVENT_READ accepted).1.Truthful := by
  have exact_ := (interest_of_runs 0 7).2.2.1 EVENT_READ accepted reach_accepted (by decide)
  rw [exact_]
  decide

/-- **The response to its first request is never sent**: `addOutput` says success, and the
connection is not registered for writing. -/
theorem addOutput_ignored :
    (epollSystem 7).Reach (Epoll.addConn EVENT_READ accepted).1 ∧
      (Epoll.addOutput (Epoll.addConn EVENT_READ accepted).1).2 = 0 ∧
      ¬ (Epoll.addOutput (Epoll.addConn EVENT_READ accepted).1).1.WriteRegistered := by
  have entry : (Epoll.addOutput (Epoll.addConn EVENT_READ accepted).1).1.ep 7 =
      some (EPOLLIN ||| EPOLLET) := by decide
  refine ⟨reach_accepted.next (a := .call (.addConn EVENT_READ)) ⟨by decide, rfl⟩, by decide, ?_⟩
  rintro ⟨events, present, writes⟩
  have isMask : events = EPOLLIN ||| EPOLLET := Option.some.inj (present.symm.trans entry)
  rw [isMask] at writes
  exact absurd writes (by decide)

end Nutcracker
