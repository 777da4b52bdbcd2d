/-
**No client is written to in the epoll back end.**

`accept` registers a client with `EVENT_READ`, and the `addConn` of epoll sets `m_send_active` all the
same. `addOutput` does nothing for a connection with `m_send_active`, so the descriptor of a client is
never registered for `EPOLLOUT`. `delOutput` would unset the flag; it is called from `sendNext`, which
is called for `EPOLLOUT` only.

`Armed` puts the runs of the event base together with the flags and the mask of each client. The kernel
reports what the mask asks for, and errors and hang-ups.

* `flags_write` — an event whose mask lacks `EPOLLOUT` is not passed on as `EVENT_WRITE`.
* `Reading.run` — a watched client has `m_send_active` set and is registered for `EPOLLIN` only.
* `never_writes` — **`sendMsg` is called for no client, in any run**: whatever responses wait for it.
-/

import Nutcracker.Event.Interest
import Nutcracker.Proxy.Dispatch

namespace Nutcracker

open Lib

namespace Proxy

/-- The calls on the event base for client connections that a stage may make. -/
def Calls : ProxyEvent → Addr → EventCall → Prop
  | .clientRecv c .., d, call => d = c ∧ call = .addOutput
  | .clientSend c .., d, call => d = c ∧ call = .delOutput
  | .serverRecv .., _, call => call = .addOutput
  | _, _, _ => False

/-- **The event base, with the flags and the mask of each client.** -/
structure Armed where
  loop : Dispatch
  reg : Addr → Epoll

namespace Armed

/-- A call for a client. -/
def call (reg : Addr → Epoll) (c : Addr × EventCall) : Addr → Epoll :=
  Function.update reg c.1 (Epoll.run c.2 (reg c.1)).1

/-- The `addConn` of `accept`. -/
def enroll (reg : Addr → Epoll) : Int × Target → Addr → Epoll
  | (sd, .client c) =>
      Function.update reg c (Epoll.addConn EVENT_READ ⟨unregistered sd, fun _ => none⟩).1
  | _ => reg

/-- The `delConn` of `processClose`. -/
def leave (reg : Addr → Epoll) : Target → Addr → Epoll
  | .client c => Function.update reg c (Epoll.delConn (reg c)).1
  | _ => reg

end Armed

/-- An event that the kernel may report for the mask. -/
def Reports (mask : UInt32) (ev : EpollEvent) : Prop :=
  ev.events &&& ~~~(mask ||| EPOLLERR ||| EPOLLHUP) = 0

/-- **The runs of the event base with the masks of the clients.** -/
def armedRuns (rlim_cur : UInt64) : System Armed DispatchEvent where
  init w := (dispatchRuns rlim_cur).init w.loop
  step w event w' :=
    (dispatchRuns rlim_cur).step w.loop event w'.loop ∧
      match event with
      | .wait batch => w'.reg = w.reg ∧ ∀ ev ∈ batch, ∀ c, ev.target = .client c →
          ∃ mask, (w.reg c).ep ev.sd = some mask ∧ Reports mask ev
      | .act event => ∃ calls : List (Addr × EventCall), (∀ call ∈ calls, Calls event call.1 call.2) ∧
          w'.reg = calls.foldl Armed.call
            ((registered w.loop.proxy event).foldl Armed.enroll w.reg)
      | .close => ∃ target left, w.loop.current = some (target, left) ∧
          w'.reg = Armed.leave w.reg target
      | _ => w'.reg = w.reg

/-! ### The bits of an event -/

/-- The mask of a client. -/
def readMask : UInt32 := EPOLLIN ||| EPOLLET

/-- **For this mask** there is no `EVENT_WRITE`. -/
theorem flags_write {ev : EpollEvent} (reports : Reports readMask ev) :
    ev.flags &&& EVENT_WRITE = 0 := by
  have other : ~~~(readMask ||| EPOLLERR ||| EPOLLHUP) &&& EPOLLOUT = EPOLLOUT := by decide
  have out : ev.events &&& EPOLLOUT = 0 := by
    calc ev.events &&& EPOLLOUT
        = (ev.events &&& ~~~(readMask ||| EPOLLERR ||| EPOLLHUP)) &&& EPOLLOUT := by
          rw [UInt32.and_assoc, other]
      _ = 0 := by rw [show _ = (0 : UInt32) from reports, UInt32.zero_and]
  have quiet : ¬ ev.events &&& EPOLLOUT ≠ 0 := not_not.mpr out
  unfold EpollEvent.flags
  rw [if_neg quiet]
  split
  · split <;> decide
  · split <;> decide

/-- Without `EVENT_WRITE` there is no `processSend`. -/
theorem stages_quiet {events : UInt32} (quiet : events &&& EVENT_WRITE = 0) :
    .processSend ∉ stages events := by
  have quiet : ¬ events &&& EVENT_WRITE ≠ 0 := not_not.mpr quiet
  unfold stages
  rw [if_neg quiet]
  split
  · decide
  · split <;> decide

namespace Armed

/-! ### What the calls change -/

/-- A client that is registered for reading, with the flags as the code has them. -/
def ReadOnly (s : Epoll) (sd : Int) : Prop := s.conn = ⟨sd, true, true⟩ ∧ s.ep sd = some readMask

theorem readOnly_enroll (sd : Int) :
    ReadOnly (Epoll.addConn EVENT_READ ⟨unregistered sd, fun _ => none⟩).1 sd := by
  refine ⟨rfl, ?_⟩
  show Function.update (fun _ => none) sd _ sd = _
  rw [Function.update_self]
  rfl

/-- `addOutput` changes nothing. -/
theorem ReadOnly.addOutput {s : Epoll} {sd : Int} (readOnly : ReadOnly s sd) :
    (Epoll.run .addOutput s).1 = s := by
  show (Epoll.addOutput s).1 = s
  unfold Epoll.addOutput
  rw [readOnly.1]
  rfl

/-- **Calls of `addOutput`** change nothing. -/
theorem ReadOnly.calls {reg : Addr → Epoll} {c : Addr} {sd : Int}
    {calls : List (Addr × EventCall)} (readOnly : ReadOnly (reg c) sd)
    (adds : ∀ call ∈ calls, call.2 = .addOutput) :
    ReadOnly (calls.foldl Armed.call reg c) sd := by
  induction calls generalizing reg with
  | nil => exact readOnly
  | cons first rest ih =>
      rw [List.foldl_cons]
      refine ih ?_ fun call member => adds call (List.mem_cons_of_mem _ member)
      unfold Armed.call
      by_cases same : c = first.1
      · rw [← same, Function.update_self, adds first List.mem_cons_self, readOnly.addOutput]
        exact readOnly
      · rw [Function.update_of_ne same]
        exact readOnly

/-- **What the runs keep**: a watched client is registered for reading, and nothing is about to write to
a client. -/
structure Reading (rlim_cur : UInt64) (w : Armed) : Prop where
  reached : (dispatchRuns rlim_cur).Reach w.loop
  reg : ∀ sd c, (sd, .client c) ∈ w.loop.watched → ReadOnly (w.reg c) sd
  batch : ∀ ev ∈ w.loop.batch, ∀ c, ev.target = .client c → .processSend ∉ stages ev.flags
  current : ∀ c left, w.loop.current = some (.client c, left) → .processSend ∉ left

namespace Reading

variable {rlim_cur : UInt64} {w w' : Armed}

/-- A stage makes no call but `addOutput`. -/
theorem adds (reading : Reading rlim_cur w) {target : Target} {stage : Stage} {rest : List Stage}
    {event : ProxyEvent} {c : Addr} {call : EventCall}
    (current : w.loop.current = some (target, stage :: rest)) (does : target.Does stage event)
    (calls : Calls event c call) : call = .addOutput := by
  cases event with
  | clientRecv => exact calls.2
  | serverRecv => exact calls
  | clientSend d =>
      cases target with
      | client e =>
          cases stage with
          | processSend => exact absurd List.mem_cons_self (reading.current e _ current)
          | _ => exact does.elim
      | _ => cases stage <;> exact does.elim
  | _ => exact calls.elim

/-- **A stage** registers a new client for reading, and leaves the others as they are. -/
theorem act (reading : Reading rlim_cur w) {event : ProxyEvent}
    (step : (armedRuns rlim_cur).step w (.act event) w') : Reading rlim_cur w' := by
  obtain ⟨step, calls, made, reg⟩ := step
  have reached := reading.reached.next step
  obtain ⟨target, stage, rest, p, current, does, -, -, loop⟩ := step
  have sound := Dispatch.Sound.run reading.reached
  refine ⟨reached, fun sd c member => ?_, ?_, ?_⟩
  · rw [reg]
    refine ReadOnly.calls ?_ fun call member => reading.adds current does (made call member)
    rw [loop] at member
    rcases registered_cases w.loop.proxy event with none | ⟨sd', one⟩
    · rw [none, List.append_nil] at member
      rw [none]
      exact reading.reg sd c member
    · rw [one] at member ⊢
      show ReadOnly (Function.update w.reg _ _ c) sd
      rcases List.mem_append.mp member with before | new
      · have isOpen := ((sound.clients sd c).mp before).1
        have other : c ≠ w.loop.proxy.nextClient := fun same =>
          nextClient_fresh (Counted.run sound.reached) (same ▸ isOpen)
        rw [Function.update_of_ne other]
        exact reading.reg sd c before
      · obtain ⟨rfl, same⟩ := Prod.mk.inj (List.mem_singleton.mp new)
        obtain rfl := Target.client.inj same
        rw [Function.update_self]
        exact readOnly_enroll sd
  · rw [loop]
    exact reading.batch
  · rw [loop]
    exact reading.current

/-- **A close** changes the registration of the connection that leaves the interest list. -/
theorem close (reading : Reading rlim_cur w) (step : (armedRuns rlim_cur).step w .close w') :
    Reading rlim_cur w' := by
  obtain ⟨step, target', left, current', reg⟩ := step
  have reached := reading.reached.next step
  obtain ⟨target, stage, rest, p, current, -, loop⟩ := step
  obtain rfl : target' = target := congrArg Prod.fst (Option.some.inj (current'.symm.trans current))
  refine ⟨reached, fun sd c member => ?_, ?_, ?_⟩
  · rw [loop] at member
    obtain ⟨watched, other⟩ := List.mem_filter.mp member
    have other : Target.client c ≠ target' := of_decide_eq_true other
    have kept : w'.reg c = w.reg c := by
      rw [reg]
      cases target' with
      | client d =>
          exact Function.update_of_ne (fun same => other (congrArg Target.client same)) _ _
      | _ => rfl
    rw [kept]
    exact reading.reg sd c watched
  · rw [loop]
    exact reading.batch
  · rw [loop]
    exact nofun

/-- **All runs.** -/
theorem run (reached : (armedRuns rlim_cur).Reach w) : Reading rlim_cur w := by
  refine reached.invariant (I := Reading rlim_cur) (fun w start => ?_)
    fun w event w' _ reading step => ?_
  · obtain ⟨-, -, -, none, batch, idle⟩ := id start
    refine ⟨.start start, fun sd c member => absurd member (none sd c), ?_, ?_⟩
    · rw [batch]
      exact nofun
    · rw [idle]
      exact nofun
  · cases event with
    | wait batch =>
        obtain ⟨step, reg, reports⟩ := step
        have reached := reading.reached.next step
        obtain ⟨idle, -, inside, -, loop⟩ := step
        refine ⟨reached, ?_, fun ev member c isClient => ?_, ?_⟩
        · rw [loop, reg]
          exact reading.reg
        · rw [loop] at member
          obtain ⟨mask, entry, reports⟩ := reports ev member c isClient
          have watched := inside ev member
          rw [isClient] at watched
          rw [(reading.reg ev.sd c watched).2] at entry
          obtain rfl := Option.some.inj entry
          exact stages_quiet (flags_write reports)
        · rw [loop]
          exact fun c left current => reading.current c left current
    | call =>
        obtain ⟨step, reg⟩ := step
        have reached := reading.reached.next step
        obtain ⟨-, ev, rest, next, loop⟩ := step
        refine ⟨reached, ?_, fun other member => ?_, fun c left current => ?_⟩
        · rw [loop, show w'.reg = w.reg from reg]
          exact reading.reg
        · rw [loop] at member
          exact reading.batch other (next ▸ List.mem_cons_of_mem _ member)
        · rw [loop] at current
          obtain ⟨isClient, rfl⟩ := Prod.mk.inj (Option.some.inj current)
          exact reading.batch ev (next ▸ List.mem_cons_self) c isClient
    | act event => exact reading.act step
    | pass =>
        obtain ⟨step, reg⟩ := step
        have reached := reading.reached.next step
        obtain ⟨target, stage, rest, current, -, -, loop⟩ := step
        refine ⟨reached, ?_, ?_, fun c left same => ?_⟩
        · rw [loop, show w'.reg = w.reg from reg]
          exact reading.reg
        · rw [loop]
          exact reading.batch
        · rw [loop] at same
          obtain ⟨rfl, rfl⟩ := Prod.mk.inj (Option.some.inj same)
          exact fun inside => reading.current c _ current (List.mem_cons_of_mem _ inside)
    | close => exact reading.close step
    | done =>
        obtain ⟨step, reg⟩ := step
        have reached := reading.reached.next step
        obtain ⟨target, -, loop⟩ := step
        refine ⟨reached, ?_, ?_, ?_⟩
        · rw [loop, show w'.reg = w.reg from reg]
          exact reading.reg
        · rw [loop]
          exact reading.batch
        · rw [loop]
          exact nofun

end Reading

end Armed

/-- **No client is ever written to** in the epoll back end: on all runs, whatever responses are ready,
no callback of a client gets to `processSend`, and so no turn of `sendMsg` of a client takes place. -/
theorem never_writes (rlim_cur : UInt64) (w : Armed) (reached : (armedRuns rlim_cur).Reach w) :
    (∀ c left, w.loop.current = some (.client c, left) → .processSend ∉ left) ∧
      ∀ c delOutput answer w',
        ¬ (armedRuns rlim_cur).step w (.act (.clientSend c delOutput answer)) w' := by
  have reading := Armed.Reading.run reached
  refine ⟨reading.current, fun c delOutput answer w' step => ?_⟩
  obtain ⟨⟨target, stage, rest, p, current, does, -⟩, -⟩ := step
  cases target with
  | client d =>
      cases stage with
      | processSend => exact reading.current d _ current List.mem_cons_self
      | _ => exact does.elim
  | _ => cases stage <;> exact does.elim

/-! ### A client that has sent something -/

/-- No client has been registered. -/
def noClient : Addr → Epoll := fun _ => ⟨unregistered 0, fun _ => none⟩

/-- The first client, as `accept` registers it. -/
def oneClient : Addr → Epoll := Armed.enroll noClient (5, .client 0)

/-- The callback of the client. -/
def calledLoop : Armed :=
  ⟨{ reportedLoop with batch := [], current := some (.client 0, [.processRecv]) }, oneClient⟩

theorem reach_calledLoop : (armedRuns 1024).Reach calledLoop := by
  have idle : (armedRuns 1024).Reach ⟨idleLoop, noClient⟩ := by
    refine .start ⟨start_atStart 1024, by decide, by decide, fun sd c member => ?_, rfl, rfl⟩
    rcases List.mem_cons.mp member with same | rest
    · cases same
    · cases List.mem_singleton.mp rest
  have waited : (armedRuns 1024).Reach
      ⟨{ idleLoop with batch := [⟨3, .listener, EPOLLIN⟩] }, noClient⟩ := by
    refine idle.next (a := .wait [⟨3, .listener, EPOLLIN⟩])
      ⟨⟨rfl, rfl, fun ev member => ?_, List.nodup_singleton _, rfl⟩, rfl, fun ev member c isClient => ?_⟩
    · rw [List.mem_singleton.mp member]
      exact List.mem_cons_self
    · rw [List.mem_singleton.mp member] at isClient
      cases isClient
  have called : (armedRuns 1024).Reach ⟨acceptingLoop, noClient⟩ :=
    waited.next (a := .call) ⟨⟨rfl, _, _, rfl, rfl⟩, rfl⟩
  have accepted : (armedRuns 1024).Reach ⟨acceptedLoop, oneClient⟩ := by
    refine called.next (a := .act (.accept (.descriptor 5 true true)))
      ⟨⟨_, _, _, _, rfl, trivial, ⟨⟨by decide, by decide, fun c isOpen => ?_⟩, rfl⟩, ?_, rfl⟩,
        [], nofun, rfl⟩
    · cases isOpen
    · decide
  have passed : (armedRuns 1024).Reach
      ⟨{ acceptedLoop with current := some (.listener, []) }, oneClient⟩ :=
    accepted.next (a := .pass) ⟨⟨_, _, _, rfl, nofun, id, rfl⟩, rfl⟩
  have returned : (armedRuns 1024).Reach ⟨{ acceptedLoop with current := none }, oneClient⟩ :=
    passed.next (a := .done) ⟨⟨_, rfl, rfl⟩, rfl⟩
  have reported : (armedRuns 1024).Reach ⟨reportedLoop, oneClient⟩ := by
    refine returned.next (a := .wait [⟨5, .client 0, EPOLLIN⟩])
      ⟨⟨rfl, rfl, fun ev member => ?_, List.nodup_singleton _, rfl⟩, rfl, fun ev member c isClient => ?_⟩
    · rw [List.mem_singleton.mp member]
      decide
    · rw [List.mem_singleton.mp member] at isClient ⊢
      obtain rfl := Target.client.inj isClient
      exact ⟨readMask, (Armed.readOnly_enroll 5).2, by unfold Reports; decide⟩
  exact reported.next (a := .call) ⟨⟨rfl, _, _, rfl, rfl⟩, rfl⟩

theorem calledLoop_never_writes : calledLoop.loop.current = some (.client 0, [.processRecv]) ∧
    Stage.processSend ∉ [Stage.processRecv] :=
  ⟨rfl, (never_writes 1024 calledLoop reach_calledLoop).1 0 _ rfl⟩

end Proxy

end Nutcracker
