/-
**The two back ends of `NcEventBase`, as data.**

A connection has a flag for each of the two events it can be registered for, and a call returns
early if the flag already says what it wants. The epoll back end sets one mask for the descriptor,
which each call overwrites; the kqueue back end queues a change of one of two filters, and the next
`kevent` applies the queue.

* `Epoll.run` — a call of the epoll back end, on the interest list of the kernel.
* `Kqueue.run` — a call of the kqueue back end, on the change list and the batch being processed.
* `Kqueue.registered` — the filters of the kernel with the queued changes applied in order.
-/

import Nutcracker.RbTree.Model

namespace Nutcracker

def EINVAL : Int := 22

def EVENT_READ : UInt32 := 0x000001

def EVENT_WRITE : UInt32 := 0x000010

def EVENT_ERR : UInt32 := 0x000100

/-- `NcConnBase`, as far as the event loop reads and writes it. -/
structure NcConnBase where
  m_sd : Int
  m_recv_active : Bool
  m_send_active : Bool
  deriving DecidableEq

/-- A call of `NcEventBase` for a connection. -/
inductive EventCall
  | addInput
  | delInput
  | addOutput
  | delOutput
  | addConn (events : UInt32)
  | delConn
  deriving DecidableEq

/-! ### epoll -/

def EPOLLIN : UInt32 := 0x001

def EPOLLOUT : UInt32 := 0x004

def EPOLLET : UInt32 := 0x80000000

/-- The interest list of the kernel: the event mask of each descriptor in it. -/
abbrev Interest := Int → Option UInt32

inductive EpollCtl
  | add
  | mod
  | del

/-- `epoll_ctl`: a descriptor is added once, and changed or deleted while it is there. -/
def epoll_ctl (op : EpollCtl) (sd : Int) (events : UInt32) (ep : Interest) : Option Interest :=
  match op, ep sd with
  | .add, none => some (Function.update ep sd (some events))
  | .mod, some _ => some (Function.update ep sd (some events))
  | .del, some _ => some (Function.update ep sd none)
  | _, _ => none

/-- A connection and the interest list. -/
structure Epoll where
  conn : NcConnBase
  ep : Interest

namespace Epoll

/-- Call `epoll_ctl`, and set the flags if it succeeds. The second component is the status. -/
def ctl (op : EpollCtl) (events : UInt32) (flags : NcConnBase → NcConnBase) (s : Epoll) :
    Epoll × Int :=
  match epoll_ctl op s.conn.m_sd events s.ep with
  | some ep => (⟨flags s.conn, ep⟩, 0)
  | none => (s, -1)

def addInput (s : Epoll) : Epoll × Int :=
  if s.conn.m_recv_active then (s, 0)
  else ctl .mod (EPOLLIN ||| EPOLLET) (fun c => { c with m_recv_active := true }) s

def delInput (s : Epoll) : Epoll × Int := (s, 0)

def addOutput (s : Epoll) : Epoll × Int :=
  if s.conn.m_send_active then (s, 0)
  else ctl .mod (EPOLLIN ||| EPOLLOUT ||| EPOLLET) (fun c => { c with m_send_active := true }) s

def delOutput (s : Epoll) : Epoll × Int :=
  if !s.conn.m_send_active then (s, 0)
  else ctl .mod (EPOLLIN ||| EPOLLET) (fun c => { c with m_send_active := false }) s

/-- The mask that `addConn` builds. -/
def connMask (events : UInt32) : UInt32 :=
  (if events &&& EVENT_READ ≠ 0 then EPOLLIN else 0) |||
    (if events &&& EVENT_WRITE ≠ 0 then EPOLLOUT else 0)

def addConn (events : UInt32) (s : Epoll) : Epoll × Int :=
  ctl .add (connMask events ||| EPOLLET)
    (fun c => { c with m_send_active := true, m_recv_active := true }) s

def delConn (s : Epoll) : Epoll × Int :=
  ctl .del 0 (fun c => { c with m_recv_active := false, m_send_active := false }) s

def run : EventCall → Epoll → Epoll × Int
  | .addInput => addInput
  | .delInput => delInput
  | .addOutput => addOutput
  | .delOutput => delOutput
  | .addConn events => addConn events
  | .delConn => delConn

/-- The descriptor is registered for the event `bit`. -/
def RegisteredFor (bit : UInt32) (s : Epoll) : Prop :=
  ∃ events, s.ep s.conn.m_sd = some events ∧ events &&& bit ≠ 0

def ReadRegistered (s : Epoll) : Prop := s.RegisteredFor EPOLLIN

def WriteRegistered (s : Epoll) : Prop := s.RegisteredFor EPOLLOUT

end Epoll

/-! ### kqueue -/

def EVFILT_READ : Int := -1

def EVFILT_WRITE : Int := -2

def EV_ADD : UInt16 := 0x0001

def EV_DELETE : UInt16 := 0x0002

def EV_CLEAR : UInt16 := 0x0020

def EV_ERROR : UInt16 := 0x4000

/-- `struct kevent`. -/
structure Kevent where
  ident : Int
  filter : Int
  flags : UInt16
  data : Int
  udata : Ptr
  deriving DecidableEq

/-- Whether each filter of each descriptor is in the kernel queue. -/
abbrev Filters := Int → Int → Bool

/-- `struct _event`, and the filters of the kernel. -/
structure Kqueue where
  change : List Kevent
  event : List Kevent
  nreturned : Nat
  nprocessed : Nat
  kernel : Filters

namespace Kevent

/-- What `delConn` does to a pending event. -/
def clear (ev : Kevent) : Kevent := { ev with flags := 0, filter := 0 }

/-- What the kernel does with a change. -/
def apply (filters : Filters) (ev : Kevent) : Filters :=
  if ev.flags &&& EV_ADD ≠ 0 then
    Function.update filters ev.ident (Function.update (filters ev.ident) ev.filter true)
  else if ev.flags &&& EV_DELETE ≠ 0 then
    Function.update filters ev.ident (Function.update (filters ev.ident) ev.filter false)
  else filters

end Kevent

namespace Kqueue

def EV_SET (ident : Int) (filter : Int) (flags : UInt16) (udata : Addr) : Kevent :=
  ⟨ident, filter, flags, 0, some udata⟩

def push (ev : Kevent) (kq : Kqueue) : Kqueue := { kq with change := kq.change ++ [ev] }

/-- Clear the first event of a descriptor. -/
def clearFirst (sd : Int) : List Kevent → List Kevent
  | [] => []
  | ev :: rest => if ev.ident = sd then ev.clear :: rest else ev :: clearFirst sd rest

/-- Eliminate the pending event of a descriptor. -/
def eliminate (sd : Int) (kq : Kqueue) : Kqueue :=
  { kq with
    event := kq.event.take (kq.nprocessed + 1) ++
      clearFirst sd ((kq.event.take kq.nreturned).drop (kq.nprocessed + 1)) ++
      kq.event.drop (max kq.nreturned (kq.nprocessed + 1)) }

variable (c : Addr)

def addInput (conn : NcConnBase) (kq : Kqueue) : NcConnBase × Kqueue :=
  if conn.m_recv_active then (conn, kq)
  else ({ conn with m_recv_active := true },
    kq.push (EV_SET conn.m_sd EVFILT_READ (EV_ADD ||| EV_CLEAR) c))

def delInput (conn : NcConnBase) (kq : Kqueue) : NcConnBase × Kqueue :=
  if !conn.m_recv_active then (conn, kq)
  else ({ conn with m_recv_active := false }, kq.push (EV_SET conn.m_sd EVFILT_READ EV_DELETE c))

def addOutput (conn : NcConnBase) (kq : Kqueue) : NcConnBase × Kqueue :=
  if conn.m_send_active then (conn, kq)
  else ({ conn with m_send_active := true },
    kq.push (EV_SET conn.m_sd EVFILT_WRITE (EV_ADD ||| EV_CLEAR) c))

def delOutput (conn : NcConnBase) (kq : Kqueue) : NcConnBase × Kqueue :=
  if !conn.m_send_active then (conn, kq)
  else ({ conn with m_send_active := false }, kq.push (EV_SET conn.m_sd EVFILT_WRITE EV_DELETE c))

def addConn (events : UInt32) (conn : NcConnBase) (kq : Kqueue) : NcConnBase × Kqueue :=
  let (conn, kq) := if events &&& EVENT_READ ≠ 0 then addInput c conn kq else (conn, kq)
  if events &&& EVENT_WRITE ≠ 0 then addOutput c conn kq else (conn, kq)

def delConn (conn : NcConnBase) (kq : Kqueue) : NcConnBase × Kqueue :=
  let (conn, kq) := delOutput c conn kq
  let (conn, kq) := delInput c conn kq
  (conn, kq.eliminate conn.m_sd)

/-- A call for the connection `c`; the status is always 0. -/
def run (call : EventCall) (conn : NcConnBase) (kq : Kqueue) : NcConnBase × Kqueue :=
  match call with
  | .addInput => addInput c conn kq
  | .delInput => delInput c conn kq
  | .addOutput => addOutput c conn kq
  | .delOutput => delOutput c conn kq
  | .addConn events => addConn c events conn kq
  | .delConn => delConn c conn kq

/-- **The registration**: the queued changes, applied in order. -/
def registered (kq : Kqueue) : Filters := kq.change.foldl Kevent.apply kq.kernel

/-- `kevent` takes the changes over and returns a batch of events. -/
def kevent (batch : List Kevent) (kq : Kqueue) : Kqueue where
  change := []
  event := batch
  nreturned := batch.length
  nprocessed := 0
  kernel := kq.registered

end Kqueue

end Nutcracker
