/-
**Batches of events in the epoll back end.**

`wait` gets up to `nevent` events from `epoll_wait` and calls `callback` on the connection of each, one
after the other. An event holds a pointer to its connection, and a callback may close its connection and
may take a closed one from the pool again, while later events of the batch still wait. Nothing checks
that the pointer of an event is still that of an open connection.

`Dispatch` puts the proxy together with the interest list, the rest of the batch, and the callback that
is running.

* `EpollEvent.flags`, `stages` — the events that `wait` passes on, and what `callback` does with them.
* `accept_comings`, `step_comings` — which connections an event opens and closes.
* `callback_live` — **no callback goes to a connection that has been closed**, or to another one than
  the event is about: on all runs the connections in the batch are open, with the descriptor of the
  event. The interest list holds the open connections, each with its descriptor.

It is essential that a descriptor occurs once in a batch, and that a callback closes no other connection.
-/

import Nutcracker.Event.Model
import Nutcracker.Proxy.Backlog

namespace Nutcracker

open Lib

def EPOLLERR : UInt32 := 0x008

def EPOLLHUP : UInt32 := 0x010

namespace Proxy

/-- What the pointer of an event points to. -/
inductive Target
  | listener
  | client (c : Addr)
  | server (s : Addr)
  deriving DecidableEq

/-- `struct epoll_event`, with the descriptor that it is about. -/
structure EpollEvent where
  sd : Int
  target : Target
  events : UInt32

/-- The events that `wait` passes to `callback`. -/
def EpollEvent.flags (ev : EpollEvent) : UInt32 :=
  (if ev.events &&& EPOLLERR ≠ 0 then EVENT_ERR else 0) |||
    (if ev.events &&& (EPOLLIN ||| EPOLLHUP) ≠ 0 then EVENT_READ else 0) |||
    (if ev.events &&& EPOLLOUT ≠ 0 then EVENT_WRITE else 0)

/-- What `callback` calls. -/
inductive Stage
  | processError
  | processRecv
  | processSend
  deriving DecidableEq

/-- **`NcConn::callback`**: an error is not followed by anything else. -/
def stages (events : UInt32) : List Stage :=
  if events &&& EVENT_ERR ≠ 0 then [.processError]
  else
    (if events &&& EVENT_READ ≠ 0 then [.processRecv] else []) ++
      (if events &&& EVENT_WRITE ≠ 0 then [.processSend] else [])

/-- What the stages of a connection do to the proxy. -/
def Target.Does : Target → Stage → ProxyEvent → Prop
  | .listener, .processRecv, .accept _ => True
  | .client c, .processRecv, .clientRecv d .. => d = c
  | .client c, .processSend, .clientSend d .. => d = c
  | .server s, .processRecv, .serverRecv t .. => t = s
  | .server s, .processSend, .serverSend t .. => t = s
  | _, _, _ => False

/-- `close` of a connection. The listening connection is not part of `Proxy`. -/
def Target.Closes (p : Proxy) : Target → Proxy → Prop
  | .listener, p' => p' = p
  | .client c, p' => p' = p.close c
  | .server s, p' => Step p (.serverClose s) p'

/-- `m_done || m_err` of a connection. The listening connection sets neither. -/
def Target.Broken (p : Proxy) : Target → Prop
  | .listener => False
  | .client c => (p.client c).m_done = true ∨ (p.client c).m_err ≠ 0
  | .server s => (p.server s).m_done = true ∨ (p.server s).m_err ≠ 0

/-- The connection that an event of the listening connection registers. -/
def registered (p : Proxy) : ProxyEvent → List (Int × Target)
  | .accept (.descriptor sd true true) =>
      if p.ctx.max_ncconn ≤ ncCurCConn then [] else [(sd, .client p.nextClient)]
  | _ => []

/-- **The proxy and the event base.** -/
structure Dispatch where
  proxy : Proxy
  /-- The interest list. -/
  watched : List (Int × Target)
  /-- The events that `wait` has still to go through. -/
  batch : List EpollEvent
  /-- The connection whose `callback` is running, and what is left of it. -/
  current : Option (Target × List Stage)

inductive DispatchEvent
  /-- `epoll_wait` returns events. -/
  | wait (batch : List EpollEvent)
  /-- `callback` is called for the next one. -/
  | call
  /-- The running stage does something. -/
  | act (event : ProxyEvent)
  /-- The stage succeeds. -/
  | pass
  /-- It fails, and `processClose` follows. -/
  | close
  /-- `callback` returns. -/
  | done

/-- **The runs of the proxy under the event base.** The descriptor of a new client is in use nowhere
else, `delConn` takes a connection from the interest list, and a batch has an event for a descriptor of
the interest list at most once. -/
def dispatchRuns (rlim_cur : UInt64) : System Dispatch DispatchEvent where
  init w := Start rlim_cur w.proxy ∧ (w.watched.map Prod.fst).Nodup ∧
    (w.watched.map Prod.snd).Nodup ∧ (∀ sd c, (sd, Target.client c) ∉ w.watched) ∧ w.batch = [] ∧
    w.current = none
  step w event w' :=
    match event with
    | .wait batch => w.current = none ∧ w.batch = [] ∧
        (∀ ev ∈ batch, (ev.sd, ev.target) ∈ w.watched) ∧ (batch.map EpollEvent.sd).Nodup ∧
        w' = { w with batch := batch }
    | .call => w.current = none ∧ ∃ ev rest, w.batch = ev :: rest ∧
        w' = { w with batch := rest, current := some (ev.target, stages ev.flags) }
    | .act event => ∃ target stage rest p, w.current = some (target, stage :: rest) ∧
        target.Does stage event ∧ Step w.proxy event p ∧
        (∀ e ∈ registered w.proxy event, e.1 ∉ w.watched.map Prod.fst) ∧
        w' = { w with proxy := p, watched := w.watched ++ registered w.proxy event }
    | .pass => ∃ target stage rest, w.current = some (target, stage :: rest) ∧
        stage ≠ .processError ∧ ¬ target.Broken w.proxy ∧
        w' = { w with current := some (target, rest) }
    | .close => ∃ target stage rest p, w.current = some (target, stage :: rest) ∧
        target.Closes w.proxy p ∧
        w' = { w with
          proxy := p
          watched := w.watched.filter fun e => e.2 ≠ target
          current := none }
    | .done => ∃ target, w.current = some (target, []) ∧ w' = { w with current := none }

/-! ### Which connections an event opens and closes -/

section Comings

variable {p p' : Proxy} {c d : Addr} {sd : Int}

theorem open_close : (p.close c).Open d ↔ p.Open d ∧ d ≠ c := by
  unfold Open
  rw [(close_left c p).1]
  exact NcQueue.mem_remove

theorem open_enroll : (p.enroll sd).Open d ↔ p.Open d ∨ d = p.nextClient :=
  List.mem_append.trans (or_congr_right List.mem_singleton)

/-- An open connection with the given descriptor. -/
def Has (p : Proxy) (sd : Int) (c : Addr) : Prop := p.Open c ∧ (p.client c).m_sd = sd

theorem has_undisturbed (same : Undisturbed p p') : p'.Has sd c ↔ p.Has sd c := by
  unfold Has Open
  rw [same.c_conn_q, same.m_sd]

theorem has_close : (p.close c).Has sd d ↔ p.Has sd d ∧ d ≠ c := by
  unfold Has
  rw [open_close]
  constructor
  · rintro ⟨⟨isOpen, other⟩, m_sd⟩
    exact ⟨⟨isOpen, ((close_left c p).2 d other).symm.trans m_sd⟩, other⟩
  · rintro ⟨⟨isOpen, m_sd⟩, other⟩
    exact ⟨⟨isOpen, other⟩, ((close_left c p).2 d other).trans m_sd⟩

theorem has_enroll (counted : Counted p) (sd' : Int) :
    (p.enroll sd').Has sd c ↔ p.Has sd c ∨ sd = sd' ∧ c = p.nextClient := by
  unfold Has
  rw [open_enroll]
  by_cases isNew : c = p.nextClient
  · obtain rfl := isNew
    have fresh := nextClient_fresh counted
    rw [m_sd_enroll]
    constructor
    · exact fun opened => Or.inr ⟨opened.2.symm, rfl⟩
    · rintro (⟨isOpen, -⟩ | ⟨rfl, -⟩)
      · exact absurd isOpen fresh
      · exact ⟨Or.inr rfl, rfl⟩
  · rw [client_enroll sd' p isNew, or_iff_left isNew]
    exact (or_iff_left fun both => isNew both.2).symm

/-- **`accept` opens the connection that it registers**, and changes no other one. -/
theorem accept_comings (counted : Counted p) (answer : AcceptAnswer) :
    (p.accept answer).Has sd c ↔
      p.Has sd c ∨ (sd, .client c) ∈ registered p (.accept answer) := by
  cases answer with
  | failed => exact (or_iff_left List.not_mem_nil).symm
  | descriptor sd' setNonBlocking addConn =>
      have closes : ((p.enroll sd').close p.nextClient).Has sd c ↔ p.Has sd c := by
        rw [has_close, has_enroll counted]
        constructor
        · rintro ⟨had | ⟨-, isNew⟩, other⟩
          · exact had
          · exact absurd isNew other
        · exact fun had => ⟨Or.inl had, fun isNew => nextClient_fresh counted (isNew ▸ had.1)⟩
      unfold accept
      dsimp only
      by_cases refused : p.ctx.max_ncconn ≤ ncCurCConn
      · rw [if_pos refused]
        refine (or_iff_left ?_).symm
        unfold registered
        split
        · rw [if_pos refused]
          exact List.not_mem_nil
        · exact List.not_mem_nil
      · rw [if_neg refused]
        cases setNonBlocking with
        | false => exact closes.trans (or_iff_left List.not_mem_nil).symm
        | true =>
            cases addConn with
            | false => exact closes.trans (or_iff_left List.not_mem_nil).symm
            | true =>
                show (p.enroll sd').Has sd c ↔ p.Has sd c ∨ _ ∈ if _ then _ else _
                rw [if_neg refused, has_enroll counted, List.mem_singleton, Prod.mk.injEq,
                  Target.client.injEq]

/-- At most one connection is registered, the one that `accept` takes. -/
theorem registered_cases (p : Proxy) (event : ProxyEvent) :
    registered p event = [] ∨ ∃ sd, registered p event = [(sd, .client p.nextClient)] := by
  unfold registered
  split
  · split
    · exact Or.inl rfl
    · exact Or.inr ⟨_, rfl⟩
  · exact Or.inl rfl

/-- **An event of a stage opens the connection that it registers**, and changes no other one. -/
theorem step_comings {target : Target} {stage : Stage} {event : ProxyEvent} (counted : Counted p)
    (does : target.Does stage event) (step : Step p event p') :
    p'.Has sd c ↔ p.Has sd c ∨ (sd, .client c) ∈ registered p event := by
  by_cases inner : event.Comings
  · cases event with
    | accept answer => exact step.2 ▸ accept_comings counted answer
    | clientClose d => cases target <;> cases stage <;> exact does.elim
    | _ => exact inner.elim
  · have none : registered p event = [] := by
      cases event with
      | accept answer => exact absurd trivial inner
      | _ => rfl
    rw [has_undisturbed (step_undisturbed step inner), none]
    exact (or_iff_left List.not_mem_nil).symm

/-! ### Which server connections have been closed -/

/-- No server connection is closed in between. -/
def NoneClosed (p p' : Proxy) : Prop :=
  ∀ s, .serverClosed s ∈ p'.acts → .serverClosed s ∈ p.acts

theorem noneClosed_did (act : Act) (other : ∀ s, act ≠ .serverClosed s) (p : Proxy) :
    NoneClosed p (p.did act) := by
  intro s member
  rcases List.mem_cons.mp member with same | before
  · exact absurd same.symm (other s)
  · exact before

theorem noneClosed_frame : Frame NoneClosed where
  refl _ _ member := member
  trans one two s member := one s (two s member)
  did act p inner := by
    refine noneClosed_did act (fun s same => ?_) p
    rw [same] at inner
    exact inner
  msgs _ _ _ member := member
  putClient _ _ _ _ _ member := member
  putServer _ _ _ _ member := member

theorem noneClosed_pick (choice : Choice) (p : Proxy) : NoneClosed p (choice.pick p).1 := by
  cases choice with
  | any conn => exact noneClosed_frame.refl p
  | index idx =>
      show NoneClosed p (p.getConn idx).1
      unfold getConn
      split
      · exact noneClosed_frame.refl p
      · refine noneClosed_frame.trans ?_ (noneClosed_did (.chose _) (fun _ => nofun) _)
        unfold serverGetConn
        dsimp only
        split
        · exact fun s member => member
        · exact noneClosed_did (.looked .getConn _) (fun _ => nofun) p

theorem noneClosed_close (c : Addr) (p : Proxy) : NoneClosed p (p.close c) := by
  have noted : NoneClosed p (p.did (.closed c)) :=
    noneClosed_did (.closed c) (fun _ => nofun) p
  unfold close
  dsimp only
  split
  · exact noted
  · exact noneClosed_frame.trans noted (noneClosed_frame.dropMsgs c _)

/-- **No stage closes a server connection.** -/
theorem step_noneClosed {target : Target} {stage : Stage} {event : ProxyEvent}
    (does : target.Does stage event) (step : Step p event p') : NoneClosed p p' := by
  cases event with
  | accept answer =>
      rw [step.2]
      have enrolled (sd : Int) : NoneClosed p (p.enroll sd) :=
        noneClosed_did (.accepted p.nextClient sd) (fun _ => nofun) { p.enroll sd with acts := p.acts }
      cases answer with
      | failed => exact noneClosed_frame.refl p
      | descriptor sd setNonBlocking addConn =>
          unfold accept
          dsimp only
          split
          · exact noneClosed_frame.refl p
          · split
            · exact enrolled sd
            · exact noneClosed_frame.trans (enrolled sd) (noneClosed_close _ _)
  | clientRecv c choice sys fresh answer =>
      exact step.2 ▸ noneClosed_frame.clientRecv (noneClosed_pick choice) _ _ _ _ _
  | clientSend c delOutput answer => exact noneClosed_frame.clientSend step.2
  | clientClose c => cases target <;> cases stage <;> exact does.elim
  | serverRecv s sys fresh answer => exact step.2 ▸ noneClosed_frame.serverRecv _ _ _ _ _
  | serverSend s sys done => exact step.2.2 ▸ noneClosed_frame.serverSend _ _ _ _
  | serverClose s => cases target <;> cases stage <;> exact does.elim

end Comings

/-! ### Runs -/

/-- The connection of the event is open, and has its descriptor. -/
def EpollEvent.Live (p : Proxy) (ev : EpollEvent) : Prop :=
  match ev.target with
  | .listener => True
  | .client c => p.Has ev.sd c
  | .server s => .serverClosed s ∉ p.acts

namespace Dispatch

/-- **The interest list holds the connections that are open**, each once; and the batch is a part of it,
without the connection whose callback is running. -/
structure Sound (rlim_cur : UInt64) (w : Dispatch) : Prop where
  reached : (proxyRuns rlim_cur).Reach w.proxy
  fds : (w.watched.map Prod.fst).Nodup
  targets : (w.watched.map Prod.snd).Nodup
  clients : ∀ sd c, (sd, .client c) ∈ w.watched ↔ w.proxy.Has sd c
  servers : ∀ sd s, (sd, .server s) ∈ w.watched → .serverClosed s ∉ w.proxy.acts
  batch : ∀ ev ∈ w.batch, (ev.sd, ev.target) ∈ w.watched
  once : (w.batch.map EpollEvent.sd).Nodup
  current : ∀ target left, w.current = some (target, left) →
    (∃ sd, (sd, target) ∈ w.watched) ∧ ∀ ev ∈ w.batch, ev.target ≠ target

namespace Sound

variable {rlim_cur : UInt64} {w w' : Dispatch}

/-- A connection is in the interest list under one descriptor. -/
theorem sd_unique (sound : Sound rlim_cur w) {sd sd' : Int} {target : Target}
    (one : (sd, target) ∈ w.watched) (other : (sd', target) ∈ w.watched) : sd = sd' :=
  congrArg Prod.fst (List.inj_on_of_nodup_map sound.targets one other rfl)

/-- **The next callback** is that of a connection without further events in the batch. -/
theorem call (sound : Sound rlim_cur w) {ev : EpollEvent} {rest : List EpollEvent}
    (next : w.batch = ev :: rest) :
    Sound rlim_cur { w with batch := rest, current := some (ev.target, stages ev.flags) } := by
  have member : ∀ other ∈ rest, other ∈ w.batch := fun other inRest =>
    next ▸ List.mem_cons_of_mem _ inRest
  have first : (ev.sd, ev.target) ∈ w.watched := sound.batch ev (next ▸ List.mem_cons_self)
  have once := sound.once
  rw [next, List.map_cons, List.nodup_cons] at once
  refine ⟨sound.reached, sound.fds, sound.targets, sound.clients, sound.servers,
    fun other inRest => sound.batch other (member other inRest), once.2, ?_⟩
  rintro target left current
  obtain ⟨rfl, -⟩ := Prod.mk.inj (Option.some.inj current)
  refine ⟨⟨ev.sd, first⟩, fun other inRest same => ?_⟩
  have watched := sound.batch other (member other inRest)
  rw [same] at watched
  exact once.1 (sound.sd_unique watched first ▸ List.mem_map_of_mem inRest)

/-- **A stage** adds the connection that it opens to the interest list. -/
theorem act (sound : Sound rlim_cur w) {target : Target} {stage : Stage} {event : ProxyEvent}
    {p : Proxy} (does : target.Does stage event) (step : Step w.proxy event p)
    (fresh : ∀ e ∈ registered w.proxy event, e.1 ∉ w.watched.map Prod.fst) :
    Sound rlim_cur
      { w with proxy := p, watched := w.watched ++ registered w.proxy event } := by
  have counted := Counted.run sound.reached
  have added := registered_cases w.proxy event
  have isNew : ∀ e ∈ registered w.proxy event, e.2 ∉ w.watched.map Prod.snd := by
    intro e member inside
    rcases added with none | ⟨sd, one⟩
    · rw [none] at member
      cases member
    · rw [one, List.mem_singleton] at member
      obtain ⟨⟨sd', other⟩, watched, same⟩ := List.mem_map.mp inside
      obtain rfl : other = e.2 := same
      rw [member] at watched
      exact nextClient_fresh counted ((sound.clients _ _).mp watched).1
  have distinct {α : Type} (f : Int × Target → α) (nodup : (w.watched.map f).Nodup)
      (apart : ∀ e ∈ registered w.proxy event, f e ∉ w.watched.map f) :
      ((w.watched ++ registered w.proxy event).map f).Nodup := by
    rw [List.map_append]
    refine List.Nodup.append nodup ?_ fun x inside outside => ?_
    · rcases added with none | ⟨sd, one⟩
      · rw [none]
        exact List.nodup_nil
      · rw [one]
        exact List.nodup_singleton _
    · obtain ⟨e, member, rfl⟩ := List.mem_map.mp outside
      exact apart e member inside
  refine ⟨sound.reached.next step, distinct _ sound.fds fresh, distinct _ sound.targets isNew,
    fun sd c => ?_, fun sd s member => ?_,
    fun ev member => List.mem_append_left _ (sound.batch ev member), sound.once,
    fun target left current => ?_⟩
  · rw [List.mem_append, sound.clients, step_comings counted does step]
  · rcases List.mem_append.mp member with before | new
    · exact fun closed => sound.servers sd s before (step_noneClosed does step s closed)
    · rcases added with none | ⟨sd, one⟩
      · rw [none] at new
        cases new
      · rw [one, List.mem_singleton] at new
        cases new
  · obtain ⟨⟨sd, watched⟩, others⟩ := sound.current target left current
    exact ⟨⟨sd, List.mem_append_left _ watched⟩, others⟩

/-- **A close** takes the connection from the interest list, and no event of it is in the batch. -/
theorem close (sound : Sound rlim_cur w) {target : Target} {left : List Stage} {p : Proxy}
    (current : w.current = some (target, left)) (closes : target.Closes w.proxy p) :
    Sound rlim_cur
      { w with
        proxy := p
        watched := w.watched.filter fun e => e.2 ≠ target
        current := none } := by
  obtain ⟨⟨sd, watched⟩, others⟩ := sound.current target left current
  have kept {e : Int × Target} : e ∈ (w.watched.filter fun e => e.2 ≠ target) ↔
      e ∈ w.watched ∧ e.2 ≠ target := by
    rw [List.mem_filter, decide_eq_true_iff]
  have sublist : (w.watched.filter fun e => e.2 ≠ target).Sublist w.watched := List.filter_sublist
  have closed : (proxyRuns rlim_cur).Reach p ∧
      (∀ sd c, p.Has sd c ↔ w.proxy.Has sd c ∧ Target.client c ≠ target) ∧
        ∀ s, .server s ≠ target → .serverClosed s ∈ p.acts → .serverClosed s ∈ w.proxy.acts := by
    cases target with
    | listener =>
        obtain rfl : p = w.proxy := closes
        exact ⟨sound.reached, fun sd c => (and_iff_left nofun).symm, fun _ _ member => member⟩
    | client c =>
        obtain rfl : p = w.proxy.close c := closes
        have isOpen := ((sound.clients sd c).mp watched).1
        refine ⟨sound.reached.next (a := .clientClose c) ⟨isOpen, rfl⟩, fun sd d => ?_,
          fun s _ => noneClosed_close c w.proxy s⟩
        rw [has_close, Ne, Ne, Target.client.injEq]
    | server s =>
        have step : Step w.proxy (.serverClose s) p := closes
        refine ⟨sound.reached.next (a := .serverClose s) step, fun sd c => ?_, fun t other => ?_⟩
        · rw [has_undisturbed (step_undisturbed step id)]
          exact (and_iff_left nofun).symm
        · rw [step.2]
          intro member
          refine (List.mem_cons.mp member).resolve_left fun same => ?_
          exact other (congrArg Target.server (Act.serverClosed.inj same))
  refine ⟨closed.1, sound.fds.sublist (sublist.map _), sound.targets.sublist (sublist.map _),
    fun sd c => ?_, fun sd s member => ?_, fun ev member => ?_, sound.once, nofun⟩
  · rw [kept, sound.clients, closed.2.1]
  · exact fun inActs => sound.servers sd s (kept.mp member).1
      (closed.2.2 s (kept.mp member).2 inActs)
  · exact kept.mpr ⟨sound.batch ev member, others ev member⟩

/-- **All runs.** -/
theorem run (reached : (dispatchRuns rlim_cur).Reach w) : Sound rlim_cur w := by
  refine reached.invariant (I := Sound rlim_cur) (fun w start => ?_)
    fun w event w' _ sound step => ?_
  · obtain ⟨start, fds, targets, none, batch, idle⟩ := start
    refine ⟨.start start, fds, targets, fun sd c => iff_of_false (none sd c) fun had => ?_,
      fun sd s _ => ?_, ?_, ?_, ?_⟩
    · have isOpen : c ∈ w.proxy.server_pool.c_conn_q := had.1
      rw [start.c_conn_q] at isOpen
      cases isOpen
    · rw [start.acts]
      exact List.not_mem_nil
    · rw [batch]
      exact nofun
    · rw [batch]
      exact List.nodup_nil
    · rw [idle]
      exact nofun
  · cases event with
    | wait batch =>
        obtain ⟨idle, -, inside, once, rfl⟩ := step
        refine ⟨sound.reached, sound.fds, sound.targets, sound.clients, sound.servers, inside,
          once, fun target left current => ?_⟩
        rw [show w.current = none from idle] at current
        cases current
    | call =>
        obtain ⟨-, ev, rest, next, rfl⟩ := step
        exact sound.call next
    | act event =>
        obtain ⟨target, stage, rest, p, -, does, step, fresh, rfl⟩ := step
        exact sound.act does step fresh
    | pass =>
        obtain ⟨target, stage, rest, current, -, -, rfl⟩ := step
        refine ⟨sound.reached, sound.fds, sound.targets, sound.clients, sound.servers, sound.batch,
          sound.once, fun target' left same => ?_⟩
        obtain ⟨rfl, -⟩ := Prod.mk.inj (Option.some.inj same)
        exact sound.current _ _ current
    | close =>
        obtain ⟨target, stage, rest, p, current, closes, rfl⟩ := step
        exact sound.close current closes
    | done =>
        obtain ⟨target, -, rfl⟩ := step
        exact ⟨sound.reached, sound.fds, sound.targets, sound.clients, sound.servers, sound.batch,
          sound.once, nofun⟩

end Sound

end Dispatch

/-- **No callback goes to a connection that has been closed**, in any run: the connections of the batch
are open and have the descriptor of their event, and the callback that is running is that of an open
connection. The interest list holds the open connections, and the event base makes no steps but those of
the proxy. -/
theorem callback_live (rlim_cur : UInt64) (w : Dispatch)
    (reached : (dispatchRuns rlim_cur).Reach w) :
    (∀ ev ∈ w.batch, ev.Live w.proxy) ∧
      (∀ target left, w.current = some (target, left) →
        ∃ sd, EpollEvent.Live w.proxy ⟨sd, target, 0⟩) ∧
      (∀ sd c, (sd, .client c) ∈ w.watched ↔ w.proxy.Has sd c) ∧
        (proxyRuns rlim_cur).Reach w.proxy := by
  have sound := Dispatch.Sound.run reached
  have live {sd : Int} {target : Target} {events : UInt32} (watched : (sd, target) ∈ w.watched) :
      EpollEvent.Live w.proxy ⟨sd, target, events⟩ := by
    cases target with
    | listener => trivial
    | client c => exact (sound.clients sd c).mp watched
    | server s => exact sound.servers sd s watched
  refine ⟨fun ev member => live (sound.batch ev member), fun target left current => ?_,
    sound.clients, sound.reached⟩
  obtain ⟨⟨sd, watched⟩, -⟩ := sound.current target left current
  exact ⟨sd, live watched⟩

/-! ### A client is accepted and reported -/

/-- The listening connection and the connection to the server are watched. -/
def idleLoop : Dispatch := ⟨atStart 1024, [(3, .listener), (4, .server 0)], [], none⟩

/-- A client comes, and `callback` of the listening connection runs. -/
def acceptingLoop : Dispatch := { idleLoop with current := some (.listener, [.processRecv]) }

def acceptedLoop : Dispatch :=
  { acceptingLoop with
    proxy := (atStart 1024).enroll 5
    watched := idleLoop.watched ++ [(5, .client 0)] }

/-- The client has sent something. -/
def reportedLoop : Dispatch :=
  { acceptedLoop with current := none, batch := [⟨5, .client 0, EPOLLIN⟩] }

theorem reach_reportedLoop : (dispatchRuns 1024).Reach reportedLoop := by
  have idle : (dispatchRuns 1024).Reach idleLoop := by
    refine .start ⟨start_atStart 1024, by decide, by decide, fun sd c member => ?_, rfl, rfl⟩
    rcases List.mem_cons.mp member with same | rest
    · cases same
    · cases List.mem_singleton.mp rest
  have waited : (dispatchRuns 1024).Reach
      { idleLoop with batch := [⟨3, .listener, EPOLLIN⟩] } := by
    refine idle.next (a := .wait [⟨3, .listener, EPOLLIN⟩]) ⟨rfl, rfl, fun ev member => ?_, ?_, rfl⟩
    · rw [List.mem_singleton.mp member]
      exact List.mem_cons_self
    · exact List.nodup_singleton _
  have called : (dispatchRuns 1024).Reach acceptingLoop :=
    waited.next (a := .call) ⟨rfl, _, _, rfl, rfl⟩
  have accepted : (dispatchRuns 1024).Reach acceptedLoop := by
    refine called.next (a := .act (.accept (.descriptor 5 true true)))
      ⟨_, _, _, _, rfl, trivial, ⟨⟨by decide, by decide, fun c isOpen => ?_⟩, rfl⟩, ?_, rfl⟩
    · cases isOpen
    · decide
  have passed : (dispatchRuns 1024).Reach { acceptedLoop with current := some (.listener, []) } :=
    accepted.next (a := .pass) ⟨_, _, _, rfl, nofun, id, rfl⟩
  have returned : (dispatchRuns 1024).Reach { acceptedLoop with current := none } :=
    passed.next (a := .done) ⟨_, rfl, rfl⟩
  refine returned.next (a := .wait [⟨5, .client 0, EPOLLIN⟩]) ⟨rfl, rfl, fun ev member => ?_, ?_, rfl⟩
  · rw [List.mem_singleton.mp member]
    decide
  · exact List.nodup_singleton _

/-- **The event of the client goes to the client.** -/
theorem live_of_reportedLoop : reportedLoop.batch = [⟨5, .client 0, EPOLLIN⟩] ∧
    EpollEvent.Live reportedLoop.proxy ⟨5, .client 0, EPOLLIN⟩ :=
  ⟨rfl, (callback_live 1024 reportedLoop reach_reportedLoop).1 _ List.mem_cons_self⟩

end Proxy

end Nutcracker
