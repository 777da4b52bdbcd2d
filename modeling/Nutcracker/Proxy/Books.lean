/-
**The books: who has which message.**

The proxy without its data: the free messages, the queues and the current messages of the connections,
the links between requests and responses, and the ledger. `Turn` lists what may happen to them in a
turn of the proxy; besides, a client may `enter` or `leave`.

* `Turn.frame` — a turn leaves the clients that there are, and the queues of the others.
* `Turn.even` — if no response finds an empty queue, **every response is linked to a request**.
-/

import Nutcracker.Proxy.Ledger

namespace Nutcracker

/-- A connection, as far as messages go. -/
structure Desk where
  imsg : List Addr
  omsg : List Addr
  rmsg : Ptr
  smsg : Ptr

def Desk.bare : Desk := ⟨[], [], none, none⟩

/-- **The books.** `made` and `servers` are the next new message and server connection, `spare` the
server connections to use again; a message is `plain` if it is to be forwarded and wants a reply. -/
structure Books where
  free : List Addr
  made : Addr
  peer : Addr → Ptr
  plain : Addr → Bool
  live : List Addr
  idle : List Addr
  client : Addr → Desk
  servers : Addr
  spare : List Addr
  server : Addr → Desk
  ledger : Ledger

namespace Books

/-! ### What may happen -/

def setClient (c : Addr) (desk : Desk) (b : Books) : Books :=
  { b with client := Function.update b.client c desk }

def setServer (s : Addr) (desk : Desk) (b : Books) : Books :=
  { b with server := Function.update b.server s desk }

def setPeer (m : Addr) (peer : Ptr) (b : Books) : Books :=
  { b with peer := Function.update b.peer m peer }

def note (act : Act) (b : Books) : Books := { b with ledger := b.ledger.note act }

/-- The next message: the first free one, or a new one. -/
def next (b : Books) : Addr := b.free.head?.getD b.made

/-- Take it. -/
def fetch (b : Books) : Books :=
  match b.free with
  | _ :: rest => { b with free := rest }
  | [] =>
      { b with
        made := b.made + 1
        peer := Function.update b.peer b.made none
        plain := Function.update b.plain b.made true }

/-- Give a message back. -/
def release (m : Addr) (b : Books) : Books := { b.setPeer m none with free := b.free ++ [m] }

/-- Give a message and its peer back. -/
def discard (m : Addr) (b : Books) : Books :=
  match b.peer m with
  | none => b.release m
  | some r => (((b.setPeer m none).setPeer r none).release r).release m

def putDown (c : Addr) (b : Books) : Books := b.setClient c { b.client c with rmsg := none }

def putDownServer (s : Addr) (b : Books) : Books := b.setServer s { b.server s with rmsg := none }

/-- Put a request on a server connection, if there is one for it. -/
def assign (m : Addr) (dest : Ptr) (b : Books) : Books :=
  match dest with
  | none => b
  | some s => b.setServer s { b.server s with imsg := (b.server s).imsg ++ [m] }

/-- A request was read. -/
def request (c m : Addr) (dest : Ptr) (b : Books) : Books :=
  ((b.setClient c { b.client c with rmsg := none, omsg := (b.client c).omsg ++ [m] }).assign m
    dest).note (.read c m)

def move (s m : Addr) (b : Books) : Books :=
  (b.setServer s
    { b.server s with
      imsg := NcQueue.remove m (b.server s).imsg
      omsg := (b.server s).omsg ++ [m] }).note (.moved s m)

/-- A response was read and linked to the request `m`, the first of the queue. -/
def answer (s r m : Addr) (b : Books) : Books :=
  ((((b.setServer s
    { b.server s with rmsg := none, omsg := (b.server s).omsg.tail }).setPeer m (some r)).setPeer r
      (some m)).note (.responded s r)).note (.answered s r m)

/-- The response to the first request of the queue was sent. -/
def complete (c r : Addr) (b : Books) : Books :=
  (b.setClient c { b.client c with omsg := (b.client c).omsg.tail }).note (.completed c r)

/-- A client comes. -/
def enter (c : Addr) (sd : Int) (rest : List Addr) (b : Books) : Books :=
  { b.setClient c .bare with live := b.live ++ [c], idle := rest }.note (.accepted c sd)

/-- A client goes. -/
def leave (c : Addr) (b : Books) : Books :=
  { b with live := NcQueue.remove c b.live, idle := b.idle ++ [c] }

/-- A server connection comes. -/
def spawn (b : Books) : Books := { b.setServer b.servers .bare with servers := b.servers + 1 }

/-- Give several messages back. -/
def discards : List Addr → Books → Books
  | [], b => b
  | m :: rest, b => (b.discard m).discards rest

/-- No connection refers to this message, which is not free. -/
structure Loose (b : Books) (m : Addr) : Prop where
  made : m < b.made
  used : m ∉ b.free
  client : ∀ c ∈ b.live, (b.client c).rmsg ≠ some m ∧ m ∉ (b.client c).omsg
  server : ∀ s, (b.server s).rmsg ≠ some m ∧ m ∉ (b.server s).imsg ++ (b.server s).omsg

/-- **What may happen in a turn.** If `strict`, no response finds an empty queue. -/
inductive Turn (strict : Prop) : Books → Books → Prop
  | spawn {b} : Turn strict b b.spawn
  | take {b c} (isLive : c ∈ b.live) :
      Turn strict b (b.fetch.setClient c { b.client c with rmsg := some b.next })
  | takeServer {b s} : Turn strict b (b.fetch.setServer s { b.server s with rmsg := some b.next })
  | putDown {b c} : Turn strict b (b.putDown c)
  | putDownServer {b s} : Turn strict b (b.putDownServer s)
  | discard {b m} (loose : b.Loose m) (peer : ∀ r, b.peer m = some r → b.Loose r) :
      Turn strict b (b.discard m)
  | request {b c m dest} (isLive : c ∈ b.live) (received : (b.client c).rmsg = some m) :
      Turn strict b (b.request c m dest)
  | move {b s m} (born : s < b.servers) (inside : m ∈ (b.server s).imsg) :
      Turn strict b (b.move s m)
  | answer {b s r m rest} (received : (b.server s).rmsg = some r)
      (queue : (b.server s).omsg = m :: rest) : Turn strict b (b.answer s r m)
  | stray {b s r} (lax : ¬ strict) : Turn strict b (b.note (.responded s r))
  | complete {b c m r rest} (isLive : c ∈ b.live) (queue : (b.client c).omsg = m :: rest)
      (peer : b.peer m = some r) : Turn strict b (b.complete c r)

/-- The turns one after the other. -/
def Within (strict : Prop) : Books → Books → Prop := Relation.ReflTransGen (Turn strict)

/-- What a turn leaves: the clients, the queues of those that went, and what was handed to them. -/
structure Keeps (b b' : Books) : Prop where
  live : b'.live = b.live
  idle : b'.idle = b.idle
  servers : b.servers ≤ b'.servers
  handed : b'.ledger.handed = b.ledger.handed
  omsg : ∀ c, c ∉ b.live → (b'.client c).omsg = (b.client c).omsg

namespace Keeps

theorem refl (b : Books) : Keeps b b := ⟨rfl, rfl, Nat.le_refl _, rfl, fun _ _ => rfl⟩

theorem trans {a b c : Books} (one : Keeps a b) (two : Keeps b c) : Keeps a c where
  live := two.live.trans one.live
  idle := two.idle.trans one.idle
  servers := Nat.le_trans one.servers two.servers
  handed := two.handed.trans one.handed
  omsg d notLive := (two.omsg d (one.live ▸ notLive)).trans (one.omsg d notLive)

end Keeps

/-- Every response was linked to a request. -/
def Even (b : Books) : Prop := ∀ s, b.ledger.responses s = (b.ledger.answered s).length

section Turn

variable {strict : Prop} {b b' : Books} {c m : Addr}

/-- Giving a message back concerns no connection, and not the ledger. -/
theorem discard_complete (b : Books) (c r m : Addr) :
    (((b.discard m).setClient c { b.client c with omsg := (b.client c).omsg.tail }).note
      (.handed c r)).note (.completed c r) = ((b.note (.handed c r)).complete c r).discard m := by
  have peer : ((b.note (.handed c r)).complete c r).peer m = b.peer m := rfl
  unfold discard
  rw [peer]
  cases b.peer m with
  | none => rfl
  | some r => rfl

theorem discards_leave (b : Books) (c : Addr) (msgs : List Addr) :
    (b.discards msgs).leave c = (b.leave c).discards msgs := by
  induction msgs generalizing b with
  | nil => rfl
  | cons m msgs ih =>
      have first : (b.discard m).leave c = (b.leave c).discard m := by
        have peer : (b.leave c).peer m = b.peer m := rfl
        unfold discard
        rw [peer]
        cases b.peer m with
        | none => rfl
        | some r => rfl
      unfold discards
      rw [ih, first]

/-- A request is put down, noted, and put in the two queues. -/
theorem request_eq (b : Books) (c m : Addr) (dest : Ptr) :
    (((b.putDown c).note (.read c m)).setClient c
      { (b.putDown c).client c with omsg := ((b.putDown c).client c).omsg ++ [m] }).assign m dest =
      b.request c m dest := by
  have desk : (b.putDown c).client c = { b.client c with rmsg := none } := Function.update_self ..
  have twice : (b.putDown c).setClient c { b.client c with rmsg := none, omsg := (b.client c).omsg ++ [m] } =
      b.setClient c { b.client c with rmsg := none, omsg := (b.client c).omsg ++ [m] } := by
    unfold putDown setClient
    rw [Function.update_idem]
  unfold request
  rw [desk, ← twice]
  cases dest with
  | none => rfl
  | some s => rfl

/-- A response is put down, noted, and linked. -/
theorem answer_eq (b : Books) (s r m : Addr) :
    ((((((b.putDownServer s).note (.responded s r)).setServer s
      { (b.putDownServer s).server s with omsg := ((b.putDownServer s).server s).omsg.tail }).setPeer m
        (some r)).setPeer r (some m)).note (.answered s r m)) = b.answer s r m := by
  have desk : (b.putDownServer s).server s = { b.server s with rmsg := none } :=
    Function.update_self ..
  have twice : (b.putDownServer s).setServer s
      { b.server s with rmsg := none, omsg := (b.server s).omsg.tail } =
      b.setServer s { b.server s with rmsg := none, omsg := (b.server s).omsg.tail } := by
    unfold putDownServer setServer
    rw [Function.update_idem]
  unfold answer
  rw [desk, ← twice]
  rfl

/-! The two cases of taking a message: -/

theorem fetch_cons {rest : List Addr} (queue : b.free = m :: rest) :
    b.fetch = { b with free := rest } ∧ b.next = m := by
  unfold fetch next
  rw [queue]
  exact ⟨rfl, rfl⟩

theorem fetch_nil (queue : b.free = []) :
    b.fetch = { b with
      made := b.made + 1
      peer := Function.update b.peer b.made none
      plain := Function.update b.plain b.made true } ∧ b.next = b.made := by
  unfold fetch next
  rw [queue]
  exact ⟨rfl, rfl⟩

/-- Taking a message changes the free messages only. -/
theorem fetch_frame (b : Books) : b.fetch.live = b.live ∧ b.fetch.idle = b.idle ∧
    b.fetch.client = b.client ∧ b.fetch.servers = b.servers ∧ b.fetch.server = b.server ∧
    b.fetch.ledger = b.ledger := by
  unfold fetch
  cases b.free with
  | nil => exact ⟨rfl, rfl, rfl, rfl, rfl, rfl⟩
  | cons m rest => exact ⟨rfl, rfl, rfl, rfl, rfl, rfl⟩

/-- So does giving one back. -/
theorem discard_frame (m : Addr) (b : Books) : (b.discard m).live = b.live ∧
    (b.discard m).idle = b.idle ∧ (b.discard m).client = b.client ∧
    (b.discard m).servers = b.servers ∧ (b.discard m).server = b.server ∧
    (b.discard m).ledger = b.ledger ∧ (b.discard m).made = b.made := by
  unfold discard
  cases b.peer m with
  | none => exact ⟨rfl, rfl, rfl, rfl, rfl, rfl, rfl⟩
  | some r => exact ⟨rfl, rfl, rfl, rfl, rfl, rfl, rfl⟩

/-- A change of a client connection that leaves its queue, or of one that is there. -/
theorem keeps_setClient (desk : Desk) (same : c ∉ b.live → desk.omsg = (b.client c).omsg) :
    Keeps b (b.setClient c desk) := by
  refine ⟨rfl, rfl, Nat.le_refl _, rfl, fun d notLive => ?_⟩
  show (Function.update b.client c desk d).omsg = _
  by_cases isC : d = c
  · rw [isC, Function.update_self]
    exact same (isC ▸ notLive)
  · rw [Function.update_of_ne isC]

theorem Turn.frame (turn : Turn strict b b') : Keeps b b' := by
  cases turn with
  | spawn => exact ⟨rfl, rfl, Nat.le_succ _, rfl, fun _ _ => rfl⟩
  | @take c isLive =>
      obtain ⟨live, idle, client, servers, -, ledger⟩ := fetch_frame b
      have fetched : Keeps b b.fetch :=
        ⟨live, idle, Nat.le_of_eq servers.symm, by rw [ledger], fun d _ => by rw [client]⟩
      exact fetched.trans (keeps_setClient _ fun notLive => absurd (live ▸ isLive) notLive)
  | takeServer =>
      obtain ⟨live, idle, client, servers, -, ledger⟩ := fetch_frame b
      exact ⟨live, idle, Nat.le_of_eq servers.symm, congrArg Ledger.handed ledger,
        fun d _ => congrArg (fun client => (client d).omsg) client⟩
  | putDown => exact keeps_setClient _ fun _ => rfl
  | putDownServer => exact ⟨rfl, rfl, Nat.le_refl _, rfl, fun _ _ => rfl⟩
  | @discard m =>
      obtain ⟨live, idle, client, servers, -, ledger, -⟩ := discard_frame m b
      exact ⟨live, idle, Nat.le_of_eq servers.symm, congrArg Ledger.handed ledger,
        fun d _ => congrArg (fun client => (client d).omsg) client⟩
  | @request c m dest isLive received =>
      refine (keeps_setClient { b.client c with rmsg := none, omsg := (b.client c).omsg ++ [m] }
        fun notLive => absurd isLive notLive).trans ?_
      cases dest with
      | none => exact ⟨rfl, rfl, Nat.le_refl _, rfl, fun _ _ => rfl⟩
      | some s => exact ⟨rfl, rfl, Nat.le_refl _, rfl, fun _ _ => rfl⟩
  | move => exact ⟨rfl, rfl, Nat.le_refl _, rfl, fun _ _ => rfl⟩
  | answer => exact ⟨rfl, rfl, Nat.le_refl _, rfl, fun _ _ => rfl⟩
  | stray => exact ⟨rfl, rfl, Nat.le_refl _, rfl, fun _ _ => rfl⟩
  | @complete c _ r _ isLive =>
      refine (keeps_setClient { b.client c with omsg := (b.client c).omsg.tail }
        fun notLive => absurd isLive notLive).trans ?_
      exact ⟨rfl, rfl, Nat.le_refl _, rfl, fun _ _ => rfl⟩

theorem Within.frame (within : Within strict b b') : Keeps b b' := by
  induction within with
  | refl => exact .refl b
  | tail _ turn keeps => exact keeps.trans turn.frame

/-- **If no response finds an empty queue, every response is linked to a request.** -/
theorem Turn.even (turn : Turn True b b') (even : b.Even) : b'.Even := by
  cases turn with
  | take =>
      intro s
      show b.fetch.ledger.responses s = (b.fetch.ledger.answered s).length
      rw [(fetch_frame b).2.2.2.2.2]
      exact even s
  | takeServer =>
      intro s
      show b.fetch.ledger.responses s = (b.fetch.ledger.answered s).length
      rw [(fetch_frame b).2.2.2.2.2]
      exact even s
  | @discard m =>
      intro s
      rw [(discard_frame m b).2.2.2.2.2.1]
      exact even s
  | @request c m dest =>
      cases dest with
      | none => exact even
      | some s => exact even
  | @answer s r m =>
      intro t
      show Function.update b.ledger.responses s (b.ledger.responses s + 1) t =
        (Ledger.enter s (b.ledger.ticket m) b.ledger.answered t).length
      by_cases isS : t = s
      · rw [isS, Function.update_self, Ledger.enter_self, List.length_append, even s]
        rfl
      · rw [Function.update_of_ne isS, Ledger.enter_of_ne _ _ isS]
        exact even t
  | stray lax => exact absurd trivial lax
  | spawn => exact even
  | putDown => exact even
  | putDownServer => exact even
  | move => exact even
  | complete => exact even

theorem Within.even (within : Within True b b') (even : b.Even) : b'.Even := by
  induction within with
  | refl => exact even
  | tail _ turn even => exact turn.even even

end Turn

end Books

end Nutcracker
