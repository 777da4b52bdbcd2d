/-
**What the messages hold.**

A message has the bytes of one read, and keeps them until it is sent. `Tapped` puts the proxy together
with what was read into each message, and what was written of it since. `mbuf_pool` hands out a new
buffer or one that was given back, which is full; and a read of no bytes is not refused.

* `Faithful` — what the messages hold that are received, that wait for a server connection to be
  writable, and that wait for their client.
* `Faithful.moves` — what happens to the messages between two reads keeps this.
* `Faithful.write`, `Faithful.tell` — so do a read into a message, and a write of bytes from its front.
-/

import Nutcracker.Msg.Split
import Nutcracker.Proxy.Isolation
import Nutcracker.Proxy.Moves

namespace Nutcracker

open Lib Proxy

/-! ### Messages -/

theorem NcMbuf.full_of_room {mbuf : NcMbuf} (room : 0 < mbuf.size) : ¬ mbuf.full = true := by
  intro full
  have none : mbuf.size = 0 := by
    unfold NcMbuf.size NcMbuf.distance
    rw [NcMbuf.full_iff.mp full]
    omega
  exact Nat.ne_of_gt room none

namespace NcMsg

/-- Nothing was read into the message yet: at most, it has a buffer with room. -/
structure Blank (msg : NcMsg) : Prop where
  mlen : msg.m_mlen = 0
  queue : msg.m_mbuf_queue = [] ∨ ∃ mbuf, msg.m_mbuf_queue = [mbuf] ∧ mbuf.Valid ∧
    mbuf.content = [] ∧ 0 < mbuf.size

/-- The message has these bytes, in one buffer. -/
structure Bears (x : List UInt8) (msg : NcMsg) : Prop where
  mlen : msg.m_mlen ≠ 0
  queue : ∃ mbuf, msg.m_mbuf_queue = [mbuf] ∧ mbuf.Valid ∧ mbuf.content = x

variable {msg msg' : NcMsg} {x : List UInt8} {fresh : NcMbuf}

theorem Blank.of_text (blank : msg.Blank) (same : msg'.text = msg.text) : msg'.Blank := by
  obtain ⟨queue, mlen⟩ := Prod.mk.inj same
  exact ⟨mlen.trans blank.mlen, queue ▸ blank.queue⟩

theorem blank_of_text (empty : msg.text = ([], 0)) : msg.Blank := by
  obtain ⟨queue, mlen⟩ := Prod.mk.inj empty
  exact ⟨mlen, Or.inl queue⟩

theorem Bears.of_text (bears : msg.Bears x) (same : msg'.text = msg.text) : msg'.Bears x := by
  obtain ⟨queue, mlen⟩ := Prod.mk.inj same
  exact ⟨mlen ▸ bears.mlen, queue ▸ bears.queue⟩

theorem Bears.content (bears : msg.Bears x) : msg.content = x := by
  obtain ⟨mbuf, queue, -, content⟩ := bears.queue
  unfold NcMsg.content
  rw [queue, List.flatMap_singleton, content]

/-- **The buffer that is read into** is the only one. It is empty, if it has room. -/
theorem Blank.tail (blank : msg.Blank) (handed : fresh.FromPool) :
    (tailMbuf fresh msg.m_mbuf_queue).1 = [] ∧
      ((tailMbuf fresh msg.m_mbuf_queue).2 = fresh ∨ 0 < (tailMbuf fresh msg.m_mbuf_queue).2.size) ∧
      (0 < (tailMbuf fresh msg.m_mbuf_queue).2.size →
        (tailMbuf fresh msg.m_mbuf_queue).2.Valid ∧
          (tailMbuf fresh msg.m_mbuf_queue).2.content = []) := by
  rcases blank.queue with none | ⟨mbuf, one, valid, content, room⟩
  · rw [none]
    exact ⟨rfl, Or.inl rfl, handed.blank⟩
  · have tail : tailMbuf fresh [mbuf] = ([], mbuf) := if_neg (NcMbuf.full_of_room room)
    rw [one, tail]
    exact ⟨rfl, Or.inr room, fun _ => ⟨valid, content⟩⟩

/-- The buffer stays when nothing was read into it. -/
theorem Blank.stays (blank : msg.Blank) (handed : fresh.FromPool)
    (room : 0 < (tailMbuf fresh msg.m_mbuf_queue).2.size) :
    ({ msg with m_mbuf_queue := (tailMbuf fresh msg.m_mbuf_queue).1 ++
      [(tailMbuf fresh msg.m_mbuf_queue).2] } : NcMsg).Blank := by
  obtain ⟨first, -, empty⟩ := blank.tail handed
  obtain ⟨valid, content⟩ := empty room
  refine ⟨blank.mlen, Or.inr ⟨_, ?_, valid, content, room⟩⟩
  show (tailMbuf fresh msg.m_mbuf_queue).1 ++ [(tailMbuf fresh msg.m_mbuf_queue).2] = _
  rw [first, List.nil_append]

/-- What a read of `bytes` makes of a message. -/
def fill (tail : List NcMbuf × NcMbuf) (bytes : List UInt8) (msg : NcMsg) : NcMsg :=
  { msg with m_mbuf_queue := tail.1 ++ [tail.2.copy bytes], m_mlen := bytes.length }

/-- **A read fills the message.** -/
theorem Blank.read (blank : msg.Blank) (handed : fresh.FromPool) {bytes : List UInt8}
    (some : bytes ≠ []) (fits : bytes.length ≤ (tailMbuf fresh msg.m_mbuf_queue).2.size) :
    (fill (tailMbuf fresh msg.m_mbuf_queue) bytes msg).Bears bytes := by
  obtain ⟨first, -, empty⟩ := blank.tail handed
  generalize tailMbuf fresh msg.m_mbuf_queue = tail at first empty fits
  have positive := List.length_pos_iff.mpr some
  have room : 0 < tail.2.size := Nat.lt_of_lt_of_le positive fits
  obtain ⟨valid, nothing⟩ := empty room
  refine ⟨Nat.ne_of_gt positive, tail.2.copy bytes, ?_, valid.copy fits, ?_⟩
  · show tail.1 ++ [tail.2.copy bytes] = _
    rw [first, List.nil_append]
  · rw [valid.content_copy, nothing, List.nil_append]

/-- **A write takes bytes from the front**, and says if none is left. -/
theorem Bears.consume (bears : msg.Bears x) (n : Nat) :
    ({ msg with m_mbuf_queue := (NcConn.consume n msg.m_mbuf_queue).2.1 } : NcMsg).Bears (x.drop n) ∧
      ((NcConn.consume n msg.m_mbuf_queue).2.2 = true ↔ x.length ≤ n) := by
  obtain ⟨mbuf, queue, valid, content⟩ := bears.queue
  have all : ∀ b ∈ msg.m_mbuf_queue, b.Valid := fun b inside => by
    rw [queue] at inside
    rw [List.mem_singleton.mp inside]
    exact valid
  have whole : NcConn.unsent msg.m_mbuf_queue = x := by
    unfold NcConn.unsent
    rw [queue, List.flatMap_singleton, content]
  obtain ⟨dropped, kept⟩ := NcConn.consume_spec n all
  obtain ⟨left, one⟩ : ∃ left, (NcConn.consume n msg.m_mbuf_queue).2.1 = [left] := by
    rw [queue, NcConn.consume]
    split
    · exact ⟨_, rfl⟩
    · split
      · exact ⟨_, rfl⟩
      · exact ⟨_, rfl⟩
  refine ⟨⟨bears.mlen, left, one, kept left (one ▸ List.mem_cons_self), ?_⟩, ?_⟩
  · unfold NcConn.unsent at dropped whole
    rw [one, List.flatMap_singleton, whole] at dropped
    exact dropped
  · rw [NcConn.consume_all_iff n all, whole]

end NcMsg

namespace Proxy

/-! ### What is read and written -/

/-- What a turn of `recvMsg` reads: the message that is received, and the bytes. -/
def heardBy (r : Receiver) (fresh : NcMbuf) (answer : ReadAnswer) (p : Proxy) :
    Option (Addr × List UInt8) :=
  match r.recvNext true p with
  | (_, none) => none
  | (q, some m) =>
      match ((r.conn q).recv answer (tailMbuf fresh (q.msg m).m_mbuf_queue).2.size).2 with
      | .ok bytes => some (m, bytes)
      | .error _ => none

/-- What a turn of `sendMsg` of a client writes: the response, and the bytes. -/
def toldBy (c : Addr) (delOutput : Option Int) (answer : NcConn.SendvAnswer) (p : Proxy) :
    Option (Addr × List UInt8) :=
  match NcClientConn.sendNext delOutput p.msg_pool.mem (p.client c) with
  | (_, none) => none
  | (conn, some rsp) =>
      match NcConn.sendChain (NcClientConn.nextOf delOutput p.msg_pool.mem) NcClientConn.sendDone
        answer 2 rsp ⟨conn, p.msg_pool⟩ with
      | .ok (_, _, bytes) => some (rsp, bytes)
      | .error _ => none

/-- **The proxy, with the bytes that were read into each message and written of it.** -/
structure Tapped where
  proxy : Proxy
  heard : Addr → List UInt8
  told : Addr → List UInt8

namespace Tapped

def hear (read : Option (Addr × List UInt8)) (w : Tapped) : Tapped :=
  match read with
  | none => w
  | some (m, bytes) =>
      { w with heard := Function.update w.heard m bytes, told := Function.update w.told m [] }

def tell (written : Option (Addr × List UInt8)) (w : Tapped) : Tapped :=
  match written with
  | none => w
  | some (rsp, bytes) => { w with told := Function.update w.told rsp (w.told rsp ++ bytes) }

def listen (event : ProxyEvent) (w : Tapped) : Tapped :=
  match event with
  | .clientRecv c choice sys fresh answer =>
      w.hear (heardBy (clientReceiver choice.pick sys c) fresh answer w.proxy)
  | .serverRecv s sys fresh answer => w.hear (heardBy (serverReceiver sys s) fresh answer w.proxy)
  | .clientSend c delOutput answer => w.tell (toldBy c delOutput answer w.proxy)
  | _ => w

end Tapped

/-- The buffer is one that the pool hands out, and a read of no bytes is not refused. -/
def Supplied : ProxyEvent → Prop
  | .clientRecv _ _ _ fresh answer | .serverRecv _ _ fresh answer =>
      fresh.FromPool ∧ (fresh.size = 0 → ∃ b, answer = .bytes b)
  | _ => True

/-- **The runs that mix nothing up, with what is read and written.** -/
def tappedRuns (rlim_cur : UInt64) : System Tapped ProxyEvent where
  init w := Start rlim_cur w.proxy ∧ w.heard = (fun _ => []) ∧ w.told = fun _ => []
  step w event w' := Safe w.proxy event ∧ Supplied event ∧ Step w.proxy event w'.proxy ∧
    w' = { w.listen event with proxy := w'.proxy }

/-! ### What the messages hold -/

/-- **What was read is there.** -/
structure Faithful (heard told : Addr → List UInt8) (p : Proxy) : Prop where
  free : ∀ m ∈ p.msg_pool.m_queue, (p.msg m).text = ([], 0)
  asking : ∀ c, p.Open c → ∀ m, (p.client c).m_rmsg = some m → (p.msg m).Blank
  answering : ∀ s m, (p.server s).m_rmsg = some m → (p.msg m).Blank
  waiting : ∀ s, ∀ m ∈ (p.server s).m_imsg_q, (p.msg m).Bears (heard m)
  linked : ∀ c, p.Open c → ∀ m ∈ (p.client c).m_omsg_q, ∀ r, (p.msg m).m_peer = some r →
    ∃ rest, told r ++ rest = heard r ∧ (p.msg r).Bears rest

/-- No queue leads to the message. -/
structure Unqueued (p : Proxy) (m : Addr) : Prop where
  free : m ∉ p.msg_pool.m_queue
  waiting : ∀ s, m ∉ (p.server s).m_imsg_q
  linked : ∀ c, p.Open c → ∀ x ∈ (p.client c).m_omsg_q, (p.msg x).m_peer ≠ some m

namespace Faithful

variable {heard told heard' told' : Addr → List UInt8} {p q : Proxy} {c s m : Addr}
  {req rsp : Addr → Prop}

/-- **Where nothing is read and nothing is taken**, the messages keep what they hold. -/
theorem moves (faithful : Faithful heard told p) (moves : Moves req rsp p q)
    (sound : q.books.Sound)
    (request : ∀ m, req m → (p.msg m).Bears (heard m) ∧ (p.msg m).m_peer = none ∧ ∀ x, ¬ rsp x)
    (response : ∀ m, rsp m → told m = [] ∧ (p.msg m).Bears (heard m) ∧
      ∀ c, p.Open c → m ∉ (p.client c).m_omsg_q) : Faithful heard told q := by
  obtain ⟨place, agrees⟩ := sound
  -- A message that is in use was not given back.
  have same {m : Addr} (used : place m ≠ .free) : (q.msg m).text = (p.msg m).text := by
    rcases moves.msgs.text m with ⟨same, -⟩ | ⟨given, -⟩
    · exact same
    · exact absurd (agrees.free m given).1 used
  refine ⟨fun m isFree => ?_, fun c isOpen m received => ?_, fun s m received => ?_,
    fun s m inside => ?_, fun c isOpen m inside r peer => ?_⟩
  · rcases moves.msgs.text m with ⟨same, queue⟩ | ⟨-, empty⟩
    · exact same.trans (faithful.free m (queue.mp isFree))
    · exact empty
  · have placed := (agrees.client c isOpen).asking m received
    exact (faithful.asking c (moves.still c isOpen) m (moves.asking c m received)).of_text
      (same (by simp [placed]))
  · have placed := (agrees.server s).answering m received
    exact (faithful.answering s m (moves.answering s m received)).of_text (same (by simp [placed]))
  · have placed := (agrees.server s).inside m (List.mem_append_left _ inside)
    refine NcMsg.Bears.of_text ?_ (same (by simp [placed]))
    rcases moves.imsg s m inside with old | new
    · exact faithful.waiting s m old
    · exact (request m new).1
  · have wasOpen := moves.still c isOpen
    have pair := agrees.answered isOpen inside peer
    have sameR := same (m := r) (by simp [pair.2.1])
    have old := moves.omsg c m inside
    rcases moves.msgs.peer m r peer with linked | isRsp | isRsp
    · rcases old with old | new
      · obtain ⟨rest, whole, bears⟩ := faithful.linked c wasOpen m old r linked
        exact ⟨rest, whole, bears.of_text sameR⟩
      · cases (request m new).2.1.symm.trans linked
    · rcases old with old | new
      · exact absurd old ((response m isRsp).2.2 c wasOpen)
      · exact absurd isRsp ((request m new).2.2 m)
    · obtain ⟨nothing, bears, -⟩ := response r isRsp
      exact ⟨heard r, by rw [nothing, List.nil_append], bears.of_text sameR⟩

/-- Nothing new at all. -/
theorem quiet (faithful : Faithful heard told p) (sound : q.books.Sound)
    (moves : Moves (fun _ => False) (fun _ => False) p q) : Faithful heard told q :=
  faithful.moves moves sound (fun _ => False.elim) fun _ => False.elim

/-- **A message that no queue leads to may get anything**, if it is not being received. -/
theorem write (faithful : Faithful heard told p) (unqueued : p.Unqueued m) {f : NcMsg → NcMsg}
    (peer : (f (p.msg m)).m_peer = (p.msg m).m_peer)
    (others : ∀ x ≠ m, heard' x = heard x ∧ told' x = told x)
    (current : (∃ c, p.Open c ∧ (p.client c).m_rmsg = some m) ∨ (∃ s, (p.server s).m_rmsg = some m) →
      (f (p.msg m)).Blank) : Faithful heard' told' (p.putMsg m f) := by
  have other {x : Addr} (different : x ≠ m) : (p.putMsg m f).msg x = p.msg x :=
    msg_putMsg_of_ne f p different
  refine ⟨fun x isFree => ?_, fun c isOpen x received => ?_, fun s x received => ?_,
    fun s x inside => ?_, fun c isOpen x inside r linked => ?_⟩
  · rw [other fun isM => unqueued.free (isM ▸ isFree)]
    exact faithful.free x isFree
  · by_cases isM : x = m
    · rw [isM, msg_putMsg]
      exact current (Or.inl ⟨c, isOpen, isM ▸ received⟩)
    · rw [other isM]
      exact faithful.asking c isOpen x received
  · by_cases isM : x = m
    · rw [isM, msg_putMsg]
      exact current (Or.inr ⟨s, isM ▸ received⟩)
    · rw [other isM]
      exact faithful.answering s x received
  · have isOther : x ≠ m := fun isM => unqueued.waiting s (isM ▸ inside)
    rw [other isOther, (others x isOther).1]
    exact faithful.waiting s x inside
  · have linked' : (p.msg x).m_peer = some r := by
      by_cases isM : x = m
      · rw [isM, msg_putMsg, peer] at linked
        exact isM ▸ linked
      · rwa [other isM] at linked
    have isOther : r ≠ m := fun isM => unqueued.linked c isOpen x inside (isM ▸ linked')
    rw [other isOther, (others r isOther).1, (others r isOther).2]
    exact faithful.linked c isOpen x inside r linked'

end Faithful

/-! ### A message that is received -/

/-- No connection receives the message. -/
def Unreceived (p : Proxy) (m : Addr) : Prop :=
  (∀ c, p.Open c → (p.client c).m_rmsg ≠ some m) ∧ ∀ s, (p.server s).m_rmsg ≠ some m

section Received

variable {p : Proxy} {m : Addr}

/-- A message that nobody refers to is in no queue. -/
theorem unqueued_of_loose (sound : p.books.Sound) (loose : p.books.Loose m)
    (alone : (p.msg m).m_peer = none) : p.Unqueued m ∧ p.Unreceived m := by
  obtain ⟨place, agrees⟩ := sound
  refine ⟨⟨loose.used, fun s inside => (loose.server s).2 (List.mem_append_left _ inside),
    fun c isOpen x inside linked => ?_⟩, fun c isOpen => (loose.client c isOpen).1,
    fun s => (loose.server s).1⟩
  have placed : place x ≠ .free := (agrees.client c isOpen).place_ne inside nofun fun _ => nofun
  have back := (agrees.pair (agrees.made_of_place placed) linked).1
  cases alone.symm.trans back

/-- Neither is one that is received. -/
theorem unqueued_of_place {place : Addr → Books.Place} {label : Books.Place}
    (agrees : p.books.Agrees place) (placed : place m = label) (free : label ≠ .free)
    (queued : ∀ s, label ≠ .queued s) (response : label ≠ .response) : p.Unqueued m := by
  refine ⟨fun isFree => ?_, fun s inside => ?_, fun c isOpen x inside linked => ?_⟩
  · exact free (placed.symm.trans (agrees.free m isFree).1)
  · exact queued s (placed.symm.trans ((agrees.server s).inside m (List.mem_append_left _ inside)))
  · exact response (placed.symm.trans (agrees.answered isOpen inside linked).2.1)

/-- **A message that is taken** has nothing in it, and nobody refers to it. -/
theorem Faithful.alloc {heard told : Addr → List UInt8} (faithful : Faithful heard told p)
    (sound : p.books.Sound) :
    Faithful heard told p.allocMsg.1 ∧ (p.allocMsg.1.msg p.allocMsg.2).text = ([], 0) ∧
      p.allocMsg.1.Unqueued p.allocMsg.2 := by
  obtain ⟨place, agrees⟩ := sound
  obtain ⟨books, next⟩ := books_allocMsg p
  obtain ⟨fetched, loose, alone⟩ := agrees.fetch
  rw [← books, ← next] at loose alone
  rw [← books] at fetched
  obtain ⟨unqueued, -⟩ := unqueued_of_loose ⟨place, fetched⟩ loose alone
  have empty : (p.allocMsg.1.msg p.allocMsg.2).text = ([], 0) := by
    show ((p.msg_pool.alloc NcMsg.new).1.mem (p.msg_pool.alloc NcMsg.new).2).text = _
    rw [NcObjectPool.mem_alloc]
    cases queue : p.msg_pool.m_queue with
    | nil => rfl
    | cons o rest => exact faithful.free o (queue ▸ List.mem_cons_self)
  have other {x : Addr} (different : x ≠ p.allocMsg.2) : p.allocMsg.1.msg x = p.msg x :=
    NcObjectPool.mem_alloc_of_ne NcMsg.new p.msg_pool different
  have left (x : Addr) (isFree : x ∈ p.allocMsg.1.msg_pool.m_queue) : x ∈ p.msg_pool.m_queue := by
    unfold allocMsg at isFree
    cases queue : p.msg_pool.m_queue with
    | nil =>
        rw [NcObjectPool.alloc_empty NcMsg.new queue] at isFree
        exact absurd (queue ▸ isFree) List.not_mem_nil
    | cons o rest =>
        rw [NcObjectPool.alloc_queued NcMsg.new queue] at isFree
        exact List.mem_cons_of_mem o isFree
  refine ⟨⟨fun x isFree => ?_, fun c isOpen x received => ?_, fun s x received => ?_,
    fun s x inside => ?_, fun c isOpen x inside r linked => ?_⟩, empty, unqueued⟩
  · rw [other fun isNew => unqueued.free (isNew ▸ isFree)]
    exact faithful.free x (left x isFree)
  · by_cases isNew : x = p.allocMsg.2
    · exact isNew ▸ NcMsg.blank_of_text empty
    · rw [other isNew]
      exact faithful.asking c isOpen x received
  · by_cases isNew : x = p.allocMsg.2
    · exact isNew ▸ NcMsg.blank_of_text empty
    · rw [other isNew]
      exact faithful.answering s x received
  · rw [other fun isNew => unqueued.waiting s (isNew ▸ inside)]
    exact faithful.waiting s x inside
  · have linked' : (p.msg x).m_peer = some r := by
      by_cases isNew : x = p.allocMsg.2
      · rw [isNew] at linked
        cases alone.symm.trans linked
      · rwa [other isNew] at linked
    rw [other fun isNew => unqueued.linked c isOpen x inside (isNew ▸ linked)]
    exact faithful.linked c isOpen x inside r linked'

/-- A client connection takes it. -/
theorem Faithful.takeClient {heard told : Addr → List UInt8} {c : Addr}
    (faithful : Faithful heard told p) (empty : (p.msg m).text = ([], 0)) :
    Faithful heard told (p.putClient c fun conn => { conn with m_rmsg := some m }) := by
  refine ⟨faithful.free, fun d isOpen x received => ?_, faithful.answering, faithful.waiting,
    fun d isOpen x inside => ?_⟩
  · by_cases isC : d = c
    · rw [isC, client_putClient] at received
      exact Option.some.inj received ▸ NcMsg.blank_of_text empty
    · rw [client_putClient_of_ne _ _ isC] at received
      exact faithful.asking d isOpen x received
  · by_cases isC : d = c
    · rw [isC, client_putClient] at inside
      exact faithful.linked d isOpen x (isC ▸ inside)
    · rw [client_putClient_of_ne _ _ isC] at inside
      exact faithful.linked d isOpen x inside

/-- So does a server connection. -/
theorem Faithful.takeServer {heard told : Addr → List UInt8} {s : Addr}
    (faithful : Faithful heard told p) (empty : (p.msg m).text = ([], 0)) :
    Faithful heard told (p.putServer s fun conn => { conn with m_rmsg := some m }) := by
  refine ⟨faithful.free, faithful.asking, fun t x received => ?_, fun t x inside => ?_,
    faithful.linked⟩
  · by_cases isS : t = s
    · rw [isS, server_putServer] at received
      exact Option.some.inj received ▸ NcMsg.blank_of_text empty
    · rw [server_putServer_of_ne _ _ isS] at received
      exact faithful.answering t x received
  · by_cases isS : t = s
    · rw [isS, server_putServer] at inside
      exact faithful.waiting t x (isS ▸ inside)
    · rw [server_putServer_of_ne _ _ isS] at inside
      exact faithful.waiting t x inside

end Received

/-- **Of a response that was linked, bytes are written.** -/
theorem Faithful.tell {heard told : Addr → List UInt8} {p : Proxy} {c pmsg rsp : Addr} {x : List UInt8}
    (faithful : Faithful heard told p) (sound : p.books.Sound) (isOpen : p.Open c)
    (inside : pmsg ∈ (p.client c).m_omsg_q) (peer : (p.msg pmsg).m_peer = some rsp) (n : Nat)
    (whole : told rsp ++ x = heard rsp) (bears : (p.msg rsp).Bears x) :
    Faithful heard (Function.update told rsp (told rsp ++ x.take n)) (p.putMsg rsp fun msg =>
      { msg with m_mbuf_queue := (NcConn.consume n (p.msg rsp).m_mbuf_queue).2.1 }) := by
  obtain ⟨place, agrees⟩ := sound
  have placed : place rsp = .response := (agrees.answered isOpen inside peer).2.1
  have other {y : Addr} (different : y ≠ rsp) : (p.putMsg rsp fun msg =>
      { msg with m_mbuf_queue := (NcConn.consume n (p.msg rsp).m_mbuf_queue).2.1 }).msg y = p.msg y :=
    msg_putMsg_of_ne _ p different
  refine ⟨fun y isFree => ?_, fun d isOpen y received => ?_, fun s y received => ?_,
    fun s y inside => ?_, fun d isOpen y inside r linked => ?_⟩
  · have isOther : y ≠ rsp := by
      rintro rfl
      cases placed.symm.trans (agrees.free y isFree).1
    rw [other isOther]
    exact faithful.free y isFree
  · have isOther : y ≠ rsp := by
      rintro rfl
      cases placed.symm.trans ((agrees.client d isOpen).asking y received)
    rw [other isOther]
    exact faithful.asking d isOpen y received
  · have isOther : y ≠ rsp := by
      rintro rfl
      cases placed.symm.trans ((agrees.server s).answering y received)
    rw [other isOther]
    exact faithful.answering s y received
  · have isOther : y ≠ rsp := by
      rintro rfl
      cases placed.symm.trans ((agrees.server s).inside y (List.mem_append_left _ inside))
    rw [other isOther]
    exact faithful.waiting s y inside
  · have linked' : (p.msg y).m_peer = some r := by
      by_cases isRsp : y = rsp
      · rw [isRsp, msg_putMsg] at linked
        rw [isRsp]
        exact linked
      · rwa [other isRsp] at linked
    by_cases isRsp : r = rsp
    · rw [isRsp, msg_putMsg, Function.update_self]
      refine ⟨x.drop n, ?_, (bears.consume n).1⟩
      rw [List.append_assoc, List.take_append_drop, whole]
    · rw [other isRsp, Function.update_of_ne isRsp]
      exact faithful.linked d isOpen y inside r linked'

end Proxy

end Nutcracker
