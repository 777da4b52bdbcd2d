/-
**Every message has its place.**

A message object is at one place at a time: free, received by one connection, in the queues of one
server connection, or linked. Only the queue of its client refers to a request besides.

* `Agrees` — the books agree with the places, and the tickets in the queues are what the ledger leaves
  open.
* `Sound.turn`, `Sound.within` — **every turn keeps the books sound**, and so do all turns.
* `Agrees.enter`, `Agrees.leave` — so do a client that comes with nothing in its queues, and one that
  goes.
-/

import Nutcracker.Proxy.Books

namespace Nutcracker

namespace Books

/-! ### Places -/

/-- Where a message is: free, with no connection, being received, in the queues of a server
connection, or the response to a request. -/
inductive Place
  | free
  | settled
  | asking (c : Addr)
  | answering (s : Addr)
  | queued (s : Addr)
  | response

/-- A request that is with no server connection any more, and the response it was linked to. -/
def Pair (l : Ledger) (place : Addr → Place) (m r : Addr) : Prop :=
  place m = .settled ∧ place r = .response ∧ l.link r = l.ticket m

/-- The connection of a client: what the ledger leaves open is in its queue. -/
structure Asks (l : Ledger) (place : Addr → Place) (c : Addr) (desk : Desk) : Prop where
  queue : l.requests c = l.completed c ++ desk.omsg.map l.ticket
  request : ∀ m ∈ desk.omsg, place m = .settled ∨ ∃ s, place m = .queued s
  asking : ∀ m, desk.rmsg = some m → place m = .asking c
  imsg : desk.imsg = []
  smsg : desk.smsg = none

/-- The connection of a client that went. -/
structure Rests (desk : Desk) : Prop where
  rmsg : desk.rmsg = none
  imsg : desk.imsg = []
  smsg : desk.smsg = none

/-- A server connection: what was moved and not answered is in its second queue. -/
structure Serves (l : Ledger) (place : Addr → Place) (s : Addr) (desk : Desk) : Prop where
  queue : l.moved s = l.answered s ++ desk.omsg.map l.ticket
  inside : ∀ m ∈ desk.imsg ++ desk.omsg, place m = .queued s
  distinct : (desk.imsg ++ desk.omsg).Nodup
  answering : ∀ m, desk.rmsg = some m → place m = .answering s
  smsg : desk.smsg = none

/-- **The books agree with the places.** -/
structure Agrees (b : Books) (place : Addr → Place) : Prop where
  nodup : b.free.Nodup
  free : ∀ m ∈ b.free, place m = .free ∧ m < b.made
  unmade : ∀ m, b.made ≤ m → place m = .free
  plain : ∀ m < b.made, b.plain m = true
  peer : ∀ m < b.made, ∀ r, b.peer m = some r →
    b.peer r = some m ∧ (Pair b.ledger place m r ∨ Pair b.ledger place r m)
  client : ∀ c ∈ b.live, Asks b.ledger place c (b.client c)
  idle : ∀ c ∈ b.idle, Rests (b.client c)
  apart : ∀ c ∈ b.live, c ∉ b.idle
  server : ∀ s, Serves b.ledger place s (b.server s)
  unborn : ∀ s, b.servers ≤ s → (b.server s).omsg = []
  spare : b.spare = []
  numbered : b.ledger.Numbered

/-! ### Frames -/

section Frames

variable {l l' : Ledger} {place place' : Addr → Place} {c s : Addr} {desk : Desk}

theorem map_ticket {ticket ticket' : Addr → Nat} {queue : List Addr}
    (same : ∀ m ∈ queue, ticket' m = ticket m) : queue.map ticket' = queue.map ticket :=
  List.map_congr_left same

/-- A request in the queue of its client is with no server connection, or in the queues of one. -/
theorem Asks.place_ne {m : Addr} {label : Place} (asks : Asks l place c desk) (inside : m ∈ desk.omsg)
    (settled : label ≠ .settled) (queued : ∀ s, label ≠ .queued s) : place m ≠ label := by
  rintro rfl
  rcases asks.request m inside with isSettled | ⟨s, isQueued⟩
  · exact settled isSettled
  · exact queued s isQueued

theorem Asks.not_mem {m : Addr} {label : Place} (asks : Asks l place c desk) (placed : place m = label)
    (settled : label ≠ .settled) (queued : ∀ s, label ≠ .queued s) : m ∉ desk.omsg :=
  fun inside => asks.place_ne inside settled queued placed

theorem Asks.frame (asks : Asks l place c desk) (requests : l'.requests c = l.requests c)
    (completed : l'.completed c = l.completed c)
    (ticket : ∀ m ∈ desk.omsg, l'.ticket m = l.ticket m)
    (same : ∀ m, m ∈ desk.omsg ∨ desk.rmsg = some m → place' m = place m) :
    Asks l' place' c desk where
  queue := by rw [requests, completed, map_ticket ticket, asks.queue]
  request m inside := by
    rw [same m (Or.inl inside)]
    exact asks.request m inside
  asking m received := by rw [same m (Or.inr received), asks.asking m received]
  imsg := asks.imsg
  smsg := asks.smsg

theorem Serves.frame (serves : Serves l place s desk) (moved : l'.moved s = l.moved s)
    (answered : l'.answered s = l.answered s)
    (ticket : ∀ m ∈ desk.omsg, l'.ticket m = l.ticket m)
    (same : ∀ m, m ∈ desk.imsg ++ desk.omsg ∨ desk.rmsg = some m → place' m = place m) :
    Serves l' place' s desk where
  queue := by rw [moved, answered, map_ticket ticket, serves.queue]
  inside m inside := by rw [same m (Or.inl inside), serves.inside m inside]
  distinct := serves.distinct
  answering m received := by rw [same m (Or.inr received), serves.answering m received]
  smsg := serves.smsg

/-- The response a request is linked to does not depend on the places of others. -/
theorem Pair.frame {m r : Addr} (pair : Pair l place m r) (link : l'.link r = l.link r)
    (ticket : l'.ticket m = l.ticket m) (request : place' m = place m)
    (response : place' r = place r) : Pair l' place' m r := by
  refine ⟨?_, ?_, ?_⟩
  · rw [request, pair.1]
  · rw [response, pair.2.1]
  · rw [link, ticket, pair.2.2]

end Frames

namespace Agrees

variable {b : Books} {place : Addr → Place} {c s m r : Addr} {rest : List Addr}

/-- A message that is not linked has no peer. -/
theorem alone (agrees : b.Agrees place) (made : m < b.made) (request : place m ≠ .settled)
    (response : place m ≠ .response) : b.peer m = none := by
  cases peer : b.peer m with
  | none => rfl
  | some r =>
      rcases (agrees.peer m made r peer).2 with pair | pair
      · exact absurd pair.1 request
      · exact absurd pair.2.1 response

/-- A message that is not free was made. -/
theorem made_of_place (agrees : b.Agrees place) (placed : place m ≠ .free) : m < b.made := by
  by_contra unmade
  exact placed (agrees.unmade m (Nat.le_of_not_lt unmade))

theorem not_free (agrees : b.Agrees place) (placed : place m ≠ .free) : m ∉ b.free :=
  fun inside => placed (agrees.free m inside).1

/-- Only its client refers to a request in a queue. -/
theorem client_unique (agrees : b.Agrees place) {d : Addr} (isLive : c ∈ b.live)
    (isLive' : d ∈ b.live) (inside : m ∈ (b.client c).omsg) (inside' : m ∈ (b.client d).omsg) :
    c = d := by
  have ticket {e : Addr} (isLive : e ∈ b.live) (inside : m ∈ (b.client e).omsg) :
      b.ledger.ticket m ∈ b.ledger.requests e := by
    rw [(agrees.client e isLive).queue]
    exact List.mem_append_right _ (List.mem_map_of_mem inside)
  exact agrees.numbered.apart c d _ (ticket isLive inside) (ticket isLive' inside')

/-- A queue holds no request twice. -/
theorem client_distinct (agrees : b.Agrees place) (isLive : c ∈ b.live) :
    (b.client c).omsg.Nodup := by
  have distinct := agrees.numbered.distinct c
  rw [(agrees.client c isLive).queue] at distinct
  exact (List.nodup_append.mp distinct).2.1.of_map

/-! ### Changing one thing -/

/-- **A message that no connection refers to may be anywhere.** -/
theorem relabel (agrees : b.Agrees place) (loose : b.Loose m) (alone : b.peer m = none)
    (label : Place) : b.Agrees (Function.update place m label) := by
  have other {x : Addr} (different : x ≠ m) : Function.update place m label x = place x :=
    Function.update_of_ne different ..
  refine { agrees with free := ?_, unmade := ?_, peer := ?_, client := ?_, server := ?_ }
  · intro x inside
    rw [other fun same => loose.used (same ▸ inside)]
    exact agrees.free x inside
  · intro x unmade
    rw [other fun same => absurd loose.made (Nat.not_lt_of_le (same ▸ unmade))]
    exact agrees.unmade x unmade
  · intro x made r peer
    obtain ⟨back, pair⟩ := agrees.peer x made r peer
    have notX : x ≠ m := by
      rintro rfl
      cases alone.symm.trans peer
    have notR : r ≠ m := by
      rintro rfl
      cases alone.symm.trans back
    exact ⟨back, pair.imp (fun pair => pair.frame rfl rfl (other notX) (other notR))
      fun pair => pair.frame rfl rfl (other notR) (other notX)⟩
  · intro c isLive
    refine (agrees.client c isLive).frame rfl rfl (fun _ _ => rfl) fun x refers => other ?_
    rintro rfl
    exact refers.elim (loose.client c isLive).2 (loose.client c isLive).1
  · intro s
    refine (agrees.server s).frame rfl rfl (fun _ _ => rfl) fun x refers => other ?_
    rintro rfl
    exact refers.elim (loose.server s).2 (loose.server s).1

theorem setClient (agrees : b.Agrees place) {desk : Desk}
    (asks : c ∈ b.live → Asks b.ledger place c desk) (rests : c ∈ b.idle → Rests desk) :
    (b.setClient c desk).Agrees place := by
  refine { agrees with client := ?_, idle := ?_ }
  · intro d isLive
    show Asks b.ledger place d (Function.update b.client c desk d)
    by_cases isC : d = c
    · rw [isC, Function.update_self]
      exact asks (isC ▸ isLive)
    · rw [Function.update_of_ne isC]
      exact agrees.client d isLive
  · intro d isIdle
    show Rests (Function.update b.client c desk d)
    by_cases isC : d = c
    · rw [isC, Function.update_self]
      exact rests (isC ▸ isIdle)
    · rw [Function.update_of_ne isC]
      exact agrees.idle d isIdle

theorem setServer (agrees : b.Agrees place) {desk : Desk} (serves : Serves b.ledger place s desk)
    (unborn : b.servers ≤ s → desk.omsg = []) : (b.setServer s desk).Agrees place := by
  refine { agrees with server := ?_, unborn := ?_ }
  · intro t
    show Serves b.ledger place t (Function.update b.server s desk t)
    by_cases isS : t = s
    · rw [isS, Function.update_self]
      exact serves
    · rw [Function.update_of_ne isS]
      exact agrees.server t
  · intro t old
    show (Function.update b.server s desk t).omsg = []
    by_cases isS : t = s
    · rw [isS, Function.update_self]
      exact unborn (isS ▸ old)
    · rw [Function.update_of_ne isS]
      exact agrees.unborn t old

/-! ### Taking a message -/

/-- **Who refers to a message that is in no queue**: at most the connection that receives it. -/
theorem unused {label : Place} (agrees : b.Agrees place) (placed : place m = label)
    (settled : label ≠ .settled) (queued : ∀ s, label ≠ .queued s)
    (asking : ∀ c, label = .asking c → (b.client c).rmsg ≠ some m)
    (answering : ∀ s, label = .answering s → (b.server s).rmsg ≠ some m) :
    (∀ c ∈ b.live, (b.client c).rmsg ≠ some m ∧ m ∉ (b.client c).omsg) ∧
      ∀ s, (b.server s).rmsg ≠ some m ∧ m ∉ (b.server s).imsg ++ (b.server s).omsg := by
  refine ⟨fun c isLive => ⟨fun received => ?_, (agrees.client c isLive).not_mem placed settled queued⟩,
    fun s => ⟨fun received => ?_, fun inside => ?_⟩⟩
  · exact asking c (placed.symm.trans ((agrees.client c isLive).asking m received)) received
  · exact answering s (placed.symm.trans ((agrees.server s).answering m received)) received
  · exact queued s (placed.symm.trans ((agrees.server s).inside m inside))

/-- No connection refers to a message in no place. -/
theorem unused_of_free (agrees : b.Agrees place) (placed : place m = .free) :
    (∀ c ∈ b.live, (b.client c).rmsg ≠ some m ∧ m ∉ (b.client c).omsg) ∧
      ∀ s, (b.server s).rmsg ≠ some m ∧ m ∉ (b.server s).imsg ++ (b.server s).omsg :=
  agrees.unused placed nofun (fun _ => nofun) (fun _ => nofun) fun _ => nofun

/-- **The message that is taken is free for any use.** -/
theorem fetch (agrees : b.Agrees place) :
    b.fetch.Agrees place ∧ b.fetch.Loose b.next ∧ b.fetch.peer b.next = none := by
  cases queue : b.free with
  | cons m rest =>
      have first : m ∈ b.free := queue ▸ List.mem_cons_self
      obtain ⟨placed, made⟩ := agrees.free m first
      have distinct := List.nodup_cons.mp (queue ▸ agrees.nodup)
      obtain ⟨taken, next⟩ := fetch_cons queue
      have unused := agrees.unused_of_free placed
      rw [taken, next]
      refine ⟨{ agrees with nodup := distinct.2, free := fun x inside => ?_ },
        ⟨made, distinct.1, unused.1, unused.2⟩, ?_⟩
      · exact agrees.free x (queue ▸ List.mem_cons_of_mem m inside)
      · exact agrees.alone made (by simp [placed]) (by simp [placed])
  | nil =>
      have placed := agrees.unmade b.made (Nat.le_refl _)
      obtain ⟨taken, next⟩ := fetch_nil queue
      have old {x : Addr} (below : x < b.made + 1) (other : x ≠ b.made) : x < b.made :=
        Nat.lt_of_le_of_ne (Nat.lt_succ_iff.mp below) other
      have unused := agrees.unused_of_free placed
      rw [taken, next]
      refine ⟨{ agrees with
          free := fun x inside => absurd (queue ▸ inside) List.not_mem_nil
          unmade := fun x unmade => agrees.unmade x (Nat.le_of_succ_le unmade)
          plain := fun x made => ?_
          peer := fun x made r peer => ?_ },
        ⟨Nat.lt_succ_self _, queue ▸ List.not_mem_nil, unused.1, unused.2⟩,
        Function.update_self ..⟩
      · show Function.update b.plain b.made true x = true
        by_cases new : x = b.made
        · rw [new, Function.update_self]
        · rw [Function.update_of_ne new]
          exact agrees.plain x (old made new)
      · change Function.update b.peer b.made none x = some r at peer
        show Function.update b.peer b.made none r = some x ∧ _
        by_cases new : x = b.made
        · rw [new, Function.update_self] at peer
          cases peer
        · rw [Function.update_of_ne new] at peer
          obtain ⟨back, pair⟩ := agrees.peer x (old made new) r peer
          have notNew : r ≠ b.made := by
            rintro rfl
            rcases pair with pair | pair
            · cases placed.symm.trans pair.2.1
            · cases placed.symm.trans pair.1
          rw [Function.update_of_ne notNew]
          exact ⟨back, pair⟩

/-- A client connection takes a message to receive a request. -/
theorem take (agrees : b.Agrees place) (isLive : c ∈ b.live) :
    (b.fetch.setClient c { b.client c with rmsg := some b.next }).Agrees
      (Function.update place b.next (.asking c)) := by
  obtain ⟨fetched, loose, alone⟩ := agrees.fetch
  obtain ⟨live, idle, client, -⟩ := fetch_frame b
  have placed := fetched.relabel loose alone (.asking c)
  have asks := placed.client c (live ▸ isLive)
  rw [client] at asks
  refine placed.setClient (fun _ => { asks with asking := fun m received => ?_ }) fun isIdle => ?_
  · rw [← Option.some.inj received]
    exact Function.update_self ..
  · exact absurd (idle ▸ isIdle) (agrees.apart c isLive)

/-- A server connection takes a message to receive a response. -/
theorem takeServer (agrees : b.Agrees place) :
    (b.fetch.setServer s { b.server s with rmsg := some b.next }).Agrees
      (Function.update place b.next (.answering s)) := by
  obtain ⟨fetched, loose, alone⟩ := agrees.fetch
  obtain ⟨-, -, -, servers, server, -⟩ := fetch_frame b
  have placed := fetched.relabel loose alone (.answering s)
  have serves := placed.server s
  rw [server] at serves
  refine placed.setServer { serves with answering := fun m received => ?_ } fun old => ?_
  · rw [← Option.some.inj received]
    exact Function.update_self ..
  · exact agrees.unborn s (servers ▸ old)

/-! ### Putting a message down, and giving it back -/

theorem putDown (agrees : b.Agrees place) : (b.putDown c).Agrees place :=
  agrees.setClient (fun isLive => { agrees.client c isLive with asking := fun _ => nofun })
    fun isIdle => { agrees.idle c isIdle with rmsg := rfl }

theorem putDownServer (agrees : b.Agrees place) : (b.putDownServer s).Agrees place :=
  agrees.setServer { agrees.server s with answering := fun _ => nofun } (agrees.unborn s)

/-- The two of a pair. -/
theorem pair (agrees : b.Agrees place) (made : m < b.made) (peer : b.peer m = some r) :
    b.peer r = some m ∧ m ≠ r := by
  obtain ⟨back, pair⟩ := agrees.peer m made r peer
  refine ⟨back, ?_⟩
  rintro rfl
  rcases pair with pair | pair
  · cases pair.1.symm.trans pair.2.1
  · cases pair.1.symm.trans pair.2.1

/-- Both messages of a pair lose their peer. -/
theorem unlink (agrees : b.Agrees place) (made : m < b.made) (peer : b.peer m = some r) :
    ((b.setPeer m none).setPeer r none).Agrees place := by
  have back := (agrees.pair made peer).1
  refine { agrees with peer := fun x below y linked => ?_ }
  change Function.update (Function.update b.peer m none) r none x = some y at linked
  show Function.update (Function.update b.peer m none) r none y = some x ∧ _
  have notR : x ≠ r := by
    rintro rfl
    rw [Function.update_self] at linked
    cases linked
  rw [Function.update_of_ne notR] at linked
  have notM : x ≠ m := by
    rintro rfl
    rw [Function.update_self] at linked
    cases linked
  rw [Function.update_of_ne notM] at linked
  obtain ⟨old, pair⟩ := agrees.peer x below y linked
  have notR' : y ≠ r := by
    rintro rfl
    exact notM (Option.some.inj (old.symm.trans back))
  have notM' : y ≠ m := by
    rintro rfl
    exact notR (Option.some.inj (old.symm.trans peer))
  rw [Function.update_of_ne notR', Function.update_of_ne notM']
  exact ⟨old, pair⟩

/-- A message goes back to the free ones. -/
theorem release (agrees : b.Agrees place) (loose : b.Loose m) (alone : b.peer m = none) :
    (b.release m).Agrees (Function.update place m .free) := by
  have placed := agrees.relabel loose alone .free
  have same : Function.update b.peer m none = b.peer := by
    rw [← alone, Function.update_eq_self]
  unfold Books.release Books.setPeer
  rw [same]
  refine { placed with nodup := ?_, free := fun x inside => ?_ }
  · show (b.free ++ [m]).Nodup
    rw [List.nodup_append]
    refine ⟨agrees.nodup, List.nodup_singleton m, fun x inside y single => ?_⟩
    rw [List.mem_singleton.mp single]
    exact fun same => loose.used (same ▸ inside)
  · rcases List.mem_append.mp inside with old | new
    · exact placed.free x old
    · rw [List.mem_singleton.mp new]
      exact ⟨Function.update_self .., loose.made⟩

/-- **Nobody refers to a message: it goes back to the free ones, and its peer too.** -/
theorem discard (agrees : b.Agrees place) (loose : b.Loose m)
    (looseR : ∀ r, b.peer m = some r → b.Loose r) :
    ∃ place', (b.discard m).Agrees place' := by
  unfold Books.discard
  cases peer : b.peer m with
  | none => exact ⟨_, agrees.release loose peer⟩
  | some r =>
      have unlinked := agrees.unlink loose.made peer
      have distinct := (agrees.pair loose.made peer).2
      obtain ⟨made, used, client, server⟩ := looseR r peer
      have released := unlinked.release ⟨made, used, client, server⟩
        (show Function.update (Function.update b.peer m none) r none r = none from
          Function.update_self ..)
      refine ⟨_, released.release ⟨loose.made, fun inside => ?_, loose.client, loose.server⟩ ?_⟩
      · rcases List.mem_append.mp inside with old | new
        · exact loose.used old
        · exact distinct (List.mem_singleton.mp new)
      · show Function.update (Function.update (Function.update b.peer m none) r none) r none m = none
        rw [Function.update_of_ne distinct, Function.update_of_ne distinct, Function.update_self]

/-! ### Messages that nobody refers to -/

/-- A message that was received, or is a response, and that no connection receives. -/
theorem loose {label : Place} (agrees : b.Agrees place) (placed : place m = label)
    (free : label ≠ .free) (settled : label ≠ .settled) (queued : ∀ s, label ≠ .queued s)
    (asking : ∀ c, label = .asking c → (b.client c).rmsg ≠ some m)
    (answering : ∀ s, label = .answering s → (b.server s).rmsg ≠ some m) : b.Loose m := by
  have notFree : place m ≠ .free := by
    rw [placed]
    exact free
  obtain ⟨client, server⟩ := agrees.unused placed settled queued asking answering
  exact ⟨agrees.made_of_place notFree, agrees.not_free notFree, client, server⟩

/-- A request that was received is not in a queue, nor with another connection. -/
theorem loose_putDown (agrees : b.Agrees place) (isLive : c ∈ b.live)
    (received : (b.client c).rmsg = some m) : (b.putDown c).Loose m ∧ b.peer m = none := by
  have placed := (agrees.client c isLive).asking m received
  have down (d : Addr) (same : Place.asking c = .asking d) : ((b.putDown c).client d).rmsg ≠ some m := by
    cases same
    show (Function.update b.client c _ c).rmsg ≠ some m
    rw [Function.update_self]
    nofun
  have loose := agrees.putDown.loose placed nofun nofun (fun _ => nofun) down fun _ => nofun
  exact ⟨loose, agrees.alone loose.made (by simp [placed]) (by simp [placed])⟩

/-- Neither is a response that was received. -/
theorem loose_putDownServer (agrees : b.Agrees place) (received : (b.server s).rmsg = some m) :
    (b.putDownServer s).Loose m ∧ b.peer m = none := by
  have placed := (agrees.server s).answering m received
  have down (t : Addr) (same : Place.answering s = .answering t) :
      ((b.putDownServer s).server t).rmsg ≠ some m := by
    cases same
    show (Function.update b.server s _ s).rmsg ≠ some m
    rw [Function.update_self]
    nofun
  have loose := agrees.putDownServer.loose placed nofun nofun (fun _ => nofun) (fun _ => nofun) down
  exact ⟨loose, agrees.alone loose.made (by simp [placed]) (by simp [placed])⟩

/-! ### Requests -/

/-- A request that nobody refers to is put in the queue of its client, and gets a ticket. -/
theorem read (agrees : b.Agrees place) (isLive : c ∈ b.live) (alone : b.peer m = none)
    (outside : ∀ d ∈ b.live, m ∉ (b.client d).omsg) (waiting : ∀ s, m ∉ (b.server s).omsg)
    (placed : place m = .settled ∨ ∃ s, place m = .queued s) :
    ((b.setClient c { b.client c with omsg := (b.client c).omsg ++ [m] }).note
      (.read c m)).Agrees place := by
  have ticket {queue : List Addr} (apart : m ∉ queue) (x : Addr) (inside : x ∈ queue) :
      (b.ledger.note (.read c m)).ticket x = b.ledger.ticket x := by
    refine Function.update_of_ne ?_ ..
    rintro rfl
    exact apart inside
  refine { agrees with
    client := ?_, idle := ?_, peer := ?_, server := ?_, numbered := agrees.numbered.note (.read c m) }
  · intro x made r peer
    obtain ⟨back, pair⟩ := agrees.peer x made r peer
    have notX : x ≠ m := by
      rintro rfl
      cases alone.symm.trans peer
    have notR : r ≠ m := by
      rintro rfl
      cases alone.symm.trans back
    exact ⟨back, pair.imp
      (fun pair => pair.frame rfl (Function.update_of_ne notX ..) rfl rfl)
      fun pair => pair.frame rfl (Function.update_of_ne notR ..) rfl rfl⟩
  · intro d isLive'
    show Asks (b.ledger.note (.read c m)) place d (Function.update b.client c _ d)
    by_cases isC : d = c
    · have asks := agrees.client c isLive
      rw [isC, Function.update_self]
      refine { asks with queue := ?_, request := fun x inside => ?_ }
      · show Ledger.enter c b.ledger.reads b.ledger.requests c = _
        rw [Ledger.enter_self, asks.queue, List.map_append, map_ticket (ticket (outside c isLive)),
          List.append_assoc]
        show _ = b.ledger.completed c ++ (_ ++ [Function.update b.ledger.ticket m b.ledger.reads m])
        rw [Function.update_self]
      · rcases List.mem_append.mp inside with old | new
        · exact asks.request x old
        · rw [List.mem_singleton.mp new]
          exact placed
    · rw [Function.update_of_ne isC]
      exact (agrees.client d isLive').frame (Ledger.enter_of_ne _ _ isC) rfl
        (ticket (outside d isLive')) fun _ _ => rfl
  · intro d isIdle
    show Rests (Function.update b.client c _ d)
    have notC : d ≠ c := by
      rintro rfl
      exact agrees.apart d isLive isIdle
    rw [Function.update_of_ne notC]
    exact agrees.idle d isIdle
  · intro s
    exact (agrees.server s).frame rfl rfl (ticket (waiting s)) fun _ _ => rfl

/-- A request that no connection refers to goes to a server connection. -/
theorem push (agrees : b.Agrees place) (outside : m ∉ (b.server s).imsg ++ (b.server s).omsg)
    (placed : place m = .queued s) :
    (b.setServer s { b.server s with imsg := (b.server s).imsg ++ [m] }).Agrees place := by
  have serves := agrees.server s
  obtain ⟨outIn, outOut⟩ := not_or.mp (mt List.mem_append.mpr outside)
  refine agrees.setServer { serves with inside := fun x inside => ?_, distinct := ?_ }
    (agrees.unborn s)
  · have either : x ∈ (b.server s).imsg ++ (b.server s).omsg ∨ x = m := by
      grind
    rcases either with old | rfl
    · exact serves.inside x old
    · exact placed
  · have distinct := serves.distinct
    grind

/-- **A request is read.** -/
theorem requested (agrees : b.Agrees place) {dest : Ptr} (isLive : c ∈ b.live)
    (received : (b.client c).rmsg = some m) : ∃ place', (b.request c m dest).Agrees place' := by
  obtain ⟨loose, alone⟩ := agrees.loose_putDown isLive received
  have outside (d : Addr) (isLive : d ∈ b.live) := (loose.client d isLive).2
  have waiting (s : Addr) := (loose.server s).2
  have start : (b.putDown c).client c = { b.client c with rmsg := none } := Function.update_self ..
  have push_eq : (b.putDown c).setClient c
      { (b.putDown c).client c with omsg := ((b.putDown c).client c).omsg ++ [m] } =
      b.setClient c { b.client c with rmsg := none, omsg := (b.client c).omsg ++ [m] } := by
    rw [start]
    unfold Books.putDown Books.setClient
    rw [Function.update_idem]
  have placed (label : Place) : (b.putDown c).Agrees (Function.update place m label) :=
    agrees.putDown.relabel loose alone label
  cases dest with
  | none =>
      have read := (placed .settled).read isLive alone outside
        (fun s inside => waiting s (List.mem_append_right _ inside))
        (Or.inl (Function.update_self ..))
      rw [push_eq] at read
      exact ⟨_, read⟩
  | some s =>
      have read := (placed (.queued s)).read isLive alone outside
        (fun s inside => waiting s (List.mem_append_right _ inside))
        (Or.inr ⟨s, Function.update_self ..⟩)
      rw [push_eq] at read
      exact ⟨_, read.push (waiting s) (Function.update_self ..)⟩

/-- **A request is moved to the second queue.** -/
theorem move (agrees : b.Agrees place) (born : s < b.servers) (inside : m ∈ (b.server s).imsg) :
    (b.move s m).Agrees place := by
  have serves := agrees.server s
  have distinct := List.nodup_append.mp serves.distinct
  refine { agrees with
    client := fun c isLive => (agrees.client c isLive).frame rfl rfl (fun _ _ => rfl) fun _ _ => rfl
    server := fun t => ?_, unborn := fun t old => ?_, numbered := agrees.numbered.note (.moved s m) }
  · show Serves (b.ledger.note (.moved s m)) place t (Function.update b.server s _ t)
    by_cases isS : t = s
    · rw [isS, Function.update_self]
      refine ⟨?_, fun x member => ?_, ?_, serves.answering, serves.smsg⟩
      · show Ledger.enter s (b.ledger.ticket m) b.ledger.moved s = _
        rw [Ledger.enter_self, serves.queue, List.map_append, List.append_assoc]
        rfl
      · refine serves.inside x (List.mem_append.mpr ?_)
        rcases List.mem_append.mp member with first | second
        · exact Or.inl (NcQueue.mem_remove.mp first).1
        · rcases List.mem_append.mp second with old | new
          · exact Or.inr old
          · exact Or.inl (List.mem_singleton.mp new ▸ inside)
      · rw [List.nodup_append]
        refine ⟨distinct.1.filter _, ?_, fun x first y second => ?_⟩
        · rw [List.nodup_append]
          refine ⟨distinct.2.1, List.nodup_singleton m, fun x old y new => ?_⟩
          rw [List.mem_singleton.mp new]
          exact fun same => distinct.2.2 m inside x old same.symm
        · have first := NcQueue.mem_remove.mp first
          rcases List.mem_append.mp second with old | new
          · exact distinct.2.2 x first.1 y old
          · rw [List.mem_singleton.mp new]
            exact first.2
    · rw [Function.update_of_ne isS]
      exact (agrees.server t).frame (Ledger.enter_of_ne _ _ isS) rfl (fun _ _ => rfl) fun _ _ => rfl
  · show (Function.update b.server s _ t).omsg = []
    have notS : t ≠ s := by
      rintro rfl
      exact absurd born (Nat.not_lt_of_le old)
    rw [Function.update_of_ne notS]
    exact agrees.unborn t old

/-! ### Responses -/

/-- A response and the first request of the queue, and the places when they are linked. -/
structure Links (b : Books) (place place' : Addr → Place) (s m r : Addr) (rest : List Addr) :
    Prop where
  queue : (b.server s).omsg = m :: rest
  request : place m = .queued s
  response : place r = .answering s
  settled : place' m = .settled
  linked : place' r = .response
  other : ∀ x, x ≠ m → x ≠ r → place' x = place x

namespace Links

variable {place' : Addr → Place}

theorem distinct (links : Links b place place' s m r rest) : m ≠ r := by
  rintro rfl
  cases links.request.symm.trans links.response

/-- The messages in other places stay there. -/
theorem elsewhere (links : Links b place place' s m r rest) {x : Addr} (request : place x ≠ .queued s)
    (response : place x ≠ .answering s) : place' x = place x :=
  links.other x (fun same => request (same ▸ links.request))
    fun same => response (same ▸ links.response)

/-- Neither had a peer. -/
theorem alone (links : Links b place place' s m r rest) (agrees : b.Agrees place) :
    b.peer m = none ∧ b.peer r = none := by
  have request := links.request
  have response := links.response
  exact ⟨agrees.alone (agrees.made_of_place (by simp [request])) (by simp [request])
      (by simp [request]),
    agrees.alone (agrees.made_of_place (by simp [response])) (by simp [response])
      (by simp [response])⟩

theorem peer (links : Links b place place' s m r rest) (agrees : b.Agrees place) (x : Addr)
    (made : x < b.made) (y : Addr) (linked : (b.answer s r m).peer x = some y) :
    (b.answer s r m).peer y = some x ∧
      (Pair (b.answer s r m).ledger place' x y ∨ Pair (b.answer s r m).ledger place' y x) := by
  obtain ⟨aloneM, aloneR⟩ := links.alone agrees
  have pair : Pair (b.answer s r m).ledger place' m r :=
    ⟨links.settled, links.linked, Function.update_self ..⟩
  change Function.update (Function.update b.peer m (some r)) r (some m) x = some y at linked
  show Function.update (Function.update b.peer m (some r)) r (some m) y = some x ∧ _
  by_cases isR : x = r
  · rw [isR, Function.update_self] at linked
    rw [isR, ← Option.some.inj linked, Function.update_of_ne links.distinct, Function.update_self]
    exact ⟨rfl, Or.inr pair⟩
  rw [Function.update_of_ne isR] at linked
  by_cases isM : x = m
  · rw [isM, Function.update_self] at linked
    rw [isM, ← Option.some.inj linked, Function.update_self]
    exact ⟨rfl, Or.inl pair⟩
  rw [Function.update_of_ne isM] at linked
  obtain ⟨back, pair⟩ := agrees.peer x made y linked
  have notR : y ≠ r := by
    rintro rfl
    cases aloneR.symm.trans back
  have notM : y ≠ m := by
    rintro rfl
    cases aloneM.symm.trans back
  have same := links.other x isM isR
  have same' := links.other y notM notR
  rw [Function.update_of_ne notR, Function.update_of_ne notM]
  exact ⟨back, pair.imp (fun pair => pair.frame (Function.update_of_ne notR ..) rfl same same')
    fun pair => pair.frame (Function.update_of_ne isR ..) rfl same' same⟩

theorem client (links : Links b place place' s m r rest) (asks : Asks b.ledger place c (b.client c)) :
    Asks (b.answer s r m).ledger place' c (b.client c) := by
  refine { asks with queue := asks.queue, request := fun x inside => ?_, asking := fun x received => ?_ }
  · by_cases isM : x = m
    · exact Or.inl (isM ▸ links.settled)
    · have notR : x ≠ r := by
        rintro rfl
        exact asks.not_mem links.response nofun (fun _ => nofun) inside
      rw [links.other x isM notR]
      exact asks.request x inside
  · have placed := asks.asking x received
    rw [links.elsewhere (by simp [placed]) (by simp [placed])]
    exact placed

/-- The server connection whose queue gets shorter. -/
theorem server (links : Links b place place' s m r rest)
    (serves : Serves b.ledger place s (b.server s)) :
    Serves (b.answer s r m).ledger place' s
      { b.server s with rmsg := none, omsg := (b.server s).omsg.tail } := by
  have left := serves.distinct
  rw [links.queue, List.nodup_middle, List.nodup_cons] at left
  refine ⟨?_, fun x inside => ?_, ?_, fun _ => nofun, serves.smsg⟩
  · show b.ledger.moved s = Ledger.enter s (b.ledger.ticket m) b.ledger.answered s ++ _
    rw [Ledger.enter_self, serves.queue, links.queue, List.append_assoc]
    rfl
  · change x ∈ (b.server s).imsg ++ (b.server s).omsg.tail at inside
    rw [links.queue, List.tail_cons] at inside
    have notM : x ≠ m := by
      rintro rfl
      exact left.1 inside
    have here : place x = .queued s := by
      refine serves.inside x ?_
      rw [links.queue]
      exact ((List.sublist_cons_self m rest).append_left _).subset inside
    have notR : x ≠ r := by
      rintro rfl
      cases links.response.symm.trans here
    rw [links.other x notM notR]
    exact here
  · show ((b.server s).imsg ++ (b.server s).omsg.tail).Nodup
    rw [links.queue]
    exact left.2

/-- The others. -/
theorem server_of_ne (links : Links b place place' s m r rest) {t : Addr} (other : t ≠ s)
    (serves : Serves b.ledger place t (b.server t)) :
    Serves (b.answer s r m).ledger place' t (b.server t) := by
  refine serves.frame rfl (Ledger.enter_of_ne _ _ other) (fun _ _ => rfl) fun x refers => ?_
  have placed : place x = .queued t ∨ place x = .answering t :=
    refers.imp (serves.inside x) (serves.answering x)
  refine links.elsewhere (fun queued => ?_) fun answering => ?_
  · rcases placed with placed | placed
    · cases placed.symm.trans queued
      exact other rfl
    · cases placed.symm.trans queued
  · rcases placed with placed | placed
    · cases placed.symm.trans answering
    · cases placed.symm.trans answering
      exact other rfl

end Links

/-- **A response is linked to the first request of the queue.** -/
theorem answer (agrees : b.Agrees place) (received : (b.server s).rmsg = some r)
    (queue : (b.server s).omsg = m :: rest) :
    (b.answer s r m).Agrees
      (Function.update (Function.update place m .settled) r .response) := by
  have serves := agrees.server s
  have atR := serves.answering r received
  have atM := serves.inside m (List.mem_append_right _ (queue ▸ List.mem_cons_self))
  have distinct : m ≠ r := by
    rintro rfl
    cases atM.symm.trans atR
  have links : Links b place (Function.update (Function.update place m .settled) r .response)
      s m r rest := by
    refine ⟨queue, atM, atR, ?_, Function.update_self .., fun x notM notR => ?_⟩
    · rw [Function.update_of_ne distinct, Function.update_self]
    · rw [Function.update_of_ne notR, Function.update_of_ne notM]
  generalize Function.update (Function.update place m .settled) r .response = place' at links
  refine { agrees with
    free := fun x inside => ?_, unmade := fun x unmade => ?_, peer := links.peer agrees
    client := fun c isLive => links.client (agrees.client c isLive)
    server := fun t => ?_, unborn := fun t old => ?_
    numbered := (agrees.numbered.note (.responded s r)).note (.answered s r m) }
  · obtain ⟨placed, made⟩ := agrees.free x inside
    rw [links.elsewhere (by simp [placed]) (by simp [placed])]
    exact ⟨placed, made⟩
  · have placed := agrees.unmade x unmade
    rw [links.elsewhere (by simp [placed]) (by simp [placed])]
    exact placed
  · show Serves (b.answer s r m).ledger place' t (Function.update b.server s _ t)
    by_cases isS : t = s
    · rw [isS, Function.update_self]
      exact links.server serves
    · rw [Function.update_of_ne isS]
      exact links.server_of_ne isS (agrees.server t)
  · show (Function.update b.server s _ t).omsg = []
    have notS : t ≠ s := by
      rintro rfl
      cases queue.symm.trans (agrees.unborn t old)
    rw [Function.update_of_ne notS]
    exact agrees.unborn t old

/-- A request that was answered is with no server connection. -/
theorem answered (agrees : b.Agrees place) (isLive : c ∈ b.live)
    (inside : m ∈ (b.client c).omsg) (peer : b.peer m = some r) : Pair b.ledger place m r := by
  have asks := agrees.client c isLive
  have made := agrees.made_of_place (asks.place_ne inside nofun fun _ => nofun)
  refine (agrees.peer m made r peer).2.resolve_right fun pair => ?_
  exact asks.not_mem pair.2.1 nofun (fun _ => nofun) inside

/-- **The response to the first request of a client was sent.** -/
theorem complete (agrees : b.Agrees place) (isLive : c ∈ b.live)
    (queue : (b.client c).omsg = m :: rest) (peer : b.peer m = some r) :
    (b.complete c r).Agrees place := by
  have inside : m ∈ (b.client c).omsg := queue ▸ List.mem_cons_self
  have link := (agrees.answered isLive inside peer).2.2
  refine { agrees with
    client := fun d isLive' => ?_, idle := fun d isIdle => ?_
    server := fun s => (agrees.server s).frame rfl rfl (fun _ _ => rfl) fun _ _ => rfl
    numbered := agrees.numbered.note (.completed c r) }
  · show Asks (b.ledger.note (.completed c r)) place d (Function.update b.client c _ d)
    by_cases isC : d = c
    · have asks := agrees.client c isLive
      rw [isC, Function.update_self]
      refine { asks with queue := ?_, request := fun x left => ?_ }
      · show _ = Ledger.enter c (b.ledger.link r) b.ledger.completed c ++ (b.client c).omsg.tail.map _
        rw [Ledger.enter_self, link, queue, List.append_assoc]
        show b.ledger.requests c = _
        rw [asks.queue, queue]
        rfl
      · change x ∈ (b.client c).omsg.tail at left
        exact asks.request x (List.mem_of_mem_tail left)
    · rw [Function.update_of_ne isC]
      exact (agrees.client d isLive').frame rfl (Ledger.enter_of_ne _ _ isC) (fun _ _ => rfl)
        fun _ _ => rfl
  · show Rests (Function.update b.client c _ d)
    have notC : d ≠ c := by
      rintro rfl
      exact agrees.apart d isLive isIdle
    rw [Function.update_of_ne notC]
    exact agrees.idle d isIdle

/-- The response to a request is with no connection. -/
theorem loose_response (agrees : b.Agrees place) (pair : Pair b.ledger place m r) : b.Loose r :=
  agrees.loose pair.2.1 nofun nofun (fun _ => nofun) (fun _ => nofun) fun _ => nofun

/-- A request of a client that is with no server connection: only the queue of its client refers to
it. -/
theorem loose_request (agrees : b.Agrees place) (isLive : c ∈ b.live)
    (inside : m ∈ (b.client c).omsg)
    (outside : ∀ s, m ∉ (b.server s).imsg ++ (b.server s).omsg) :
    m < b.made ∧ m ∉ b.free ∧
      (∀ d ∈ b.live, (b.client d).rmsg ≠ some m ∧ (d ≠ c → m ∉ (b.client d).omsg)) ∧
      ∀ s, (b.server s).rmsg ≠ some m ∧ m ∉ (b.server s).imsg ++ (b.server s).omsg := by
  have asks := agrees.client c isLive
  have notFree : place m ≠ .free := asks.place_ne inside nofun fun _ => nofun
  refine ⟨agrees.made_of_place notFree, agrees.not_free notFree, fun d isLive' => ⟨fun received => ?_,
    fun isC inside' => isC (agrees.client_unique isLive' isLive inside' inside)⟩,
    fun s => ⟨fun received => ?_, outside s⟩⟩
  · have asking := (agrees.client d isLive').asking m received
    exact asks.not_mem asking nofun (fun _ => nofun) inside
  · have answering := (agrees.server s).answering m received
    exact asks.not_mem answering nofun (fun _ => nofun) inside

/-- Both messages are with no connection then. -/
theorem loose_complete (agrees : b.Agrees place) (isLive : c ∈ b.live)
    (queue : (b.client c).omsg = m :: rest) (peer : b.peer m = some r) :
    (b.complete c r).Loose m ∧ (b.complete c r).Loose r := by
  have inside : m ∈ (b.client c).omsg := queue ▸ List.mem_cons_self
  have pair := agrees.answered isLive inside peer
  have outside (s : Addr) : m ∉ (b.server s).imsg ++ (b.server s).omsg :=
    fun inside => nomatch pair.1.symm.trans ((agrees.server s).inside m inside)
  obtain ⟨made, used, client, server⟩ := agrees.loose_request isLive inside outside
  obtain ⟨madeR, usedR, clientR, serverR⟩ := agrees.loose_response pair
  have distinct := agrees.client_distinct isLive
  rw [queue, List.nodup_cons] at distinct
  refine ⟨⟨made, used, fun d isLive' => ?_, server⟩, ⟨madeR, usedR, fun d isLive' => ?_, serverR⟩⟩
  · show (Function.update b.client c _ d).rmsg ≠ some m ∧ m ∉ (Function.update b.client c _ d).omsg
    by_cases isC : d = c
    · rw [isC, Function.update_self]
      refine ⟨(client c isLive).1, ?_⟩
      show m ∉ (b.client c).omsg.tail
      rw [queue]
      exact distinct.1
    · rw [Function.update_of_ne isC]
      exact ⟨(client d isLive').1, (client d isLive').2 isC⟩
  · show (Function.update b.client c _ d).rmsg ≠ some r ∧ r ∉ (Function.update b.client c _ d).omsg
    by_cases isC : d = c
    · rw [isC, Function.update_self]
      exact ⟨(clientR c isLive).1, fun left => (clientR c isLive).2 (List.mem_of_mem_tail left)⟩
    · rw [Function.update_of_ne isC]
      exact clientR d isLive'

/-! ### Clients -/

/-- **A client goes**, when it receives nothing. -/
theorem leave (agrees : b.Agrees place) (isLive : c ∈ b.live) (rmsg : (b.client c).rmsg = none) :
    (b.leave c).Agrees place := by
  refine { agrees with
    client := fun d stays => agrees.client d (NcQueue.mem_remove.mp stays).1
    idle := fun d isIdle => ?_, apart := fun d stays isIdle => ?_ }
  · rcases List.mem_append.mp isIdle with old | new
    · exact agrees.idle d old
    · rw [List.mem_singleton.mp new]
      exact ⟨rmsg, (agrees.client c isLive).imsg, (agrees.client c isLive).smsg⟩
  · have stays := NcQueue.mem_remove.mp stays
    rcases List.mem_append.mp isIdle with old | new
    · exact agrees.apart d stays.1 old
    · exact stays.2 (List.mem_singleton.mp new)

/-- The requests it leaves that are with no server connection. -/
theorem loose_leave (agrees : b.Agrees place) (isLive : c ∈ b.live)
    (inside : m ∈ (b.client c).omsg)
    (outside : ∀ s, m ∉ (b.server s).imsg ++ (b.server s).omsg) :
    (b.leave c).Loose m ∧ ∀ r, b.peer m = some r → (b.leave c).Loose r := by
  obtain ⟨made, used, client, server⟩ := agrees.loose_request isLive inside outside
  refine ⟨⟨made, used, fun d stays => ?_, server⟩, fun r peer => ?_⟩
  · have stays := NcQueue.mem_remove.mp stays
    exact ⟨(client d stays.1).1, (client d stays.1).2 stays.2⟩
  · obtain ⟨made, used, client, server⟩ :=
      agrees.loose_response (agrees.answered isLive inside peer)
    exact ⟨made, used, fun d stays => client d (NcQueue.mem_remove.mp stays).1, server⟩

/-- **A client comes**, with nothing in its queues. -/
theorem enter (agrees : b.Agrees place) {sd : Int} (notLive : c ∉ b.live) (fresh : c ∉ rest)
    (still : ∀ d ∈ rest, d ∈ b.idle) : (b.enter c sd rest).Agrees place := by
  have client (d : Addr) (other : d ≠ c) : (b.enter c sd rest).client d = b.client d :=
    Function.update_of_ne other ..
  refine { agrees with
    client := fun d isLive => ?_, idle := fun d isIdle => ?_, apart := fun d isLive isIdle => ?_
    server := fun s => (agrees.server s).frame rfl rfl (fun _ _ => rfl) fun _ _ => rfl
    numbered := agrees.numbered.note (.accepted c sd) }
  · by_cases isC : d = c
    · have bare : (b.enter c sd rest).client c = .bare := Function.update_self ..
      rw [isC, bare]
      refine ⟨?_, fun m inside => absurd inside List.not_mem_nil, fun m => nofun, rfl, rfl⟩
      show Function.update b.ledger.requests c [] c = Function.update b.ledger.completed c [] c ++ []
      rw [Function.update_self, Function.update_self]
      rfl
    · have isLive := (List.mem_append.mp isLive).resolve_right (mt List.mem_singleton.mp isC)
      rw [client d isC]
      exact (agrees.client d isLive).frame (Function.update_of_ne isC ..)
        (Function.update_of_ne isC ..) (fun _ _ => rfl) fun _ _ => rfl
  · have notC : d ≠ c := by
      rintro rfl
      exact fresh isIdle
    rw [client d notC]
    exact agrees.idle d (still d isIdle)
  · rcases List.mem_append.mp isLive with old | new
    · exact agrees.apart d old (still d isIdle)
    · exact fresh (List.mem_singleton.mp new ▸ isIdle)

/-! ### The rest -/

/-- A server connection that nothing refers to yet. -/
theorem spawn (agrees : b.Agrees place) : b.spawn.Agrees place := by
  have serves := agrees.server b.servers
  have bare : Serves b.ledger place b.servers .bare := by
    refine ⟨?_, fun m inside => absurd inside List.not_mem_nil, List.nodup_nil, fun m => nofun, rfl⟩
    rw [serves.queue, agrees.unborn b.servers (Nat.le_refl _)]
    rfl
  have spawned := agrees.setServer bare fun _ => rfl
  exact { spawned with unborn := fun s old => spawned.unborn s (Nat.le_of_succ_le old) }

/-- What is noted of a response changes no queue. -/
theorem respond (agrees : b.Agrees place) : (b.note (.responded s r)).Agrees place :=
  { agrees with
    client := fun c isLive => (agrees.client c isLive).frame rfl rfl (fun _ _ => rfl) fun _ _ => rfl
    server := fun s => (agrees.server s).frame rfl rfl (fun _ _ => rfl) fun _ _ => rfl
    numbered := agrees.numbered.note (.responded s r) }

theorem hand (agrees : b.Agrees place) : (b.note (.handed c r)).Agrees place :=
  { agrees with
    client := fun c isLive => (agrees.client c isLive).frame rfl rfl (fun _ _ => rfl) fun _ _ => rfl
    server := fun s => (agrees.server s).frame rfl rfl (fun _ _ => rfl) fun _ _ => rfl
    numbered := agrees.numbered.note (.handed c r) }

end Agrees

/-! ### Sound books -/

/-- **The books are sound**: every message has its place. -/
def Sound (b : Books) : Prop := ∃ place, b.Agrees place

namespace Sound

variable {strict : Prop} {b b' : Books} {c m r : Addr} {rest : List Addr}

/-- **Every turn keeps the books sound.** -/
theorem turn (sound : b.Sound) (turn : Turn strict b b') : b'.Sound := by
  obtain ⟨place, agrees⟩ := sound
  cases turn with
  | spawn => exact ⟨_, agrees.spawn⟩
  | take isLive => exact ⟨_, agrees.take isLive⟩
  | takeServer => exact ⟨_, agrees.takeServer⟩
  | putDown => exact ⟨_, agrees.putDown⟩
  | putDownServer => exact ⟨_, agrees.putDownServer⟩
  | discard loose peer => exact agrees.discard loose peer
  | request isLive received => exact agrees.requested isLive received
  | move born inside => exact ⟨_, agrees.move born inside⟩
  | answer received queue => exact ⟨_, agrees.answer received queue⟩
  | stray lax => exact ⟨_, agrees.respond⟩
  | complete isLive queue peer => exact ⟨_, agrees.complete isLive queue peer⟩

theorem within (sound : b.Sound) (within : Within strict b b') : b'.Sound := by
  induction within with
  | refl => exact sound
  | tail _ turn sound => exact sound.turn turn

/-- A request that was received is dropped. -/
theorem drop (sound : b.Sound) (isLive : c ∈ b.live) (received : (b.client c).rmsg = some m) :
    Within strict b ((b.putDown c).discard m) := by
  obtain ⟨place, agrees⟩ := sound
  obtain ⟨loose, alone⟩ := agrees.loose_putDown isLive received
  exact .tail (.single .putDown) (.discard loose fun r peer => nomatch alone.symm.trans peer)

/-- A response that was received is dropped. -/
theorem dropServer {s : Addr} (sound : b.Sound) (received : (b.server s).rmsg = some m) :
    Within strict b ((b.putDownServer s).discard m) := by
  obtain ⟨place, agrees⟩ := sound
  obtain ⟨loose, alone⟩ := agrees.loose_putDownServer received
  exact .tail (.single .putDownServer) (.discard loose fun r peer => nomatch alone.symm.trans peer)

/-- The two of a pair refer to each other. -/
theorem back (sound : b.Sound) (made : m < b.made) (peer : b.peer m = some r) :
    b.peer r = some m ∧ m ≠ r := by
  obtain ⟨place, agrees⟩ := sound
  exact agrees.pair made peer

/-- What is given back does not concern a message with another peer. -/
theorem loose_discard {x : Addr} (loose : b.Loose x) (other : x ≠ m) (apart : b.peer m ≠ some x) :
    (b.discard m).Loose x ∧ (b.discard m).peer x = b.peer x := by
  obtain ⟨live, -, client, -, server, -, made⟩ := discard_frame m b
  refine ⟨⟨made ▸ loose.made, ?_, ?_, ?_⟩, ?_⟩
  · unfold discard
    cases peer : b.peer m with
    | none =>
        intro inside
        rcases List.mem_append.mp inside with old | new
        · exact loose.used old
        · exact other (List.mem_singleton.mp new)
    | some r =>
        intro inside
        rcases List.mem_append.mp inside with inside | new
        · rcases List.mem_append.mp inside with old | new
          · exact loose.used old
          · exact apart (List.mem_singleton.mp new ▸ peer)
        · exact other (List.mem_singleton.mp new)
  · rw [live, client]
    exact loose.client
  · rw [server]
    exact loose.server
  · unfold discard
    cases peer : b.peer m with
    | none => exact Function.update_of_ne other ..
    | some r =>
        have notR : x ≠ r := by
          rintro rfl
          exact apart peer
        show Function.update (Function.update (Function.update (Function.update b.peer m none) r none)
          r none) m none x = b.peer x
        rw [Function.update_of_ne other, Function.update_of_ne notR, Function.update_of_ne notR,
          Function.update_of_ne other]

/-- **Requests that nobody refers to are given back one after the other.** -/
theorem discards {msgs : List Addr} (sound : b.Sound) (distinct : msgs.Nodup)
    (apart : ∀ x ∈ msgs, ∀ y ∈ msgs, b.peer x ≠ some y)
    (loose : ∀ x ∈ msgs, b.Loose x ∧ ∀ r, b.peer x = some r → b.Loose r) :
    Within strict b (b.discards msgs) := by
  induction msgs generalizing b with
  | nil => exact .refl
  | cons m msgs ih =>
      obtain ⟨notAgain, distinct⟩ := List.nodup_cons.mp distinct
      have first := loose m List.mem_cons_self
      have turn : Turn strict b (b.discard m) := .discard first.1 first.2
      have later {x : Addr} (inside : x ∈ msgs) :
          (b.discard m).Loose x ∧ (b.discard m).peer x = b.peer x := by
        refine loose_discard (loose x (List.mem_cons_of_mem m inside)).1 ?_
          (apart m List.mem_cons_self x (List.mem_cons_of_mem m inside))
        rintro rfl
        exact notAgain inside
      refine .head turn (ih (sound.turn turn) distinct (fun x inside y inside' => ?_) fun x inside =>
        ⟨(later inside).1, fun r peer => ?_⟩)
      · rw [(later inside).2]
        exact apart x (List.mem_cons_of_mem m inside) y (List.mem_cons_of_mem m inside')
      · rw [(later inside).2] at peer
        have inside' := List.mem_cons_of_mem m inside
        refine (loose_discard ((loose x inside').2 r peer) ?_ fun peer' => ?_).1
        · rintro rfl
          exact apart x inside' r List.mem_cons_self peer
        · have back := (sound.back first.1.made peer').1
          have back' := (sound.back (loose x inside').1.made peer).1
          rw [Option.some.inj (back.symm.trans back')] at notAgain
          exact notAgain inside

end Sound

/-! ### Steps -/

/-- **A step of the books**: some turns, a response that is handed out, or a client that comes, goes,
or comes and goes at once. If `strict`, no client goes that was there. -/
inductive Step (strict : Prop) : Books → Books → Prop
  | turns {b b'} (within : Within strict b b') : Step strict b b'
  | hand {b b' c m r rest} (isLive : c ∈ b.live) (queue : (b.client c).omsg = m :: rest)
      (peer : b.peer m = some r) (within : Within strict (b.note (.handed c r)) b') :
      Step strict b b'
  | enter {b c sd rest} (notLive : c ∉ b.live) (fresh : c ∉ rest)
      (still : ∀ d ∈ rest, d ∈ b.idle) : Step strict b (b.enter c sd rest)
  | refuse {b c sd rest} (notLive : c ∉ b.live) (fresh : c ∉ rest)
      (still : ∀ d ∈ rest, d ∈ b.idle) : Step strict b ((b.enter c sd rest).leave c)
  | leave {a b b' c} (lax : ¬ strict) (before : Within strict a b) (isLive : c ∈ b.live)
      (rmsg : (b.client c).rmsg = none) (after : Within strict (b.leave c) b') : Step strict a b'

/-- No client that went left requests in its queue. -/
def Unworn (b : Books) : Prop := ∀ c ∈ b.idle, (b.client c).omsg = []

section Step

variable {strict : Prop} {b b' : Books}

/-- **Every step keeps the books sound.** -/
theorem Sound.step (sound : b.Sound) (step : Step strict b b') : b'.Sound := by
  cases step with
  | turns within => exact sound.within within
  | hand isLive queue peer within =>
      obtain ⟨place, agrees⟩ := sound
      exact Sound.within ⟨_, agrees.hand⟩ within
  | enter notLive fresh still =>
      obtain ⟨place, agrees⟩ := sound
      exact ⟨_, agrees.enter notLive fresh still⟩
  | @refuse c sd rest notLive fresh still =>
      obtain ⟨place, agrees⟩ := sound
      refine ⟨_, (agrees.enter notLive fresh still).leave (List.mem_append_right _ List.mem_cons_self) ?_⟩
      show (Function.update b.client c .bare c).rmsg = none
      rw [Function.update_self]
      rfl
  | leave _ before isLive rmsg after =>
      obtain ⟨place, agrees⟩ := sound.within before
      exact Sound.within ⟨_, agrees.leave isLive rmsg⟩ after

/-- **What a step hands out**: nothing, or the response to the first request of a client. -/
theorem Step.handed (step : Step strict b b') :
    b'.ledger.handed = b.ledger.handed ∨
      ∃ c ∈ b.live, ∃ m ∈ (b.client c).omsg, ∃ r, b.peer m = some r ∧
        b'.ledger.handed = (c, r) :: b.ledger.handed := by
  cases step with
  | turns within => exact Or.inl within.frame.handed
  | @hand _ c m r rest isLive queue peer within =>
      exact Or.inr ⟨c, isLive, m, queue ▸ List.mem_cons_self, r, peer, within.frame.handed⟩
  | enter notLive fresh still => exact Or.inl rfl
  | refuse notLive fresh still => exact Or.inl rfl
  | leave _ before isLive rmsg after => exact Or.inl (after.frame.handed.trans before.frame.handed)

/-- Without a response that finds no request, every response is linked to one. -/
theorem Even.step (even : b.Even) (step : Step True b b') : b'.Even := by
  cases step with
  | turns within => exact within.even even
  | hand isLive queue peer within => exact within.even even
  | enter notLive fresh still => exact even
  | refuse notLive fresh still => exact even
  | leave lax => exact absurd trivial lax

end Step

namespace Unworn

variable {strict : Prop} {b b' : Books} {c : Addr} {sd : Int} {rest : List Addr}

/-- The turns concern the clients that there are. -/
theorem within (unworn : b.Unworn) (apart : ∀ c ∈ b.live, c ∉ b.idle)
    (within : Within strict b b') : b'.Unworn := by
  intro c isIdle
  have keeps := within.frame
  rw [keeps.idle] at isIdle
  rw [keeps.omsg c fun isLive => apart c isLive isIdle]
  exact unworn c isIdle

theorem enter (unworn : b.Unworn) (fresh : c ∉ rest) (still : ∀ d ∈ rest, d ∈ b.idle) :
    (b.enter c sd rest).Unworn := by
  intro d isIdle
  show (Function.update b.client c .bare d).omsg = []
  by_cases isC : d = c
  · exact absurd (isC ▸ isIdle) fresh
  · rw [Function.update_of_ne isC]
    exact unworn d (still d isIdle)

theorem refuse (unworn : b.Unworn) (fresh : c ∉ rest) (still : ∀ d ∈ rest, d ∈ b.idle) :
    ((b.enter c sd rest).leave c).Unworn := by
  intro d isIdle
  rcases List.mem_append.mp isIdle with old | new
  · exact unworn.enter fresh still d old
  · rw [List.mem_singleton.mp new]
    show (Function.update b.client c .bare c).omsg = []
    rw [Function.update_self]
    rfl

theorem step (unworn : b.Unworn) (sound : b.Sound) (step : Step True b b') : b'.Unworn := by
  obtain ⟨place, agrees⟩ := sound
  cases step with
  | turns within => exact unworn.within agrees.apart within
  | @hand _ c m r rest isLive queue peer within =>
      exact Unworn.within (b := b.note (.handed c r)) unworn agrees.apart within
  | enter _ fresh still => exact unworn.enter fresh still
  | refuse _ fresh still => exact unworn.refuse fresh still
  | leave lax => exact absurd trivial lax

end Unworn

end Books

end Nutcracker
