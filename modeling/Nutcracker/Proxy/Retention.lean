/-
**Every message that was made is free or held.**

A message leaks when it is not free and nobody can reach it any more. `held` lists what the connections
reach: the message that each of them receives, the requests in the queues of the clients, and the
responses that these are linked to. A request in the queues of a server connection is to be in the queue
of its client too.

* `Retains.drop`, `Retains.complete` and the others — the turns of the books lose nothing, if what is put
  down is given back.
* `Retains.leave` — neither does a client that goes with nothing in its queue.
* `Retains.perm` — **then the free messages and the held ones are those that were made**, each of them
  once.
-/

import Nutcracker.Proxy.Places

namespace Nutcracker

/-- What a connection reaches. -/
def Desk.holds (peer : Addr → Ptr) (desk : Desk) : List Addr :=
  desk.rmsg.toList ++ desk.omsg ++ desk.omsg.filterMap peer

namespace Books

/-- **The messages that are held.** -/
def held (b : Books) : List Addr :=
  b.live.flatMap (fun c => (b.client c).holds b.peer) ++
    (List.range b.servers).filterMap fun s => (b.server s).rmsg

/-- **Nothing leaks**, but for these messages: what a server connection has to send or to wait for is in
the queue of its client, and what was made is free or held. -/
structure Retains (b : Books) (lost : List Addr) : Prop where
  queued : ∀ s, ∀ m ∈ (b.server s).imsg ++ (b.server s).omsg, ∃ c ∈ b.live, m ∈ (b.client c).omsg
  kept : ∀ m < b.made, m ∈ lost ∨ m ∈ b.free ∨ m ∈ b.held

section Held

variable {b b' : Books} {c s m q : Addr}

theorem mem_holds {peer : Addr → Ptr} {desk : Desk} :
    m ∈ desk.holds peer ↔
      desk.rmsg = some m ∨ m ∈ desk.omsg ∨ ∃ q ∈ desk.omsg, peer q = some m := by
  unfold Desk.holds
  rw [List.mem_append, List.mem_append, Option.mem_toList, List.mem_filterMap, or_assoc]

/-- **Who holds a message.** -/
theorem mem_held : m ∈ b.held ↔
    (∃ c ∈ b.live, (b.client c).rmsg = some m ∨ m ∈ (b.client c).omsg ∨
      ∃ q ∈ (b.client c).omsg, b.peer q = some m) ∨
    ∃ s < b.servers, (b.server s).rmsg = some m := by
  unfold held
  simp only [List.mem_append, List.mem_flatMap, mem_holds, List.mem_filterMap, List.mem_range]

theorem held_rmsg (isLive : c ∈ b.live) (received : (b.client c).rmsg = some m) : m ∈ b.held :=
  mem_held.mpr (Or.inl ⟨c, isLive, Or.inl received⟩)

theorem held_omsg (isLive : c ∈ b.live) (inside : m ∈ (b.client c).omsg) : m ∈ b.held :=
  mem_held.mpr (Or.inl ⟨c, isLive, Or.inr (Or.inl inside)⟩)

theorem held_peer (isLive : c ∈ b.live) (inside : q ∈ (b.client c).omsg)
    (peer : b.peer q = some m) : m ∈ b.held :=
  mem_held.mpr (Or.inl ⟨c, isLive, Or.inr (Or.inr ⟨q, inside, peer⟩)⟩)

theorem held_server (born : s < b.servers) (received : (b.server s).rmsg = some m) : m ∈ b.held :=
  mem_held.mpr (Or.inr ⟨s, born, received⟩)

/-- What the other books hold is held here. -/
theorem held_mono (inside : m ∈ b.held)
    (client : ∀ c ∈ b.live, ((b.client c).rmsg = some m → m ∈ b'.held) ∧
      (m ∈ (b.client c).omsg → m ∈ b'.held) ∧
      ∀ q ∈ (b.client c).omsg, b.peer q = some m → m ∈ b'.held)
    (server : ∀ s < b.servers, (b.server s).rmsg = some m → m ∈ b'.held) : m ∈ b'.held := by
  rcases mem_held.mp inside with ⟨c, isLive, received | inside | ⟨q, inside, peer⟩⟩ |
    ⟨s, born, received⟩
  · exact (client c isLive).1 received
  · exact (client c isLive).2.1 inside
  · exact (client c isLive).2.2 q inside peer
  · exact server s born received

end Held

namespace Retains

variable {b : Books} {place : Addr → Place} {lost lost' : List Addr} {c s m r : Addr}
  {rest : List Addr}

/-! ### Changing one thing -/

/-- A client connection changes: its queue may get longer. -/
theorem setClient (retains : b.Retains lost) {desk : Desk} (omsg : (b.client c).omsg ⊆ desk.omsg)
    (rmsg : ∀ m, (b.client c).rmsg = some m → desk.rmsg = some m ∨ m ∈ lost')
    (found : ∀ m ∈ lost, m ∈ lost' ∨ c ∈ b.live ∧ (desk.rmsg = some m ∨ m ∈ desk.omsg)) :
    (b.setClient c desk).Retains lost' := by
  have self : (b.setClient c desk).client c = desk := Function.update_self ..
  have queue (d m : Addr) (inside : m ∈ (b.client d).omsg) :
      m ∈ ((b.setClient c desk).client d).omsg := by
    by_cases isC : d = c
    · rw [isC] at inside ⊢
      rw [self]
      exact omsg inside
    · rw [show (b.setClient c desk).client d = b.client d from Function.update_of_ne isC ..]
      exact inside
  refine ⟨fun s m inside => ?_, fun m made => ?_⟩
  · obtain ⟨d, isLive, inside⟩ := retains.queued s m inside
    exact ⟨d, isLive, queue d m inside⟩
  by_cases gone : m ∈ lost'
  · exact Or.inl gone
  rcases retains.kept m made with isLost | isFree | isHeld
  · obtain ⟨isLive, received | inside⟩ := (found m isLost).resolve_left gone
    · exact Or.inr (Or.inr (held_rmsg (b := b.setClient c desk) isLive
        ((congrArg Desk.rmsg self).trans received)))
    · exact Or.inr (Or.inr (held_omsg (b := b.setClient c desk) (c := c) isLive (self.symm ▸ inside)))
  · exact Or.inr (Or.inl isFree)
  · refine Or.inr (Or.inr (held_mono isHeld (fun d isLive => ⟨fun received => ?_,
      fun inside => ?_, fun q inside peer => ?_⟩) fun s born received =>
        held_server (b := b.setClient c desk) born received))
    · by_cases isC : d = c
      · rw [isC] at isLive received
        exact held_rmsg (b := b.setClient c desk) isLive
          ((congrArg Desk.rmsg self).trans ((rmsg m received).resolve_right gone))
      · refine held_rmsg (b := b.setClient c desk) isLive ?_
        rw [← received]
        exact congrArg Desk.rmsg (Function.update_of_ne isC ..)
    · exact held_omsg (b := b.setClient c desk) isLive (queue d m inside)
    · exact held_peer (b := b.setClient c desk) isLive (queue d q inside) peer

/-- A server connection changes. -/
theorem setServer (retains : b.Retains lost) {desk : Desk}
    (inside : ∀ m ∈ desk.imsg ++ desk.omsg, ∃ c ∈ b.live, m ∈ (b.client c).omsg)
    (rmsg : ∀ m, (b.server s).rmsg = some m → desk.rmsg = some m ∨ m ∈ lost')
    (found : ∀ m ∈ lost, m ∈ lost' ∨ s < b.servers ∧ desk.rmsg = some m) :
    (b.setServer s desk).Retains lost' := by
  have self : (b.setServer s desk).server s = desk := Function.update_self ..
  refine ⟨fun t m member => ?_, fun m made => ?_⟩
  · by_cases isS : t = s
    · rw [isS, self] at member
      exact inside m member
    · rw [show (b.setServer s desk).server t = b.server t from Function.update_of_ne isS ..] at member
      exact retains.queued t m member
  by_cases gone : m ∈ lost'
  · exact Or.inl gone
  rcases retains.kept m made with isLost | isFree | isHeld
  · obtain ⟨born, received⟩ := (found m isLost).resolve_left gone
    exact Or.inr (Or.inr (held_server (b := b.setServer s desk) born
      ((congrArg Desk.rmsg self).trans received)))
  · exact Or.inr (Or.inl isFree)
  · refine Or.inr (Or.inr (held_mono isHeld (fun d isLive =>
      ⟨held_rmsg (b := b.setServer s desk) isLive, held_omsg (b := b.setServer s desk) isLive,
        fun q => held_peer (b := b.setServer s desk) isLive⟩) fun t born received => ?_))
    by_cases isS : t = s
    · rw [isS] at born received
      exact held_server (b := b.setServer s desk) born
        ((congrArg Desk.rmsg self).trans ((rmsg m received).resolve_right gone))
    · refine held_server (b := b.setServer s desk) born ?_
      rw [← received]
      exact congrArg Desk.rmsg (Function.update_of_ne isS ..)

/-- The ledger is not asked. -/
theorem note (retains : b.Retains lost) (act : Act) : (b.note act).Retains lost :=
  ⟨retains.queued, retains.kept⟩

/-! ### Taking a message, and putting it down -/

/-- The message that is taken is held by nobody yet. -/
theorem fetch (retains : b.Retains []) (agrees : b.Agrees place) : b.fetch.Retains [b.next] := by
  obtain ⟨live, -, client, servers, server, -⟩ := fetch_frame b
  refine ⟨fun s m inside => ?_, fun m made => ?_⟩
  · rw [server] at inside
    rw [live, client]
    exact retains.queued s m inside
  cases queue : b.free with
  | cons x rest =>
      obtain ⟨taken, next⟩ := fetch_cons queue
      rw [taken] at made ⊢
      rw [next, List.mem_singleton]
      rcases (retains.kept m made).resolve_left List.not_mem_nil with isFree | isHeld
      · rcases List.mem_cons.mp (queue ▸ isFree) with first | later
        · exact Or.inl first
        · exact Or.inr (Or.inl later)
      · exact Or.inr (Or.inr isHeld)
  | nil =>
      obtain ⟨taken, next⟩ := fetch_nil queue
      rw [next, List.mem_singleton]
      by_cases new : m = b.made
      · exact Or.inl new
      have old : m < b.made := by
        rw [taken] at made
        exact Nat.lt_of_le_of_ne (Nat.lt_succ_iff.mp made) new
      rcases (retains.kept m old).resolve_left List.not_mem_nil with isFree | isHeld
      · exact absurd (queue ▸ isFree) List.not_mem_nil
      -- A request in a queue was made before, and keeps its peer.
      refine Or.inr (Or.inr (held_mono isHeld (fun c isLive => ⟨fun received => ?_,
        fun inside => ?_, fun q inside peer => ?_⟩) fun s born received => ?_))
      · exact held_rmsg (live ▸ isLive) (client ▸ received)
      · exact held_omsg (live ▸ isLive) (client ▸ inside)
      · have placed : place q ≠ .free :=
          (agrees.client c isLive).place_ne inside nofun fun _ => nofun
        have notNew : q ≠ b.made := Nat.ne_of_lt (agrees.made_of_place placed)
        refine held_peer (live ▸ isLive) (client ▸ inside) ?_
        rw [taken, ← peer]
        exact Function.update_of_ne notNew ..
      · exact held_server (servers ▸ born) (server ▸ received)

/-- A client connection that receives nothing takes a message. -/
theorem take (retains : b.Retains []) (agrees : b.Agrees place) (isLive : c ∈ b.live)
    (idle : (b.client c).rmsg = none) :
    (b.fetch.setClient c { b.client c with rmsg := some b.next }).Retains [] := by
  obtain ⟨live, -, client, -⟩ := fetch_frame b
  refine (retains.fetch agrees).setClient (by rw [client]; exact List.Subset.refl _)
    (fun m received => ?_) fun m isNext => ?_
  · rw [client, idle] at received
    cases received
  · rw [List.mem_singleton.mp isNext]
    exact Or.inr ⟨live ▸ isLive, Or.inl rfl⟩

/-- So does a server connection. -/
theorem takeServer (retains : b.Retains []) (agrees : b.Agrees place) (born : s < b.servers)
    (idle : (b.server s).rmsg = none) :
    (b.fetch.setServer s { b.server s with rmsg := some b.next }).Retains [] := by
  obtain ⟨live, -, client, servers, server, -⟩ := fetch_frame b
  refine (retains.fetch agrees).setServer (fun m inside => ?_) (fun m received => ?_) fun m isNext => ?_
  · rw [live, client]
    exact retains.queued s m inside
  · rw [server, idle] at received
    cases received
  · rw [List.mem_singleton.mp isNext]
    exact Or.inr ⟨servers ▸ born, rfl⟩

theorem putDown (retains : b.Retains []) (received : (b.client c).rmsg = some m) :
    (b.putDown c).Retains [m] := by
  refine retains.setClient (List.Subset.refl _) (fun x same => Or.inr ?_) fun x inside =>
    absurd inside List.not_mem_nil
  rw [Option.some.inj (same.symm.trans received)]
  exact List.mem_singleton_self m

theorem putDownServer (retains : b.Retains []) (received : (b.server s).rmsg = some m) :
    (b.putDownServer s).Retains [m] := by
  refine retains.setServer (retains.queued s) (fun x same => Or.inr ?_) fun x inside =>
    absurd inside List.not_mem_nil
  rw [Option.some.inj (same.symm.trans received)]
  exact List.mem_singleton_self m

/-- What is given back. -/
theorem free_discard (m : Addr) (b : Books) :
    ∃ given, (b.discard m).free = b.free ++ given ∧ m ∈ given ∧
      ∀ r, b.peer m = some r → r ∈ given := by
  unfold Books.discard
  cases peer : b.peer m with
  | none => exact ⟨[m], rfl, List.mem_singleton_self m, nofun⟩
  | some r =>
      refine ⟨[r, m], List.append_assoc .., List.mem_cons_of_mem r (List.mem_singleton_self m),
        fun x same => ?_⟩
      rw [← Option.some.inj same]
      exact List.mem_cons_self

/-- **A message that nobody refers to is given back, and its peer too.** -/
theorem discard (retains : b.Retains lost) (only : ∀ x ∈ lost, x = m ∨ b.peer m = some x)
    (loose : b.Loose m) (looseR : ∀ r, b.peer m = some r → b.Loose r) :
    (b.discard m).Retains [] := by
  obtain ⟨live, -, client, servers, server, -, made⟩ := discard_frame m b
  obtain ⟨given, free, first, second⟩ := free_discard m b
  refine ⟨fun s x inside => ?_, fun x below => Or.inr ?_⟩
  · rw [server] at inside
    rw [live, client]
    exact retains.queued s x inside
  rw [free, List.mem_append]
  rcases retains.kept x (made ▸ below) with isLost | isFree | isHeld
  · rcases only x isLost with rfl | peer
    · exact Or.inl (Or.inr first)
    · exact Or.inl (Or.inr (second x peer))
  · exact Or.inl (Or.inl isFree)
  · refine Or.inr (held_mono isHeld (fun c isLive => ⟨fun received => ?_, fun inside => ?_,
      fun q inside peer => ?_⟩) fun s born received => ?_)
    · exact held_rmsg (live ▸ isLive) (client ▸ received)
    · exact held_omsg (live ▸ isLive) (client ▸ inside)
    · refine held_peer (live ▸ isLive) (client ▸ inside) ?_
      rw [← peer]
      -- The request in the queue is neither of the two.
      have notM : q ≠ m := by
        rintro rfl
        exact (loose.client c isLive).2 inside
      have looseQ (r : Addr) (linked : b.peer m = some r) : q ≠ r := by
        rintro rfl
        exact ((looseR q linked).client c isLive).2 inside
      unfold Books.discard
      cases linked : b.peer m with
      | none => exact Function.update_of_ne notM ..
      | some r =>
          have notR := looseQ r linked
          show Function.update (Function.update (Function.update (Function.update b.peer m none) r
            none) r none) m none q = b.peer q
          rw [Function.update_of_ne notM, Function.update_of_ne notR, Function.update_of_ne notR,
            Function.update_of_ne notM]
    · exact held_server (servers ▸ born) (server ▸ received)

/-- **A request that is put down and given back.** -/
theorem drop (retains : b.Retains []) (agrees : b.Agrees place) (isLive : c ∈ b.live)
    (received : (b.client c).rmsg = some m) : ((b.putDown c).discard m).Retains [] := by
  obtain ⟨loose, alone⟩ := agrees.loose_putDown isLive received
  exact (retains.putDown received).discard (fun x inside => Or.inl (List.mem_singleton.mp inside))
    loose fun r peer => nomatch alone.symm.trans peer

/-- A response that is put down and given back. -/
theorem dropServer (retains : b.Retains []) (agrees : b.Agrees place)
    (received : (b.server s).rmsg = some m) : ((b.putDownServer s).discard m).Retains [] := by
  obtain ⟨loose, alone⟩ := agrees.loose_putDownServer received
  exact (retains.putDownServer received).discard
    (fun x inside => Or.inl (List.mem_singleton.mp inside)) loose
    fun r peer => nomatch alone.symm.trans peer

/-! ### Requests -/

/-- A request goes to the end of the queue of its client. -/
theorem push (retains : b.Retains [m]) (isLive : c ∈ b.live) :
    (b.setClient c { b.client c with omsg := (b.client c).omsg ++ [m] }).Retains [] := by
  refine retains.setClient (List.subset_append_left _ _) (fun x => Or.inl) fun x single =>
    Or.inr ⟨isLive, Or.inr ?_⟩
  exact List.mem_append_right _ single

/-- It goes to a server connection too, or to none. -/
theorem assign (retains : b.Retains lost) (dest : Ptr) (isLive : c ∈ b.live)
    (inside : m ∈ (b.client c).omsg) : (b.assign m dest).Retains lost := by
  cases dest with
  | none => exact retains
  | some s =>
      refine retains.setServer (fun x member => ?_) (fun x => Or.inl) fun x => Or.inl
      have either : x ∈ (b.server s).imsg ++ (b.server s).omsg ∨ x = m := by
        simp only [List.mem_append, List.mem_singleton] at member ⊢
        tauto
      rcases either with old | rfl
      · exact retains.queued s x old
      · exact ⟨c, isLive, inside⟩

/-- **A request is read.** -/
theorem request (retains : b.Retains []) {dest : Ptr} (isLive : c ∈ b.live)
    (received : (b.client c).rmsg = some m) : (b.request c m dest).Retains [] := by
  have pushed := ((retains.putDown received).note (.read c m)).push isLive
  rw [← request_eq]
  refine pushed.assign dest isLive ?_
  show m ∈ (Function.update (b.putDown c).client c _ c).omsg
  rw [Function.update_self]
  exact List.mem_append_right _ (List.mem_singleton_self m)

/-- A request is sent. -/
theorem move (retains : b.Retains []) (inside : m ∈ (b.server s).imsg) :
    (b.move s m).Retains [] := by
  have old {x : Addr}
      (member : x ∈ NcQueue.remove m (b.server s).imsg ++ ((b.server s).omsg ++ [m])) :
      x ∈ (b.server s).imsg ++ (b.server s).omsg := by
    rcases List.mem_append.mp member with left | right
    · exact List.mem_append_left _ (NcQueue.mem_remove.mp left).1
    rcases List.mem_append.mp right with old | new
    · exact List.mem_append_right _ old
    · rw [List.mem_singleton.mp new]
      exact List.mem_append_left _ inside
  have moved : (b.setServer s { b.server s with
      imsg := NcQueue.remove m (b.server s).imsg
      omsg := (b.server s).omsg ++ [m] }).Retains [] :=
    retains.setServer (fun x member => retains.queued s x (old member)) (fun x => Or.inl)
      fun x => Or.inl
  exact moved.note (.moved s m)

/-! ### Responses -/

/-- A response is linked to a request in the queue of a client: the client holds it now. -/
theorem link (retains : b.Retains [r]) (isLive : c ∈ b.live) (inside : m ∈ (b.client c).omsg)
    (alone : b.peer m = none) (outside : ∀ d ∈ b.live, r ∉ (b.client d).omsg) :
    ((b.setPeer m (some r)).setPeer r (some m)).Retains [] := by
  have linked {q : Addr} (other : q ≠ r) : ((b.setPeer m (some r)).setPeer r (some m)).peer q =
      Function.update b.peer m (some r) q := Function.update_of_ne other ..
  have notR {d q : Addr} (isLive : d ∈ b.live) (inside : q ∈ (b.client d).omsg) : q ≠ r := by
    rintro rfl
    exact outside d isLive inside
  have holds {d q x : Addr} (isLive : d ∈ b.live) (inside : q ∈ (b.client d).omsg)
      (peer : ((b.setPeer m (some r)).setPeer r (some m)).peer q = some x) :
      x ∈ ((b.setPeer m (some r)).setPeer r (some m)).held :=
    held_peer (b := (b.setPeer m (some r)).setPeer r (some m)) isLive inside peer
  refine ⟨retains.queued, fun x below => Or.inr ?_⟩
  rcases retains.kept x below with isLost | isFree | isHeld
  · refine Or.inr (holds isLive inside ?_)
    rw [linked (notR isLive inside), Function.update_self, List.mem_singleton.mp isLost]
  · exact Or.inl isFree
  · refine Or.inr (held_mono isHeld (fun d isLive => ⟨held_rmsg (b := (b.setPeer m (some r)).setPeer r
      (some m)) isLive, held_omsg (b := (b.setPeer m (some r)).setPeer r (some m)) isLive,
      fun q inside peer => holds isLive inside ?_⟩) fun s born => held_server
        (b := (b.setPeer m (some r)).setPeer r (some m)) born)
    have notM : q ≠ m := by
      rintro rfl
      cases alone.symm.trans peer
    rw [linked (notR isLive inside), Function.update_of_ne notM, peer]

/-- **A response is read and linked.** -/
theorem answer (retains : b.Retains []) (agrees : b.Agrees place)
    (received : (b.server s).rmsg = some r) (queue : (b.server s).omsg = m :: rest) :
    (b.answer s r m).Retains [] := by
  have waiting : m ∈ (b.server s).imsg ++ (b.server s).omsg :=
    List.mem_append_right _ (queue ▸ List.mem_cons_self)
  have placed := (agrees.server s).inside m waiting
  have alone : b.peer m = none := agrees.alone
    (agrees.made_of_place (by simp [placed])) (by simp [placed]) (by simp [placed])
  obtain ⟨c, isLive, inside⟩ := retains.queued s m waiting
  have loose := (agrees.loose_putDownServer received).1
  have down := (retains.putDownServer received).note (.responded s r)
  have left : (((b.putDownServer s).note (.responded s r)).setServer s
      { (b.putDownServer s).server s with
        omsg := ((b.putDownServer s).server s).omsg.tail }).Retains [r] :=
    down.setServer (fun x member => down.queued s x ((List.Sublist.append_left
      (List.tail_sublist _) _).subset member)) (fun x => Or.inl) fun x => Or.inl
  have linked := left.link isLive inside alone fun d isLive => (loose.client d isLive).2
  rw [← answer_eq]
  exact linked.note (.answered s r m)

/-- **A response was sent**, and the two messages are given back. -/
theorem complete (retains : b.Retains []) (agrees : b.Agrees place) (isLive : c ∈ b.live)
    (queue : (b.client c).omsg = m :: rest) (peer : b.peer m = some r) :
    ((b.complete c r).discard m).Retains [] := by
  have self : (b.complete c r).client c = { b.client c with omsg := (b.client c).omsg.tail } :=
    Function.update_self ..
  have other {d : Addr} (isC : d ≠ c) : (b.complete c r).client d = b.client d :=
    Function.update_of_ne isC ..
  have first : m ∈ (b.client c).omsg := queue ▸ List.mem_cons_self
  have settled : place m = .settled := (agrees.answered isLive first peer).1
  -- But for the first request, the queues of the clients are the same.
  have still {d x : Addr} (inside : x ∈ (b.client d).omsg) (notM : x ≠ m) :
      x ∈ ((b.complete c r).client d).omsg := by
    by_cases isC : d = c
    · rw [isC] at inside ⊢
      rw [self]
      show x ∈ (b.client c).omsg.tail
      rw [queue] at inside ⊢
      exact (List.mem_cons.mp inside).resolve_left notM
    · rw [other isC]
      exact inside
  have left : (b.complete c r).Retains [m, r] := by
    refine ⟨fun s x inside => ?_, fun x below => ?_⟩
    · obtain ⟨d, isLive, member⟩ := retains.queued s x inside
      refine ⟨d, isLive, still member ?_⟩
      rintro rfl
      cases settled.symm.trans ((agrees.server s).inside x inside)
    · by_cases isM : x = m
      · exact Or.inl (isM ▸ List.mem_cons_self)
      by_cases isR : x = r
      · exact Or.inl (List.mem_cons_of_mem m (List.mem_singleton.mpr isR))
      rcases (retains.kept x below).resolve_left List.not_mem_nil with isFree | isHeld
      · exact Or.inr (Or.inl isFree)
      · refine Or.inr (Or.inr (held_mono isHeld (fun d isLive => ⟨fun received => ?_,
          fun inside => ?_, fun q inside linked => ?_⟩) fun s born received =>
            held_server (b := b.complete c r) born received))
        · refine held_rmsg (b := b.complete c r) isLive ?_
          rw [← received]
          by_cases isC : d = c
          · rw [isC, self]
          · rw [other isC]
        · exact held_omsg (b := b.complete c r) isLive (still inside isM)
        · refine held_peer (b := b.complete c r) isLive (still inside ?_) linked
          rintro rfl
          exact isR (Option.some.inj (linked.symm.trans peer))
  obtain ⟨loose, looseR⟩ := agrees.loose_complete isLive queue peer
  refine left.discard (fun x inside => ?_) loose fun x linked => ?_
  · rcases List.mem_cons.mp inside with isM | isR
    · exact Or.inl isM
    · exact Or.inr (List.mem_singleton.mp isR ▸ peer)
  · rw [Option.some.inj ((show b.peer m = some x from linked).symm.trans peer)]
    exact looseR

/-! ### Connections that come and go -/

/-- A server connection that nothing refers to yet. -/
theorem spawn (retains : b.Retains []) : b.spawn.Retains [] := by
  have server {t : Addr} (born : t < b.servers) : b.spawn.server t = b.server t :=
    Function.update_of_ne (Nat.ne_of_lt born) ..
  refine ⟨fun s m inside => ?_, fun m below => Or.inr ?_⟩
  · by_cases new : s = b.servers
    · have bare : b.spawn.server b.servers = .bare := Function.update_self ..
      rw [new, bare] at inside
      exact absurd inside List.not_mem_nil
    · rw [show b.spawn.server s = b.server s from Function.update_of_ne new ..] at inside
      exact retains.queued s m inside
  · rcases (retains.kept m below).resolve_left List.not_mem_nil with isFree | isHeld
    · exact Or.inl isFree
    · refine Or.inr (held_mono isHeld (fun d isLive => ⟨held_rmsg (b := b.spawn) isLive,
        held_omsg (b := b.spawn) isLive, fun q => held_peer (b := b.spawn) isLive⟩)
        fun s born received => ?_)
      exact held_server (b := b.spawn) (Nat.lt_succ_of_lt born) ((server born).symm ▸ received)

/-- **A client comes**, with nothing in its queues. -/
theorem enter (retains : b.Retains []) {sd : Int} (notLive : c ∉ b.live) :
    (b.enter c sd rest).Retains [] := by
  have client {d : Addr} (isLive : d ∈ b.live) : (b.enter c sd rest).client d = b.client d := by
    refine Function.update_of_ne ?_ ..
    rintro rfl
    exact notLive isLive
  have live {d : Addr} (isLive : d ∈ b.live) : d ∈ (b.enter c sd rest).live :=
    List.mem_append_left _ isLive
  refine ⟨fun s m inside => ?_, fun m below => Or.inr ?_⟩
  · obtain ⟨d, isLive, inside⟩ := retains.queued s m inside
    exact ⟨d, live isLive, (client isLive).symm ▸ inside⟩
  · rcases (retains.kept m below).resolve_left List.not_mem_nil with isFree | isHeld
    · exact Or.inl isFree
    · refine Or.inr (held_mono isHeld (fun d isLive => ⟨fun received => ?_, fun inside => ?_,
        fun q inside peer => ?_⟩) fun s born received => ?_)
      · exact held_rmsg (live isLive) ((client isLive).symm ▸ received)
      · exact held_omsg (live isLive) ((client isLive).symm ▸ inside)
      · exact held_peer (live isLive) ((client isLive).symm ▸ inside) peer
      · exact held_server (b := b.enter c sd rest) born received

/-- **A client goes** that receives nothing, and has nothing in its queue. -/
theorem leave (retains : b.Retains []) (rmsg : (b.client c).rmsg = none)
    (omsg : (b.client c).omsg = []) : (b.leave c).Retains [] := by
  have stays {d : Addr} (isLive : d ∈ b.live) (other : d ≠ c) : d ∈ (b.leave c).live :=
    NcQueue.mem_remove.mpr ⟨isLive, other⟩
  have notC {d x : Addr} (inside : x ∈ (b.client d).omsg) : d ≠ c := by
    rintro rfl
    rw [omsg] at inside
    exact List.not_mem_nil inside
  refine ⟨fun s m inside => ?_, fun m below => Or.inr ?_⟩
  · obtain ⟨d, isLive, inside⟩ := retains.queued s m inside
    exact ⟨d, stays isLive (notC inside), inside⟩
  · rcases (retains.kept m below).resolve_left List.not_mem_nil with isFree | isHeld
    · exact Or.inl isFree
    · refine Or.inr (held_mono isHeld (fun d isLive => ⟨fun received => ?_, fun inside => ?_,
        fun q inside peer => ?_⟩) fun s born received => held_server (b := b.leave c) born received)
      · refine held_rmsg (b := b.leave c) (stays isLive ?_) received
        rintro rfl
        cases rmsg.symm.trans received
      · exact held_omsg (b := b.leave c) (stays isLive (notC inside)) inside
      · exact held_peer (b := b.leave c) (stays isLive (notC inside)) inside peer

end Retains

/-! ### Each message once -/

section Distinct

variable {b : Books} {place : Addr → Place} {c d m : Addr}

/-- **Where a message that a client holds is.** -/
theorem Agrees.holds_cases (agrees : b.Agrees place) (isLive : c ∈ b.live)
    (inside : m ∈ (b.client c).holds b.peer) :
    place m = .asking c ∨
    (m ∈ (b.client c).omsg ∧ (place m = .settled ∨ ∃ s, place m = .queued s)) ∨
    (place m = .response ∧ ∃ q ∈ (b.client c).omsg, b.peer m = some q) := by
  rcases mem_holds.mp inside with received | inside | ⟨q, inside, peer⟩
  · exact Or.inl ((agrees.client c isLive).asking m received)
  · exact Or.inr (Or.inl ⟨inside, (agrees.client c isLive).request m inside⟩)
  · have placed : place q ≠ .free := (agrees.client c isLive).place_ne inside nofun fun _ => nofun
    exact Or.inr (Or.inr ⟨(agrees.answered isLive inside peer).2.1, q, inside,
      (agrees.pair (agrees.made_of_place placed) peer).1⟩)

/-- What a client holds is not free. -/
theorem Agrees.holds_used (agrees : b.Agrees place) (isLive : c ∈ b.live)
    (inside : m ∈ (b.client c).holds b.peer) : place m ≠ .free ∧ ∀ s, place m ≠ .answering s := by
  rcases agrees.holds_cases isLive inside with placed | ⟨-, placed | ⟨s, placed⟩⟩ | ⟨placed, -⟩
  · simp [placed]
  · simp [placed]
  · simp [placed]
  · simp [placed]

/-- **One client holds it.** -/
theorem Agrees.holds_unique (agrees : b.Agrees place) (isLive : c ∈ b.live) (isLive' : d ∈ b.live)
    (inside : m ∈ (b.client c).holds b.peer) (inside' : m ∈ (b.client d).holds b.peer) : c = d := by
  rcases agrees.holds_cases isLive inside with one | ⟨queued, one⟩ | ⟨one, q, queued, peer⟩
  · rcases agrees.holds_cases isLive' inside' with two | ⟨-, two | ⟨s, two⟩⟩ | ⟨two, -⟩
    · cases one.symm.trans two
      rfl
    · cases one.symm.trans two
    · cases one.symm.trans two
    · cases one.symm.trans two
  · rcases agrees.holds_cases isLive' inside' with two | ⟨queued', -⟩ | ⟨two, -⟩
    · rcases one with one | ⟨s, one⟩
      · cases one.symm.trans two
      · cases one.symm.trans two
    · exact agrees.client_unique isLive isLive' queued queued'
    · rcases one with one | ⟨s, one⟩
      · cases one.symm.trans two
      · cases one.symm.trans two
  · rcases agrees.holds_cases isLive' inside' with two | ⟨-, two | ⟨s, two⟩⟩ | ⟨-, x, queued', peer'⟩
    · cases one.symm.trans two
    · cases one.symm.trans two
    · cases one.symm.trans two
    · cases peer.symm.trans peer'
      exact agrees.client_unique isLive isLive' queued queued'

/-- A client holds no message twice. -/
theorem Agrees.holds_nodup (agrees : b.Agrees place) (isLive : c ∈ b.live) :
    ((b.client c).holds b.peer).Nodup := by
  have asks := agrees.client c isLive
  have requests := agrees.client_distinct isLive
  have made {q : Addr} (inside : q ∈ (b.client c).omsg) : q < b.made :=
    agrees.made_of_place (asks.place_ne inside nofun fun _ => nofun)
  have responses : ((b.client c).omsg.filterMap b.peer).Nodup := by
    refine List.pairwise_filterMap.mpr (requests.imp_of_mem fun {q x} inside inside' other => ?_)
    rintro m peer y peer' rfl
    have back := (agrees.pair (made inside) peer).1
    have back' := (agrees.pair (made inside') peer').1
    exact other (Option.some.inj (back.symm.trans back'))
  unfold Desk.holds
  refine List.nodup_append.mpr ⟨List.nodup_append.mpr ⟨?_, requests, ?_⟩, responses, ?_⟩
  · cases (b.client c).rmsg with
    | none => exact List.nodup_nil
    | some m => exact List.nodup_singleton m
  · rintro m received x inside rfl
    exact asks.not_mem (asks.asking m (Option.mem_toList.mp received)) nofun (fun _ => nofun) inside
  · rintro m inside x linked rfl
    obtain ⟨q, inside', peer⟩ := List.mem_filterMap.mp linked
    have answered := (agrees.answered isLive inside' peer).2.1
    rcases List.mem_append.mp inside with received | inside
    · cases (asks.asking m (Option.mem_toList.mp received)).symm.trans answered
    · exact asks.not_mem answered nofun (fun _ => nofun) inside

/-- **Nothing is held twice.** -/
theorem Agrees.held_nodup (agrees : b.Agrees place) (distinct : b.live.Nodup) : b.held.Nodup := by
  unfold held
  refine List.nodup_append.mpr ⟨List.nodup_flatMap.mpr
    ⟨fun c => agrees.holds_nodup, distinct.pairwise_of_forall_ne ?_⟩, ?_, ?_⟩
  · rintro c isLive d isLive' other m inside inside'
    exact other (agrees.holds_unique isLive isLive' inside inside')
  · refine List.pairwise_filterMap.mpr (List.nodup_range.imp fun {s t} other => ?_)
    rintro m received x received' rfl
    have one := (agrees.server s).answering m received
    have two := (agrees.server t).answering m received'
    cases one.symm.trans two
    exact other rfl
  · rintro m inside x received rfl
    obtain ⟨c, isLive, inside⟩ := List.mem_flatMap.mp inside
    obtain ⟨s, -, received⟩ := List.mem_filterMap.mp received
    exact (agrees.holds_used isLive inside).2 s ((agrees.server s).answering m received)

/-- What is held is not free. -/
theorem Agrees.held_used (agrees : b.Agrees place) (inside : m ∈ b.held) : place m ≠ .free := by
  rcases List.mem_append.mp inside with inside | received
  · obtain ⟨c, isLive, inside⟩ := List.mem_flatMap.mp inside
    exact (agrees.holds_used isLive inside).1
  · obtain ⟨s, -, received⟩ := List.mem_filterMap.mp received
    simp [(agrees.server s).answering m received]

/-- **The free messages and the held ones are those that were made**, each of them once. -/
theorem Retains.perm (retains : b.Retains []) (sound : b.Sound) (distinct : b.live.Nodup) :
    (b.free ++ b.held).Perm (List.range b.made) := by
  obtain ⟨place, agrees⟩ := sound
  have nodup : (b.free ++ b.held).Nodup := by
    refine List.nodup_append.mpr ⟨agrees.nodup, agrees.held_nodup distinct, ?_⟩
    rintro m isFree x isHeld rfl
    exact agrees.held_used isHeld (agrees.free m isFree).1
  refine (List.perm_ext_iff_of_nodup nodup List.nodup_range).mpr fun m => ?_
  rw [List.mem_append, List.mem_range]
  constructor
  · rintro (isFree | isHeld)
    · exact (agrees.free m isFree).2
    · exact agrees.made_of_place (agrees.held_used isHeld)
  · intro made
    exact (retains.kept m made).resolve_left List.not_mem_nil

end Distinct

end Books

end Nutcracker
