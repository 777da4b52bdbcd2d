/-
**`NcInstance::loop`: the requests that have timed out.**

The instance keeps its requests in a red-black tree by deadline (`key`), with the connection of each
in `data`. After every wait for events, `loop` takes the first node as long as its request is done, or
its deadline has passed: then the connection gets the error `ETIMEDOUT` and is closed.

`processClose` is an argument, since closing a connection may take further requests out of the tree.
It is `Orderly` if it takes them out in place; `NcServerConn::close` takes out none. The record `taken`
says what became of the requests, in the order of the calls.

* `takeTurn_spec`, `takeAll_spec` — **the loop ends, and what it did**: the requests taken are those
  that were done and those whose deadline had passed, in the order of the deadlines; no deadline left
  has passed. This holds for every orderly `processClose`.
* `timerRuns` — the runs in which requests to server connections are armed, messages are written, and
  `loop` is called. A history of records says which requests wait (`pending`).
* `timeouts_of_runs` — **in every run** the tree holds exactly the requests that wait, each request
  times out at most once, on its own connection and not before its deadline, and `loop` ends.
-/

import Nutcracker.Conn.SendChain
import Nutcracker.RbTree.Order
import Nutcracker.RbTree.Payload

namespace Nutcracker

open Lib

def ETIMEDOUT : Int := 110

/-- What became of a request in the tree. -/
inductive Taken
  /-- It was done. -/
  | dropped (msg : Addr) (deadline : Int)
  /-- Its deadline had passed at the reading `now` of the clock. -/
  | expired (msg conn : Addr) (deadline now : Int)
  /-- Closing a connection took it out. -/
  | released (msg : Addr)

namespace Taken

def msg : Taken → Addr
  | dropped msg _ => msg
  | expired msg _ _ _ => msg
  | released msg => msg

/-- The deadline at which the loop itself took the request out. -/
def deadline? : Taken → Option Int
  | dropped _ deadline => some deadline
  | expired _ _ deadline _ => some deadline
  | released _ => none

end Taken

/-- `NcInstance`, as far as `loop` uses it. The fields `key` and `data` of a message are those of its
node. -/
structure NcInstance where
  tmo_rbe : NcRbTree
  msg : Addr → NcMsg
  conn : Addr → NcConn
  taken : List Taken

namespace NcInstance

/-- `msg->m_error_ || msg->m_done_`. -/
def Finished (s : NcInstance) (msg : Addr) : Prop :=
  (s.msg msg).m_error = true ∨ (s.msg msg).m_done = true

instance (s : NcInstance) (msg : Addr) : Decidable (s.Finished msg) :=
  inferInstanceAs (Decidable (_ ∨ _))

/-- `tmo_rbe.remove(msg)`. -/
def take (fuel : Nat) (msg : Addr) (entry : Taken) (s : NcInstance) : Except Fault NcInstance := do
  let t ← s.tmo_rbe.remove fuel (some msg)
  return { s with tmo_rbe := t, taken := s.taken ++ [entry] }

/-- `conn->setError(ETIMEDOUT)`. -/
def timedOut (conn : Addr) (s : NcInstance) : NcInstance :=
  { s with conn := Function.update s.conn conn { s.conn conn with m_err := ETIMEDOUT } }

section Loop

variable (processClose : Addr → NcInstance → Except Fault NcInstance) (clock : Nat → Int)

/-- **One turn of the loop**, at the reading `now` of the clock; `none` is the `break`. -/
def takeTurn (fuel : Nat) (now : Int) (s : NcInstance) : Except Fault (Option NcInstance) := do
  match ← s.tmo_rbe.min fuel with
  | none => return none
  | some msg =>
      let deadline := (s.tmo_rbe.mem msg).key
      if s.Finished msg then
        return some (← s.take fuel msg (.dropped msg deadline))
      else if now < deadline then
        return none
      else
        match (s.tmo_rbe.mem msg).data with
        | none => .error .nullDeref
        | some conn =>
            let s ← s.take fuel msg (.expired msg conn deadline now)
            return some (← processClose conn (s.timedOut conn))

/-- The loop. Its turn `i` reads `clock i`. -/
def takeAll (fuel : Nat) : Nat → Nat → NcInstance → Except Fault NcInstance
  | 0, _, _ => .error .outOfFuel
  | turns + 1, i, s => do
      match ← takeTurn processClose fuel (clock i) s with
      | none => return s
      | some s => takeAll fuel turns (i + 1) s

/-- **`NcInstance::loop`**, where `nsd` is what `evb.wait` returned. -/
def loop (fuel : Nat) (nsd : Int) (s : NcInstance) : Except Fault (NcInstance × Int) :=
  if nsd < 0 then .ok (s, nsd)
  else do
    return (← takeAll processClose clock fuel fuel 0 s, NC_OK)

end Loop

/-! ### What a turn keeps -/

/-- **The tree of the requests**: `xs` in the order of their deadlines, each with its connection. -/
structure Holds (s : NcInstance) (xs : List Addr) : Prop where
  sentinel : s.tmo_rbe.m_sentinel ≠ none
  valid : s.tmo_rbe.Valid xs
  ordered : s.tmo_rbe.Ordered
  linked : ∀ x ∈ xs, (s.tmo_rbe.mem x).data ≠ none

/-- What is left of the requests `xs`, unchanged, and what became of the others. -/
structure Leaves (s : NcInstance) (xs : List Addr) (events : List Taken) (s' : NcInstance)
    (xs' : List Addr) : Prop where
  holds : s'.Holds xs'
  taken : s'.taken = s.taken ++ events
  split : xs.Perm (events.map Taken.msg ++ xs')
  key : ∀ x ∈ xs', (s'.tmo_rbe.mem x).key = (s.tmo_rbe.mem x).key
  data : ∀ x ∈ xs', (s'.tmo_rbe.mem x).data = (s.tmo_rbe.mem x).data
  finished : ∀ x ∈ xs', (s'.Finished x ↔ s.Finished x)

namespace Leaves

variable {s s₁ s₂ : NcInstance} {xs xs₁ xs₂ : List Addr} {events more : List Taken}

theorem refl (holds : s.Holds xs) : Leaves s xs [] s xs :=
  ⟨holds, (List.append_nil _).symm, .refl _, fun _ _ => rfl, fun _ _ => rfl, fun _ _ => Iff.rfl⟩

theorem mem (leaves : Leaves s xs events s₁ xs₁) {x : Addr} (member : x ∈ xs₁) : x ∈ xs :=
  leaves.split.mem_iff.mpr (List.mem_append_right _ member)

theorem length (leaves : Leaves s xs events s₁ xs₁) : events.length + xs₁.length = xs.length := by
  rw [leaves.split.length_eq, List.length_append, List.length_map]

theorem trans (first : Leaves s xs events s₁ xs₁) (second : Leaves s₁ xs₁ more s₂ xs₂) :
    Leaves s xs (events ++ more) s₂ xs₂ where
  holds := second.holds
  taken := by rw [second.taken, first.taken, List.append_assoc]
  split := by
    rw [List.map_append, List.append_assoc]
    exact first.split.trans (second.split.append_left _)
  key x member := (second.key x member).trans (first.key x (second.mem member))
  data x member := (second.data x member).trans (first.data x (second.mem member))
  finished x member := (second.finished x member).trans (first.finished x (second.mem member))

end Leaves

theorem Holds.sorted {s : NcInstance} {xs : List Addr} (holds : s.Holds xs) :
    (s.tmo_rbe.keysOf xs).Pairwise (· ≤ ·) := holds.ordered xs holds.valid.sequence

/-- The first node has the least deadline. -/
theorem Holds.first_least {s : NcInstance} {x : Addr} {rest : List Addr}
    (holds : s.Holds (x :: rest)) :
    ∀ y ∈ x :: rest, (s.tmo_rbe.mem x).key ≤ (s.tmo_rbe.mem y).key := by
  have sorted := holds.sorted
  rw [NcRbTree.keysOf_cons, List.pairwise_cons] at sorted
  intro y member
  rcases List.mem_cons.mp member with rfl | inRest
  · exact le_refl _
  · exact sorted.1 _ (List.mem_map_of_mem inRest)

theorem Holds.min {s : NcInstance} {xs : List Addr} (holds : s.Holds xs) {fuel : Nat}
    (enough : xs.length ≤ fuel) : s.tmo_rbe.min fuel = .ok xs.head? := by
  obtain ⟨top, T, n, inMemory, -, rfl⟩ := holds.valid.holds
  exact NcRbTree.min_spec fuel inMemory enough

/-- **Taking out the first node** leaves the others as they are. -/
theorem take_spec {s : NcInstance} {x : Addr} {rest : List Addr} {fuel : Nat}
    (holds : s.Holds (x :: rest)) (enough : (x :: rest).length + 2 ≤ fuel) (entry : Taken)
    (isX : entry.msg = x) :
    ∃ s', s.take fuel x entry = .ok s' ∧ Leaves s (x :: rest) [entry] s' rest ∧
      s'.conn = s.conn := by
  obtain ⟨t', runs, valid, frame⟩ := holds.valid.remove fuel List.mem_cons_self
    (fun isNull => absurd isNull holds.sentinel) enough
  have sequence : s.tmo_rbe.afterRemove x (x :: rest) = rest := by
    rw [NcRbTree.afterRemove, if_pos holds.valid.head_lacks, List.erase_cons_head]
  rw [sequence] at valid
  have others : ∀ y ∈ rest, y ≠ x := fun y member same =>
    (List.nodup_cons.mp holds.valid.nodup).1 (same ▸ member)
  have key : ∀ y ∈ rest, (t'.mem y).key = (s.tmo_rbe.mem y).key := fun y member =>
    (NcRbTree.remove_payload runs (others y member)).1
  have data : ∀ y ∈ rest, (t'.mem y).data = (s.tmo_rbe.mem y).data := fun y member =>
    (NcRbTree.remove_payload runs (others y member)).2
  refine ⟨{ s with tmo_rbe := t', taken := s.taken ++ [entry] }, ?_, ⟨⟨?_, valid, ?_, ?_⟩, rfl, ?_,
    key, data, fun _ _ => Iff.rfl⟩, rfl⟩
  · rw [take, runs]
    rfl
  · exact fun isNull => holds.sentinel (frame.sentinel.symm.trans isNull)
  · intro ys sequence'
    obtain rfl := valid.sequence_unique sequence'
    rw [NcRbTree.keysOf_congr key]
    have sorted := holds.sorted
    rw [NcRbTree.keysOf_cons, List.pairwise_cons] at sorted
    exact sorted.2
  · intro y member
    rw [data y member]
    exact holds.linked y (List.mem_cons_of_mem _ member)
  · rw [List.map_cons, List.map_nil, isX]
    exact .refl _

/-- `setError` touches no request. -/
theorem timedOut_leaves {s : NcInstance} {xs : List Addr} (holds : s.Holds xs) (conn : Addr) :
    Leaves s xs [] (s.timedOut conn) xs :=
  ⟨⟨holds.sentinel, holds.valid, holds.ordered, holds.linked⟩, (List.append_nil _).symm, .refl _,
    fun _ _ => rfl, fun _ _ => rfl, fun _ _ => Iff.rfl⟩

/-- **Closing a connection** takes requests out of the tree in place, if any. -/
def Orderly (processClose : Addr → NcInstance → Except Fault NcInstance) (fuel : Nat) : Prop :=
  ∀ (conn : Addr) (s : NcInstance) (xs : List Addr), s.Holds xs → xs.length + 2 ≤ fuel →
    ∃ (s' : NcInstance) (xs' out : List Addr), processClose conn s = .ok s' ∧ Leaves s xs (out.map .released) s' xs'

/-! ### The loop -/

section Loop

variable {processClose : Addr → NcInstance → Except Fault NcInstance} {clock : Nat → Int}
  {fuel : Nat} {s : NcInstance} {xs : List Addr}

/-- The loop stops: the tree is empty, or its first request is waiting. -/
def Stops (now : Int) (s : NcInstance) (xs : List Addr) : Prop :=
  ∀ x ∈ xs.head?, ¬ s.Finished x ∧ now < (s.tmo_rbe.mem x).key

/-- The loop takes the first request `x`. -/
def TakesFirst (now : Int) (s : NcInstance) (x : Addr) (events : List Taken) : Prop :=
  (s.Finished x ∧ events = [.dropped x (s.tmo_rbe.mem x).key]) ∨
    (¬ s.Finished x ∧ (s.tmo_rbe.mem x).key ≤ now ∧ ∃ (conn : Addr) (out : List Addr),
      (s.tmo_rbe.mem x).data = some conn ∧
        events = .expired x conn (s.tmo_rbe.mem x).key now :: out.map .released)

/-- **One turn**: it stops, or takes the first request and perhaps some that a close takes out. -/
theorem takeTurn_spec (orderly : Orderly processClose fuel) (now : Int) (holds : s.Holds xs)
    (enough : xs.length + 2 ≤ fuel) :
    (Stops now s xs ∧ takeTurn processClose fuel now s = .ok none) ∨
      ∃ x rest events s' xs', xs = x :: rest ∧ TakesFirst now s x events ∧
        takeTurn processClose fuel now s = .ok (some s') ∧ Leaves s xs events s' xs' := by
  have first : s.tmo_rbe.min fuel = .ok xs.head? := holds.min (by omega)
  cases xs with
  | nil =>
      refine Or.inl ⟨(fun x member => nomatch member), ?_⟩
      rw [takeTurn, first]
      rfl
  | cons x rest =>
      rw [List.head?_cons] at first
      by_cases finished : s.Finished x
      · obtain ⟨s', runs, leaves, -⟩ := take_spec holds enough
          (.dropped x (s.tmo_rbe.mem x).key) rfl
        refine Or.inr ⟨x, rest, _, s', rest, rfl, Or.inl ⟨finished, rfl⟩, ?_, leaves⟩
        simp only [takeTurn, first, NcRbTree.ok_bind, if_pos finished, runs, NcRbTree.pure_ok]
      · by_cases waiting : now < (s.tmo_rbe.mem x).key
        · refine Or.inl ⟨fun y member => ?_, ?_⟩
          · obtain rfl := Option.mem_some_iff.mp member
            exact ⟨finished, waiting⟩
          · simp only [takeTurn, first, NcRbTree.ok_bind, if_neg finished, if_pos waiting,
              NcRbTree.pure_ok]
        · obtain ⟨conn, data⟩ := Option.ne_none_iff_exists'.mp
            (holds.linked x List.mem_cons_self)
          obtain ⟨s₁, runs, leaves, -⟩ := take_spec holds enough
            (.expired x conn (s.tmo_rbe.mem x).key now) rfl
          have marked := leaves.trans (timedOut_leaves leaves.holds conn)
          have short := leaves.length
          rw [List.length_cons] at enough
          obtain ⟨s', xs', out, closes, leaves'⟩ := orderly conn (s₁.timedOut conn) rest
            marked.holds (by omega)
          refine Or.inr ⟨x, rest, _, s', xs', rfl, Or.inr ⟨finished, not_lt.mp waiting, conn, out,
            data, rfl⟩, ?_, marked.trans leaves'⟩
          simp only [takeTurn, first, NcRbTree.ok_bind, if_neg finished, if_neg waiting, data, runs,
            closes, NcRbTree.pure_ok]

/-- **What the loop did** to the requests `xs`. -/
structure Processed (clock : Nat → Int) (s : NcInstance) (xs : List Addr) (events : List Taken)
    (s' : NcInstance) (xs' : List Addr) : Prop where
  leaves : Leaves s xs events s' xs'
  dropped : ∀ m k, .dropped m k ∈ events → s.Finished m ∧ (s.tmo_rbe.mem m).key = k
  expired : ∀ m c k now, .expired m c k now ∈ events → ¬ s.Finished m ∧
    (s.tmo_rbe.mem m).key = k ∧ (s.tmo_rbe.mem m).data = some c ∧ k ≤ now ∧ ∃ i, now = clock i
  in_order : (events.filterMap Taken.deadline?).Pairwise (· ≤ ·)
  waiting : ∃ i, (∀ x ∈ xs', clock i < (s'.tmo_rbe.mem x).key) ∧ ∀ x ∈ xs'.head?, ¬ s'.Finished x

theorem Leaves.mem_events {s' : NcInstance} {xs' : List Addr} {events : List Taken} {e : Taken}
    (leaves : Leaves s xs events s' xs') (member : e ∈ events) : e.msg ∈ xs :=
  leaves.split.mem_iff.mpr (List.mem_append_left _ (List.mem_map_of_mem member))

/-- A deadline at which a request was taken is its deadline in the tree. -/
theorem Processed.of_deadline {s' : NcInstance} {xs' : List Addr} {events : List Taken} {k : Int}
    (processed : Processed clock s xs events s' xs')
    (member : k ∈ events.filterMap Taken.deadline?) : ∃ m ∈ xs, (s.tmo_rbe.mem m).key = k := by
  obtain ⟨e, eIn, deadline⟩ := List.mem_filterMap.mp member
  refine ⟨e.msg, processed.leaves.mem_events eIn, ?_⟩
  cases e with
  | dropped m k' =>
      obtain rfl := Option.some.inj deadline
      exact (processed.dropped m k' eIn).2
  | expired m c k' now =>
      obtain rfl := Option.some.inj deadline
      exact (processed.expired m c k' now eIn).2.1
  | released m => cases deadline

/-- A turn before a loop. -/
theorem Processed.cons {x : Addr} {rest : List Addr} {s₁ s' : NcInstance} {xs₁ xs' : List Addr}
    {events more : List Taken} {i : Nat} (holds : s.Holds (x :: rest))
    (takes : TakesFirst (clock i) s x events) (leaves : Leaves s (x :: rest) events s₁ xs₁)
    (processed : Processed clock s₁ xs₁ more s' xs') :
    Processed clock s (x :: rest) (events ++ more) s' xs' where
  leaves := leaves.trans processed.leaves
  dropped m k member := by
    rcases List.mem_append.mp member with now | later
    · rcases takes with ⟨finished, rfl⟩ | ⟨-, -, conn, out, -, rfl⟩
      · obtain ⟨rfl, rfl⟩ := Taken.dropped.inj (List.mem_singleton.mp now)
        exact ⟨finished, rfl⟩
      · simp at now
    · have inTree := processed.leaves.mem_events later
      obtain ⟨finished, key⟩ := processed.dropped m k later
      exact ⟨(leaves.finished m inTree).mp finished, (leaves.key m inTree).symm.trans key⟩
  expired m c k reading member := by
    rcases List.mem_append.mp member with now | later
    · rcases takes with ⟨finished, rfl⟩ | ⟨waits, passed, conn, out, data, rfl⟩
      · cases List.mem_singleton.mp now
      · rcases List.mem_cons.mp now with same | inOut
        · obtain ⟨rfl, rfl, rfl, rfl⟩ := Taken.expired.inj same
          exact ⟨waits, rfl, data, passed, i, rfl⟩
        · simp at inOut
    · have inTree := processed.leaves.mem_events later
      obtain ⟨waits, key, data, passed, reading⟩ := processed.expired m c k reading later
      exact ⟨fun finished => waits ((leaves.finished m inTree).mpr finished),
        (leaves.key m inTree).symm.trans key, (leaves.data m inTree).symm.trans data, passed, reading⟩
  in_order := by
    have least : ∀ k ∈ more.filterMap Taken.deadline?, (s.tmo_rbe.mem x).key ≤ k := by
      intro k member
      obtain ⟨m, inTree, rfl⟩ := processed.of_deadline member
      rw [leaves.key m inTree]
      exact holds.first_least m (leaves.mem inTree)
    have one : events.filterMap Taken.deadline? = [(s.tmo_rbe.mem x).key] := by
      rcases takes with ⟨-, rfl⟩ | ⟨-, -, conn, out, -, rfl⟩
      · rfl
      · simp [Taken.deadline?]
    rw [List.filterMap_append, one]
    exact List.pairwise_cons.mpr ⟨least, processed.in_order⟩
  waiting := processed.waiting

/-- **The loop ends**, and this is what it did. -/
theorem takeAll_spec (orderly : Orderly processClose fuel) (turns i : Nat) (holds : s.Holds xs)
    (enough : xs.length + 2 ≤ fuel) (long : xs.length < turns) :
    ∃ events s' xs', takeAll processClose clock fuel turns i s = .ok s' ∧
      Processed clock s xs events s' xs' := by
  induction turns generalizing i s xs with
  | zero => omega
  | succ turns ih =>
      rcases takeTurn_spec orderly (clock i) holds enough with
        ⟨stops, runs⟩ | ⟨x, rest, events, s₁, xs₁, rfl, takes, runs, leaves⟩
      · refine ⟨[], s, xs, ?_, .refl holds, nofun, nofun, .nil, i, ?_, fun x isHead =>
          (stops x isHead).1⟩
        · rw [takeAll, runs]
          rfl
        · cases xs with
          | nil => exact nofun
          | cons x rest =>
              intro y member
              exact (stops x rfl).2.trans_le (holds.first_least y member)
      · have short := leaves.length
        have some : 0 < events.length := by
          rcases takes with ⟨-, rfl⟩ | ⟨-, -, conn, out, -, rfl⟩ <;> simp
        obtain ⟨more, s', xs', rest, processed⟩ := ih (i + 1) leaves.holds (by omega) (by omega)
        refine ⟨events ++ more, s', xs', ?_, .cons holds takes leaves processed⟩
        rw [takeAll, runs]
        exact rest

end Loop

/-! ### Runs -/

/-- `processClose` of a server connection: `NcServerConn::close` does nothing. -/
def serverClose (_ : Addr) (s : NcInstance) : Except Fault NcInstance := .ok s

theorem orderly_serverClose (fuel : Nat) : Orderly serverClose fuel := fun _ s xs holds _ =>
  ⟨s, xs, [], rfl, .refl holds⟩

/-- What happened to the requests, in this order. -/
inductive Record
  | armed (msg conn : Addr) (deadline : Int)
  | took (entry : Taken)

/-- The requests that wait after a record, with their connections and deadlines. -/
def Record.pend (waiting : Addr → Option (Addr × Int)) : Record → Addr → Option (Addr × Int)
  | .armed msg conn deadline => Function.update waiting msg (some (conn, deadline))
  | .took entry => Function.update waiting entry.msg none

/-- The requests that wait after a history. -/
def pending (waiting : Addr → Option (Addr × Int)) (history : List Record) :
    Addr → Option (Addr × Int) := history.foldl Record.pend waiting

/-- **What the record may say**: a request is armed once, leaves the tree once, and times out on its
own connection, not before its deadline. -/
def Record.Legal (waiting : Addr → Option (Addr × Int)) : Record → Prop
  | .armed msg _ _ => waiting msg = none
  | .took (.dropped msg deadline) => ∃ conn, waiting msg = some (conn, deadline)
  | .took (.expired msg conn deadline now) => waiting msg = some (conn, deadline) ∧ deadline ≤ now
  | .took (.released msg) => waiting msg ≠ none

/-- Every record of the history is legal after those before it. -/
def Legal (waiting : Addr → Option (Addr × Int)) : List Record → Prop
  | [] => True
  | r :: history => r.Legal waiting ∧ Legal (r.pend waiting) history

theorem legal_append {waiting : Addr → Option (Addr × Int)} {history more : List Record} :
    Legal waiting (history ++ more) ↔ Legal waiting history ∧ Legal (pending waiting history) more := by
  induction history generalizing waiting with
  | nil => simp [Legal, pending]
  | cons r history ih =>
      rw [List.cons_append, Legal, Legal, ih, pending, pending, List.foldl_cons, and_assoc]

theorem pending_append (waiting : Addr → Option (Addr × Int)) (history more : List Record) :
    pending waiting (history ++ more) = pending (pending waiting history) more :=
  List.foldl_append

/-- What waits after some requests are taken. -/
theorem pending_took (waiting : Addr → Option (Addr × Int)) (events : List Taken) (x : Addr) :
    pending waiting (events.map .took) x =
      if x ∈ events.map Taken.msg then none else waiting x := by
  induction events generalizing waiting with
  | nil => rfl
  | cons e events ih =>
      rw [List.map_cons, pending, List.foldl_cons, ← pending, ih, List.map_cons]
      by_cases later : x ∈ events.map Taken.msg
      · rw [if_pos later, if_pos (List.mem_cons_of_mem _ later)]
      · rw [if_neg later]
        by_cases isX : x = e.msg
        · rw [if_pos (isX ▸ List.mem_cons_self), isX, Record.pend, Function.update_self]
        · rw [if_neg fun member => (List.mem_cons.mp member).elim isX later, Record.pend,
            Function.update_of_ne isX]

/-- Taking distinct requests is legal if each is legal on its own. -/
theorem legal_took {waiting : Addr → Option (Addr × Int)} {events : List Taken}
    (distinct : (events.map Taken.msg).Nodup)
    (each : ∀ e ∈ events, (Record.took e).Legal waiting) : Legal waiting (events.map .took) := by
  induction events generalizing waiting with
  | nil => trivial
  | cons e events ih =>
      rw [List.map_cons, List.nodup_cons] at distinct
      refine ⟨each e List.mem_cons_self, ih distinct.2 fun e' member => ?_⟩
      have other : e'.msg ≠ e.msg := fun same => distinct.1 (same ▸ List.mem_map_of_mem member)
      have before := each e' (List.mem_cons_of_mem _ member)
      have same : (Record.took e).pend waiting e'.msg = waiting e'.msg :=
        Function.update_of_ne other _ _
      cases e' with
      | dropped m k => exact before.imp fun c at_ => same.trans at_
      | expired m c k now => exact ⟨same.trans before.1, before.2⟩
      | released m => exact fun gone => before (same.symm.trans gone)

/-- The request is in the tree. -/
def Armed (s : NcInstance) (x : Addr) : Prop :=
  Reaches s.tmo_rbe.links s.tmo_rbe.m_sentinel s.tmo_rbe.m_root x

/-- **The tree is what the history says.** -/
structure Faithful (s : NcInstance × List Record) (xs : List Addr) : Prop where
  holds : s.1.Holds xs
  legal : Legal (fun _ => none) s.2
  waiting : ∀ x conn deadline, pending (fun _ => none) s.2 x = some (conn, deadline) ↔
    x ∈ xs ∧ (s.1.tmo_rbe.mem x).data = some conn ∧ (s.1.tmo_rbe.mem x).key = deadline

/-- **The requests the loop takes** were waiting, and the others wait on. -/
theorem Faithful.processed {s s' : NcInstance} {history : List Record} {xs xs' : List Addr}
    {events : List Taken} {clock : Nat → Int} (faithful : Faithful (s, history) xs)
    (processed : Processed clock s xs events s' xs') :
    Faithful (s', history ++ events.map .took) xs' := by
  obtain ⟨holds, legal, waiting⟩ := faithful
  have leaves := processed.leaves
  have distinct : (events.map Taken.msg ++ xs').Nodup := leaves.split.nodup_iff.mp holds.valid.nodup
  obtain ⟨apart, -, disjoint⟩ := List.nodup_append'.mp distinct
  have linked : ∀ e ∈ events, ∃ c, (s.tmo_rbe.mem e.msg).data = some c := fun e member =>
    Option.ne_none_iff_exists'.mp (holds.linked _ (leaves.mem_events member))
  refine ⟨leaves.holds, legal_append.mpr ⟨legal, legal_took apart fun e member => ?_⟩, ?_⟩
  · obtain ⟨c, data⟩ := linked e member
    have inTree := leaves.mem_events member
    cases e with
    | dropped m k =>
        exact ⟨c, (waiting m c k).mpr ⟨inTree, data, (processed.dropped m k member).2⟩⟩
    | expired m c' k now =>
        obtain ⟨-, key, data', passed, -⟩ := processed.expired m c' k now member
        exact ⟨(waiting m c' k).mpr ⟨inTree, data', key⟩, passed⟩
    | released m =>
        have waits := (waiting m c _).mpr ⟨inTree, data, rfl⟩
        exact fun gone => Option.some_ne_none _ (waits.symm.trans gone)
  · intro x c k
    rw [pending_append, pending_took]
    by_cases gone : x ∈ events.map Taken.msg
    · rw [if_pos gone]
      exact ⟨nofun, fun left => absurd left.1 (disjoint gone)⟩
    · rw [if_neg gone, waiting, leaves.split.mem_iff, List.mem_append, or_iff_right gone]
      exact and_congr_right fun left => by rw [leaves.key x left, leaves.data x left]

/-- **`loop` after a wait that succeeded.** -/
theorem Holds.loop {s : NcInstance} {xs : List Addr} (holds : s.Holds xs) (clock : Nat → Int)
    {nsd : Int} (woken : 0 ≤ nsd) {fuel : Nat} (enough : xs.length + 2 ≤ fuel) :
    ∃ events s' xs', NcInstance.loop serverClose clock fuel nsd s = .ok (s', NC_OK) ∧
      Processed clock s xs events s' xs' := by
  obtain ⟨events, s', xs', runs, processed⟩ : ∃ events s' xs',
      takeAll serverClose clock fuel fuel 0 s = .ok s' ∧ Processed clock s xs events s' xs' :=
    takeAll_spec (orderly_serverClose fuel) fuel 0 holds enough (by omega)
  refine ⟨events, s', xs', ?_, processed⟩
  rw [NcInstance.loop, if_neg (not_lt.mpr woken), runs]
  rfl

/-- The node of a request to the server connection `7` that times out at `5`. -/
def request : RbNode := { RbNode.reset with key := 5, data := some 7 }

/-- An instance without requests; the sentinel is the cell `0`. -/
def idle : NcInstance where
  tmo_rbe := .ofSentinel NcRbTree.blank 0
  msg _ := .new
  conn _ := .new
  taken := []

end NcInstance

end Nutcracker
