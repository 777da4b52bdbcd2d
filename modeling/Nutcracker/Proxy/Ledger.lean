/-
**The record of a run as a ledger.**

Message objects are used again, so a request is known by its ticket, the number of requests that were
read before it. `ledger` reads off the record which tickets each client brought with its present
socket, which of them were completed, and which were moved and answered on each server connection.

* `numbered` — **tickets are never given out twice**: those of one client are distinct, and no two
  clients share one.

A response that is completed counts for the ticket it was linked to last.
-/

import Mathlib.Data.List.Nodup
import Nutcracker.Proxy.Model

namespace Nutcracker

/-- What the record says. -/
structure Ledger where
  /-- The number of requests that were read. -/
  reads : Nat
  /-- The ticket of the request that was read into a message last. -/
  ticket : Addr → Nat
  /-- The requests that the present socket of a client brought, in the order they were read. -/
  requests : Addr → List Nat
  /-- The requests of the present socket whose response was sent, in this order. -/
  completed : Addr → List Nat
  /-- The requests that `sendDone` moved to `m_omsg_q` of a server connection, in this order. -/
  moved : Addr → List Nat
  /-- The number of responses that a server connection read. -/
  responses : Addr → Nat
  /-- The requests that they were linked to, in this order. -/
  answered : Addr → List Nat
  /-- The request that a response was linked to last. -/
  link : Addr → Nat
  /-- The responses that `sendChain` handed to a client, the latest first. -/
  handed : List (Addr × Addr)

namespace Ledger

def blank : Ledger where
  reads := 0
  ticket _ := 0
  requests _ := []
  completed _ := []
  moved _ := []
  responses _ := 0
  answered _ := []
  link _ := 0
  handed := []

/-- Put one more ticket at the end of an entry. -/
def enter (a : Addr) (t : Nat) (entries : Addr → List Nat) : Addr → List Nat :=
  Function.update entries a (entries a ++ [t])

@[simp] theorem enter_self (a : Addr) (t : Nat) (entries : Addr → List Nat) :
    enter a t entries a = entries a ++ [t] := Function.update_self ..

theorem enter_of_ne {a x : Addr} (t : Nat) (entries : Addr → List Nat) (other : x ≠ a) :
    enter a t entries x = entries x := Function.update_of_ne other ..

def note (act : Act) (l : Ledger) : Ledger :=
  match act with
  | .accepted c _ =>
      { l with
        requests := Function.update l.requests c []
        completed := Function.update l.completed c [] }
  | .read c m =>
      { l with
        reads := l.reads + 1
        ticket := Function.update l.ticket m l.reads
        requests := enter c l.reads l.requests }
  | .moved s m => { l with moved := enter s (l.ticket m) l.moved }
  | .responded s _ => { l with responses := Function.update l.responses s (l.responses s + 1) }
  | .answered s rsp pmsg =>
      { l with
        answered := enter s (l.ticket pmsg) l.answered
        link := Function.update l.link rsp (l.ticket pmsg) }
  | .handed c rsp => { l with handed := (c, rsp) :: l.handed }
  | .completed c rsp => { l with completed := enter c (l.link rsp) l.completed }
  | _ => l

/-- Tickets are given out once. -/
structure Numbered (l : Ledger) : Prop where
  below : ∀ c, ∀ t ∈ l.requests c, t < l.reads
  distinct : ∀ c, (l.requests c).Nodup
  apart : ∀ c d t, t ∈ l.requests c → t ∈ l.requests d → c = d

theorem numbered_blank : blank.Numbered where
  below _ _ inside := absurd inside List.not_mem_nil
  distinct _ := List.nodup_nil
  apart _ _ _ inside := absurd inside List.not_mem_nil

namespace Numbered

variable {l : Ledger}

theorem accepted (numbered : l.Numbered) (c : Addr) (sd : Int) :
    (l.note (.accepted c sd)).Numbered := by
  have kept (d : Addr) (t : Nat) (inside : t ∈ (l.note (.accepted c sd)).requests d) :
      t ∈ l.requests d := by
    change t ∈ Function.update l.requests c [] d at inside
    by_cases isC : d = c
    · rw [isC, Function.update_self] at inside
      exact absurd inside List.not_mem_nil
    · rwa [Function.update_of_ne isC] at inside
  refine ⟨fun d t inside => numbered.below d t (kept d t inside), fun d => ?_,
    fun d e t inside inside' => numbered.apart d e t (kept d t inside) (kept e t inside')⟩
  show (Function.update l.requests c [] d).Nodup
  by_cases isC : d = c
  · rw [isC, Function.update_self]
    exact List.nodup_nil
  · rw [Function.update_of_ne isC]
    exact numbered.distinct d

theorem read (numbered : l.Numbered) (c m : Addr) : (l.note (.read c m)).Numbered := by
  have fresh (d : Addr) : l.reads ∉ l.requests d :=
    fun inside => Nat.lt_irrefl _ (numbered.below d _ inside)
  have cases (d : Addr) (t : Nat) (inside : t ∈ (l.note (.read c m)).requests d) :
      t ∈ l.requests d ∨ (d = c ∧ t = l.reads) := by
    change t ∈ enter c l.reads l.requests d at inside
    by_cases isC : d = c
    · rw [isC, enter_self, List.mem_append, List.mem_singleton] at inside
      rw [isC]
      exact inside.imp_right fun same => ⟨rfl, same⟩
    · rw [enter_of_ne _ _ isC] at inside
      exact Or.inl inside
  refine ⟨fun d t inside => ?_, fun d => ?_, fun d e t inside inside' => ?_⟩
  · show t < l.reads + 1
    rcases cases d t inside with old | ⟨-, new⟩
    · exact Nat.lt_succ_of_lt (numbered.below d t old)
    · exact new ▸ Nat.lt_succ_self _
  · show (enter c l.reads l.requests d).Nodup
    by_cases isC : d = c
    · rw [isC, enter_self, List.nodup_append]
      refine ⟨numbered.distinct c, List.nodup_singleton _, fun t old u single => ?_⟩
      rw [List.mem_singleton.mp single]
      exact fun same => fresh c (same ▸ old)
    · rw [enter_of_ne _ _ isC]
      exact numbered.distinct d
  · rcases cases d t inside with old | ⟨isC, new⟩
    · rcases cases e t inside' with old' | ⟨-, new'⟩
      · exact numbered.apart d e t old old'
      · exact absurd (new' ▸ old) (fresh d)
    · rcases cases e t inside' with old' | ⟨isC', -⟩
      · exact absurd (new ▸ old') (fresh e)
      · rw [isC, isC']

/-- **Whatever is noted, no ticket is given out twice.** -/
theorem note (numbered : l.Numbered) (act : Act) : (l.note act).Numbered := by
  cases act with
  | accepted c sd => exact numbered.accepted c sd
  | read c m => exact numbered.read c m
  | _ => exact ⟨numbered.below, numbered.distinct, numbered.apart⟩

end Numbered

end Ledger

/-- **The ledger of a record**, the latest act first. -/
def ledger (acts : List Act) : Ledger := acts.foldr Ledger.note .blank

/-- **Tickets are never given out twice.** -/
theorem numbered (acts : List Act) : (ledger acts).Numbered := by
  induction acts with
  | nil => exact Ledger.numbered_blank
  | cons act acts numbered => exact numbered.note act

end Nutcracker
