/-
**Recycled objects against new ones.**

Two ways to compare an object that `alloc` hands out again with a newly constructed one.

* `Traced` keeps, for the proofs, the value an object had when it was last freed. `freed_of_reach`:
  in every history the object at the front of the queue is the `reset` of that value.
* `twinSystem` runs two pools side by side, with the same operations. The first recycles, the second
  constructs each object anew. `Twins.of_guarded`: **if every object freed resets to a new one, the
  two runs agree** on every object in use.
-/

import Nutcracker.Pool.ObjectPool

namespace Nutcracker

open Lib

/-- An object with the value it had when it was last freed. -/
structure Traced (α : Type) where
  object : α
  freed : α

namespace Traced

variable {α : Type}

def new (object : α) : Traced α := ⟨object, object⟩

def reset (r : α → α) (a : Traced α) : Traced α := ⟨r a.object, a.object⟩

/-- Any use of the object. -/
def Use (a b : Traced α) : Prop := a.freed = b.freed

/-- **In every history, a queued object is the reset of the value it was freed with.** -/
theorem freed_of_reach {object : α} {r : α → α} {p : NcObjectPool (Traced α)}
    (reached : (poolSystem (.new object) (reset r) Use).Reach p) {o : Addr} (queued : o ∈ p.m_queue) :
    (p.mem o).object = r (p.mem o).freed := by
  have sorted : p.Sorted (fun _ => True) fun a => a.object = r a.freed :=
    NcObjectPool.sorted_of_reach trivial (fun _ _ _ _ => trivial) (fun _ _ => rfl)
      (fun _ _ => trivial) reached
  exact sorted.queued o queued

/-- **Recycling equals construction exactly on the objects that reset to a new one.** -/
theorem recycled_iff {object : α} {r : α → α} {Agrees : α → α → Prop} {Clean : α → Prop}
    (clean_iff : ∀ a, Agrees (r a) object ↔ Clean a) {p : NcObjectPool (Traced α)}
    (reached : (poolSystem (.new object) (reset r) Use).Reach p) {o : Addr} {rest : List Addr}
    (queue : p.m_queue = o :: rest) :
    Agrees ((p.alloc (.new object)).1.mem (p.alloc (.new object)).2).object object ↔
      Clean (p.mem o).freed := by
  have first : o ∈ p.m_queue := by
    rw [queue]
    exact List.mem_cons_self
  rw [NcObjectPool.mem_alloc, queue]
  show Agrees (p.mem o).object object ↔ _
  rw [freed_of_reach reached first]
  exact clean_iff _

end Traced

/-! ### Two runs side by side -/

namespace NcObjectPool

variable {α : Type}

/-- `alloc`, when the object at the front of the queue is constructed anew. -/
def allocNew (object : α) (p : NcObjectPool α) : NcObjectPool α × Addr :=
  let (p, o) := p.alloc object
  (p.put o fun _ => object, o)

theorem allocNew_empty (object : α) {p : NcObjectPool α} (empty : p.m_queue = []) :
    p.allocNew object = p.alloc object := by
  rw [allocNew, alloc_empty object empty]
  show (({ (p.create object).1 with m_current := some p.made } : NcObjectPool α).put p.made
    fun _ => object, p.made) = _
  simp only [put, create, Function.update_idem]

theorem alloc_addr (object : α) {p q : NcObjectPool α} (made : p.made = q.made)
    (queue : p.m_queue = q.m_queue) : (p.alloc object).2 = (q.alloc object).2 := by
  unfold alloc
  rw [← queue]
  cases p.m_queue with
  | nil => exact made
  | cons o rest => rfl

end NcObjectPool

/-- An operation of both runs; a use is the same function in both. -/
inductive TwinOp (α : Type)
  | alloc
  | create
  | free (o : Addr)
  | use (o : Addr) (f : α → α)

/-- **Two runs that differ only in whether an object is recycled or new.** A use reads nothing but
what `Agrees` compares. -/
def twinSystem {α : Type} (object : α) (reset : α → α) (Agrees : α → α → Prop) :
    System (NcObjectPool α × NcObjectPool α) (TwinOp α) where
  init s := ∃ mem current, s = (.default mem current, .default mem current)
  step s op s' :=
    match op with
    | .alloc => s' = ((s.1.alloc object).1, (s.2.allocNew object).1)
    | .create => s' = ((s.1.create object).1, (s.2.create object).1)
    | .free o => s.1.InUse o ∧ s' = (s.1.free reset (some o), s.2.free reset (some o))
    | .use o f => s.1.InUse o ∧ (∀ a b, Agrees a b → Agrees (f a) (f b)) ∧
        s' = (s.1.put o f, s.2.put o f)

/-- Every object freed is clean. -/
def FreesClean {α : Type} (Clean : α → Prop) (s : NcObjectPool α × NcObjectPool α) (op : TwinOp α) :
    Prop := ∀ o, op = .free o → Clean (s.1.mem o)

/-- **The two runs behave the same**: they have the same objects in use, which agree, and the next
`alloc` of both returns the same address. -/
structure Twins {α : Type} (object : α) (Agrees : α → α → Prop)
    (s : NcObjectPool α × NcObjectPool α) : Prop where
  made : s.1.made = s.2.made
  queue : s.1.m_queue = s.2.m_queue
  next : (s.1.alloc object).2 = (s.2.allocNew object).2
  agree : ∀ o, s.1.InUse o → Agrees (s.1.mem o) (s.2.mem o)

namespace Twins

variable {α : Type} {object : α} {reset : α → α} {Agrees : α → α → Prop}
  {s s' : NcObjectPool α × NcObjectPool α}

/-- What the steps keep: an object in the queue of the first run could pass for a new one. -/
structure Side (object : α) (Agrees : α → α → Prop) (s : NcObjectPool α × NcObjectPool α) : Prop where
  sorted : s.1.Sorted (fun _ => True) fun a => Agrees a object
  made : s.1.made = s.2.made
  queue : s.1.m_queue = s.2.m_queue
  agree : ∀ o, s.1.InUse o → Agrees (s.1.mem o) (s.2.mem o)

theorem Side.create (refl : Agrees object object) (side : Side object Agrees s) :
    Side object Agrees ((s.1.create object).1, (s.2.create object).1) where
  sorted := side.sorted.create trivial
  made := congrArg (· + 1) side.made
  queue := side.queue
  agree o used := by
    show Agrees (Function.update s.1.mem s.1.made object o)
      (Function.update s.2.mem s.2.made object o)
    rw [← side.made]
    by_cases isNew : o = s.1.made
    · rw [isNew, Function.update_self, Function.update_self]
      exact refl
    · rw [Function.update_of_ne isNew, Function.update_of_ne isNew]
      exact side.agree o ⟨Nat.lt_of_le_of_ne (Nat.lt_succ_iff.mp used.1) isNew, used.2⟩

theorem Side.alloc (refl : Agrees object object) (side : Side object Agrees s) :
    Side object Agrees ((s.1.alloc object).1, (s.2.allocNew object).1) := by
  have sorted : ((s.1.alloc object).1).Sorted (fun _ => True) fun a => Agrees a object :=
    side.sorted.alloc trivial fun _ _ => trivial
  cases queue : s.1.m_queue with
  | nil =>
      obtain ⟨-, made, queues, agree⟩ := side.create refl
      have other : s.2.m_queue = [] := side.queue ▸ queue
      rw [NcObjectPool.allocNew_empty object other, NcObjectPool.alloc_empty object other]
      rw [NcObjectPool.alloc_empty object queue] at *
      exact ⟨sorted, made, queues, agree⟩
  | cons o rest =>
      have other : s.2.m_queue = o :: rest := side.queue ▸ queue
      have fit : Agrees (s.1.mem o) object := by
        refine side.sorted.queued o ?_
        rw [queue]
        exact List.mem_cons_self
      rw [NcObjectPool.allocNew, NcObjectPool.alloc_queued object other]
      rw [NcObjectPool.alloc_queued object queue] at *
      refine ⟨sorted, side.made, rfl, fun x used => ?_⟩
      show Agrees (s.1.mem x) (Function.update s.2.mem o object x)
      by_cases isFirst : x = o
      · rw [isFirst, Function.update_self]
        exact fit
      · rw [Function.update_of_ne isFirst]
        refine side.agree x ⟨used.1, ?_⟩
        rw [queue, List.mem_cons, not_or]
        exact ⟨isFirst, used.2⟩

theorem Side.free (side : Side object Agrees s) {o : Addr} (used : s.1.InUse o)
    (clean : Agrees (reset (s.1.mem o)) object) :
    Side object Agrees (s.1.free reset (some o), s.2.free reset (some o)) where
  sorted := side.sorted.free used clean
  made := side.made
  queue := congrArg (· ++ [o]) side.queue
  agree x inUse := by
    obtain ⟨notBefore, notO⟩ := not_or.mp (mt List.mem_append.mpr inUse.2)
    have ne : x ≠ o := mt List.mem_singleton.mpr notO
    show Agrees (Function.update s.1.mem o _ x) (Function.update s.2.mem o _ x)
    rw [Function.update_of_ne ne, Function.update_of_ne ne]
    exact side.agree x ⟨inUse.1, notBefore⟩

theorem Side.use (side : Side object Agrees s) {o : Addr} (used : s.1.InUse o) {f : α → α}
    (respects : ∀ a b, Agrees a b → Agrees (f a) (f b)) :
    Side object Agrees (s.1.put o f, s.2.put o f) where
  sorted := side.sorted.put used trivial
  made := side.made
  queue := side.queue
  agree x inUse := by
    show Agrees (Function.update s.1.mem o _ x) (Function.update s.2.mem o _ x)
    by_cases isO : x = o
    · rw [isO, Function.update_self, Function.update_self]
      exact respects _ _ (side.agree o used)
    · rw [Function.update_of_ne isO, Function.update_of_ne isO]
      exact side.agree x inUse

/-- **If every object freed resets to a new one, the two runs behave the same.** -/
theorem of_guarded {Clean : α → Prop} (refl : Agrees object object)
    (clean_iff : ∀ a, Agrees (reset a) object ↔ Clean a)
    (reached : ((twinSystem object reset Agrees).guarded (FreesClean Clean)).Reach s) :
    Twins object Agrees s := by
  have side : Side object Agrees s := by
    refine reached.invariant (fun q start => ?_) fun q op q' _ side step => ?_
    · obtain ⟨mem, current, rfl⟩ := start
      exact ⟨.default mem current, rfl, rfl, fun o used => absurd used.1 (Nat.not_lt_zero o)⟩
    · obtain ⟨clean, step⟩ := step
      cases op with
      | alloc =>
          rw [show q' = _ from step]
          exact side.alloc refl
      | create =>
          rw [show q' = _ from step]
          exact side.create refl
      | free o =>
          obtain ⟨used, rfl⟩ := step
          exact side.free used ((clean_iff _).mpr (clean o rfl))
      | use o f =>
          obtain ⟨used, respects, rfl⟩ := step
          exact side.use used respects
  exact ⟨side.made, side.queue, NcObjectPool.alloc_addr object side.made side.queue, side.agree⟩

end Twins

end Nutcracker
