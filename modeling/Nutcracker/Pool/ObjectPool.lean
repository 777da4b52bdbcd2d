/-
**`NcObjectPool`: a queue of objects to use again.**

`alloc` takes the object at the front of the queue, and only an empty queue makes it call `new`;
`free` resets an object and queues it. `NcObjectPool α` is the pool together with the objects behind
its pointers, and `poolSystem` is every history of one: objects are taken, made outside the pool,
used and given back, and nobody touches an object that lies in the queue.

* `Sorted P Q` — the objects in use satisfy `P`, the objects in the queue satisfy `Q`, and the queue
  holds no object twice.
* `sorted_of_reach` — **the rule for pools**: what holds of a new object, survives each use, and
  turns into `Q` on `reset` and back on `alloc`, holds in every history.
* `sorted_of_guarded` — the same without the way back, for histories whose queue is empty at every
  `alloc`.

A field `m_x_` of the source is `m_x` here.
-/

import Nutcracker.Lib.Runs
import Nutcracker.RbTree.Model

namespace Nutcracker

open Lib

/-- `NcObjectPool<T>`, with the objects it points to. `made` is the address the next `new` returns. -/
structure NcObjectPool (α : Type) where
  mem : Addr → α
  made : Addr
  m_queue : List Addr
  m_free : UInt32
  m_current : Ptr

namespace NcObjectPool

variable {α : Type}

/-- `NcObjectPool()`. The constructor leaves `m_current_` as it is. -/
def default (mem : Addr → α) (current : Ptr) : NcObjectPool α := ⟨mem, 0, [], 0, current⟩

/-- Rewrite an object. -/
def put (p : NcObjectPool α) (o : Addr) (f : α → α) : NcObjectPool α :=
  { p with mem := Function.update p.mem o (f (p.mem o)) }

/-- `new RT()`. -/
def create (object : α) (p : NcObjectPool α) : NcObjectPool α × Addr :=
  ({ p with mem := Function.update p.mem p.made object, made := p.made + 1 }, p.made)

/-- `alloc<RT>()`, where `object` is what `new RT()` constructs. -/
def alloc (object : α) (p : NcObjectPool α) : NcObjectPool α × Addr :=
  match p.m_queue with
  | o :: rest => ({ p with m_queue := rest, m_current := some o }, o)
  | [] =>
      let (p, o) := p.create object
      ({ p with m_current := some o }, o)

/-- `free(T o)`, where `reset` is the `reset()` of the pool's element type `T`. -/
def free (reset : α → α) (o : Ptr) (p : NcObjectPool α) : NcObjectPool α :=
  match o with
  | none => p
  | some o =>
      let p := p.put o reset
      { p with m_queue := p.m_queue ++ [o], m_free := p.m_free + 1 }

/-- Handed out, and not yet given back. -/
def InUse (p : NcObjectPool α) (o : Addr) : Prop := o < p.made ∧ o ∉ p.m_queue

instance (p : NcObjectPool α) (o : Addr) : Decidable (p.InUse o) :=
  inferInstanceAs (Decidable (_ ∧ _))

@[simp] theorem mem_put_self (p : NcObjectPool α) (o : Addr) (f : α → α) :
    (p.put o f).mem o = f (p.mem o) := Function.update_self ..

theorem mem_put_of_ne {x o : Addr} (p : NcObjectPool α) (f : α → α) (other : x ≠ o) :
    (p.put o f).mem x = p.mem x := Function.update_of_ne other ..

/-! ### The two cases of `alloc` -/

theorem alloc_queued {p : NcObjectPool α} {o : Addr} {rest : List Addr} (object : α)
    (queued : p.m_queue = o :: rest) :
    p.alloc object = ({ p with m_queue := rest, m_current := some o }, o) := by
  unfold alloc
  rw [queued]

theorem alloc_empty {p : NcObjectPool α} (object : α) (empty : p.m_queue = []) :
    p.alloc object = ({ (p.create object).1 with m_current := some p.made }, p.made) := by
  unfold alloc
  rw [empty]
  rfl

/-- What `alloc` hands out: the object at the front as `free` left it, or a new one. -/
theorem mem_alloc (object : α) (p : NcObjectPool α) :
    (p.alloc object).1.mem (p.alloc object).2 =
      match p.m_queue with
      | o :: _ => p.mem o
      | [] => object := by
  cases queue : p.m_queue with
  | nil =>
      rw [alloc_empty object queue]
      exact Function.update_self ..
  | cons o rest => rw [alloc_queued object queue]

/-- `alloc` changes no other object. -/
theorem mem_alloc_of_ne (object : α) (p : NcObjectPool α) {x : Addr}
    (other : x ≠ (p.alloc object).2) : (p.alloc object).1.mem x = p.mem x := by
  cases queue : p.m_queue with
  | nil =>
      rw [alloc_empty object queue] at other ⊢
      exact Function.update_of_ne other _ _
  | cons o rest => rw [alloc_queued object queue]

/-- What holds of a new object and of those in the queue holds of the object handed out. -/
theorem alloc_taken {P : α → Prop} {object : α} {p : NcObjectPool α} (new : P object)
    (queued : ∀ o ∈ p.m_queue, P (p.mem o)) : P ((p.alloc object).1.mem (p.alloc object).2) := by
  rw [mem_alloc]
  cases queue : p.m_queue with
  | nil => exact new
  | cons o rest => exact queued o (queue ▸ List.mem_cons_self)

/-- `alloc` makes one object at most: the one it hands out. -/
theorem made_alloc (object : α) (p : NcObjectPool α) :
    p.made ≤ (p.alloc object).1.made ∧
      ∀ x < (p.alloc object).1.made, x ≠ (p.alloc object).2 → x < p.made := by
  cases queue : p.m_queue with
  | nil =>
      rw [alloc_empty object queue]
      exact ⟨Nat.le_succ _, fun x made other => Nat.lt_of_le_of_ne (Nat.le_of_lt_succ made) other⟩
  | cons o rest =>
      rw [alloc_queued object queue]
      exact ⟨Nat.le_refl _, fun x made _ => made⟩

/-- **The object handed out joins the objects in use**, which stay distinct. -/
theorem alloc_distinct (object : α) {p : NcObjectPool α} {used : List Addr}
    (distinct : (used ++ p.m_queue).Nodup) (made : ∀ o ∈ used ++ p.m_queue, o < p.made) :
    (used ++ [(p.alloc object).2] ++ (p.alloc object).1.m_queue).Nodup ∧
      ∀ o ∈ used ++ [(p.alloc object).2] ++ (p.alloc object).1.m_queue,
        o < (p.alloc object).1.made := by
  cases queue : p.m_queue with
  | nil =>
      rw [queue, List.append_nil] at distinct made
      have unmade : p.made ∉ used := fun old => Nat.lt_irrefl _ (made _ old)
      rw [alloc_empty object queue]
      dsimp only [create]
      rw [queue, List.append_nil]
      refine ⟨?_, fun o member => ?_⟩
      · rw [List.nodup_append]
        refine ⟨distinct, List.nodup_singleton _, fun o old x single => ?_⟩
        rw [List.mem_singleton.mp single]
        exact fun same => unmade (same ▸ old)
      · rcases List.mem_append.mp member with old | single
        · exact Nat.lt_succ_of_lt (made o old)
        · rw [List.mem_singleton.mp single]
          exact Nat.lt_succ_self _
  | cons o rest =>
      have split : used ++ o :: rest = used ++ [o] ++ rest := by
        rw [List.append_assoc, List.singleton_append]
      rw [queue, split] at distinct made
      rw [alloc_queued object queue]
      exact ⟨distinct, made⟩

/-- The objects in use stay in use, and none of them is handed out. -/
theorem InUse.alloc {p : NcObjectPool α} {x : Addr} (used : p.InUse x) (object : α) :
    (p.alloc object).1.InUse x ∧ x ≠ (p.alloc object).2 := by
  obtain ⟨made, notQueued⟩ := used
  cases queue : p.m_queue with
  | nil =>
      rw [alloc_empty object queue]
      exact ⟨⟨Nat.lt_succ_of_lt made, notQueued⟩, Nat.ne_of_lt made⟩
  | cons o rest =>
      rw [queue, List.mem_cons, not_or] at notQueued
      rw [alloc_queued object queue]
      exact ⟨⟨made, notQueued.2⟩, notQueued.1⟩

/-! ### What is known about the objects of a pool -/

/-- The objects in use satisfy `P`; the queue holds no object twice, and its objects satisfy `Q`. -/
structure Sorted (P Q : α → Prop) (p : NcObjectPool α) : Prop where
  distinct : p.m_queue.Nodup
  made : ∀ o ∈ p.m_queue, o < p.made
  inUse : ∀ o, p.InUse o → P (p.mem o)
  queued : ∀ o ∈ p.m_queue, Q (p.mem o)

namespace Sorted

variable {P Q : α → Prop} {p : NcObjectPool α} {object : α} {reset : α → α}

theorem default (mem : Addr → α) (current : Ptr) :
    Sorted P Q (NcObjectPool.default mem current) where
  distinct := List.nodup_nil
  made _ queued := absurd queued List.not_mem_nil
  inUse o used := absurd used.1 (Nat.not_lt_zero o)
  queued _ queued := absurd queued List.not_mem_nil

theorem create (sorted : Sorted P Q p) (new : P object) : Sorted P Q (p.create object).1 where
  distinct := sorted.distinct
  made o queued := Nat.lt_succ_of_lt (sorted.made o queued)
  inUse o used := by
    obtain ⟨below, notQueued⟩ := used
    by_cases isNew : o = p.made
    · rw [isNew]
      show P (Function.update p.mem p.made object p.made)
      rw [Function.update_self]
      exact new
    · show P (Function.update p.mem p.made object o)
      rw [Function.update_of_ne isNew]
      exact sorted.inUse o ⟨Nat.lt_of_le_of_ne (Nat.lt_succ_iff.mp below) isNew, notQueued⟩
  queued o queued := by
    show Q (Function.update p.mem p.made object o)
    rw [Function.update_of_ne (Nat.ne_of_lt (sorted.made o queued))]
    exact sorted.queued o queued

/-- Handing out the front of the queue needs its object to be fit for use. -/
theorem alloc (sorted : Sorted P Q p) (new : P object)
    (again : ∀ o ∈ p.m_queue.head?, P (p.mem o)) : Sorted P Q (p.alloc object).1 := by
  cases queue : p.m_queue with
  | nil =>
      rw [alloc_empty object queue]
      obtain ⟨distinct, made, inUse, queued⟩ := sorted.create new
      exact ⟨distinct, made, inUse, queued⟩
  | cons o rest =>
      have distinct := sorted.distinct
      rw [queue] at again distinct
      have stays : ∀ x ∈ rest, x ∈ p.m_queue := fun x member => queue ▸ List.mem_cons_of_mem o member
      rw [alloc_queued object queue]
      refine ⟨(List.nodup_cons.mp distinct).2, fun x member => sorted.made x (stays x member),
        fun x used => ?_, fun x member => sorted.queued x (stays x member)⟩
      by_cases isFirst : x = o
      · rw [isFirst]
        exact again o rfl
      · refine sorted.inUse x ⟨used.1, ?_⟩
        rw [queue, List.mem_cons, not_or]
        exact ⟨isFirst, used.2⟩

/-- The object handed out is in use. -/
theorem inUse_alloc (sorted : Sorted P Q p) (object : α) :
    (p.alloc object).1.InUse (p.alloc object).2 := by
  have queued : ([] ++ p.m_queue).Nodup := sorted.distinct
  obtain ⟨distinct, made⟩ := alloc_distinct object queued sorted.made
  exact ⟨made _ List.mem_cons_self, (List.nodup_cons.mp distinct).1⟩

theorem free (sorted : Sorted P Q p) {o : Addr} (used : p.InUse o) (back : Q (reset (p.mem o))) :
    Sorted P Q (p.free reset (some o)) where
  distinct := by
    show (p.m_queue ++ [o]).Nodup
    rw [List.nodup_append]
    refine ⟨sorted.distinct, List.nodup_singleton o, fun x queued y single => ?_⟩
    rw [List.mem_singleton.mp single]
    rintro rfl
    exact used.2 queued
  made x queued := by
    rcases List.mem_append.mp queued with before | single
    · exact sorted.made x before
    · exact List.mem_singleton.mp single ▸ used.1
  inUse x inUse := by
    obtain ⟨below, notQueued⟩ := inUse
    obtain ⟨notBefore, notO⟩ := not_or.mp (mt List.mem_append.mpr notQueued)
    show P (Function.update p.mem o (reset (p.mem o)) x)
    rw [Function.update_of_ne (mt List.mem_singleton.mpr notO)]
    exact sorted.inUse x ⟨below, notBefore⟩
  queued x queued := by
    show Q (Function.update p.mem o (reset (p.mem o)) x)
    by_cases isO : x = o
    · rw [isO, Function.update_self]
      exact back
    · rw [Function.update_of_ne isO]
      rcases List.mem_append.mp queued with before | single
      · exact sorted.queued x before
      · exact absurd (List.mem_singleton.mp single) isO

theorem put (sorted : Sorted P Q p) {o : Addr} (used : p.InUse o) {f : α → α}
    (keep : P (f (p.mem o))) : Sorted P Q (p.put o f) where
  distinct := sorted.distinct
  made := sorted.made
  inUse x inUse := by
    show P (Function.update p.mem o (f (p.mem o)) x)
    by_cases isO : x = o
    · rw [isO, Function.update_self]
      exact keep
    · rw [Function.update_of_ne isO]
      exact sorted.inUse x inUse
  queued x queued := by
    have notO : x ≠ o := fun isO => used.2 (isO ▸ queued)
    show Q (Function.update p.mem o (f (p.mem o)) x)
    rw [Function.update_of_ne notO]
    exact sorted.queued x queued

end Sorted

end NcObjectPool

/-! ### Histories -/

/-- What happens to a pool and its objects. -/
inductive PoolOp (α : Type)
  | alloc
  | create
  | free (o : Addr)
  | use (o : Addr) (object : α)

/-- **The histories of a pool.** `object` is what `new` constructs, `Use` says what one use may make
of an object; only objects in use are used and freed. -/
def poolSystem {α : Type} (object : α) (reset : α → α) (Use : α → α → Prop) :
    System (NcObjectPool α) (PoolOp α) where
  init p := ∃ mem current, p = .default mem current
  step p op p' :=
    match op with
    | .alloc => p' = (p.alloc object).1
    | .create => p' = (p.create object).1
    | .free o => p.InUse o ∧ p' = p.free reset (some o)
    | .use o next => p.InUse o ∧ Use (p.mem o) next ∧ p' = p.put o fun _ => next

namespace NcObjectPool

variable {α : Type} {object : α} {reset : α → α} {Use : α → α → Prop} {P Q : α → Prop}
  {p : NcObjectPool α}

/-- One step, when the object that `alloc` hands out is fit for use. -/
theorem Sorted.step {op : PoolOp α} {p' : NcObjectPool α} (new : P object)
    (use : ∀ a b, P a → Use a b → P b) (back : ∀ a, P a → Q (reset a)) (sorted : Sorted P Q p)
    (again : op = .alloc → ∀ o ∈ p.m_queue.head?, P (p.mem o))
    (step : (poolSystem object reset Use).step p op p') : Sorted P Q p' := by
  cases op with
  | alloc =>
      rw [show p' = _ from step]
      exact sorted.alloc new (again rfl)
  | create =>
      rw [show p' = _ from step]
      exact sorted.create new
  | free o =>
      obtain ⟨used, rfl⟩ := step
      exact sorted.free used (back _ (sorted.inUse o used))
  | use o next =>
      obtain ⟨used, change, rfl⟩ := step
      exact sorted.put used (use _ _ (sorted.inUse o used) change)

/-- **The rule for pools.** -/
theorem sorted_of_reach (new : P object) (use : ∀ a b, P a → Use a b → P b)
    (back : ∀ a, P a → Q (reset a)) (again : ∀ a, Q a → P a)
    (reached : (poolSystem object reset Use).Reach p) : Sorted P Q p := by
  refine reached.invariant (fun q start => ?_) fun q op q' _ sorted step => ?_
  · obtain ⟨mem, current, rfl⟩ := start
    exact .default mem current
  · refine sorted.step new use back (fun _ o first => again _ (sorted.queued o ?_)) step
    exact List.mem_of_mem_head? first

/-- **The rule for histories that never use an object again**: every `alloc` finds the queue
empty. -/
theorem sorted_of_guarded (new : P object) (use : ∀ a b, P a → Use a b → P b)
    (back : ∀ a, P a → Q (reset a))
    (reached : ((poolSystem object reset Use).guarded
      fun p op => op = .alloc → p.m_queue = []).Reach p) : Sorted P Q p := by
  refine reached.invariant (fun q start => ?_) fun q op q' _ sorted step => ?_
  · obtain ⟨mem, current, rfl⟩ := start
    exact .default mem current
  · refine sorted.step new use back (fun isAlloc o first => ?_) step.2
    rw [step.1 isAlloc] at first
    cases first

end NcObjectPool

end Nutcracker
