/-
**`NcRbTree`, over a memory of `rbnode` cells.**

The tree of `nc_rbtree.h` as the code has it: cells with `left`, `right`, `parent`, `key`, `data`
and `color`, a root pointer and a sentinel pointer. A read or write through `NULL` is the fault
`nullDeref`. The three loops run on fuel; an operation that some fuel finishes gives the same result
for every larger fuel, so `∃ fuel` in a statement means that the code returns.

The code spells each rotation and each branch of the two rebalancing loops twice, once for each
side. Here the side is a parameter (`rotate`, `insertStep`, `removeStep`), and the source's own
functions are its two values. The fields `m_root` and `m_sentinel` are the source's `m_root_` and
`m_sentinel_`.
-/

import Nutcracker.Lib.LinkedTree
import Mathlib.Logic.Function.Basic

namespace Nutcracker

open Lib

/-- The address of an object. -/
abbrev Addr := Nat

/-- A C++ pointer; `none` is `NULL`. -/
abbrev Ptr := Option Addr

/-- What goes wrong: a field read or written through `NULL`, or a loop out of fuel. -/
inductive Fault
  | nullDeref
  | outOfFuel
  deriving DecidableEq, Repr

/-- `rbnode`. -/
structure RbNode extends Links Addr where
  key : Int
  data : Ptr
  deriving DecidableEq, Repr

/-- `rbnode::reset()`, and the constructor's initial values. -/
def RbNode.reset : RbNode :=
  { left := none, right := none, parent := none, key := 0, data := none, color := .black }

namespace RbNode

def withChild (d : Dir) (q : Ptr) (node : RbNode) : RbNode :=
  { node with toLinks := node.toLinks.setChild d q }

def withParent (q : Ptr) (node : RbNode) : RbNode := { node with parent := q }

def withColor (c : Color) (node : RbNode) : RbNode := { node with color := c }

end RbNode

/-- `NcRbTree`, with the cells it points into. -/
structure NcRbTree where
  mem : Addr → RbNode
  m_root : Ptr
  m_sentinel : Ptr

namespace NcRbTree

/-! ### Field access -/

/-- Read a cell. -/
def load (t : NcRbTree) : Ptr → Except Fault RbNode
  | some x => .ok (t.mem x)
  | none => .error .nullDeref

/-- Rewrite a cell. -/
def put (t : NcRbTree) (x : Addr) (f : RbNode → RbNode) : NcRbTree :=
  { t with mem := Function.update t.mem x (f (t.mem x)) }

/-- Rewrite the cell behind a pointer. -/
def store (t : NcRbTree) (p : Ptr) (f : RbNode → RbNode) : Except Fault NcRbTree :=
  match p with
  | some x => .ok (t.put x f)
  | none => .error .nullDeref

def child (t : NcRbTree) (d : Dir) (p : Ptr) : Except Fault Ptr := do
  return (← t.load p).child d

def parent (t : NcRbTree) (p : Ptr) : Except Fault Ptr := do
  return (← t.load p).parent

def color (t : NcRbTree) (p : Ptr) : Except Fault Color := do
  return (← t.load p).color

def key (t : NcRbTree) (p : Ptr) : Except Fault Int := do
  return (← t.load p).key

def setChild (t : NcRbTree) (d : Dir) (p q : Ptr) : Except Fault NcRbTree :=
  t.store p (RbNode.withChild d q)

def setParent (t : NcRbTree) (p q : Ptr) : Except Fault NcRbTree :=
  t.store p (RbNode.withParent q)

def setColor (t : NcRbTree) (p : Ptr) (c : Color) : Except Fault NcRbTree :=
  t.store p (RbNode.withColor c)

/-! ### Rotations -/

/-- `NcRbTree()`: root and sentinel are both `NULL`. -/
def default (mem : Addr → RbNode) : NcRbTree := ⟨mem, none, none⟩

/-- `NcRbTree(rbnode *node)`: the node is painted black and is both root and sentinel. -/
def ofSentinel (mem : Addr → RbNode) (node : Addr) : NcRbTree :=
  ⟨Function.update mem node { mem node with color := .black }, some node, some node⟩

/-- Put `temp` where `node` hangs, on the side of its parent that `node` is on. The side `d` is the
one the code compares first. -/
def hang (d : Dir) (node temp : Ptr) (t : NcRbTree) : Except Fault NcRbTree := do
  let above ← t.parent node
  if node = (← t.child d above) then
    t.setChild d above temp
  else
    t.setChild d.opp above temp

/-- Put `temp` where `node` hangs: at the root, or below its parent. -/
def relink (d : Dir) (node temp : Ptr) (t : NcRbTree) : Except Fault NcRbTree :=
  if node = t.m_root then
    .ok { t with m_root := temp }
  else
    t.hang d node temp

/-- Give the subtree at `p` a new parent; the sentinel keeps its own. -/
def adopt (p q : Ptr) (t : NcRbTree) : Except Fault NcRbTree :=
  if p ≠ t.m_sentinel then t.setParent p q else .ok t

/-- A rotation towards side `d`: `leftRotate` for the left, `rightRotate` for the right. -/
def rotate (d : Dir) (node : Ptr) (t : NcRbTree) : Except Fault NcRbTree := do
  if node = none then
    return t
  else
    let temp ← t.child d.opp node
    let t ← t.setChild d.opp node (← t.child d temp)
    let t ← t.adopt (← t.child d temp) node
    let t ← t.setParent temp (← t.parent node)
    let t ← t.relink d node temp
    let t ← t.setChild d temp node
    t.setParent node temp

def leftRotate : Ptr → NcRbTree → Except Fault NcRbTree := rotate .left

def rightRotate : Ptr → NcRbTree → Except Fault NcRbTree := rotate .right

/-! ### Minimum and maximum -/

/-- `while (node->left != sentinel) node = node->left;` and its mirror image. -/
def descendTo (d : Dir) (t : NcRbTree) : Nat → Ptr → Except Fault Ptr
  | 0, _ => .error .outOfFuel
  | fuel + 1, node => do
    let next ← t.child d node
    if next ≠ t.m_sentinel then
      descendTo d t fuel next
    else
      return node

def min (fuel : Nat) (t : NcRbTree) : Except Fault Ptr :=
  if t.m_root = t.m_sentinel then
    .ok none
  else
    t.descendTo .left fuel t.m_root

def max (fuel : Nat) (t : NcRbTree) : Except Fault Ptr :=
  if t.m_root = t.m_sentinel then
    .ok none
  else do
    -- unlike `min`, the code first makes sure that the right link is not `NULL`
    if (← t.child .right t.m_root) ≠ none then
      t.descendTo .right fuel t.m_root
    else
      return t.m_root

/-! ### Insertion -/

/-- The search loop of `insert`: the last node on the way down, and the side of it that is free. -/
def descend (k : Int) (t : NcRbTree) : Nat → Ptr → Except Fault (Ptr × Dir)
  | 0, _ => .error .outOfFuel
  | fuel + 1, temp => do
    let d : Dir := if k < (← t.key temp) then .left else .right
    let next ← t.child d temp
    if next = t.m_sentinel then
      return (temp, d)
    else
      descend k t fuel next

/-- One turn of the rebalancing loop of `insert`, where `node->parent` is the `d` child of its own
parent. The result is the next `node` and the tree. -/
def insertStep (d : Dir) (node : Ptr) (t : NcRbTree) : Except Fault (Ptr × NcRbTree) := do
  let temp ← t.child d.opp (← t.parent (← t.parent node))
  if (← t.color temp) = .red then
    let t ← t.setColor (← t.parent node) .black
    let t ← t.setColor temp .black
    let t ← t.setColor (← t.parent (← t.parent node)) .red
    return (← t.parent (← t.parent node), t)
  else
    let (node, t) ←
      if node = (← t.child d.opp (← t.parent node)) then do
        let node ← t.parent node
        pure (node, ← t.rotate d node)
      else
        pure (node, t)
    let t ← t.setColor (← t.parent node) .black
    let t ← t.setColor (← t.parent (← t.parent node)) .red
    let t ← t.rotate d.opp (← t.parent (← t.parent node))
    return (node, t)

/-- The rebalancing loop of `insert`. -/
def insertFixup : Nat → Ptr → NcRbTree → Except Fault NcRbTree
  | 0, _, _ => .error .outOfFuel
  | fuel + 1, node, t => do
    if node = t.m_root then
      return t
    else if (← t.color (← t.parent node)) = .red then
      let above ← t.parent node
      let (node, t) ←
        if above = (← t.child .left (← t.parent above)) then
          insertStep .left node t
        else
          insertStep .right node t
      insertFixup fuel node t
    else
      return t

def insert (fuel : Nat) (node : Ptr) (t : NcRbTree) : Except Fault NcRbTree := do
  if t.m_root = t.m_sentinel then
    let t ← t.setParent node none
    let t ← t.setChild .left node t.m_sentinel
    let t ← t.setChild .right node t.m_sentinel
    let t ← t.setColor node .black
    return { t with m_root := node }
  else
    let (temp, d) ← t.descend (← t.key node) fuel t.m_root
    let t ← t.setChild d temp node
    let t ← t.setParent node temp
    let t ← t.setChild .left node t.m_sentinel
    let t ← t.setChild .right node t.m_sentinel
    let t ← t.setColor node .red
    let t ← insertFixup fuel node t
    t.setColor t.m_root .black

/-! ### Removal -/

/-- The sibling of `temp`, where `temp` is the `d` child of its parent. A red one is first rotated
away, so that the result is black. -/
def blackSibling (d : Dir) (temp : Ptr) (t : NcRbTree) : Except Fault (Ptr × NcRbTree) := do
  let w ← t.child d.opp (← t.parent temp)
  if (← t.color w) = .red then
    let t ← t.setColor w .black
    let t ← t.setColor (← t.parent temp) .red
    let t ← t.rotate d (← t.parent temp)
    return (← t.child d.opp (← t.parent temp), t)
  else
    return (w, t)

/-- `rbtree_is_black(w->left) && rbtree_is_black(w->right)`. -/
def bothBlack (w : Ptr) (t : NcRbTree) : Except Fault Bool := do
  if (← t.color (← t.child .left w)) = .black then
    return (← t.color (← t.child .right w)) = .black
  else
    return false

/-- The sibling `w` has a red child: make it the one far from `temp`. -/
def redFarChild (d : Dir) (w temp : Ptr) (t : NcRbTree) : Except Fault (Ptr × NcRbTree) := do
  if (← t.color (← t.child d.opp w)) = .black then
    let t ← t.setColor (← t.child d w) .black
    let t ← t.setColor w .red
    let t ← t.rotate d.opp w
    return (← t.child d.opp (← t.parent temp), t)
  else
    return (w, t)

/-- The rotation that ends the loop; the next `temp` is the root. -/
def fillGap (d : Dir) (w temp : Ptr) (t : NcRbTree) : Except Fault (Ptr × NcRbTree) := do
  let t ← t.setColor w (← t.color (← t.parent temp))
  let t ← t.setColor (← t.parent temp) .black
  let t ← t.setColor (← t.child d.opp w) .black
  let t ← t.rotate d (← t.parent temp)
  return (t.m_root, t)

/-- The rest of a turn, once the sibling `w` is black. -/
def resolve (d : Dir) (w temp : Ptr) (t : NcRbTree) : Except Fault (Ptr × NcRbTree) := do
  if (← t.bothBlack w) then
    let t ← t.setColor w .red
    return (← t.parent temp, t)
  else
    let (w, t) ← redFarChild d w temp t
    fillGap d w temp t

/-- One turn of the rebalancing loop of `remove`, where `temp` is the `d` child of its parent. The
result is the next `temp` and the tree. -/
def removeStep (d : Dir) (temp : Ptr) (t : NcRbTree) : Except Fault (Ptr × NcRbTree) := do
  let (w, t) ← blackSibling d temp t
  resolve d w temp t

/-- The rebalancing loop of `remove`. -/
def removeFixup : Nat → Ptr → NcRbTree → Except Fault (Ptr × NcRbTree)
  | 0, _, _ => .error .outOfFuel
  | fuel + 1, temp, t => do
    if temp = t.m_root then
      return (temp, t)
    else if (← t.color temp) = .black then
      let (temp, t) ←
        if temp = (← t.child .left (← t.parent temp)) then
          removeStep .left temp t
        else
          removeStep .right temp t
      removeFixup fuel temp t
    else
      return (temp, t)

/-- The rebalancing loop, and the write after it. -/
def rebalance (fuel : Nat) (temp : Ptr) (t : NcRbTree) : Except Fault NcRbTree := do
  let (temp, t) ← removeFixup fuel temp t
  t.setColor temp .black

/-- The node that `remove` takes out of its place, and the subtree that moves up: the node itself
if it has at most one child, else the minimum *of the whole tree*. -/
def substitute (fuel : Nat) (node : Ptr) (t : NcRbTree) : Except Fault (Ptr × Ptr) := do
  if (← t.child .left node) = t.m_sentinel then
    return (node, ← t.child .right node)
  else if (← t.child .right node) = t.m_sentinel then
    return (node, ← t.child .left node)
  else
    let subst ← t.min fuel
    return (subst, ← t.child .right subst)

/-- Let `subst`, already taken out of its own place, take over the place of `node`. -/
def takeOver (node subst : Ptr) (t : NcRbTree) : Except Fault NcRbTree := do
  let t ← t.setChild .left subst (← t.child .left node)
  let t ← t.setChild .right subst (← t.child .right node)
  let t ← t.setParent subst (← t.parent node)
  let t ← t.setColor subst (← t.color node)
  let t ← t.relink .left node subst
  let t ← t.adopt (← t.child .left subst) subst
  t.adopt (← t.child .right subst) subst

def remove (fuel : Nat) (node : Ptr) (t : NcRbTree) : Except Fault NcRbTree := do
  if node = none then
    return t
  else
    let (subst, temp) ← t.substitute fuel node
    if subst = none then
      return t
    else if subst = t.m_root then
      let t : NcRbTree := { t with m_root := temp }
      let t ← t.setColor temp .black
      t.store node fun _ => RbNode.reset
    else if (← t.parent subst) = none then
      return t
    else
      let color ← t.color subst
      let t ← t.hang .left subst temp
      let t ← if subst = node then do
          t.setParent temp (← t.parent subst)
        else do
          let t ← if (← t.parent subst) = node then
              t.setParent temp subst
            else do
              t.setParent temp (← t.parent subst)
          t.takeOver node subst
      let t ← t.store node fun _ => RbNode.reset
      if color = .red then
        return t
      else
        t.rebalance fuel temp

/-! ### Symbolic execution -/

@[simp] theorem ok_bind {α β : Type} (a : α) (f : α → Except Fault β) :
    ((Except.ok a : Except Fault α) >>= f) = f a := rfl

@[simp] theorem error_bind {α β : Type} (e : Fault) (f : α → Except Fault β) :
    ((Except.error e : Except Fault α) >>= f) = Except.error e := rfl

@[simp] theorem pure_ok {α : Type} (a : α) : (pure a : Except Fault α) = Except.ok a := rfl

variable (t : NcRbTree) (x : Addr)

@[simp] theorem load_some : t.load (some x) = .ok (t.mem x) := rfl

@[simp] theorem load_none : t.load none = .error .nullDeref := rfl

@[simp] theorem store_some (f : RbNode → RbNode) : t.store (some x) f = .ok (t.put x f) := rfl

@[simp] theorem store_none (f : RbNode → RbNode) : t.store none f = .error .nullDeref := rfl

@[simp] theorem child_some (d : Dir) : t.child d (some x) = .ok ((t.mem x).child d) := rfl

@[simp] theorem child_none (d : Dir) : t.child d none = .error .nullDeref := rfl

@[simp] theorem parent_some : t.parent (some x) = .ok (t.mem x).parent := rfl

@[simp] theorem color_some : t.color (some x) = .ok (t.mem x).color := rfl

@[simp] theorem color_none : t.color none = .error .nullDeref := rfl

@[simp] theorem key_some : t.key (some x) = .ok (t.mem x).key := rfl

@[simp] theorem setChild_some (d : Dir) (q : Ptr) :
    t.setChild d (some x) q = .ok (t.put x (RbNode.withChild d q)) := rfl

@[simp] theorem setParent_some (q : Ptr) :
    t.setParent (some x) q = .ok (t.put x (RbNode.withParent q)) := rfl

@[simp] theorem setParent_none (q : Ptr) : t.setParent none q = .error .nullDeref := rfl

@[simp] theorem setColor_some (c : Color) :
    t.setColor (some x) c = .ok (t.put x (RbNode.withColor c)) := rfl

@[simp] theorem setColor_none (c : Color) : t.setColor none c = .error .nullDeref := rfl

@[simp] theorem put_root (f : RbNode → RbNode) : (t.put x f).m_root = t.m_root := rfl

@[simp] theorem put_sentinel (f : RbNode → RbNode) :
    (t.put x f).m_sentinel = t.m_sentinel := rfl

@[simp] theorem put_self (f : RbNode → RbNode) : (t.put x f).mem x = f (t.mem x) :=
  Function.update_self _ _ _

theorem put_of_ne (f : RbNode → RbNode) {y : Addr} (different : y ≠ x) :
    (t.put x f).mem y = t.mem y :=
  Function.update_of_ne different _ _

end NcRbTree

namespace RbNode

variable (node : RbNode) (d : Dir) (q : Ptr) (c : Color)

@[simp] theorem toLinks_withChild :
    (node.withChild d q).toLinks = node.toLinks.setChild d q := rfl

@[simp] theorem toLinks_withParent :
    (node.withParent q).toLinks = { node.toLinks with parent := q } := rfl

@[simp] theorem toLinks_withColor :
    (node.withColor c).toLinks = { node.toLinks with color := c } := rfl

@[simp] theorem key_withChild : (node.withChild d q).key = node.key := rfl

@[simp] theorem key_withParent : (node.withParent q).key = node.key := rfl

@[simp] theorem key_withColor : (node.withColor c).key = node.key := rfl

end RbNode

end Nutcracker
