/-
**The default tree, whose sentinel is `NULL`.**

Without a sentinel node the code still reads the color of a missing uncle (`insert`) and writes to a
missing subtree (`remove`). `NullSafe t op` is the condition under which it does neither:

* `insert`: not both is the parent of the new node red and the parent's sibling missing;
* `remove`: the node taken out of its place (the node itself if it lacks a child, else the first
  node of the tree) has a child.

`default_tree_of_runs` — in every history whose operations are all safe, `min` and `max` return, and
the next operation returns if it is safe and faults if it is not. `default_tree_faults` — inserting
one node and removing it again faults.
-/

import Nutcracker.RbTree.History

namespace Nutcracker

open Lib

namespace NcRbTree

/-! ### Where the code may follow the null sentinel -/

/-- The side of `x` on which a key belongs. -/
def side (t : NcRbTree) (k : Int) (x : Addr) : Dir := if k < (t.mem x).key then .left else .right

/-- The node below which a search for the key ends. -/
inductive SearchEnds (t : NcRbTree) (k : Int) : Ptr → Addr → Prop
  | stop {x : Addr} : (t.mem x).child (t.side k x) = t.m_sentinel → SearchEnds t k (some x) x
  | down {x y : Addr} : (t.mem x).child (t.side k x) ≠ t.m_sentinel →
      SearchEnds t k ((t.mem x).child (t.side k x)) y → SearchEnds t k (some x) y

/-- A node with this key would get a red parent whose sibling is missing. -/
def RedWithoutUncle (t : NcRbTree) (k : Int) : Prop :=
  ∃ p g, SearchEnds t k t.m_root p ∧ (t.mem p).color = .red ∧ (t.mem p).parent = some g ∧
    ((t.mem g).left = none ∨ (t.mem g).right = none)

/-- **The operation does not follow the null sentinel.** -/
def NullSafe (t : NcRbTree) : TreeOp → Prop
  | .insert _ cell => ¬ t.RedWithoutUncle cell.key
  | .remove x => ∃ y, (if t.LacksChild x then y = x else ∃ fuel, t.min fuel = .ok (some y)) ∧
      t.HasChild y

theorem SearchEnds.unique {t : NcRbTree} {k : Int} {p : Ptr} {x y : Addr}
    (first : SearchEnds t k p x) (second : SearchEnds t k p y) : x = y := by
  induction first with
  | stop stops =>
      cases second with
      | stop _ => rfl
      | down goes _ => exact absurd stops goes
  | down goes _ ih =>
      cases second with
      | stop stops => exact absurd stops goes
      | down _ rest => exact ih rest

/-- The search passes through the ancestors of its hole. -/
theorem searchEnds_root {t : NcRbTree} {top : Ptr} {k : Int} {ctx : Ctx Addr} {hole : Ptr} {y : Addr}
    (above : RepCtx t.links t.m_sentinel top hole ctx)
    (searched : Searched (fun x => (t.mem x).key) k ctx) (real : hole ≠ t.m_sentinel)
    (ends : SearchEnds t k hole y) : SearchEnds t k (Ctx.root hole ctx) y := by
  induction ctx generalizing hole with
  | nil => exact ends
  | cons f ctx ih =>
      obtain ⟨fReal, toHole, -, -, -, -, outer⟩ := above
      have toHole : (t.mem f.label).child f.side = hole := toHole
      have isSide : t.side k f.label = f.side := by
        have here := searched f List.mem_cons_self
        obtain ⟨fs, c, x, other⟩ := f
        cases fs with
        | left => exact if_pos here
        | right => exact if_neg (not_lt.mpr here)
      refine ih outer (fun g member => searched g (List.mem_cons_of_mem _ member)) fReal ?_
      refine .down ?_ ?_
      · rw [isSide, toHole]
        exact real
      · rw [isSide, toHole]
        exact ends

/-- **The loop needs a missing uncle exactly where the parent is red without a sibling.** -/
theorem uncle_iff {t : NcRbTree} {top : Ptr} {ctx : Ctx Addr} {n : Nat} {k : Int}
    (holds : Holds t top (Ctx.plug ctx .nil)) (shape : RB .black n (Ctx.plug ctx .nil))
    (searched : Searched (fun x => (t.mem x).key) k ctx) (isNull : t.m_sentinel = none) :
    UncleAtHole ctx ↔ ¬ t.RedWithoutUncle k := by
  cases ctx with
  | nil =>
      have empty : t.m_root = none := by
        rw [holds.root, Ctx.plug_nil, CTree.ptr_nil, isNull]
      refine ⟨fun _ => ?_, fun _ f g rest split => absurd split (List.cons_ne_nil _ _).symm⟩
      rintro ⟨p, g, ends, -⟩
      rw [empty] at ends
      cases ends
  | cons f ctx =>
      obtain ⟨root, above, -⟩ := holds_plug.mp holds
      obtain ⟨fReal, toHole, -, parent, color, -, outer⟩ := above
      have toHole : (t.mem f.label).child f.side = t.m_sentinel := toHole
      have ends : SearchEnds t k t.m_root f.label := by
        rw [root]
        show SearchEnds t k (Ctx.root (some f.label) ctx) f.label
        refine searchEnds_root outer (fun g member => searched g (List.mem_cons_of_mem _ member))
          fReal (.stop ?_)
        have isSide : t.side k f.label = f.side := by
          have here := searched f List.mem_cons_self
          obtain ⟨fs, c, x, other⟩ := f
          cases fs with
          | left => exact if_pos here
          | right => exact if_neg (not_lt.mpr here)
        rw [isSide, toHole]
      obtain ⟨m, c, around, -⟩ := shape.unplug rfl
      constructor
      · rintro uncle ⟨p, g, endsP, isRed, toG, missing⟩
        obtain rfl := endsP.unique ends
        have fRed : f.color = .red := color.symm.trans isRed
        obtain ⟨-, g', rest, c', rfl, -⟩ := around.of_red fRed
        have same : g'.label = g := Option.some.inj (parent.symm.trans toG)
        subst same
        obtain ⟨-, toF, toOther, -⟩ := outer
        have toF : (t.mem g'.label).child g'.side = some f.label := toF
        have toOther : (t.mem g'.label).child g'.side.opp = g'.other.ptr t.m_sentinel := toOther
        -- the missing child is not `f`, so it is the uncle
        have noUncle : g'.other.ptr t.m_sentinel = none := by
          rw [← toOther]
          cases side : g'.side with
          | left =>
              rw [side] at toF
              rcases missing with noLeft | noRight
              · rw [Links.child, noLeft] at toF
                cases toF
              · exact noRight
          | right =>
              rw [side] at toF
              rcases missing with noLeft | noRight
              · exact noLeft
              · rw [Links.child, noRight] at toF
                cases toF
        refine uncle f g' rest rfl fRed ?_
        cases isOther : g'.other with
        | nil => rfl
        | node l co o r =>
            rw [isOther] at noUncle
            cases noUncle
      · intro safe f' g' rest split isRed isNil
        obtain ⟨rfl, rfl⟩ := List.cons.inj split
        obtain ⟨-, -, toOther, -⟩ := outer
        have toOther : (t.mem g'.label).child g'.side.opp = none := by
          rw [← isNull]
          exact toOther.trans (by rw [isNil, CTree.ptr_nil])
        refine safe ⟨f.label, g'.label, ends, color.trans isRed, parent, ?_⟩
        cases side : g'.side with
        | left =>
            rw [side] at toOther
            exact Or.inr toOther
        | right =>
            rw [side] at toOther
            exact Or.inl toOther

/-! ### Removal without a subtree -/

/-- **A node without children cannot be taken out**: the code writes to the missing subtree. -/
theorem remove_fault {t : NcRbTree} {top : Ptr} {ctx : Ctx Addr} {d : Dir} {c : Color} {x m : Addr}
    {fuel : Nat} (holds : Holds t top (Ctx.plug ctx (.mk d .nil c m .nil)))
    (chosen : t.substitute fuel (some x) = .ok (some m, none)) :
    t.remove fuel (some x) = .error .nullDeref := by
  cases ctx with
  | nil =>
      have isRoot : some m = t.m_root := by
        rw [holds.root, Ctx.plug_nil, CTree.ptr_mk]
      simp only [remove, reduceCtorEq, if_false, chosen, ok_bind, if_pos isRoot, setColor_none,
        error_bind]
  | cons f ctx =>
      have parent : (t.mem m).parent = some f.label := holds.parent
      have color : (t.mem m).color = c := holds.color
      obtain ⟨-, above, -⟩ := holds_plug.mp holds
      rw [CTree.ptr_mk] at above
      have hung := hang_spec .left none above parent holds.mem.2.2 holds.real
      simp only [remove, reduceCtorEq, if_false, chosen, ok_bind, if_neg holds.ne_root, parent_some,
        parent, color_some, color, hung, setParent_none, error_bind, ite_self]

/-- **One removal without a sentinel**: it faults if the node taken out has no child. -/
theorem Valid.remove_fault {t : NcRbTree} {xs : List Addr} {x : Addr} (fuel : Nat)
    (valid : t.Valid xs) (xIn : x ∈ xs) (isNull : t.m_sentinel = none) (enough : xs.length ≤ fuel)
    (childless : ¬ t.HasChild (t.unlinked x xs)) : t.remove fuel (some x) = .error .nullDeref := by
  obtain ⟨top, T, n, holds, shape, rfl⟩ := valid.holds
  -- the node without children, with everything around it
  have place : ∀ {m : Addr}, m ∈ T.labels → ¬ t.HasChild m →
      ∃ ctx c, Holds t top (Ctx.plug ctx (.mk .left .nil c m .nil)) := by
    intro m member noChild
    obtain ⟨ctx, l, c, r, same⟩ := Ctx.exists_plug_of_mem member
    have atM : Holds t top (Ctx.plug ctx (.node l c m r)) := same ▸ holds
    obtain ⟨-, left, right, -, -, inL, inR⟩ := (holds_plug.mp atM).2.2.1
    obtain ⟨noLeft, noRight⟩ := not_or.mp noChild
    have noLeft := not_not.mp noLeft
    have noRight := not_not.mp noRight
    obtain rfl : l = .nil := inL.ptr_eq_iff.mp (left.symm.trans noLeft)
    obtain rfl : r = .nil := inR.ptr_eq_iff.mp (right.symm.trans noRight)
    exact ⟨ctx, c, atM⟩
  by_cases lacks : t.LacksChild x
  · rw [unlinked, if_pos lacks] at childless
    obtain ⟨ctx, c, atX⟩ := place xIn childless
    have chosen := substitute_one fuel atX
    rw [CTree.ptr_nil, isNull] at chosen
    exact NcRbTree.remove_fault atX chosen
  · rw [unlinked, if_neg lacks] at childless
    obtain ⟨m, rest, sequence⟩ := List.exists_cons_of_ne_nil (List.ne_nil_of_mem xIn)
    have first := min_spec fuel holds enough
    rw [sequence, List.head?_cons] at first
    rw [sequence, List.headD_cons] at childless
    have mIn : m ∈ T.labels := by
      rw [sequence]
      exact List.mem_cons_self
    obtain ⟨ctx, c, atM⟩ := place mIn childless
    have mRight : (t.mem m).child .right = none := by
      rw [show (t.mem m).child .right = _ from atM.child_far, CTree.ptr_nil, isNull]
    obtain ⟨hasLeft, hasRight⟩ := not_or.mp lacks
    have chosen : t.substitute fuel (some x) = .ok (some m, none) := by
      simp only [substitute, child_some, Links.child, ok_bind, if_neg hasLeft, if_neg hasRight,
        first]
      rw [Links.child] at mRight
      rw [mRight, pure_ok]
    exact NcRbTree.remove_fault atM chosen

/-! ### Runs -/

/-- What `remove` has to find, in terms of the sequence. -/
theorem Valid.nullSafe_remove_iff {t : NcRbTree} {xs : List Addr} {x : Addr} (valid : t.Valid xs)
    (xIn : x ∈ xs) : t.NullSafe (.remove x) ↔ t.HasChild (t.unlinked x xs) := by
  have first : t.min xs.length = .ok xs.head? := by
    obtain ⟨top, T, n, holds, -, rfl⟩ := valid.holds
    exact min_spec _ holds (le_refl _)
  obtain ⟨m, rest, rfl⟩ := List.exists_cons_of_ne_nil (List.ne_nil_of_mem xIn)
  by_cases lacks : t.LacksChild x
  · simp only [NullSafe, unlinked, if_pos lacks, exists_eq_left]
  · simp only [NullSafe, unlinked, if_neg lacks, List.headD_cons]
    constructor
    · rintro ⟨y, ⟨fuel, runs⟩, hasChild⟩
      have one := (min_mono (le_max_left fuel (m :: rest).length)).of_ok runs
      have two := (min_mono (le_max_right fuel (m :: rest).length)).of_ok first
      have same : some y = some m := Except.ok.inj (one.symm.trans two)
      rw [← Option.some.inj same]
      exact hasChild
    · exact fun hasChild => ⟨m, ⟨_, first⟩, hasChild⟩

/-- **One operation on a tree without a sentinel.** -/
theorem Valid.apply_null {t : NcRbTree} {xs : List Addr} {op : TreeOp} (valid : t.Valid xs)
    (admissible : op.Admissible t {x | x ∈ xs}) (isNull : t.m_sentinel = none) :
    (t.NullSafe op → ∃ fuel t' xs', op.apply fuel t = .ok t' ∧ t'.Valid xs' ∧
      t'.m_sentinel = t.m_sentinel ∧ {x | x ∈ xs'} = op.members {x | x ∈ xs}) ∧
    (¬ t.NullSafe op → ∃ fuel, op.apply fuel t = .error .nullDeref) := by
  cases op with
  | insert x cell =>
      obtain ⟨fresh, real⟩ := admissible
      obtain ⟨top, ctx, holds, ⟨n, shape⟩, rfl, searched, inserts, faults⟩ :=
        (valid.put fresh real fun _ => cell).insert (2 * xs.length + 2) fresh real (le_refl _)
      have inTree : ∀ y, y ∈ (Ctx.plug ctx .nil).labels ↔ y ∈ Ctx.before ctx ++ Ctx.after ctx := by
        intro y
        rw [Ctx.labels_plug, CTree.labels_nil, List.nil_append]
      have same : ∀ y ∈ (Ctx.plug ctx .nil).labels, t.mem y = (t.put x fun _ => cell).mem y := by
        intro y member
        have notX : y ≠ x := fun equal => fresh (equal ▸ (inTree y).mp member)
        rw [put_of_ne _ _ _ notX]
      have before : Holds t top (Ctx.plug ctx .nil) := holds.congr rfl rfl same
      rw [put_self] at searched
      have searchedBefore : Searched (fun y => (t.mem y).key) cell.key ctx := by
        intro f member
        have key := same f.label (Ctx.mem_labels_plug.mpr (Or.inl (Ctx.label_mem member)))
        simp only [key]
        exact searched f member
      have uncle := uncle_iff before shape searchedBefore isNull
      refine ⟨fun safe => ?_, fun unsafeHole => ?_⟩
      · obtain ⟨t', runs, valid', frame⟩ := inserts fun _ => uncle.mpr safe
        refine ⟨_, t', _, runs, valid', frame.sentinel, ?_⟩
        ext y
        simp only [TreeOp.members, Set.mem_ofPred_eq, Set.mem_insert_iff, List.mem_append,
          List.mem_cons]
        tauto
      · exact ⟨_, faults isNull fun present => unsafeHole (uncle.mp present)⟩
  | remove x =>
      rw [valid.nullSafe_remove_iff admissible]
      refine ⟨fun hasChild => ?_, fun childless => ?_⟩
      · obtain ⟨t', runs, valid', frame⟩ := valid.remove (xs.length + 2) admissible
          (fun _ => hasChild) (le_refl _)
        refine ⟨_, t', _, runs, valid', frame.sentinel, ?_⟩
        ext y
        rw [Set.mem_ofPred_eq, mem_afterRemove valid.nodup admissible]
        rfl
      · exact ⟨xs.length, valid.remove_fault _ admissible isNull (le_refl _) childless⟩

/-- What succeeds is safe. -/
theorem Valid.nullSafe_of_ok {t t' : NcRbTree} {xs : List Addr} {op : TreeOp} {fuel : Nat}
    (valid : t.Valid xs) (admissible : op.Admissible t {x | x ∈ xs}) (isNull : t.m_sentinel = none)
    (runs : op.apply fuel t = .ok t') : t.NullSafe op := by
  by_contra notSafe
  obtain ⟨more, faults⟩ := (valid.apply_null admissible isNull).2 notSafe
  have one := (op.apply_mono t (le_max_left fuel more)).of_ok runs
  have two := (op.apply_mono t (le_max_right fuel more)).of_nullDeref faults
  rw [one] at two
  cases two

/-- The default tree is empty. -/
theorem valid_default (mem : Addr → RbNode) : (default mem).Valid [] where
  sentinel z isSentinel := by cases isSentinel
  holds := ⟨none, .nil, 0, ⟨rfl, trivial, List.nodup_nil⟩, .nil, rfl⟩

/-- Every state of a history of the default tree is valid, and has no sentinel. -/
theorem reach_valid_default {mem : Addr → RbNode} {s : NcRbTree × Set Addr}
    (reached : (treeSystem (default mem)).Reach s) :
    s.1.m_sentinel = none ∧ ∃ xs, s.1.Valid xs ∧ {x | x ∈ xs} = s.2 := by
  let I : NcRbTree × Set Addr → Prop := fun s =>
    s.1.m_sentinel = none ∧ ∃ xs, s.1.Valid xs ∧ {x | x ∈ xs} = s.2
  refine reached.invariant (I := I) (fun s isStart => ?_) fun s op s' _ holds step => ?_
  · rw [show s = (default mem, ∅) from isStart]
    refine ⟨rfl, [], valid_default mem, ?_⟩
    ext x
    simp
  · obtain ⟨t, S⟩ := s
    obtain ⟨t', S'⟩ := s'
    obtain ⟨isNull, xs, valid, rfl⟩ := holds
    obtain ⟨admissible, ⟨fuel, runs⟩, rfl⟩ := step
    have safe := valid.nullSafe_of_ok admissible isNull runs
    obtain ⟨more, t₁, xs', runs₁, valid', kept, members⟩ :=
      (valid.apply_null admissible isNull).1 safe
    obtain rfl : t' = t₁ := TreeOp.apply_unique runs runs₁
    exact ⟨kept.trans isNull, xs', valid', members⟩

/-- **The default tree, in every history whose operations are safe.** -/
theorem default_tree_of_runs (mem : Addr → RbNode) (t : NcRbTree) (S : Set Addr)
    (reached : ((treeSystem (default mem)).guarded fun s op => s.1.NullSafe op).Reach (t, S)) :
    Completes (fun fuel => t.min fuel) ∧ Completes (fun fuel => t.max fuel) ∧
      ∀ op : TreeOp, op.Admissible t S →
        (Completes (fun fuel => op.apply fuel t) ↔ t.NullSafe op) ∧
          (¬ t.NullSafe op → ∃ fuel, op.apply fuel t = .error .nullDeref) := by
  obtain ⟨isNull, xs, valid, rfl⟩ := reach_valid_default reached.of_guarded
  obtain ⟨top, T, n, holds, -, rfl⟩ := id valid.holds
  refine ⟨.of_ok min_mono (min_spec _ holds (le_refl _)), .of_ok max_mono (max_spec _ holds (le_refl _)),
    fun op admissible => ⟨⟨fun completes => ?_, fun safe => ?_⟩, ?_⟩⟩
  · by_contra notSafe
    obtain ⟨fuel, faults⟩ := (valid.apply_null admissible isNull).2 notSafe
    exact completes.2 fuel faults
  · obtain ⟨fuel, t', -, runs, -⟩ := (valid.apply_null admissible isNull).1 safe
    exact .of_ok (op.apply_mono t) runs
  · exact (valid.apply_null admissible isNull).2

/-- Four nodes with the keys 2, 1, 3 and 4. -/
def fourNodes : List (Addr × RbNode) :=
  [(1, 2), (2, 1), (3, 3), (4, 4)].map fun c => (c.1, { RbNode.reset with key := c.2 })

/-- **Four nodes in the default tree**: the last one gets a red parent with a red sibling, which are both
painted black. Then `min`, `max` and the removal of its parent return. -/
theorem default_tree_of_four : ∃ t,
    TreeOp.run 12 (fourNodes.map fun c => .insert c.1 c.2) (default blank) = .ok t ∧
      (t.mem 4).parent = some 3 ∧ (t.mem 3).color = .black ∧ (t.mem 2).color = .black ∧
      Completes (fun fuel => t.min fuel) ∧ Completes (fun fuel => t.max fuel) ∧
        Completes (fun fuel => t.remove fuel (some 3)) := by
  obtain ⟨t, inserted, parent, black, uncle, lacks, has⟩ :
      Ends (TreeOp.run 12 (fourNodes.map fun c => .insert c.1 c.2) (default blank)) fun t =>
        (t.mem 4).parent = some 3 ∧ (t.mem 3).color = .black ∧ (t.mem 2).color = .black ∧
          t.LacksChild 3 ∧ t.HasChild 3 := by
    decide +kernel
  have reached : ((treeSystem (default blank)).guarded fun s op => s.1.NullSafe op).Reach
      (t, {x | x ∈ fourNodes.map Prod.fst} ∪ ∅) := by
    refine reach_inserts (fun s reached => (reach_valid_default reached).1) ?_ fourNodes (.start rfl)
      (by decide) (fun x _ => ⟨Set.notMem_empty x, nofun⟩) inserted
    rintro ⟨t, S⟩ x cell s' reached ⟨admissible, ⟨fuel, runs⟩, -⟩
    obtain ⟨isNull, xs, valid, rfl⟩ := reach_valid_default reached
    exact valid.nullSafe_of_ok admissible isNull runs
  have safe : t.NullSafe (.remove 3) := ⟨3, by rw [if_pos lacks], has⟩
  obtain ⟨least, greatest, each⟩ := default_tree_of_runs blank t _ reached
  exact ⟨t, inserted, parent, black, uncle, least, greatest,
    (each (.remove 3) (Or.inl (by decide))).1.mpr safe⟩

/-- **Inserting one node into the default tree and removing it again faults.** -/
theorem default_tree_faults : ∃ t, (treeSystem (default blank)).Reach (t, Insert.insert 1 ∅) ∧
    (TreeOp.remove 1).Admissible t (Insert.insert 1 ∅) ∧
      (TreeOp.remove 1).apply 8 t = .error .nullDeref := by
  obtain ⟨t, inserted, faults⟩ : Ends ((TreeOp.insert 1 .reset).apply 8 (default blank)) fun t =>
      (TreeOp.remove 1).apply 8 t matches .error .nullDeref := by
    decide +kernel
  have start : (treeSystem (default blank)).Reach (default blank, ∅) := .start rfl
  have first : (treeSystem (default blank)).step (default blank, ∅) (.insert 1 .reset)
      (t, Insert.insert 1 ∅) := ⟨⟨Set.notMem_empty 1, nofun⟩, ⟨8, inserted⟩, rfl⟩
  refine ⟨t, start.next first, Set.mem_insert 1 ∅, ?_⟩
  split at faults
  · assumption
  · cases faults

end NcRbTree

end Nutcracker
