import IteSdk.Lib.Chain
import IteSdk.TsDemuxer.MbtInsert

/-!
# What is above a node of the order-statistics tree

`ContextAt` is `TreeAt` for a tree with a hole.  `mbt_Del_Node` makes the tree in
the hole smaller by one node and counts the nodes above down.
-/

namespace IteSdk.TsDemuxer

open Lib BinaryTree

universe u v

variable {ν : Type u} {nodes nodes' : MBTNodes ν} {top root parent p : Option ν}

/-- From `root` below `top` the pointers lead to a hole, to which `p` should lead
and for which `count` nodes are counted. -/
def ContextAt (nodes : MBTNodes ν) (top root : Option ν) :
    List (Frame ν) → Nat → Option ν → Option ν → Prop
  | [], _, parent, p => parent = top ∧ root = p
  | f :: frames, count, parent, p =>
    parent = some f.root ∧ nodes.child f.bLeft f.root = p ∧
      TreeAt nodes (some f.root) (nodes.child (!f.bLeft) f.root) f.far ∧
      nodes.size f.root = BitVec.ofNat 32 (count + f.far.numNodes + 1) ∧
      ContextAt nodes top root frames (count + f.far.numNodes + 1)
        (nodes.parent f.root) (some f.root)

variable {frames : List (Frame ν)}

theorem treeAt_plug {t : BinaryTree ν} :
    TreeAt nodes top root (plug frames t) ↔
      ∃ parent p, ContextAt nodes top root frames t.numNodes parent p ∧
        TreeAt nodes parent p t := by
  induction frames generalizing t with
  | nil =>
    constructor
    · intro tree
      exact ⟨top, root, ⟨rfl, rfl⟩, tree⟩
    · rintro ⟨parent, p, ⟨rfl, rfl⟩, tree⟩
      exact tree
  | cons f frames ih =>
    rw [plug, ih, numNodes_join]
    constructor
    · rintro ⟨parent, p, context, tree⟩
      obtain ⟨rfl, rfl, size, near, far⟩ := treeAt_join.mp tree
      exact ⟨some f.root, nodes.child f.bLeft f.root, ⟨rfl, rfl, far, size, context⟩, near⟩
    · rintro ⟨parent, p, ⟨rfl, rfl, far, size, context⟩, near⟩
      exact ⟨nodes.parent f.root, some f.root, context, treeAt_join.mpr ⟨rfl, rfl, size, near, far⟩⟩

theorem ContextAt.chain {count : Nat} (context : ContextAt nodes none root frames count parent p) :
    Chain nodes.parent parent (frames.map Frame.root) none := by
  induction frames generalizing count parent p with
  | nil =>
    exact context.1
  | cons f frames ih =>
    obtain ⟨rfl, _, _, _, upper⟩ := context
    exact ⟨rfl, ih upper⟩

/-- What is above a hole from which a node was taken: the lowest pointer leads
to what is left, and the sizes are smaller by one. -/
structure HoleChanged (nodes nodes' : MBTNodes ν) (frames : List (Frame ν))
    (p : Option ν) : Prop where
  size : ∀ f ∈ frames, nodes'.size f.root = nodes.size f.root - 1
  parent : ∀ f ∈ frames, nodes'.parent f.root = nodes.parent f.root
  far : ∀ f ∈ frames, ∀ m ∈ inorder f.far, Same nodes nodes' m
  farChild : ∀ f ∈ frames, nodes'.child (!f.bLeft) f.root = nodes.child (!f.bLeft) f.root
  hole : ∀ f ∈ frames.head?, nodes'.child f.bLeft f.root = p
  inner : ∀ f ∈ frames.tail, nodes'.child f.bLeft f.root = nodes.child f.bLeft f.root

theorem ofNat_succ_sub (count : Nat) : BitVec.ofNat 32 (count + 1) - 1 = BitVec.ofNat 32 count := by
  rw [ofNat_succ, BitVec.add_sub_cancel]

theorem ContextAt.shrink {count : Nat} {root' p' : Option ν}
    (context : ContextAt nodes top root frames (count + 1) parent p)
    (changed : HoleChanged nodes nodes' frames p')
    (rootEq : root' = if frames = [] then p' else root) :
    ContextAt nodes' top root' frames count parent p' := by
  induction frames generalizing count parent p p' root' with
  | nil =>
    exact ⟨context.1, rootEq⟩
  | cons f frames ih =>
    obtain ⟨above, _, farTree, size, upper⟩ := context
    rw [if_neg (List.cons_ne_nil f frames)] at rootEq
    subst rootEq
    have counted :
        count + 1 + f.far.numNodes + 1 = count + f.far.numNodes + 1 + 1 := by
      omega
    rw [counted] at size upper
    refine ⟨above, changed.hole f rfl, ?_, ?_, ?_⟩
    · rw [changed.farChild f List.mem_cons_self]
      exact farTree.congr (changed.far f List.mem_cons_self)
    · rw [changed.size f List.mem_cons_self, size, ofNat_succ_sub]
    · rw [changed.parent f List.mem_cons_self]
      apply ih upper
      · refine
          { size := fun g member => changed.size g (.tail f member)
            parent := fun g member => changed.parent g (.tail f member)
            far := fun g member => changed.far g (.tail f member)
            farChild := fun g member => changed.farChild g (.tail f member)
            hole := ?_
            inner := ?_ }
        · intro g head
          cases frames with
          | nil => cases head
          | cons h frames =>
            obtain rfl := Option.some.inj head
            rw [changed.inner h List.mem_cons_self]
            exact upper.2.1
        · intro g member
          exact changed.inner g (List.mem_of_mem_tail member)
      · split
        · rename_i empty
          subst empty
          exact upper.2
        · rfl

theorem ContextAt.parent_eq {count : Nat}
    (context : ContextAt nodes none root frames count parent p) :
    parent = frames.head?.map Frame.root := by
  cases frames with
  | nil | cons f frames => exact context.1

/-- The fields outside of a hole from which a node was taken. -/
structure OutsideHole (nodes nodes' : MBTNodes ν) (frames : List (Frame ν))
    (hole : BinaryTree ν) (p : Option ν) : Prop where
  head : ∀ f ∈ frames.head?, nodes'.child f.bLeft f.root = p
  child :
    ∀ side, ∀ m ∉ inorder hole, (∀ f ∈ frames.head?, ¬ (side = f.bLeft ∧ m = f.root)) →
      nodes'.child side m = nodes.child side m
  parent : ∀ m ∉ inorder hole, nodes'.parent m = nodes.parent m
  size : ∀ f ∈ frames, nodes'.size f.root = nodes.size f.root - 1
  sizeElse : ∀ m ∉ inorder hole, m ∉ frames.map Frame.root → nodes'.size m = nodes.size m

section Hole

variable {frames : List (Frame ν)} {hole : BinaryTree ν}

theorem OutsideHole.same (outside : OutsideHole nodes nodes' frames hole p)
    {m : ν} (notHole : m ∉ inorder hole)
    (notRoot : m ∉ frames.map Frame.root) : Same nodes nodes' m := by
  refine ⟨fun side => ?_, ?_, ?_⟩
  · apply outside.child side m notHole
    rintro f head ⟨_, rfl⟩
    exact notRoot (List.mem_map_of_mem (List.mem_of_mem_head? head))
  · exact outside.parent m notHole
  · exact outside.sizeElse m notHole notRoot

theorem OutsideHole.holeChanged (outside : OutsideHole nodes nodes' frames hole p)
    (apart : Apart frames hole) : HoleChanged nodes nodes' frames p where
  size := outside.size
  parent f inside := outside.parent f.root (apart.root_notMem f inside)
  far f inside m inFar :=
    outside.same (apart.far_notMem f inside m inFar) (apart.far_notRoot f inside m inFar)
  farChild f inside := by
    apply outside.child _ _ (apart.root_notMem f inside)
    rintro g head ⟨side, same⟩
    obtain rfl := apart.root_injective inside (List.mem_of_mem_head? head) same
    cases h : f.bLeft <;> simp [h] at side
  hole := outside.head
  inner f inTail := by
    have inside := List.mem_of_mem_tail inTail
    apply outside.child _ _ (apart.root_notMem f inside)
    rintro g head ⟨_, same⟩
    cases frames with
    | nil => cases head
    | cons h frames =>
      obtain rfl := Option.some.inj head
      have roots := apart.roots
      rw [List.map_cons, List.nodup_cons] at roots
      exact roots.1 (same ▸ List.mem_map_of_mem inTail)

end Hole

section Loops

variable [DecidableEq ν]

theorem decrementSizes_spec (path : List ν) :
    ∀ {nodes : MBTNodes ν} {p : Option ν} {fuel : Nat},
      Chain nodes.parent p path none → path.length < fuel →
      ∃ nodes', decrementSizes fuel nodes p = some nodes' ∧
        nodes'.child = nodes.child ∧ nodes'.parent = nodes.parent ∧
        ∀ m, nodes'.size m = if m ∈ path then nodes.size m - 1 else nodes.size m := by
  induction path with
  | nil =>
    intro nodes p fuel chain enough
    obtain ⟨fuel, rfl⟩ : ∃ fewer, fuel = fewer + 1 := ⟨fuel - 1, by omega⟩
    obtain rfl : p = none := chain
    exact ⟨nodes, rfl, rfl, rfl, by simp⟩
  | cons n path ih =>
    intro nodes p fuel chain enough
    obtain ⟨fuel, rfl⟩ : ∃ fewer, fuel = fewer + 1 := ⟨fuel - 1, by omega⟩
    have notLater := (List.nodup_cons.mp chain.nodup).1
    obtain ⟨rfl, later⟩ := chain
    have fewer : path.length < fuel := by
      rw [List.length_cons] at enough
      omega
    have counted :
        Chain (nodes.setSize n (nodes.size n - 1)).parent (nodes.parent n) path none :=
      later
    obtain ⟨nodes', runs, child, parent, size⟩ := ih counted fewer
    refine ⟨nodes', runs, child, parent, ?_⟩
    intro m
    rw [size, MBTNodes.size_setSize]
    by_cases here : m = n
    · subst here
      rw [if_neg notLater, if_pos rfl, if_pos List.mem_cons_self]
    · rw [if_neg here]
      simp only [List.mem_cons, here, false_or]

end Loops

section Search

variable {κ : Type v} [LinearOrder κ] {compareFunc : ν → ν → Int} {key : ν → κ}
  {d pattern : ν}

/-- The last comparison says on which side of the lowest frame the search went
on. -/
def LastSide (prevCmp : Int) : List (Frame ν) → Int → Prop
  | [], cmp => cmp = prevCmp
  | f :: _, cmp => cmp < 0 ↔ f.bLeft = true

theorem LastSide.last {prevCmp cmp cmp' : Int} {frames : List (Frame ν)}
    {f : Frame ν} (last : LastSide cmp frames cmp') (side : cmp < 0 ↔ f.bLeft = true) :
    LastSide prevCmp (frames ++ [f]) cmp' := by
  cases frames with
  | nil =>
    obtain rfl : cmp' = cmp := last
    exact side
  | cons g frames => exact last

theorem findDelNode_side {b : Bool} {c : ν}
    (orders : OrdersBy compareFunc key) (side : OnSide key b pattern c)
    (nodes : MBTNodes ν) (fuel : Nat) (prevCmp : Int) :
    findDelNode compareFunc nodes pattern (fuel + 1) (some c) prevCmp =
        findDelNode compareFunc nodes pattern fuel (nodes.child b c) (compareFunc c pattern) ∧
      (compareFunc c pattern < 0 ↔ b = true) := by
  rw [findDelNode]
  cases b
  · have greater : 0 < compareFunc c pattern := (orders.positive c pattern).mpr side
    rw [if_pos greater]
    exact ⟨rfl, by simp; omega⟩
  · have less : compareFunc c pattern < 0 := (orders.negative c pattern).mpr side
    rw [if_neg (by omega), if_pos less]
    exact ⟨rfl, by simp [less]⟩

theorem findDelNode_spec (orders : OrdersBy compareFunc key)
    (sameKey : key pattern = key d) (fuel : Nat) :
    ∀ {top root : Option ν} {t : BinaryTree ν} (prevCmp : Int),
      TreeAt nodes top root t → SortedBy key (inorder t) → d ∈ inorder t →
      t.numNodes < fuel →
      ∃ frames l r cmp, t = plug frames (node d l r) ∧
        findDelNode compareFunc nodes pattern fuel root prevCmp = some (some d, cmp) ∧
          LastSide prevCmp frames cmp := by
  induction fuel with
  | zero =>
    intro top root t prevCmp _ _ _ enough
    cases Nat.not_lt_zero _ enough
  | succ fuel ih =>
    intro top root t prevCmp tree sorted inside enough
    cases t with
    | nil => cases inside
    | node c l r =>
      obtain rfl := tree.1
      by_cases here : key c = key d
      · obtain rfl : c = d := sorted.key_injective (by simp [inorder]) inside here
        refine ⟨[], l, r, prevCmp, rfl, ?_, rfl⟩
        have notGreater : ¬ 0 < compareFunc c pattern := by
          rw [orders.positive, sameKey]
          exact lt_irrefl _
        have notLess : ¬ compareFunc c pattern < 0 := by
          rw [orders.negative, sameKey]
          exact lt_irrefl _
        rw [findDelNode]
        simp only [notGreater, notLess, if_false]
      · obtain ⟨b, side⟩ := onSide_or here
        have patternSide : OnSide key b pattern c := by
          rw [OnSide, sameKey]
          exact side
        obtain ⟨near, far, parts⟩ := exists_join b c l r
        rw [parts] at tree sorted inside enough ⊢
        rw [numNodes_join] at enough
        obtain ⟨_, _, _, nearTree, _⟩ := treeAt_join.mp tree
        obtain ⟨nearSorted, _, _, farSide⟩ := sortedBy_join.mp sorted
        have inNear : d ∈ inorder near := by
          rcases mem_inorder_join.mp inside with rfl | inNear | inFar
          · exact absurd rfl here
          · exact inNear
          · exact absurd side (farSide d inFar).not_onSide
        obtain ⟨goesOn, sign⟩ := findDelNode_side orders patternSide nodes fuel prevCmp
        obtain ⟨frames, l', r', cmp, split_, found, last⟩ :=
          ih _ nearTree nearSorted inNear (by omega)
        refine ⟨frames ++ [⟨b, c, far⟩], l', r', cmp, ?_, ?_, ?_⟩
        · rw [plug_append, ← split_]
          rfl
        · rw [goesOn]
          exact found
        · exact last.last sign

end Search

end IteSdk.TsDemuxer
