import IteSdk.TsDemuxer.MbtContext

/-!
# Deleting from the order-statistics tree

`mbt_Del_Node` in its three cases: the node has no right child, the right child
has no left child, or the leftmost node on the right takes the place.
-/

namespace IteSdk.TsDemuxer

open Lib BinaryTree

universe u v

variable {ν : Type u} [DecidableEq ν] {nodes nodes' nodes'' : MBTNodes ν}
  {top root parent p : Option ν} {frames : List (Frame ν)} {d : ν}

theorem Same.setParent {n m : ν} {value : Option ν} (same : Same nodes nodes' m) (other : m ≠ n) :
    Same nodes (nodes'.setParent n value) m := by
  refine ⟨same.1, ?_, same.2.2⟩
  rw [MBTNodes.parent_setParent, if_neg other]
  exact same.2.1

theorem Same.setParentOf {m : ν} {pointer value : Option ν}
    (same : Same nodes nodes' m) (other : pointer ≠ some m) :
    Same nodes (nodes'.setParentOf pointer value) m := by
  refine ⟨fun side => ?_, ?_, ?_⟩
  · rw [MBTNodes.child_setParentOf]
    exact same.1 side
  · rw [MBTNodes.parent_setParentOf, if_neg other]
    exact same.2.1
  · rw [MBTNodes.size_setParentOf]
    exact same.2.2

theorem Same.setSize {n m : ν} {value : BitVec 32} (same : Same nodes nodes' m) (other : m ≠ n) :
    Same nodes (nodes'.setSize n value) m := by
  refine ⟨same.1, same.2.1, ?_⟩
  rw [MBTNodes.size_setSize, if_neg other]
  exact same.2.2

theorem TreeAt.moved {parent' : Option ν} {t : BinaryTree ν}
    (tree : TreeAt nodes parent p t) (nodup : (inorder t).Nodup)
    (child : ∀ m ∈ inorder t, ∀ side, nodes'.child side m = nodes.child side m)
    (parents : ∀ m ∈ inorder t, nodes'.parent m = if p = some m then parent' else nodes.parent m)
    (size : ∀ m ∈ inorder t, nodes'.size m = nodes.size m) :
    TreeAt nodes' parent' p t := by
  apply tree.reparent nodup
  · intro n leads
    have inside := (leads ▸ tree).root_mem
    refine ⟨?_, size n inside, child n inside⟩
    rw [parents n inside, if_pos leads]
  · intro n inside other
    refine ⟨child n inside, ?_, size n inside⟩
    rw [parents n inside, if_neg other]

/-! ## Above the node -/

/-- The fields after `UPDATE_SUBTREE`, up to the parent of what is put there. -/
structure Updated (nodes nodes' : MBTNodes ν) (frames : List (Frame ν))
    (sub : Option ν) : Prop where
  head : ∀ f ∈ frames.head?, nodes'.child f.bLeft f.root = sub
  child :
    ∀ side m, (∀ f ∈ frames.head?, ¬ (side = f.bLeft ∧ m = f.root)) →
      nodes'.child side m = nodes.child side m
  parent : ∀ m, sub ≠ some m → nodes'.parent m = nodes.parent m
  size : nodes'.size = nodes.size

theorem updateSubtree_spec {cmp : Int} (sub : Option ν)
    (last : LastSide 0 frames cmp) (notNull : frames = [] → sub ≠ none) (nodes : MBTNodes ν) :
    ∃ nodes',
      updateSubtree nodes (cmp < 0) (frames.head?.map Frame.root) sub = some nodes' ∧
        Updated nodes nodes' frames sub := by
  cases frames with
  | nil =>
    obtain ⟨n, rfl⟩ := Option.ne_none_iff_exists'.mp (notNull rfl)
    refine ⟨nodes.setParent n none, rfl, ?_, ?_, ?_, rfl⟩
    · intro f head
      cases head
    · intro side m _
      rfl
    · intro m other
      rw [MBTNodes.parent_setParent, if_neg]
      rintro rfl
      exact other rfl
  | cons f frames =>
    have side : decide (cmp < 0) = f.bLeft := by
      rw [Bool.eq_iff_iff, decide_eq_true_eq]
      exact last
    refine
      ⟨nodes.setChild f.bLeft f.root sub, by rw [side]; rfl, ?_, ?_, fun _ _ => rfl, rfl⟩
    · intro g head
      obtain rfl := Option.some.inj head
      rw [MBTNodes.child_setChild, if_pos ⟨rfl, rfl⟩]
    · intro side m other
      rw [MBTNodes.child_setChild, if_neg (other f rfl)]

/-- A node that was found, when the sizes on the way to the root are counted
down. -/
structure DelFound (nodes nodes' : MBTNodes ν) (root : Option ν)
    (frames : List (Frame ν)) (d : ν) (l r : BinaryTree ν) (cmp : Int) :
    Prop where
  tree : TreeAt nodes none root (plug frames (node d l r))
  nodup : (inorder (plug frames (node d l r))).Nodup
  last : LastSide 0 frames cmp
  child : nodes'.child = nodes.child
  parent : nodes'.parent = nodes.parent
  size :
    ∀ m, nodes'.size m = if m ∈ d :: frames.map Frame.root then nodes.size m - 1
      else nodes.size m

section Found

variable {l r : BinaryTree ν} {cmp : Int}

omit [DecidableEq ν] in
theorem treeAt_hole (tree : TreeAt nodes none root (plug frames (node d l r))) :
    ContextAt nodes none root frames (l.numNodes + r.numNodes + 1) (nodes.parent d) (some d) ∧
      TreeAt nodes (nodes.parent d) (some d) (node d l r) := by
  obtain ⟨parent, p, context, hole⟩ := treeAt_plug.mp tree
  have here := hole
  obtain ⟨rfl, rfl, _⟩ := here
  exact ⟨context, hole⟩

omit [DecidableEq ν] in
theorem root_eq_iff (tree : TreeAt nodes none root (plug frames (node d l r))) :
    root = some d ↔ frames = [] := by
  obtain ⟨context, _⟩ := treeAt_hole tree
  cases frames with
  | nil => simp [context.2]
  | cons f frames =>
    simp only [reduceCtorEq, iff_false]
    rintro rfl
    -- The root has no parent.
    have noParent : nodes.parent d = none := by
      cases whole : plug (f :: frames) (node d l r) with
      | nil =>
        rw [whole] at tree
        cases tree
      | node n l' r' =>
        rw [whole] at tree
        obtain ⟨same, above, _⟩ := tree
        exact Option.some.inj same ▸ above
    cases noParent.symm.trans context.1

variable (found : DelFound nodes nodes' root frames d l r cmp)
include found

theorem DelFound.apart : Apart frames (node d l r) := apart_of_nodup frames found.nodup

theorem DelFound.parent_eq : nodes'.parent d = frames.head?.map Frame.root := by
  rw [found.parent]
  exact (treeAt_hole found.tree).1.parent_eq

theorem DelFound.same {m : ν} (below : m ∈ inorder l ∨ m ∈ inorder r) : Same nodes nodes' m := by
  have nodup := found.apart.hole
  rw [inorder, nodup_around] at nodup
  have notHere : m ≠ d := by
    rintro rfl
    exact below.elim nodup.1 nodup.2.1
  have notRoot : m ∉ frames.map Frame.root := by
    rintro isRoot
    obtain ⟨f, inside, rfl⟩ := List.mem_map.mp isRoot
    apply found.apart.root_notMem f inside
    rw [inorder, List.mem_append, List.mem_cons]
    tauto
  refine ⟨fun side => by rw [found.child], by rw [found.parent], ?_⟩
  rw [found.size, if_neg]
  rw [List.mem_cons]
  tauto

/-- What is done between the two loops and `UPDATE_SUBTREE` is done to nodes in
the hole. -/
theorem DelFound.outsideHole {nodesS nodesU nodesF : MBTNodes ν} {sub : Option ν}
    (before : ∀ m ∉ inorder (node d l r), Same nodes' nodesS m)
    (updated : Updated nodesS nodesU frames sub)
    (inside : ∀ m, sub = some m → m ∈ inorder (node d l r))
    (after : ∀ m ∉ inorder (node d l r), Same nodesU nodesF m) :
    OutsideHole nodes nodesF frames (node d l r) sub := by
  have notHole : ∀ f ∈ frames, f.root ∉ inorder (node d l r) := found.apart.root_notMem
  have notHere : ∀ {m}, m ∉ inorder (node d l r) → m ≠ d := by
    rintro m outside rfl
    exact outside (by simp [inorder])
  refine { head := ?_, child := ?_, parent := ?_, size := ?_, sizeElse := ?_ }
  · intro f head
    rw [(after _ (notHole f (List.mem_of_mem_head? head))).1, updated.head f head]
  · intro side m outside other
    rw [(after m outside).1, updated.child side m other, (before m outside).1, found.child]
  · intro m outside
    rw [(after m outside).2.1, updated.parent m fun same => outside (inside m same),
      (before m outside).2.1, found.parent]
  · intro f member
    have outside := notHole f member
    rw [(after _ outside).2.2, updated.size, (before _ outside).2.2,
      found.size, if_pos (.tail d (List.mem_map_of_mem member))]
  · intro m outside notRoot
    rw [(after m outside).2.2, updated.size, (before m outside).2.2, found.size, if_neg]
    rw [List.mem_cons, not_or]
    exact ⟨notHere outside, notRoot⟩

theorem DelFound.child_inside {nodesS nodesU : MBTNodes ν} {sub : Option ν}
    (updated : Updated nodesS nodesU frames sub) {m : ν}
    (inside : m ∈ inorder (node d l r)) (side : Bool) :
    nodesU.child side m = nodesS.child side m := by
  apply updated.child
  rintro f head ⟨_, rfl⟩
  exact found.apart.root_notMem f (List.mem_of_mem_head? head) inside

end Found

/-- What a case of `mbt_Del_Node` leaves: a tree with the nodes of both subtrees
is in the hole. -/
structure Refilled (nodes nodes' : MBTNodes ν) (root root' : Option ν)
    (frames : List (Frame ν)) (d : ν) (l r t : BinaryTree ν) (p : Option ν) :
    Prop where
  outside : OutsideHole nodes nodes' frames (node d l r) p
  tree : TreeAt nodes' (nodes.parent d) p t
  order : inorder t = inorder l ++ inorder r
  root : root' = if frames = [] then p else root

section Cases

variable {l r : BinaryTree ν} {cmp : Int}

theorem delWithoutRight_spec
    (found : DelFound nodes nodes' root frames d l nil cmp) (notRoot : root ≠ some d) :
    ∃ nodesF,
      delWithoutRight nodes' root d cmp = some (nodesF, root) ∧
        Refilled nodes nodesF root root frames d l nil l (nodes.child true d) := by
  obtain ⟨_, _, _, _, leftTree, _⟩ := treeAt_hole found.tree
  have nodup := found.apart.hole
  rw [inorder, nodup_around] at nodup
  have above : frames ≠ [] := fun empty => notRoot ((root_eq_iff found.tree).mpr empty)
  obtain ⟨nodesU, runs, updated⟩ :=
    updateSubtree_spec (nodes.child true d) found.last (fun empty => absurd empty above) nodes'
  have inLeft : ∀ m, nodes.child true d = some m → m ∈ inorder l := by
    intro m leads
    exact (leads ▸ leftTree).root_mem
  have inHole : ∀ m ∈ inorder l, m ∈ inorder (node d l nil) := by
    intro m inside
    simp [inorder, inside]
  refine ⟨nodesU.setParentOf (nodes.child true d) (nodes.parent d), ?_, ?_, ?_, ?_, ?_⟩
  · rw [delWithoutRight, found.parent_eq, found.child]
    dsimp only
    rw [runs, Option.map_some, if_neg notRoot, ← found.parent_eq, found.parent]
  · apply found.outsideHole (fun m _ => Same.refl nodes' m) updated
    · exact fun m leads => inHole m (inLeft m leads)
    · intro m outside
      apply (Same.refl nodesU m).setParentOf
      exact fun leads => outside (inHole m (inLeft m leads))
  · apply leftTree.moved nodup.2.2.1
    · intro m inside side
      rw [MBTNodes.child_setParentOf, found.child_inside updated (inHole m inside), found.child]
    · intro m inside
      rw [MBTNodes.parent_setParentOf]
      by_cases leads : nodes.child true d = some m
      · rw [if_pos leads, if_pos leads]
      · rw [if_neg leads, if_neg leads, updated.parent m leads, found.parent]
    · intro m inside
      rw [MBTNodes.size_setParentOf, updated.size, (found.same (Or.inl inside)).2.2]
  · rw [inorder, List.append_nil]
  · rw [if_neg above]

theorem delWithRight_spec {c : ν} {rr : BinaryTree ν}
    (found : DelFound nodes nodes' root frames d l (node c nil rr) cmp) :
    ∃ nodesF root',
      delWithRight nodes' root d c cmp = some (nodesF, root') ∧
        Refilled nodes nodesF root root' frames d l (node c nil rr) (node c l rr) (some c) := by
  obtain ⟨_, _, _, _, leftTree, rightTree⟩ := treeAt_hole found.tree
  obtain ⟨_, _, _, _, farTree⟩ := rightTree
  have nodup := found.apart.hole
  rw [inorder, nodup_around] at nodup
  obtain ⟨_, _, leftNodup, rightNodup, disjoint⟩ := nodup
  rw [inorder, inorder, nodup_around] at rightNodup
  obtain ⟨_, notFar, _, _, _⟩ := rightNodup
  have cRight : c ∈ inorder (node c nil rr) := by simp [inorder]
  have cHole : c ∈ inorder (node d l (node c nil rr)) := by simp [inorder]
  have inHole :
      ∀ {m}, m ∈ inorder l → m ∈ inorder (node d l (node c nil rr)) := by
    intro m inside
    simp [inorder, inside]
  have farHole :
      ∀ {m}, m ∈ inorder rr → m ∈ inorder (node d l (node c nil rr)) := by
    intro m inside
    simp [inorder, inside]
  have notLeft : c ∉ inorder l := fun inside => disjoint inside cRight
  have inLeft : ∀ m, nodes.child true d = some m → m ∈ inorder l := by
    intro m leads
    exact (leads ▸ leftTree).root_mem
  let nodesS :=
    (nodes'.setChild true c (nodes.child true d)).setParentOf (nodes.child true d) (some c)
  obtain ⟨nodesU, runs, updated⟩ := updateSubtree_spec (some c) found.last (fun _ => by simp) nodesS
  have childS :
      ∀ side m, nodesS.child side m = if side = true ∧ m = c then nodes.child true d
        else nodes.child side m := by
    intro side m
    simp only [nodesS, MBTNodes.child_setParentOf, MBTNodes.child_setChild, found.child]
  have parentS :
      ∀ m, nodesS.parent m = if nodes.child true d = some m then some c else nodes.parent m := by
    intro m
    simp only [nodesS, MBTNodes.parent_setParentOf, MBTNodes.parent_setChild, found.parent]
  have sizeS : nodesS.size = nodes'.size := by
    simp only [nodesS, MBTNodes.size_setParentOf, MBTNodes.size_setChild]
  have parentU :
      ∀ m, m ≠ c →
        nodesU.parent m = if nodes.child true d = some m then some c else nodes.parent m := by
    intro m notC
    rw [updated.parent m fun same => notC (Option.some.inj same).symm, parentS]
  have leftMoved : TreeAt nodesU (some c) (nodes.child true d) l := by
    apply leftTree.moved leftNodup
    · intro m inside side
      rw [found.child_inside updated (inHole inside), childS,
        if_neg fun both => ne_of_mem_of_not_mem inside notLeft both.2]
    · intro m inside
      exact parentU m (ne_of_mem_of_not_mem inside notLeft)
    · intro m inside
      rw [updated.size, sizeS, (found.same (Or.inl inside)).2.2]
  have farKept : TreeAt nodesU (some c) (nodes.child false c) rr := by
    apply farTree.congr
    intro m inside
    have inRight : m ∈ inorder (node c nil rr) := by simp [inorder, inside]
    refine ⟨fun side => ?_, ?_, ?_⟩
    · rw [found.child_inside updated (farHole inside), childS,
        if_neg fun both => ne_of_mem_of_not_mem inside notFar both.2]
    · rw [parentU m (ne_of_mem_of_not_mem inside notFar),
        if_neg fun leads => disjoint (inLeft m leads) inRight]
    · rw [updated.size, sizeS, (found.same (Or.inr inRight)).2.2]
  have leftChild : nodesU.child true c = nodes.child true d := by
    rw [found.child_inside updated cHole, childS, if_pos ⟨rfl, rfl⟩]
  have rightChild : nodesU.child false c = nodes.child false c := by
    rw [found.child_inside updated cHole, childS, if_neg (by simp)]
  have kept :
      ∀ m, m ≠ c →
        Same nodesU
          ((nodesU.setSize c (nodesU.childrenSize c)).setParent c (nodes.parent d)) m := by
    intro m other
    exact ((Same.refl nodesU m).setSize other).setParent other
  refine
    ⟨(nodesU.setSize c (nodesU.childrenSize c)).setParent c (nodes.parent d),
      if frames = [] then some c else root, ?_, ?_, ?_, ?_, rfl⟩
  · rw [delWithRight, found.parent_eq, found.child]
    dsimp only
    rw [runs, Option.map_some, ← found.parent_eq, found.parent]
    simp only [root_eq_iff found.tree]
  · have before :
        ∀ m ∉ inorder (node d l (node c nil rr)), Same nodes' nodesS m := by
      intro m outside
      apply ((Same.refl nodes' m).setChild _).setParentOf
      · exact fun leads => outside (inHole (inLeft m leads))
      · exact (ne_of_mem_of_not_mem cHole outside).symm
    apply found.outsideHole before updated
    · rintro m same
      exact Option.some.inj same ▸ cHole
    · intro m outside
      exact kept m (ne_of_mem_of_not_mem cHole outside).symm
  · refine ⟨rfl, ?_, ?_, ?_, ?_⟩
    · rw [MBTNodes.parent_setParent, if_pos rfl]
    · rw [MBTNodes.size_setParent, MBTNodes.size_setSize, if_pos rfl,
        MBTNodes.childrenSize, leftChild, rightChild, leftMoved.sizeOf,
        farKept.sizeOf, ← BitVec.ofNat_add, ofNat_succ]
    · rw [MBTNodes.child_setParent, MBTNodes.child_setSize, leftChild]
      exact leftMoved.congr fun m inside => kept m (ne_of_mem_of_not_mem inside notLeft)
    · rw [MBTNodes.child_setParent, MBTNodes.child_setSize, rightChild]
      exact farKept.congr fun m inside => kept m (ne_of_mem_of_not_mem inside notFar)
  · simp [inorder]

end Cases

/-! ## The leftmost node -/

section Leftmost

omit [DecidableEq ν] in
theorem findLeftmost_spec {l : BinaryTree ν} (notNil : l ≠ nil) :
    ∀ {parent : Option ν} {c : ν} {r : BinaryTree ν} {fuel : Nat},
      TreeAt nodes parent (some c) (node c l r) → l.numNodes < fuel →
      ∃ h far lower s sr back,
        findLeftmost nodes fuel c = some (h, s) ∧
          node c l r = plug (⟨true, h, far⟩ :: lower) (node s nil sr) ∧
          ∀ t, inorder (plug (⟨true, h, far⟩ :: lower) t) = inorder t ++ back := by
  induction l with
  | nil =>
    exact absurd rfl notNil
  | node s ll lr left _ =>
    intro parent c r fuel tree enough
    obtain ⟨fuel, rfl⟩ : ∃ fewer, fuel = fewer + 1 := ⟨fuel - 1, by omega⟩
    obtain ⟨_, _, _, leftTree, _⟩ := tree
    obtain ⟨leads, above, size, lowerTree, rest⟩ := leftTree
    rw [findLeftmost, leads]
    dsimp only
    cases ll with
    | nil =>
      rw [treeAt_nil.mp lowerTree, if_pos rfl]
      refine ⟨c, r, [], s, lr, c :: inorder r, rfl, rfl, ?_⟩
      intro t
      rfl
    | node m l' r' =>
      have goesOn : nodes.child true s ≠ none := by
        rw [lowerTree.1]
        exact Option.some_ne_none m
      rw [if_neg goesOn]
      rw [numNodes] at enough
      have fewer : (node m l' r').numNodes < fuel := by omega
      obtain ⟨h, far, lower, s', sr, back, found, parts, order⟩ :=
        left nofun ⟨rfl, above, size, lowerTree, rest⟩ fewer
      refine ⟨h, far, lower ++ [⟨true, c, r⟩], s', sr, back ++ c :: inorder r, found, ?_, ?_⟩
      · rw [← List.cons_append, plug_append, ← parts]
        rfl
      · intro t
        rw [← List.cons_append, plug_append, ← List.append_assoc, ← order t]
        rfl

variable {h s : ν} {far l sr : BinaryTree ν} {lower : List (Frame ν)}

def withoutLeftmost (nodes : MBTNodes ν) (lower : List (Frame ν)) (h s : ν) : MBTNodes ν :=
  let nodesS :=
    (nodes.setChild true h (nodes.child false s)).setParentOf (nodes.child false s) (some h)
  { nodesS with
    size := fun m =>
      if m ∈ h :: lower.map Frame.root then nodes.size m - 1
      else nodes.size m }

theorem child_withoutLeftmost (side : Bool) (m : ν) :
    (withoutLeftmost nodes lower h s).child side m =
      if side = true ∧ m = h then nodes.child false s
      else nodes.child side m := by
  rw [withoutLeftmost]
  dsimp only
  rw [MBTNodes.child_setParentOf, MBTNodes.child_setChild]

theorem parent_withoutLeftmost (m : ν) :
    (withoutLeftmost nodes lower h s).parent m =
      if nodes.child false s = some m then some h else nodes.parent m := by
  rw [withoutLeftmost]
  dsimp only
  rw [MBTNodes.parent_setParentOf, MBTNodes.parent_setChild]

theorem treeAt_withoutLeftmost
    (tree : TreeAt nodes parent p (plug (⟨true, h, far⟩ :: lower) (node s nil sr)))
    (nodup : (inorder (plug (⟨true, h, far⟩ :: lower) (node s nil sr))).Nodup) :
    TreeAt (withoutLeftmost nodes lower h s) parent p (plug (⟨true, h, far⟩ :: lower) sr) := by
  have apart := apart_of_nodup _ nodup
  obtain ⟨q, p', context, hole⟩ := treeAt_plug.mp tree
  obtain ⟨_, _, _, _, right⟩ := hole
  have holeNodup := apart.hole
  rw [inorder, inorder, nodup_around] at holeNodup
  obtain ⟨_, notRight, _, rightNodup, _⟩ := holeNodup
  have inHole : ∀ {m}, m ∈ inorder sr → m ∈ inorder (node s nil sr) := by
    intro m inside
    simp [inorder, inside]
  have inRight : ∀ m, nodes.child false s = some m → m ∈ inorder sr := by
    intro m leads
    exact (leads ▸ right).root_mem
  have outside :
      OutsideHole nodes (withoutLeftmost nodes lower h s)
        (⟨true, h, far⟩ :: lower) (node s nil sr) (nodes.child false s) := by
    refine { head := ?_, child := ?_, parent := ?_, size := ?_, sizeElse := ?_ }
    · intro f head
      obtain rfl := Option.some.inj head
      rw [child_withoutLeftmost, if_pos ⟨rfl, rfl⟩]
    · intro side m _ other
      rw [child_withoutLeftmost, if_neg (other _ rfl)]
    · intro m notHole
      rw [parent_withoutLeftmost, if_neg]
      exact fun leads => notHole (inHole (inRight m leads))
    · intro f inside
      exact if_pos (List.mem_map_of_mem inside)
    · intro m _ notRoot
      exact if_neg notRoot
  have counted : (node s nil sr).numNodes = sr.numNodes + 1 := by
    rw [numNodes, numNodes, Nat.zero_add]
  rw [counted] at context
  refine
    treeAt_plug.mpr ⟨q, nodes.child false s, context.shrink (outside.holeChanged apart) ?_, ?_⟩
  · rw [if_neg (List.cons_ne_nil _ _)]
  · have above : q = some h := context.1
    rw [above]
    have notFrame : ∀ m ∈ inorder sr, m ∉ h :: lower.map Frame.root := by
      intro m inside isRoot
      have isFrame : m ∈ (⟨true, h, far⟩ :: lower).map Frame.root := isRoot
      obtain ⟨f, member, rfl⟩ := List.mem_map.mp isFrame
      exact apart.root_notMem f member (inHole inside)
    apply right.moved rightNodup
    · intro m inside side
      rw [child_withoutLeftmost, if_neg]
      rintro ⟨_, rfl⟩
      exact notFrame m inside List.mem_cons_self
    · intro m _
      exact parent_withoutLeftmost m
    · intro m inside
      exact if_neg (notFrame m inside)

theorem moveLeftmost_fields (nodes : MBTNodes ν) (apart : d ≠ h) (notLeftmost : d ≠ s) :
    (∀ side m, (moveLeftmost nodes d h s).child side m = if m = s then nodes.child side d
      else if side = true ∧ m = h then nodes.child false s
      else nodes.child side m) ∧
    (∀ m, (moveLeftmost nodes d h s).parent m = if nodes.child true d = some m then some s
      else if nodes.child false d = some m then some s
      else if nodes.child false s = some m then some h
      else nodes.parent m) ∧
    (moveLeftmost nodes d h s).size = nodes.size := by
  rw [moveLeftmost]
  simp only [MBTNodes.child_setChild, MBTNodes.child_setParentOf,
    MBTNodes.parent_setChild, MBTNodes.parent_setParentOf,
    MBTNodes.size_setChild, MBTNodes.size_setParentOf, apart, notLeftmost,
    and_false, if_false, false_and, Bool.false_eq_true, and_true]
  refine ⟨?_, fun m => trivial⟩
  intro side m
  cases side <;> simp

theorem genSizeValues_spec (fuel : Nat) :
    ∀ {nodes : MBTNodes ν} {sizes : ν → BitVec 32} {parent p : Option ν} {t : BinaryTree ν},
      TreeAt { nodes with size := sizes } parent p t → (inorder t).Nodup →
      t.numNodes < fuel →
      ∃ nodes', genSizeValues fuel nodes p = some nodes' ∧
        TreeAt nodes' parent p t ∧ nodes'.child = nodes.child ∧
        nodes'.parent = nodes.parent ∧
        ∀ m ∉ inorder t, nodes'.size m = nodes.size m := by
  induction fuel with
  | zero =>
    intro nodes sizes parent p t _ _ enough
    cases Nat.not_lt_zero _ enough
  | succ fuel ih =>
    intro nodes sizes parent p t tree nodup enough
    cases t with
    | nil =>
      obtain rfl := treeAt_nil.mp tree
      exact ⟨nodes, rfl, rfl, rfl, rfl, fun _ _ => rfl⟩
    | node n l r =>
      obtain ⟨rfl, above, _, leftTree, rightTree⟩ := tree
      rw [inorder, nodup_around] at nodup
      obtain ⟨notLeft, notRight, leftNodup, rightNodup, disjoint⟩ := nodup
      rw [numNodes] at enough
      obtain ⟨nodes₁, first, leftSized, child₁, parent₁, size₁⟩ := ih leftTree leftNodup (by omega)
      have rightTree₁ :
          TreeAt { nodes₁ with size := sizes } (some n) (nodes₁.child false n) r := by
        rw [child₁, parent₁]
        exact rightTree
      obtain ⟨nodes₂, second, rightSized, child₂, parent₂, size₂⟩ :=
        ih rightTree₁ rightNodup (by omega)
      have leftSized₂ : TreeAt nodes₂ (some n) (nodes₂.child true n) l := by
        rw [child₂, child₁]
        apply leftSized.congr
        intro m inside
        refine ⟨fun side => by rw [child₂], by rw [parent₂], ?_⟩
        exact size₂ m fun inRight => disjoint inside inRight
      rw [← child₂] at rightSized
      have sized :
          (if nodes₂.child true n = none ∧ nodes₂.child false n = none then
            nodes₂.setSize n 1
          else nodes₂.setSize n (nodes₂.childrenSize n)) =
            nodes₂.setSize n (BitVec.ofNat 32 (l.numNodes + r.numNodes + 1)) := by
        have counted :
            nodes₂.childrenSize n = BitVec.ofNat 32 (l.numNodes + r.numNodes + 1) := by
          rw [MBTNodes.childrenSize, leftSized₂.sizeOf, rightSized.sizeOf,
            ← BitVec.ofNat_add, ofNat_succ]
        split
        · rename_i leaf
          rw [← counted, MBTNodes.childrenSize, leaf.1, leaf.2]
          rfl
        · rw [counted]
      refine
        ⟨nodes₂.setSize n (BitVec.ofNat 32 (l.numNodes + r.numNodes + 1)), ?_,
          ⟨rfl, ?_, ?_, ?_, ?_⟩, ?_, ?_, ?_⟩
      · rw [genSizeValues, first, Option.bind_some, second, Option.map_some, sized]
      · rw [MBTNodes.parent_setSize, parent₂, parent₁]
        exact above
      · rw [MBTNodes.size_setSize, if_pos rfl]
      · apply leftSized₂.congr
        intro m inside
        exact (Same.refl nodes₂ m).setSize (ne_of_mem_of_not_mem inside notLeft)
      · apply rightSized.congr
        intro m inside
        exact (Same.refl nodes₂ m).setSize (ne_of_mem_of_not_mem inside notRight)
      · rw [MBTNodes.child_setSize, child₂, child₁]
      · rw [MBTNodes.parent_setSize, parent₂, parent₁]
      · intro m outside
        rw [inorder, List.mem_append, List.mem_cons, not_or, not_or]
          at outside
        obtain ⟨outLeft, notHere, outRight⟩ := outside
        rw [MBTNodes.size_setSize, if_neg notHere, size₂ m outRight, size₁ m outLeft]

variable {cmp : Int} {c : ν} {compareFunc : ν → ν → Int} {fuel : Nat} {r : BinaryTree ν}

omit [DecidableEq ν] in
theorem pointers_inside (tree : TreeAt nodes none root (plug frames (node d l r)))
    (parts : r = plug (⟨true, h, far⟩ :: lower) (node s nil sr)) :
    (∀ m, nodes.child true d = some m → m ∈ inorder l) ∧
      (∀ m, nodes.child false d = some m → m ∈ inorder r) ∧
      ∀ m, nodes.child false s = some m → m ∈ inorder (plug (⟨true, h, far⟩ :: lower) sr) := by
  obtain ⟨_, _, _, _, leftTree, rightTree⟩ := treeAt_hole tree
  refine ⟨?_, ?_, ?_⟩
  · intro m leads
    exact (leads ▸ leftTree).root_mem
  · intro m leads
    exact (leads ▸ rightTree).root_mem
  · intro m leads
    rw [parts] at rightTree
    obtain ⟨_, _, _, _, _, _, _, lowest⟩ := treeAt_plug.mp rightTree
    exact mem_inorder_plug (Or.inl (leads ▸ lowest).root_mem)

section

variable (found : DelFound nodes nodes' root frames d l r cmp)
  (parts : r = plug (⟨true, h, far⟩ :: lower) (node s nil sr))
  (order : inorder r = s :: inorder (plug (⟨true, h, far⟩ :: lower) sr))

include found parts order

theorem moveLeftmost_outside :
    ∀ m ∉ inorder (node d l r), Same nodes' (moveLeftmost nodes' d h s) m := by
  intro m outside
  have hRest : h ∈ inorder (plug (⟨true, h, far⟩ :: lower) sr) :=
    mem_inorder_plug (Or.inr List.mem_cons_self)
  obtain ⟨inLeft, inRight, lowest⟩ := pointers_inside found.tree parts
  have nodup := found.apart.hole
  rw [inorder, nodup_around, order, List.mem_cons, not_or] at nodup
  obtain ⟨_, ⟨notLeftmost, notRest⟩, _⟩ := nodup
  obtain ⟨childM, parentM, sizeM⟩ :=
    moveLeftmost_fields nodes' (ne_of_mem_of_not_mem hRest notRest).symm notLeftmost
  rw [found.child] at childM parentM
  rw [inorder, List.mem_append, List.mem_cons, not_or, not_or] at outside
  obtain ⟨notLeft, _, notRight⟩ := outside
  have notRight' := notRight
  rw [order, List.mem_cons, not_or] at notRight'
  obtain ⟨notS, notBelow⟩ := notRight'
  refine ⟨fun side => ?_, ?_, ?_⟩
  · rw [childM, if_neg notS, if_neg, found.child]
    rintro ⟨_, rfl⟩
    exact notBelow hRest
  · rw [parentM, if_neg fun leads => notLeft (inLeft m leads),
      if_neg fun leads => notRight (inRight m leads),
      if_neg fun leads => notBelow (lowest m leads)]
  · rw [sizeM]

theorem treeAt_moveLeftmost {nodesU : MBTNodes ν}
    (updated : Updated (moveLeftmost nodes' d h s) nodesU frames (some s)) :
    ∃ sizes,
      TreeAt { nodesU.setParent s (nodesU.parent d) with size := sizes } (nodes.parent d) (some s)
        (node s l (plug (⟨true, h, far⟩ :: lower) sr)) := by
  obtain ⟨_, _, _, _, leftTree, rightTree⟩ := treeAt_hole found.tree
  have nodup := found.apart.hole
  rw [inorder, nodup_around, order, List.mem_cons, not_or, List.nodup_cons,
    List.disjoint_cons_right] at nodup
  obtain ⟨notLeft, ⟨notLeftmost, notRest⟩, leftNodup, ⟨sNotRest, restNodup⟩,
    sNotLeft, disjoint⟩ := nodup
  have hRest : h ∈ inorder (plug (⟨true, h, far⟩ :: lower) sr) :=
    mem_inorder_plug (Or.inr List.mem_cons_self)
  have apart : d ≠ h := (ne_of_mem_of_not_mem hRest notRest).symm
  obtain ⟨inLeft, inRight, lowest⟩ := pointers_inside found.tree parts
  have inHole :
      ∀ {m}, m ∈ inorder l ∨ m = s ∨ m ∈ inorder (plug (⟨true, h, far⟩ :: lower) sr) →
        m ∈ inorder (node d l r) := by
    intro m inside
    rw [inorder, order, List.mem_append, List.mem_cons, List.mem_cons]
    tauto
  obtain ⟨childM, parentM, _⟩ := moveLeftmost_fields nodes' apart notLeftmost
  rw [found.child] at childM parentM
  rw [found.parent] at parentM
  let sizes : ν → BitVec 32 := fun m =>
    if m = s then
      BitVec.ofNat 32 (l.numNodes + (plug (⟨true, h, far⟩ :: lower) sr).numNodes + 1)
    else (withoutLeftmost nodes lower h s).size m
  obtain ⟨nodesL, linked⟩ :
      ∃ nodesL : MBTNodes ν, nodesL = { nodesU.setParent s (nodesU.parent d) with size := sizes } :=
    ⟨_, rfl⟩
  have childL :
      ∀ {m}, m ∈ inorder l ∨ m = s ∨ m ∈ inorder (plug (⟨true, h, far⟩ :: lower) sr) →
        ∀ side, nodesL.child side m = if m = s then nodes.child side d
          else if side = true ∧ m = h then nodes.child false s
          else nodes.child side m := by
    intro m inside side
    rw [linked]
    exact (found.child_inside updated (inHole inside) side).trans (childM side m)
  have parentL :
      ∀ m, m ≠ s →
        nodesL.parent m = if nodes.child true d = some m then some s
          else if nodes.child false d = some m then some s
          else if nodes.child false s = some m then some h
          else nodes.parent m := by
    intro m other
    rw [linked, ← parentM, ← updated.parent m fun same => other (Option.some.inj same).symm]
    exact Function.update_of_ne other _ _
  have sizeL : ∀ m, m ≠ s → nodesL.size m = (withoutLeftmost nodes lower h s).size m := by
    intro m other
    rw [linked]
    exact if_neg other
  have parentS : nodesL.parent s = nodes.parent d := by
    have parentD : nodesU.parent d = nodes.parent d := by
      rw [updated.parent d fun same => notLeftmost (Option.some.inj same).symm,
        parentM, if_neg fun leads => notLeft (inLeft d leads), if_neg,
        if_neg fun leads => notRest (lowest d leads)]
      intro leads
      have inside := inRight d leads
      rw [order, List.mem_cons] at inside
      exact inside.elim notLeftmost notRest
    rw [linked]
    exact (Function.update_self s _ _).trans parentD
  refine ⟨sizes, ?_⟩
  rw [← linked]
  refine ⟨rfl, parentS, ?_, ?_, ?_⟩
  · rw [linked]
    exact if_pos rfl
  · rw [childL (Or.inr (Or.inl rfl)), if_pos rfl]
    apply leftTree.moved leftNodup
    · intro m inside side
      have notS := ne_of_mem_of_not_mem inside sNotLeft
      rw [childL (Or.inl inside), if_neg notS, if_neg]
      rintro ⟨_, rfl⟩
      exact disjoint inside hRest
    · intro m inside
      have notS := ne_of_mem_of_not_mem inside sNotLeft
      rw [parentL m notS, if_neg (c := nodes.child false d = some m),
        if_neg (c := nodes.child false s = some m)]
      · exact fun leads => disjoint inside (lowest m leads)
      · intro leads
        have inRight' := inRight m leads
        rw [order, List.mem_cons] at inRight'
        exact inRight'.elim notS fun inRest => disjoint inside inRest
    · intro m inside
      rw [sizeL m (ne_of_mem_of_not_mem inside sNotLeft)]
      apply if_neg
      intro isFrame
      exact disjoint inside (mem_inorder_plug (Or.inr isFrame))
  · rw [childL (Or.inr (Or.inl rfl)), if_pos rfl]
    have rightNodup : (inorder r).Nodup := by
      rw [order, List.nodup_cons]
      exact ⟨sNotRest, restNodup⟩
    rw [parts] at rightTree rightNodup
    apply (treeAt_withoutLeftmost rightTree rightNodup).moved restNodup
    · intro m inside side
      have notS := ne_of_mem_of_not_mem inside sNotRest
      rw [childL (Or.inr (Or.inr inside)), if_neg notS, child_withoutLeftmost]
    · intro m inside
      have notS := ne_of_mem_of_not_mem inside sNotRest
      rw [parentL m notS, if_neg fun leads => disjoint (inLeft m leads) inside,
        parent_withoutLeftmost]
    · intro m inside
      exact sizeL m (ne_of_mem_of_not_mem inside sNotRest)

theorem delWithLeftmost_spec {rootNode : ν} (search : findLeftmost nodes' fuel c = some (h, s))
    (isRoot : root = some rootNode) (notRoot : rootNode ≠ d) (less : compareFunc s rootNode < 0)
    (enough : l.numNodes + r.numNodes < fuel) :
    ∃ nodesF,
      delWithLeftmost compareFunc fuel nodes' root d c cmp = some (nodesF, root) ∧
        Refilled nodes nodesF root root frames d l r
          (node s l (plug (⟨true, h, far⟩ :: lower) sr)) (some s) := by
  obtain ⟨nodesU, runs, updated⟩ :=
    updateSubtree_spec (some s) found.last (fun _ => by simp) (moveLeftmost nodes' d h s)
  obtain ⟨sizes, linked⟩ := treeAt_moveLeftmost found parts order updated
  have notRoot' : root ≠ some d := by
    rw [isRoot]
    exact fun same => notRoot (Option.some.inj same)
  have above : frames ≠ [] := fun empty => notRoot' ((root_eq_iff found.tree).mpr empty)
  have refilledOrder :
      inorder (node s l (plug (⟨true, h, far⟩ :: lower) sr)) = inorder l ++ inorder r := by
    rw [inorder, order]
  have nodup := found.apart.hole
  rw [inorder, List.nodup_middle, List.nodup_cons, ← refilledOrder] at nodup
  have count :
      (node s l (plug (⟨true, h, far⟩ :: lower) sr)).numNodes = l.numNodes + r.numNodes := by
    rw [← length_inorder, refilledOrder, List.length_append, length_inorder, length_inorder]
  obtain ⟨nodesF, ends, tree, childF, parentF, sizeF⟩ :=
    genSizeValues_spec fuel linked nodup.2 (by rw [count]; exact enough)
  refine ⟨nodesF, ?_, ?_, tree, refilledOrder, (if_neg above).symm⟩
  · rw [delWithLeftmost, search, Option.bind_some]
    dsimp only
    rw [found.parent_eq, runs, Option.bind_some, if_neg notRoot', ends, Option.bind_some, isRoot]
    dsimp only
    rw [if_neg (by omega)]
  · have sHole : s ∈ inorder (node d l r) := by simp [inorder, order]
    apply found.outsideHole (moveLeftmost_outside found parts order) updated
    · rintro m same
      exact Option.some.inj same ▸ sHole
    · intro m outside
      have notTree :
          m ∉ inorder (node s l (plug (⟨true, h, far⟩ :: lower) sr)) := by
        rw [refilledOrder]
        intro inside
        apply outside
        rw [inorder, List.mem_append, List.mem_cons]
        rw [List.mem_append] at inside
        tauto
      refine ⟨fun side => ?_, ?_, ?_⟩
      · rw [childF]
        rfl
      · rw [parentF, MBTNodes.parent_setParent, if_neg (ne_of_mem_of_not_mem sHole outside).symm]
      · rw [sizeF m notTree]
        rfl

end

end Leftmost

end IteSdk.TsDemuxer
