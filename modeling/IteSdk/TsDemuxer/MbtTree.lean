import IteSdk.Lib.SearchTree
import IteSdk.TsDemuxer.Mbt

/-!
# Trees of `MBT_NODE`s

`TreeAt` says which tree a pointer leads to, with right parents and sizes.
Rotations keep the order of the nodes, and `_Refresh_Tree` ends because every
rotation makes the tree lighter.
-/

namespace IteSdk.TsDemuxer

open Lib BinaryTree

universe u

variable {ν : Type u}

/-- `p` leads to a tree below `parent`, with the links and sizes that it should
have. -/
def TreeAt (nodes : MBTNodes ν) : Option ν → Option ν → BinaryTree ν → Prop
  | _, p, nil => p = none
  | parent, p, node n l r =>
    p = some n ∧ nodes.parent n = parent ∧
      nodes.size n = BitVec.ofNat 32 (l.numNodes + r.numNodes + 1) ∧
      TreeAt nodes (some n) (nodes.child true n) l ∧
      TreeAt nodes (some n) (nodes.child false n) r

def Same (nodes nodes' : MBTNodes ν) (n : ν) : Prop :=
  (∀ bLeft, nodes'.child bLeft n = nodes.child bLeft n) ∧
    nodes'.parent n = nodes.parent n ∧ nodes'.size n = nodes.size n

variable {nodes nodes' nodes'' : MBTNodes ν} {parent p : Option ν}

theorem Same.refl (nodes : MBTNodes ν) (n : ν) : Same nodes nodes n := ⟨fun _ => rfl, rfl, rfl⟩

variable {n : ν}

theorem Same.trans (first : Same nodes nodes' n) (second : Same nodes' nodes'' n) :
    Same nodes nodes'' n :=
  ⟨fun bLeft => (second.1 bLeft).trans (first.1 bLeft),
    second.2.1.trans first.2.1, second.2.2.trans first.2.2⟩

theorem treeAt_nil : TreeAt nodes parent p nil ↔ p = none := Iff.rfl

theorem treeAt_join {bLeft : Bool} {near far : BinaryTree ν} :
    TreeAt nodes parent p (join bLeft n near far) ↔
      p = some n ∧ nodes.parent n = parent ∧
        nodes.size n = BitVec.ofNat 32 (near.numNodes + far.numNodes + 1) ∧
        TreeAt nodes (some n) (nodes.child bLeft n) near ∧
        TreeAt nodes (some n) (nodes.child (!bLeft) n) far := by
  cases bLeft
  · rw [Nat.add_comm near.numNodes]
    exact and_congr_right fun _ => and_congr_right fun _ => and_congr_right fun _ => and_comm
  · exact Iff.rfl

variable {t : BinaryTree ν}

theorem TreeAt.congr (tree : TreeAt nodes parent p t)
    (same : ∀ n ∈ inorder t, Same nodes nodes' n) :
    TreeAt nodes' parent p t := by
  induction t generalizing parent p with
  | nil =>
    exact tree
  | node n l r left right =>
    obtain ⟨here, above, size, leftTree, rightTree⟩ := tree
    obtain ⟨sameChild, sameParent, sameSize⟩ := same n (by simp [inorder])
    refine ⟨here, sameParent.trans above, sameSize.trans size, ?_, ?_⟩
    · rw [sameChild]
      exact left leftTree fun m member => same m (by simp [inorder, member])
    · rw [sameChild]
      exact right rightTree fun m member => same m (by simp [inorder, member])

theorem TreeAt.reparent {parent' : Option ν}
    (tree : TreeAt nodes parent p t) (nodup : (inorder t).Nodup)
    (root : ∀ n, p = some n →
      nodes'.parent n = parent' ∧ nodes'.size n = nodes.size n ∧
        ∀ bLeft, nodes'.child bLeft n = nodes.child bLeft n)
    (same : ∀ n ∈ inorder t, p ≠ some n → Same nodes nodes' n) :
    TreeAt nodes' parent' p t := by
  cases t with
  | nil =>
    exact tree
  | node n l r =>
    obtain ⟨here, above, size, leftTree, rightTree⟩ := tree
    obtain ⟨newParent, sameSize, sameChild⟩ := root n here
    rw [inorder, nodup_around] at nodup
    obtain ⟨notLeft, notRight, _⟩ := nodup
    refine ⟨here, newParent, sameSize.trans size, ?_, ?_⟩
    · rw [sameChild]
      apply leftTree.congr
      intro m member
      apply same m (by simp [inorder, member])
      rw [here]
      rintro isRoot
      exact notLeft (Option.some.inj isRoot ▸ member)
    · rw [sameChild]
      apply rightTree.congr
      intro m member
      apply same m (by simp [inorder, member])
      rw [here]
      rintro isRoot
      exact notRight (Option.some.inj isRoot ▸ member)

theorem TreeAt.sizeOf (tree : TreeAt nodes parent p t) :
    nodes.sizeOf p = BitVec.ofNat 32 t.numNodes := by
  cases t with
  | nil =>
    rw [treeAt_nil.mp tree]
    rfl
  | node n l r =>
    obtain ⟨rfl, _, size, _⟩ := tree
    exact size

theorem TreeAt.root_mem (tree : TreeAt nodes parent (some n) t) : n ∈ inorder t := by
  cases t with
  | nil =>
    cases treeAt_nil.mp tree
  | node m l r =>
    obtain rfl := Option.some.inj tree.1
    simp [inorder]

theorem TreeAt.ne_of_notMem (tree : TreeAt nodes parent p t) (outside : n ∉ inorder t) :
    p ≠ some n := by
  rintro rfl
  exact outside tree.root_mem

theorem heavier_iff {parent' q : Option ν} {a y : BinaryTree ν}
    (inner : TreeAt nodes parent p a) (outer : TreeAt nodes parent' q y)
    (innerFits : a.numNodes < 2 ^ 32) (outerFits : y.numNodes < 2 ^ 32) :
    heavier nodes p q = true ↔ y.numNodes < a.numNodes := by
  cases a with
  | nil =>
    rw [treeAt_nil.mp inner]
    simp [heavier]
  | node n l r =>
    have innerSize := inner.sizeOf
    obtain ⟨rfl, _⟩ := inner
    cases y with
    | nil =>
      rw [treeAt_nil.mp outer]
      simp [heavier]
    | node m l' r' =>
      have outerSize := outer.sizeOf
      obtain ⟨rfl, _⟩ := outer
      rw [MBTNodes.sizeOf] at innerSize outerSize
      rw [heavier, innerSize, outerSize, decide_eq_true_eq,
        BitVec.lt_def, BitVec.toNat_ofNat, BitVec.toNat_ofNat,
        Nat.mod_eq_of_lt innerFits, Nat.mod_eq_of_lt outerFits]

section Rotation

variable [DecidableEq ν] {b : Bool} {c upper : ν}

theorem rotateTree_fields (near : nodes.child b c = some upper)
    (apart : upper ≠ c) (inner : nodes.child (!b) upper ≠ some c)
    (inner' : nodes.child (!b) upper ≠ some upper) (far : nodes.child (!b) c ≠ some upper) :
    ∃ nodes', rotateTree b nodes c = some (nodes', upper) ∧
      (∀ side n, nodes'.child side n = if side = b ∧ n = c then nodes.child (!b) upper
        else if side = (!b) ∧ n = upper then some c
        else nodes.child side n) ∧
      (∀ n, nodes'.parent n = if n = c then some upper
        else if n = upper then nodes.parent c
        else if nodes.child (!b) upper = some n then some c
        else nodes.parent n) ∧
      ∀ n, nodes'.size n =
        if n = c then
          nodes.sizeOf (nodes.child (!b) upper) + nodes.sizeOf (nodes.child (!b) c) + 1
        else if n = upper then nodes.size c
        else nodes.size n := by
  rw [rotateTree, near]
  refine ⟨_, rfl, ?_, ?_, ?_⟩
  · intro side n
    simp only [MBTNodes.child_setSize, MBTNodes.child_setParent,
      MBTNodes.child_setChild, MBTNodes.child_setParentOf]
    cases b <;> cases side <;> simp
  · intro n
    simp only [MBTNodes.parent_setSize, MBTNodes.parent_setParent,
      MBTNodes.parent_setChild, MBTNodes.parent_setParentOf]
    rw [if_neg inner]
  · intro n
    -- Only the size of `upper` is new when the others are summed up.
    have sizes (current : MBTNodes ν)
        (stored : current.size = (nodes.setSize upper (nodes.size c)).size)
        {q : Option ν} (other : q ≠ some upper) :
        current.sizeOf q = nodes.sizeOf q := by
      apply MBTNodes.sizeOf_congr
      rintro m rfl
      have notUpper : m ≠ upper := fun same => other (congrArg some same)
      rw [stored, MBTNodes.size_setSize, if_neg notUpper]
    rw [MBTNodes.size_setSize, MBTNodes.childrenSize]
    by_cases isRoot : n = c
    · rw [if_pos isRoot, if_pos isRoot]
      congr 1
      simp only [MBTNodes.child_setSize, MBTNodes.child_setParent,
        MBTNodes.child_setChild, MBTNodes.child_setParentOf]
      cases b
      · simp only [Bool.not_false, Bool.true_eq_false, apart.symm, and_false,
          if_false, false_and, and_self, if_true] at inner' far ⊢
        rw [sizes _ (by simp [MBTNodes.setSize]) far,
          sizes _ (by simp [MBTNodes.setSize]) inner', BitVec.add_comm]
      · simp only [Bool.not_true, Bool.false_eq_true, apart.symm, and_false,
          if_false, false_and, and_self, if_true] at inner' far ⊢
        rw [sizes _ (by simp [MBTNodes.setSize]) far, sizes _ (by simp [MBTNodes.setSize]) inner']
    · rw [if_neg isRoot, if_neg isRoot, MBTNodes.size_setSize]
      simp

theorem rotateTree_spec {a x y : BinaryTree ν}
    (tree : TreeAt nodes parent (some c) (join b c (join b upper a x) y))
    (nodup : (inorder (join b c (join b upper a x) y)).Nodup) :
    ∃ nodes', rotateTree b nodes c = some (nodes', upper) ∧
      TreeAt nodes' parent (some upper) (join b upper a (join b c x y)) ∧
      ∀ n, n ∉ inorder (join b c (join b upper a x) y) → Same nodes nodes' n := by
  obtain ⟨_, above, size, nearTree, yTree⟩ := treeAt_join.mp tree
  obtain ⟨near, upperAbove, upperSize, aTree, xTree⟩ := treeAt_join.mp nearTree
  obtain ⟨notNear, notY, nearNodup, _, nearY⟩ := nodup_join.mp nodup
  obtain ⟨notA, notX, _, xNodup, aX⟩ := nodup_join.mp nearNodup
  rw [mem_inorder_join, not_or, not_or] at notNear
  obtain ⟨apart, cNotA, cNotX⟩ := notNear
  have upperNotY : upper ∉ inorder y := fun inY => nearY (mem_inorder_join.mpr (Or.inl rfl)) inY
  obtain ⟨nodes', rotated, child, parents, sizes⟩ :=
    rotateTree_fields near (Ne.symm apart) (xTree.ne_of_notMem cNotX)
      (xTree.ne_of_notMem notX) (yTree.ne_of_notMem upperNotY)
  -- Nodes that are not at the top of the rotated trees keep their fields.
  have kept :
      ∀ n, n ≠ c → n ≠ upper → nodes.child (!b) upper ≠ some n → Same nodes nodes' n := by
    intro n notC notUpper notInner
    refine ⟨fun side => ?_, ?_, ?_⟩
    · rw [child, if_neg fun both => notC both.2, if_neg fun both => notUpper both.2]
    · rw [parents, if_neg notC, if_neg notUpper, if_neg notInner]
    · rw [sizes, if_neg notC, if_neg notUpper]
  have outsideX : ∀ n, n ∉ inorder x → nodes.child (!b) upper ≠ some n :=
    fun n outside => xTree.ne_of_notMem outside
  have sides : b ≠ (!b) := by cases b <;> decide
  refine ⟨nodes', rotated, treeAt_join.mpr ⟨rfl, ?_, ?_, ?_, ?_⟩, ?_⟩
  · rw [parents, if_neg (Ne.symm apart), if_pos rfl, above]
  · rw [sizes, if_neg (Ne.symm apart), if_pos rfl, size, numNodes_join, numNodes_join]
    congr 1
    omega
  · rw [child, if_neg fun both => apart both.2.symm, if_neg fun both => sides both.1]
    apply aTree.congr
    intro n inA
    exact
      kept n (ne_of_mem_of_not_mem inA cNotA) (ne_of_mem_of_not_mem inA notA)
        (outsideX n fun inX => aX inA inX)
  · rw [child, if_neg fun both => sides both.1.symm, if_pos ⟨rfl, rfl⟩]
    refine treeAt_join.mpr ⟨rfl, ?_, ?_, ?_, ?_⟩
    · rw [parents, if_pos rfl]
    · rw [sizes, if_pos rfl, xTree.sizeOf, yTree.sizeOf, BitVec.ofNat_add, BitVec.ofNat_add]
      rfl
    · rw [child, if_pos ⟨rfl, rfl⟩]
      apply xTree.reparent xNodup
      · intro n isRoot
        have inX := (isRoot ▸ xTree).root_mem
        have notC : n ≠ c := ne_of_mem_of_not_mem inX cNotX
        have notUpper : n ≠ upper := ne_of_mem_of_not_mem inX notX
        refine ⟨?_, ?_, fun side => ?_⟩
        · rw [parents, if_neg notC, if_neg notUpper, if_pos isRoot]
        · rw [sizes, if_neg notC, if_neg notUpper]
        · rw [child, if_neg fun both => notC both.2, if_neg fun both => notUpper both.2]
      · intro n inX notRoot
        exact kept n (ne_of_mem_of_not_mem inX cNotX) (ne_of_mem_of_not_mem inX notX) notRoot
    · rw [child, if_neg fun both => sides both.1.symm, if_neg fun both => apart both.2]
      apply yTree.congr
      intro n inY
      have notX' : n ∉ inorder x := fun inX =>
        nearY (mem_inorder_join.mpr (Or.inr (Or.inr inX))) inY
      exact
        kept n (ne_of_mem_of_not_mem inY notY)
          (ne_of_mem_of_not_mem inY upperNotY) (outsideX n notX')
  · intro n outside
    rw [mem_inorder_join, mem_inorder_join] at outside
    simp only [not_or] at outside
    obtain ⟨notC, ⟨notUpper, _, notInX⟩, _⟩ := outside
    exact kept n notC notUpper (outsideX n notInX)

end Rotation

section Replace

variable {b : Bool} {c : ν} {near near' far : BinaryTree ν}

theorem TreeAt.replace (tree : TreeAt nodes parent p (join b c near far))
    (count : near'.numNodes = near.numNodes) (sameParent : nodes'.parent c = nodes.parent c)
    (sameSize : nodes'.size c = nodes.size c) (sameFar : nodes'.child (!b) c = nodes.child (!b) c)
    (farSame : ∀ n ∈ inorder far, Same nodes nodes' n)
    (nearTree : TreeAt nodes' (some c) (nodes'.child b c) near') :
    TreeAt nodes' parent p (join b c near' far) := by
  obtain ⟨here, above, size, _, farTree⟩ := treeAt_join.mp tree
  refine treeAt_join.mpr ⟨here, sameParent.trans above, sameSize.trans ?_, nearTree, ?_⟩
  · rw [size, count]
  · rw [sameFar]
    exact farTree.congr farSame

theorem numNodes_of_inorder {t t' : BinaryTree ν}
    (order : inorder t' = inorder t) : t'.numNodes = t.numNodes := by
  rw [← length_inorder, order, length_inorder]

theorem TreeAt.replace_inside (tree : TreeAt nodes parent p (join b c near far))
    (nodup : (inorder (join b c near far)).Nodup) (order : inorder near' = inorder near)
    (outside : ∀ n, n ∉ inorder near → Same nodes nodes' n)
    (nearTree : TreeAt nodes' (some c) (nodes.child b c) near') :
    TreeAt nodes' parent p (join b c near' far) := by
  obtain ⟨notNear, _, _, _, disjoint⟩ := nodup_join.mp nodup
  obtain ⟨sameChild, sameParent, sameSize⟩ := outside c notNear
  refine tree.replace (numNodes_of_inorder order) sameParent sameSize (sameChild _) ?_ ?_
  · intro n inFar
    exact outside n fun inNear => disjoint inNear inFar
  · rw [sameChild]
    exact nearTree

theorem Same.setChild [DecidableEq ν] {n m : ν} {value : Option ν}
    (same : Same nodes nodes' m) (other : m ≠ n) :
    Same nodes (nodes'.setChild b n value) m := by
  refine ⟨fun side => ?_, same.2.1, same.2.2⟩
  rw [MBTNodes.child_setChild, if_neg fun both => other both.2]
  exact same.1 side

theorem TreeAt.replace_child [DecidableEq ν] {p' : Option ν}
    (tree : TreeAt nodes parent p (join b c near far))
    (nodup : (inorder (join b c near far)).Nodup) (order : inorder near' = inorder near)
    (outside : ∀ n, n ∉ inorder near → Same nodes nodes' n)
    (nearTree : TreeAt nodes' (some c) p' near') :
    TreeAt (nodes'.setChild b c p') parent p (join b c near' far) ∧
      ∀ n, n ∉ inorder (join b c near far) → Same nodes (nodes'.setChild b c p') n := by
  obtain ⟨notNear, notFar, _, _, disjoint⟩ := nodup_join.mp nodup
  obtain ⟨sameChild, sameParent, sameSize⟩ := outside c notNear
  constructor
  · refine tree.replace (numNodes_of_inorder order) sameParent sameSize ?_ ?_ ?_
    · rw [MBTNodes.child_setChild, if_neg fun both => by cases b <;> simp at both]
      exact sameChild _
    · intro n inFar
      have notHere : n ∉ inorder near := fun inNear => disjoint inNear inFar
      exact (outside n notHere).setChild (ne_of_mem_of_not_mem inFar notFar)
    · rw [MBTNodes.child_setChild, if_pos ⟨rfl, rfl⟩]
      apply nearTree.congr
      intro n inNear
      have inOld : n ∈ inorder near := order ▸ inNear
      exact (Same.refl nodes' n).setChild (ne_of_mem_of_not_mem inOld notNear)
  · intro n notHere
    rw [mem_inorder_join, not_or, not_or] at notHere
    exact (outside n notHere.2.1).setChild notHere.1

end Replace

/-! ## Refreshing -/

section Refresh

variable {b : Bool} {c : ν} {near far : BinaryTree ν}

/-- What `rotateHeavier` leaves: the old root is on the other side, the nodes are
in their order, and the tree is lighter. -/
structure Rotated (nodes nodes' : MBTNodes ν) (parent : Option ν) (b : Bool)
    (c : ν) (t : BinaryTree ν) (upper : ν) (outer inner far : BinaryTree ν) :
    Prop where
  tree : TreeAt nodes' parent (some upper) (join b upper outer (join b c inner far))
  order : inorder (join b upper outer (join b c inner far)) = inorder t
  lighter : weight (join b upper outer (join b c inner far)) < weight t
  outside : ∀ n, n ∉ inorder t → Same nodes nodes' n

/-- What `_Refresh_Tree` leaves. -/
structure Refreshed (nodes nodes' : MBTNodes ν) (parent p : Option ν)
    (t t' : BinaryTree ν) : Prop where
  tree : TreeAt nodes' parent p t'
  order : inorder t' = inorder t
  noHeavier : weight t' ≤ weight t
  outside : ∀ n, n ∉ inorder t → Same nodes nodes' n

theorem Refreshed.same {t : BinaryTree ν} (tree : TreeAt nodes parent p t) :
    Refreshed nodes nodes parent p t t :=
  ⟨tree, rfl, Nat.le_refl _, fun n _ => Same.refl nodes n⟩

theorem Refreshed.trans {p' : Option ν} {t t' t'' : BinaryTree ν}
    (first : Refreshed nodes nodes' parent p t t')
    (second : Refreshed nodes' nodes'' parent p' t' t'') :
    Refreshed nodes nodes'' parent p' t t'' where
  tree := second.tree
  order := second.order.trans first.order
  noHeavier := Nat.le_trans second.noHeavier first.noHeavier
  outside n notHere := (first.outside n notHere).trans (second.outside n (first.order ▸ notHere))

variable {t t' : BinaryTree ν}

theorem Refreshed.nodup (refreshed : Refreshed nodes nodes' parent p t t')
    (nodup : (inorder t).Nodup) : (inorder t').Nodup :=
  refreshed.order ▸ nodup

theorem Refreshed.fits (refreshed : Refreshed nodes nodes' parent p t t')
    (fits : t.numNodes < 2 ^ 32) : t'.numNodes < 2 ^ 32 :=
  numNodes_of_inorder refreshed.order ▸ fits

theorem weight_join_le {near near' : BinaryTree ν} (order : inorder near' = inorder near)
    (noHeavier : weight near' ≤ weight near) :
    weight (join b c near' far) ≤ weight (join b c near far) := by
  rw [weight_join, weight_join, numNodes_of_inorder order]
  omega

theorem Rotated.refreshed {t outer inner : BinaryTree ν} {upper : ν}
    (rotated : Rotated nodes nodes' parent b c t upper outer inner far) :
    Refreshed nodes nodes' parent (some upper) t (join b upper outer (join b c inner far)) :=
  ⟨rotated.tree, rotated.order, Nat.le_of_lt rotated.lighter, rotated.outside⟩

theorem Refreshed.otherSide {t t' outer : BinaryTree ν} {upper : ν}
    (tree : TreeAt nodes parent p (join b upper outer t))
    (nodup : (inorder (join b upper outer t)).Nodup)
    (refreshed : Refreshed nodes nodes' (some upper) (nodes.child (!b) upper) t t') :
    Refreshed nodes nodes' parent p (join b upper outer t) (join b upper outer t') := by
  rw [← join_not] at tree nodup
  rw [← join_not b upper t outer, ← join_not b upper t' outer]
  refine
    ⟨tree.replace_inside nodup refreshed.order refreshed.outside refreshed.tree,
      inorder_join_congr refreshed.order rfl _ _,
      weight_join_le refreshed.order refreshed.noHeavier, ?_⟩
  intro n notHere
  rw [mem_inorder_join, not_or, not_or] at notHere
  exact refreshed.outside n notHere.2.1

variable [DecidableEq ν]

theorem doubleRotation_spec {m upper : ν} {a x y : BinaryTree ν}
    (tree : TreeAt nodes parent (some c) (join b c (join b upper a (join b m y x)) far))
    (nodup : (inorder (join b c (join b upper a (join b m y x)) far)).Nodup)
    (heavier : far.numNodes < (join b m y x).numNodes) :
    ∃ nodes',
      ((rotateTree (!b) nodes upper).bind fun (nodes, upper) =>
          rotateTree b (nodes.setChild b c (some upper)) c) =
        some (nodes', m) ∧
      Rotated nodes nodes' parent b c
        (join b c (join b upper a (join b m y x)) far) m (join b upper a y) x
        far := by
  obtain ⟨_, _, _, nearTree, _⟩ := treeAt_join.mp tree
  obtain ⟨_, _, nearNodup, _, _⟩ := nodup_join.mp nodup
  have start := (treeAt_join.mp nearTree).1
  rw [start, ← join_not b upper, ← join_not b m] at nearTree
  rw [← join_not b upper, ← join_not b m] at nearNodup
  obtain ⟨middle, first, middleTree, middleSame⟩ := rotateTree_spec nearTree nearNodup
  have order := inorder_rotate (!b) upper m x y a
  rw [join_not b upper, join_not b m, join_not b upper, join_not b m] at order
  rw [join_not b upper, join_not b m] at middleTree
  rw [join_not b upper, join_not b m] at middleSame
  obtain ⟨replaced, replacedSame⟩ := tree.replace_child nodup order middleSame middleTree
  have whole := inorder_join_congr order (rfl : inorder far = inorder far) b c
  have nodup' :
      (inorder (join b c (join b m (join b upper a y) x) far)).Nodup :=
    whole ▸ nodup
  obtain ⟨nodes', second, rotated, rotatedSame⟩ := rotateTree_spec replaced nodup'
  refine ⟨nodes', ?_, rotated, ?_, ?_, ?_⟩
  · rw [first, Option.bind_some]
    exact second
  · exact (inorder_rotate b c m (join b upper a y) x far).trans whole
  · simp only [weight_join, numNodes_join] at heavier ⊢
    omega
  · intro n outside
    exact (replacedSame n outside).trans (rotatedSame n (whole ▸ outside))

theorem rotateHeavier_spec (tree : TreeAt nodes parent (some c) (join b c near far))
    (nodup : (inorder (join b c near far)).Nodup) (fits : (join b c near far).numNodes < 2 ^ 32) :
    (rotateHeavier nodes c b = some none ∧ heavierUp b near far = none) ∨
      ∃ nodes' upper outer inner, rotateHeavier nodes c b = some (some (nodes', upper)) ∧
        heavierUp b near far = some (upper, outer, inner) ∧
        Rotated nodes nodes' parent b c (join b c near far) upper outer inner far := by
  obtain ⟨_, _, _, nearTree, farTree⟩ := treeAt_join.mp tree
  rw [rotateHeavier]
  rw [numNodes_join] at fits
  cases near with
  | nil =>
    rw [treeAt_nil.mp nearTree]
    exact Or.inl ⟨rfl, rfl⟩
  | node upper l r =>
    obtain ⟨a, x, parts⟩ := exists_join b upper l r
    rw [parts] at nodup fits tree nearTree ⊢
    obtain ⟨start, _, _, aTree, xTree⟩ := treeAt_join.mp nearTree
    rw [numNodes_join] at fits
    rw [start]
    dsimp only
    by_cases outerHeavier : heavier nodes (nodes.child b upper) (nodes.child (!b) c) = true
    · rw [if_pos outerHeavier]
      rw [heavier_iff aTree farTree (by omega) (by omega)] at outerHeavier
      obtain ⟨nodes', rotated, tree', same⟩ := rotateTree_spec tree nodup
      refine Or.inr ⟨nodes', upper, a, x, ?_, heavierUp_outer outerHeavier, tree', ?_, ?_, same⟩
      · rw [rotated]
        rfl
      · exact inorder_rotate b c upper a x far
      · exact weight_rotate b c upper a x far outerHeavier
    · rw [if_neg outerHeavier]
      by_cases innerHeavier : heavier nodes (nodes.child (!b) upper) (nodes.child (!b) c) = true
      · rw [if_pos innerHeavier]
        rw [heavier_iff xTree farTree (by omega) (by omega)] at innerHeavier
        rw [heavier_iff aTree farTree (by omega) (by omega)] at outerHeavier
        cases x with
        | nil => simp at innerHeavier
        | node m l' r' =>
          obtain ⟨y, x, innerParts⟩ := exists_join b m l' r'
          rw [innerParts] at tree nodup innerHeavier ⊢
          obtain ⟨nodes', rotated, result⟩ := doubleRotation_spec tree nodup innerHeavier
          refine
            Or.inr ⟨nodes', m, join b upper a y, x, ?_,
              heavierUp_inner outerHeavier innerHeavier, result⟩
          have mapped := congrArg (Option.map some) rotated
          rw [Option.map_bind] at mapped
          exact mapped
      · rw [heavier_iff aTree farTree (by omega) (by omega)] at outerHeavier
        refine Or.inl ⟨if_neg innerHeavier, heavierUp_eq_none_iff.mpr ?_⟩
        rw [heavier_iff xTree farTree (by omega) (by omega)] at innerHeavier
        rw [childrenFit_join]
        omega

/-! ### The same on trees -/

/-- The calls that `_Refresh_Tree` makes after it has rotated.  The first two are made
for the children of the old root, wherever it is now. -/
def refreshRotated (again : Bool → BinaryTree ν → Option (BinaryTree ν))
    (bLeft : Bool) (c : ν) (far : BinaryTree ν)
    (up : ν × BinaryTree ν × BinaryTree ν) : Option (BinaryTree ν) :=
  let old := join bLeft c up.2.2 far
  (again true (subtree true old)).bind fun left =>
  (again false (subtree false old)).bind fun right =>
  (again true (join bLeft up.1 up.2.1 (join true c left right))).bind (again false)

/-- `_Refresh_Tree` on the tree that a pointer leads to. -/
def refreshAt : Nat → Bool → BinaryTree ν → Option (BinaryTree ν)
  | 0, _, _ => none
  | _ + 1, _, nil => some nil
  | fuel + 1, bLeft, node c l r =>
    (heavierUp bLeft (subtree bLeft (node c l r)) (subtree (!bLeft) (node c l r))).elim
      (some (node c l r))
      (refreshRotated (refreshAt fuel) bLeft c (subtree (!bLeft) (node c l r)))

section RefreshAt

omit [DecidableEq ν]

theorem refreshAt_join (fuel : Nat) :
    refreshAt (fuel + 1) b (join b c near far) =
      (heavierUp b near far).elim (some (join b c near far))
        (refreshRotated (refreshAt fuel) b c far) := by
  cases b <;> rfl

theorem refreshAt_none {fuel : Nat} (up : heavierUp b near far = none) :
    refreshAt (fuel + 1) b (join b c near far) = some (join b c near far) := by
  rw [refreshAt_join, up]
  rfl

theorem refreshAt_some {fuel : Nat} {upper : ν} {outer inner left right t t' : BinaryTree ν}
    (up : heavierUp b near far = some (upper, outer, inner))
    (first : refreshAt fuel true (subtree true (join b c inner far)) = some left)
    (second : refreshAt fuel false (subtree false (join b c inner far)) = some right)
    (third : refreshAt fuel true (join b upper outer (join true c left right)) = some t)
    (fourth : refreshAt fuel false t = some t') :
    refreshAt (fuel + 1) b (join b c near far) = some t' := by
  rw [refreshAt_join, up]
  change refreshRotated (refreshAt fuel) b c far (upper, outer, inner) = some t'
  rw [refreshRotated]
  dsimp only
  rw [first, Option.bind_some, second, Option.bind_some, third, Option.bind_some, fourth]

end RefreshAt

/-- With this fuel `_Refresh_Tree` ends on all trees that are light enough. -/
def RefreshEnds (ν : Type u) [DecidableEq ν] (fuel : Nat) : Prop :=
  ∀ {nodes : MBTNodes ν} {parent p : Option ν} {t : BinaryTree ν} (bLeft : Bool),
    TreeAt nodes parent p t → (inorder t).Nodup → t.numNodes < 2 ^ 32 →
    weight t < fuel →
    ∃ nodes' p' t', refreshTree fuel nodes p bLeft = some (nodes', p') ∧
      refreshAt fuel bLeft t = some t' ∧ Refreshed nodes nodes' parent p' t t'

section

variable {fuel : Nat} (ends : RefreshEnds ν fuel)
  (tree : TreeAt nodes parent p (join b c near far)) (nodup : (inorder (join b c near far)).Nodup)
  (fits : (join b c near far).numNodes < 2 ^ 32) (enough : weight (join b c near far) < fuel)

include ends tree nodup fits enough

theorem refreshTree_child (bLeft : Bool) :
    ∃ nodes' p' near', refreshTree fuel nodes (nodes.child b c) bLeft = some (nodes', p') ∧
      refreshAt fuel bLeft near = some near' ∧
      Refreshed nodes (nodes'.setChild b c p') parent p (join b c near far)
        (join b c near' far) := by
  obtain ⟨_, _, _, nearTree, _⟩ := treeAt_join.mp tree
  obtain ⟨_, _, nearNodup, _, _⟩ := nodup_join.mp nodup
  rw [numNodes_join] at fits
  rw [weight_join] at enough
  obtain ⟨nodes', p', near', runs, onTree, refreshed⟩ :=
    ends bLeft nearTree nearNodup (by omega) (by omega)
  obtain ⟨whole, outside⟩ :=
    tree.replace_child nodup refreshed.order refreshed.outside refreshed.tree
  exact
    ⟨nodes', p', near', runs, onTree, whole, inorder_join_congr refreshed.order rfl b c,
      weight_join_le refreshed.order refreshed.noHeavier, outside⟩

theorem refreshTree_children :
    ∃ nodes₁ left nodes₂ right l r,
      refreshTree fuel nodes (nodes.child true c) true = some (nodes₁, left) ∧
      refreshTree fuel (nodes₁.setChild true c left)
          ((nodes₁.setChild true c left).child false c) false =
        some (nodes₂, right) ∧
      refreshAt fuel true (subtree true (join b c near far)) = some l ∧
      refreshAt fuel false (subtree false (join b c near far)) = some r ∧
      Refreshed nodes (nodes₂.setChild false c right) parent p
        (join b c near far) (join true c l r) := by
  obtain ⟨l, r, parts⟩ :
      ∃ l r, join b c near far = join true c l r := by
    cases b
    · exact ⟨far, near, rfl⟩
    · exact ⟨near, far, rfl⟩
  rw [parts] at tree nodup fits enough ⊢
  obtain ⟨nodes₁, left, l', first, firstTree, refreshed⟩ :=
    refreshTree_child ends tree nodup fits enough true
  have tree' := refreshed.tree
  have nodup' := refreshed.nodup nodup
  have fits' := refreshed.fits fits
  have enough' := Nat.lt_of_le_of_lt refreshed.noHeavier enough
  rw [← join_not] at tree' nodup' fits' enough'
  obtain ⟨nodes₂, right, r', second, secondTree, refreshed'⟩ :=
    refreshTree_child ends tree' nodup' fits' enough' false
  rw [join_not, join_not] at refreshed'
  exact
    ⟨nodes₁, left, nodes₂, right, l', r', first, second, firstTree, secondTree,
      refreshed.trans refreshed'⟩

end

theorem refreshTree_spec (fuel : Nat) : RefreshEnds ν fuel := by
  induction fuel with
  | zero =>
    intro nodes parent p t bLeft _ _ _ enough
    cases Nat.not_lt_zero _ enough
  | succ fuel ih =>
    intro nodes parent p t bLeft tree nodup fits enough
    cases t with
    | nil =>
      obtain rfl := treeAt_nil.mp tree
      exact ⟨nodes, none, nil, rfl, rfl, Refreshed.same tree⟩
    | node c l r =>
      obtain rfl := tree.1
      obtain ⟨near, far, parts⟩ := exists_join bLeft c l r
      rw [parts] at nodup fits enough tree ⊢
      rw [refreshTree]
      rcases rotateHeavier_spec tree nodup fits with
        ⟨returns, light⟩ | ⟨nodes₀, upper, outer, inner, rotates, up, rotated⟩
      · rw [returns]
        exact ⟨nodes, some c, _, rfl, refreshAt_none light, Refreshed.same tree⟩
      · rw [rotates]
        dsimp only
        -- The old root is below the new one, with its two subtrees.
        have nodup₀ := rotated.refreshed.nodup nodup
        have fits₀ := rotated.refreshed.fits fits
        have enough₀ : weight (join bLeft upper outer (join bLeft c inner far)) < fuel :=
          Nat.lt_of_lt_of_le rotated.lighter (Nat.le_of_lt_succ enough)
        obtain ⟨_, _, _, _, oldTree⟩ := treeAt_join.mp rotated.tree
        obtain ⟨_, _, _, oldNodup, _⟩ := nodup_join.mp nodup₀
        have oldFits := fits₀
        have oldEnough := enough₀
        rw [numNodes_join] at oldFits
        rw [weight_join] at oldEnough
        obtain ⟨nodes₁, left, nodes₂, right, l', r', first, second,
            firstTree, secondTree, children⟩ :=
          refreshTree_children ih oldTree oldNodup (by omega) (by omega)
        have lower := Refreshed.otherSide rotated.tree nodup₀ children
        obtain ⟨nodes₃, root₃, t₃, third, thirdTree, refreshed₃⟩ :=
          ih true lower.tree (lower.nodup nodup₀) (lower.fits fits₀)
            (Nat.lt_of_le_of_lt lower.noHeavier enough₀)
        have upTo₃ := lower.trans refreshed₃
        obtain ⟨nodes₄, root₄, t₄, fourth, fourthTree, refreshed₄⟩ :=
          ih false upTo₃.tree (upTo₃.nodup nodup₀) (upTo₃.fits fits₀)
            (Nat.lt_of_le_of_lt upTo₃.noHeavier enough₀)
        refine
          ⟨nodes₄, root₄, t₄, ?_, refreshAt_some up firstTree secondTree thirdTree fourthTree,
            rotated.refreshed.trans (upTo₃.trans refreshed₄)⟩
        rw [first, Option.bind_some]
        dsimp only
        rw [second, Option.bind_some]
        dsimp only
        rw [third, Option.bind_some]
        exact fourth

end Refresh

end IteSdk.TsDemuxer
