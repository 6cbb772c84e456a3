import IteSdk.Lib.Fuel
import IteSdk.TsDemuxer.MbtDelete

/-!
# Runs of insertions and deletions

Which deletions keep the order-statistics tree as it should be, in every state
that such calls lead to.
-/

namespace IteSdk.TsDemuxer

open Lib BinaryTree

universe u v

variable {ν : Type u} [DecidableEq ν] {κ : Type v} [LinearOrder κ]
  {compareFunc : ν → ν → Int} {key : ν → κ}

section Fuel

theorem refreshTree_more (fuel : Nat) :
    ∀ (nodes : MBTNodes ν) (p : Option ν) (bLeft : Bool),
      Extends (refreshTree fuel nodes p bLeft) (refreshTree (fuel + 1) nodes p bLeft) := by
  induction fuel with
  | zero =>
    intro nodes p bLeft
    exact Extends.of_none _
  | succ fuel ih =>
    intro nodes p bLeft
    cases p with
    | none => exact Extends.refl _
    | some c =>
      rw [refreshTree, refreshTree]
      rcases rotateHeavier nodes c bLeft with _ | _ | ⟨nodes, root⟩
      · exact Extends.refl _
      · exact Extends.refl _
      · refine (ih _ _ _).bind fun left => ?_
        refine (ih _ _ _).bind fun right => ?_
        refine (ih _ _ _).bind fun refreshed => ?_
        exact ih _ _ _

theorem mbtInsertNode_more (fuel : Nat) :
    ∀ (nodes : MBTNodes ν) (p : Option ν) (n : ν),
      Extends (mbtInsertNode compareFunc fuel nodes p n)
        (mbtInsertNode compareFunc (fuel + 1) nodes p n) := by
  induction fuel with
  | zero =>
    intro nodes p n
    exact Extends.of_none _
  | succ fuel ih =>
    intro nodes p n
    cases p with
    | none => exact Extends.refl _
    | some c =>
      rw [mbtInsertNode, mbtInsertNode]
      refine Extends.ite ?_ (Extends.ite ?_ (Extends.refl _))
      · refine (ih _ _ _).bind fun right => ?_
        exact refreshTree_more fuel _ _ _
      · refine (ih _ _ _).bind fun left => ?_
        exact refreshTree_more fuel _ _ _

omit [DecidableEq ν] in
theorem findDelNode_more (nodes : MBTNodes ν) (pattern : ν) (fuel : Nat) :
    ∀ (p : Option ν) (prevCmp : Int),
      Extends (findDelNode compareFunc nodes pattern fuel p prevCmp)
        (findDelNode compareFunc nodes pattern (fuel + 1) p prevCmp) := by
  induction fuel with
  | zero =>
    intro p prevCmp
    exact Extends.of_none _
  | succ fuel ih =>
    intro p prevCmp
    cases p with
    | none => exact Extends.refl _
    | some c =>
      rw [findDelNode, findDelNode]
      exact Extends.ite (ih _ _) (Extends.ite (ih _ _) (Extends.refl _))

theorem decrementSizes_more (fuel : Nat) :
    ∀ (nodes : MBTNodes ν) (p : Option ν),
      Extends (decrementSizes fuel nodes p) (decrementSizes (fuel + 1) nodes p) := by
  induction fuel with
  | zero =>
    intro nodes p
    exact Extends.of_none _
  | succ fuel ih =>
    intro nodes p
    cases p with
    | none => exact Extends.refl _
    | some c => exact ih _ _

omit [DecidableEq ν] in
theorem findLeftmost_more (nodes : MBTNodes ν) (fuel : Nat) :
    ∀ c, Extends (findLeftmost nodes fuel c) (findLeftmost nodes (fuel + 1) c) := by
  induction fuel with
  | zero =>
    intro c
    exact Extends.of_none _
  | succ fuel ih =>
    intro c
    rw [findLeftmost, findLeftmost]
    cases nodes.child true c with
    | none => exact Extends.refl _
    | some s => exact Extends.ite (Extends.refl _) (ih s)

theorem genSizeValues_more (fuel : Nat) :
    ∀ (nodes : MBTNodes ν) (p : Option ν),
      Extends (genSizeValues fuel nodes p) (genSizeValues (fuel + 1) nodes p) := by
  induction fuel with
  | zero =>
    intro nodes p
    exact Extends.of_none _
  | succ fuel ih =>
    intro nodes p
    cases p with
    | none => exact Extends.refl _
    | some n =>
      rw [genSizeValues, genSizeValues]
      refine (ih _ _).bind fun nodes => ?_
      exact (ih _ _).map _

theorem decrementSpine_more (fuel : Nat) :
    ∀ (nodes : MBTNodes ν) (p : Option ν),
      Extends (decrementSpine fuel nodes p) (decrementSpine (fuel + 1) nodes p) := by
  induction fuel with
  | zero =>
    intro nodes p
    exact Extends.of_none _
  | succ fuel ih =>
    intro nodes p
    cases p with
    | none => exact Extends.refl _
    | some n => exact ih _ _

theorem mbtDelNode_more (nodes : MBTNodes ν) (root : Option ν) (pattern : ν) (fuel : Nat) :
    Extends (mbtDelNode compareFunc fuel nodes root pattern)
      (mbtDelNode compareFunc (fuel + 1) nodes root pattern) := by
  have leftmost (nodes : MBTNodes ν) (root : Option ν) (d c : ν) (cmp : Int) :
      Extends (delWithLeftmost compareFunc fuel nodes root d c cmp)
        (delWithLeftmost compareFunc (fuel + 1) nodes root d c cmp) := by
    rw [delWithLeftmost, delWithLeftmost]
    refine (findLeftmost_more nodes fuel c).bind fun found => ?_
    refine (Extends.refl _).bind fun updated => ?_
    refine (genSizeValues_more fuel _ _).bind fun sized => ?_
    split
    · exact Extends.refl _
    · exact Extends.ite ((decrementSpine_more fuel _ _).map _) (Extends.refl _)
  intro result returns
  rw [mbtDelNode] at returns ⊢
  cases search : findDelNode compareFunc nodes pattern fuel root 0 with
  | none =>
    rw [search] at returns
    cases returns
  | some found =>
    rw [findDelNode_more nodes pattern fuel root 0 found search]
    rw [search] at returns
    revert result
    obtain ⟨_ | d, cmp⟩ := found
    · exact Extends.refl _
    · refine Extends.ite (Extends.refl _) ?_
      refine (decrementSizes_more fuel nodes (some d)).bind fun nodes => ?_
      refine Extends.map ?_ _
      cases nodes.child false d with
      | none => exact Extends.refl _
      | some c => exact Extends.ite (Extends.refl _) (leftmost _ _ _ _ _)

end Fuel

section Deletion

variable {nodes nodes' : MBTNodes ν} {root root' p : Option ν}
  {frames : List (Frame ν)} {d pattern : ν} {l r t : BinaryTree ν}
  {members rest : List ν}

omit [DecidableEq ν] in
theorem Refilled.orderedTree (refilled : Refilled nodes nodes' root root' frames d l r t p)
    (ordered : OrderedTree key (nodes, root) members (plug frames (node d l r)))
    (parts : members.Perm (d :: rest)) :
    OrderedTree key (nodes', root') rest (plug frames t) := by
  have whole : inorder (plug frames (node d l r)) =
      frontOf frames ++ ((inorder l ++ d :: inorder r) ++ backOf frames) :=
    inorder_plug frames (node d l r)
  have filled : inorder (plug frames t) =
      frontOf frames ++ ((inorder l ++ inorder r) ++ backOf frames) := by
    rw [inorder_plug, refilled.order]
  have perm :
      (inorder (plug frames (node d l r))).Perm (d :: inorder (plug frames t)) := by
    rw [whole, filled]
    simp only [List.append_assoc, List.cons_append]
    rw [← List.append_assoc, ← List.append_assoc (frontOf frames)]
    exact List.perm_middle
  refine ⟨?_, ?_, ?_⟩
  · have context := (treeAt_hole ordered.tree).1
    have count : l.numNodes + r.numNodes = t.numNodes := by
      rw [← length_inorder t, refilled.order, List.length_append, length_inorder, length_inorder]
    rw [count] at context
    have apart := apart_of_nodup frames ordered.sorted.nodup
    exact
      treeAt_plug.mpr
        ⟨nodes.parent d, p, context.shrink (refilled.outside.holeChanged apart) refilled.root,
          refilled.tree⟩
  · apply List.Pairwise.sublist _ ordered.sorted
    rw [whole, filled]
    apply List.Sublist.append (List.Sublist.refl _)
    apply List.Sublist.append _ (List.Sublist.refl _)
    exact List.Sublist.append (List.Sublist.refl _) (List.sublist_cons_self d _)
  · exact (perm.symm.trans (ordered.members.trans parts)).cons_inv

/-- A node that `mbt_Del_Node` takes out without a mistake. -/
structure Deletable (key : ν → κ) (state : MBTNodes ν × Option ν) (d : ν) :
    Prop where
  /-- The root is not deleted unless it has a right child. -/
  withoutRight : state.1.child false d = none → state.2 ≠ some d
  /-- The leftmost node on the right is moved to the right of the root only. -/
  leftmost :
    ∀ c, state.1.child false d = some c → state.1.child true c ≠ none →
      ∃ rootNode, state.2 = some rootNode ∧ key rootNode < key d

omit [DecidableEq ν] in
theorem findLeftmost_congr (same : nodes'.child = nodes.child) (fuel : Nat) :
    findLeftmost nodes' fuel = findLeftmost nodes fuel := by
  induction fuel with
  | zero => rfl
  | succ fuel ih =>
    funext c
    rw [findLeftmost, findLeftmost, same, ih]

theorem mbtDelNode_cases {cmp : Int} {fuel : Nat} (orders : OrdersBy compareFunc key)
    (found : DelFound nodes nodes' root frames d l r cmp)
    (sorted : SortedBy key (inorder (plug frames (node d l r))))
    (deletable : Deletable key (nodes, root) d) (enough : l.numNodes + r.numNodes < fuel) :
    ∃ nodesF root' t p,
      (match nodes'.child false d with
        | none => delWithoutRight nodes' root d cmp
        | some rightNode =>
          if nodes'.child true rightNode = none then
            delWithRight nodes' root d rightNode cmp
          else
            delWithLeftmost compareFunc fuel nodes' root d rightNode cmp) =
          some (nodesF, root') ∧
        Refilled nodes nodesF root root' frames d l r t p := by
  obtain ⟨_, _, _, _, _, rightTree⟩ := treeAt_hole found.tree
  have childD := found.child
  cases r with
  | nil =>
    have noRight := treeAt_nil.mp rightTree
    obtain ⟨nodesF, runs, refilled⟩ := delWithoutRight_spec found (deletable.withoutRight noRight)
    refine ⟨nodesF, root, _, _, ?_, refilled⟩
    rw [childD, noRight]
    exact runs
  | node c rl rr =>
    have below := rightTree
    obtain ⟨leads, _, _, lowerTree, _⟩ := below
    rw [childD, leads]
    dsimp only
    cases rl with
    | nil =>
      obtain ⟨nodesF, root', runs, refilled⟩ := delWithRight_spec found
      refine ⟨nodesF, root', _, _, ?_, refilled⟩
      rw [treeAt_nil.mp lowerTree, if_pos rfl]
      exact runs
    | node m l' r' =>
      have notNull : nodes.child true c ≠ none := by
        rw [lowerTree.1]
        exact Option.some_ne_none m
      rw [if_neg notNull]
      rw [leads] at rightTree
      have fewer : (node m l' r').numNodes < fuel := by
        rw [numNodes] at enough
        omega
      obtain ⟨h, far, lower, s, sr, back, search, parts, order⟩ :=
        findLeftmost_spec (fun same => by cases same) rightTree fewer
      rw [← findLeftmost_congr found.child] at search
      have moved :
          inorder (node c (node m l' r') rr) =
            s :: inorder (plug (⟨true, h, far⟩ :: lower) sr) := by
        rw [parts, order, order]
        rfl
      obtain ⟨rootNode, isRoot, rootLess⟩ := deletable.leftmost c leads notNull
      -- The leftmost node on the right comes behind the root.
      have behind : key d < key s := by
        have holeSorted := sorted.hole
        rw [inorder, sortedBy_around, moved] at holeSorted
        exact holeSorted.2.2.2 s List.mem_cons_self
      have less : compareFunc s rootNode < 0 :=
        (orders.negative s rootNode).mpr (rootLess.trans behind)
      have notRoot : rootNode ≠ d := by
        rintro rfl
        exact lt_irrefl _ rootLess
      obtain ⟨nodesF, runs, refilled⟩ :=
        delWithLeftmost_spec found parts moved search isRoot notRoot less enough
      exact ⟨nodesF, root, _, _, runs, refilled⟩

theorem mbtDelNode_spec (orders : OrdersBy compareFunc key) {state : MBTNodes ν × Option ν}
    (ordered : OrderedTree key state members t)
    (parts : members.Perm (d :: rest)) (sameKey : key pattern = key d)
    (deletable : Deletable key state d) {fuel : Nat} (enough : members.length < fuel) :
    ∃ nodes' root' t',
      mbtDelNode compareFunc fuel state.1 state.2 pattern = some (some d, nodes', root') ∧
        OrderedTree key (nodes', root') rest t' ∧
        ∀ m ∉ members, Same state.1 nodes' m := by
  obtain ⟨nodes, root⟩ := state
  have inside : d ∈ members := parts.mem_iff.mpr List.mem_cons_self
  have count : t.numNodes = members.length := by rw [← length_inorder, ordered.members.length_eq]
  obtain ⟨frames, l, r, cmp, rfl, search, last⟩ :=
    findDelNode_spec orders sameKey fuel 0 ordered.tree ordered.sorted
      (ordered.members.mem_iff.mpr inside) (by rw [count]; exact enough)
  have size := numNodes_plug frames (node d l r)
  rw [numNodes, count] at size
  obtain ⟨context, hole⟩ := treeAt_hole ordered.tree
  have path : Chain nodes.parent (some d) (d :: frames.map Frame.root) none := ⟨rfl, context.chain⟩
  have short : (d :: frames.map Frame.root).length < fuel := by
    rw [List.length_cons, List.length_map]
    omega
  obtain ⟨nodes₁, counts, child, parent, sizes⟩ :=
    decrementSizes_spec (d :: frames.map Frame.root) path short
  have found : DelFound nodes nodes₁ root frames d l r cmp :=
    ⟨ordered.tree, ordered.sorted.nodup, last, child, parent, sizes⟩
  have fewer : l.numNodes + r.numNodes < fuel := by omega
  obtain ⟨nodes', root', t', p, runs, refilled⟩ :=
    mbtDelNode_cases orders found ordered.sorted deletable fewer
  have several :
      ¬ (nodes.parent d = none ∧ nodes.child true d = none ∧ nodes.child false d = none) := by
    rintro ⟨top, _, noRight⟩
    apply deletable.withoutRight noRight
    rw [root_eq_iff ordered.tree]
    rw [context.parent_eq, Option.map_eq_none_iff] at top
    exact List.head?_eq_none_iff.mp top
  refine ⟨nodes', root', _, ?_, refilled.orderedTree ordered parts, ?_⟩
  · rw [mbtDelNode, search]
    dsimp only
    rw [if_neg several, counts, Option.bind_some]
    exact congrArg (Option.map _) runs
  · intro m outside
    have notTree : m ∉ inorder (plug frames (node d l r)) := fun inTree =>
      outside (ordered.members.mem_iff.mp inTree)
    apply refilled.outside.same
    · exact fun inHole => notTree (mem_inorder_plug (Or.inl inHole))
    · exact fun isFrame => notTree (mem_inorder_plug (Or.inr isFrame))

end Deletion

section Run

variable {state state' : MBTNodes MBTAddress × Option MBTAddress}
  {members : List MBTAddress}

/-- The states, and the nodes that should be there, that insertions and
deletions under the conditions lead to.  The comparison functions may differ as
long as they order by the same keys. -/
inductive MBTReached {κ : Type v} [LinearOrder κ] (key : MBTAddress → κ) :
    MBTNodes MBTAddress × Option MBTAddress → List MBTAddress → Prop
  | empty (nodes : MBTNodes MBTAddress) : MBTReached key (nodes, none) []
  | insert {state state' : MBTNodes MBTAddress × Option MBTAddress} {members : List MBTAddress}
      {compareFunc : MBTAddress → MBTAddress → Int} {n : MBTAddress}
      {fuel : Nat} (reached : MBTReached key state members)
      (orders : OrdersBy compareFunc key) (new : ∀ m ∈ members, key m ≠ key n)
      (inserts : mbtAddNode compareFunc fuel state (n, 1) = some state') :
      MBTReached key state' (n :: members)
  | delete {state state' : MBTNodes MBTAddress × Option MBTAddress}
      {members rest : List MBTAddress}
      {compareFunc : MBTAddress → MBTAddress → Int} {d pattern : MBTAddress}
      {result : Option MBTAddress} {fuel : Nat}
      (reached : MBTReached key state members)
      (orders : OrdersBy compareFunc key) (parts : members.Perm (d :: rest))
      (sameKey : key pattern = key d) (deletable : Deletable key state d)
      (deletes : mbtDelNode compareFunc fuel state.1 state.2 pattern = some (result, state')) :
      MBTReached key state' rest

theorem MBTReached.ordered {key : MBTAddress → κ} (reached : MBTReached key state members) :
    ∃ t, OrderedTree key state members t := by
  induction reached with
  | empty nodes =>
    exact ⟨nil, rfl, List.Pairwise.nil, List.Perm.refl []⟩
  | @insert state state' members compareFunc n fuel _ orders new inserts ih =>
      obtain ⟨t, ordered⟩ := ih
      obtain ⟨state'', t', runs, -, ordered'⟩ :=
        mbtAddNode_spec orders ordered new (Nat.lt_succ_self _)
      have more (fuel : Nat) :
          Extends (mbtAddNode compareFunc fuel state (n, 1))
            (mbtAddNode compareFunc (fuel + 1) state (n, 1)) :=
        mbtInsertNode_more fuel _ _ _
      obtain rfl := Extends.result_unique more inserts runs
      exact ⟨t', ordered'⟩
  | @delete state state' members rest compareFunc d pattern result fuel _
      orders parts sameKey deletable deletes ih =>
      obtain ⟨t, ordered⟩ := ih
      obtain ⟨nodes', root', t', runs, ordered', _⟩ :=
        mbtDelNode_spec orders ordered parts sameKey deletable (Nat.lt_succ_self _)
      have same := Extends.result_unique (mbtDelNode_more state.1 state.2 pattern) deletes runs
      obtain ⟨_, rfl⟩ := Prod.mk.inj same
      exact ⟨t', ordered'⟩

/-- After every run a deletion under the condition takes out the node with the
key, and leaves a search tree of the others with right links and sizes. -/
theorem mbtDelNode_ordered {key : MBTAddress → κ} (reached : MBTReached key state members) :
    (∃ t, OrderedTree key state members t) ∧
      ∀ compareFunc d rest pattern, OrdersBy compareFunc key →
        members.Perm (d :: rest) → key pattern = key d →
        Deletable key state d →
        ∃ enough nodes' root' t',
          (∀ fuel, enough ≤ fuel →
            mbtDelNode compareFunc fuel state.1 state.2 pattern = some (some d, nodes', root')) ∧
          OrderedTree key (nodes', root') rest t' ∧
          ∀ m ∉ members, Same state.1 nodes' m := by
  obtain ⟨t, ordered⟩ := reached.ordered
  refine ⟨⟨t, ordered⟩, ?_⟩
  intro compareFunc d rest pattern orders parts sameKey deletable
  obtain ⟨nodes', root', t', runs, ordered', outside⟩ :=
    mbtDelNode_spec orders ordered parts sameKey deletable (Nat.lt_succ_self _)
  refine ⟨members.length + 1, nodes', root', t', ?_, ordered', outside⟩
  intro fuel enough
  exact Extends.of_le (mbtDelNode_more state.1 state.2 pattern) enough _ runs

/-- From nodes at 16 and 32 the first one is deleted, which is the root. -/
theorem mbtDelNode_ordered_root :
    ∃ state,
      [((⟨16, by decide⟩ : MBTAddress), (1 : BitVec 32)),
          (⟨32, by decide⟩, 1)].foldlM
          (mbtAddNode (keyDifference fun n => n.val.toNat) 9)
          (noNodes, none) =
        some state ∧
      (∃ t, OrderedTree (fun n => n.val.toNat) state [⟨32, by decide⟩, ⟨16, by decide⟩] t) ∧
      ∃ enough nodes' root' t',
        (∀ fuel, enough ≤ fuel →
          mbtDelNode (keyDifference fun n => n.val.toNat) fuel state.1 state.2 ⟨16, by decide⟩ =
            some (some ⟨16, by decide⟩, nodes', root')) ∧
        OrderedTree (fun n => n.val.toNat) (nodes', root') [⟨32, by decide⟩] t' := by
  have orders := keyDifference_orders fun n : MBTAddress => n.val.toNat
  let first : MBTNodes MBTAddress × Option MBTAddress :=
    (noNodes.create ⟨16, by decide⟩ 1, some ⟨16, by decide⟩)
  have runs :
      (mbtAddNode (keyDifference fun n => n.val.toNat) 9 first (⟨32, by decide⟩, 1)).map
          (fun state => (state.1.child false ⟨16, by decide⟩, state.1.child true ⟨32, by decide⟩)) =
        some (some ⟨32, by decide⟩, none) := by
    decide
  obtain ⟨state, second, fields⟩ := Option.map_eq_some_iff.mp runs
  obtain ⟨right, noLeft⟩ := Prod.mk.inj fields
  have inserts :
      mbtAddNode (keyDifference fun n => n.val.toNat) 9 (noNodes, none) (⟨16, by decide⟩, 1) =
        some first :=
    rfl
  have one : MBTReached (fun n => n.val.toNat) first [⟨16, by decide⟩] :=
    MBTReached.insert (.empty noNodes) orders (by simp) inserts
  have two :
      MBTReached (fun n => n.val.toNat) state [⟨32, by decide⟩, ⟨16, by decide⟩] :=
    MBTReached.insert one orders (by simp) second
  have deletable :
      Deletable (fun n => n.val.toNat) state ⟨16, by decide⟩ := by
    refine ⟨fun noRight => ?_, fun c leads notNull => ?_⟩
    · cases right.symm.trans noRight
    · obtain rfl := Option.some.inj (right.symm.trans leads)
      exact absurd noLeft notNull
  obtain ⟨ordered, deletes⟩ := mbtDelNode_ordered two
  obtain ⟨enough, nodes', root', t', returns, ordered', _⟩ :=
    deletes _ ⟨16, by decide⟩ _ ⟨16, by decide⟩ orders (List.Perm.swap _ _ []) rfl deletable
  exact ⟨state, second, ordered, enough, nodes', root', t', returns, ordered'⟩

/-- A root without a right child leaves a root that has been counted down, the
only node is not deleted, and a key that is not there is looked for beyond the
null pointer. -/
theorem mbtDelNode_miscounted :
    (∃ nodes root nodes' root',
      [((⟨32, by decide⟩ : MBTAddress), (1 : BitVec 32)),
          (⟨16, by decide⟩, 1)].foldlM
          (mbtAddNode (keyDifference fun n => n.val.toNat) 9)
          (noNodes, none) =
        some (nodes, root) ∧
      mbtDelNode (keyDifference fun n => n.val.toNat) 9 nodes root ⟨32, by decide⟩ =
        some (some ⟨32, by decide⟩, nodes', root') ∧
      ∀ t, ¬ TreeAt nodes' none root' t) ∧
    ∃ nodes : MBTNodes MBTAddress,
      mbtAddNode (keyDifference fun n => n.val.toNat) 9 (noNodes, none) (⟨16, by decide⟩, 1) =
        some (nodes, some ⟨16, by decide⟩) ∧
      mbtDelNode (keyDifference fun n => n.val.toNat) 9 nodes
          (some ⟨16, by decide⟩) ⟨16, by decide⟩ =
        some (none, nodes, some ⟨16, by decide⟩) ∧
      ∀ fuel,
        mbtDelNode (keyDifference fun n => n.val.toNat) fuel nodes
          (some ⟨16, by decide⟩) ⟨32, by decide⟩ = none := by
  constructor
  · have runs :
        (([((⟨32, by decide⟩ : MBTAddress), (1 : BitVec 32)),
            (⟨16, by decide⟩, 1)].foldlM
            (mbtAddNode (keyDifference fun n => n.val.toNat) 9)
            (noNodes, none)).bind fun state =>
          mbtDelNode (keyDifference fun n => n.val.toNat) 9 state.1 state.2 ⟨32, by decide⟩).map
          (fun after =>
            ([after.1, after.2.2, after.2.1.child true ⟨16, by decide⟩,
                after.2.1.child false ⟨16, by decide⟩],
              after.2.1.size ⟨16, by decide⟩)) =
          some ([some ⟨32, by decide⟩, some ⟨16, by decide⟩, none, none], 0) := by
      decide
    obtain ⟨⟨result, nodes', root'⟩, run, fields⟩ := Option.map_eq_some_iff.mp runs
    obtain ⟨⟨nodes, root⟩, adds, deletes⟩ := Option.bind_eq_some_iff.mp run
    simp only [Prod.mk.injEq, List.cons.injEq, and_true] at fields
    obtain ⟨⟨rfl, rfl, left, right⟩, size⟩ := fields
    refine ⟨nodes, root, nodes', _, adds, deletes, ?_⟩
    intro t tree
    have counted := tree.size_leaf left right
    rw [size] at counted
    cases counted
  · refine ⟨noNodes.create ⟨16, by decide⟩ 1, rfl, rfl, ?_⟩
    intro fuel
    match fuel with
    | 0 | 1 | fuel + 2 => rfl

end Run

end IteSdk.TsDemuxer
