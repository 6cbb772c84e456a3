import IteSdk.Lib.SearchTree
import IteSdk.Lib.Transition
import IteSdk.TsDemuxer.MbtTree
import Mathlib.Data.Fintype.Card

/-!
# Inserting into the order-statistics tree

A node that comes with size 1 and a new key is inserted in the order of the keys.
`mbt_init_node` clears the size, and the sizes on the way to a key that is there
are counted up all the same.
-/

namespace IteSdk.TsDemuxer

section

open Lib BinaryTree

universe u v

variable {ν : Type u} {κ : Type v} [LinearOrder κ]

/-- A comparison function that is positive if the second key is greater. -/
structure OrdersBy (compareFunc : ν → ν → Int) (key : ν → κ) : Prop where
  positive : ∀ n m, 0 < compareFunc n m ↔ key n < key m
  negative : ∀ n m, compareFunc n m < 0 ↔ key m < key n

variable [DecidableEq ν] {compareFunc : ν → ν → Int} {key : ν → κ}
  {nodes nodes' : MBTNodes ν} {parent p : Option ν} {c n : ν} {b : Bool}

theorem mbtInsertNode_side (orders : OrdersBy compareFunc key)
    (side : OnSide key b n c) (fuel : Nat) (nodes : MBTNodes ν) :
    mbtInsertNode compareFunc (fuel + 1) nodes (some c) n =
      (mbtInsertNode compareFunc fuel ((nodes.setSize c (nodes.size c + 1)).setParent n (some c))
          (nodes.child b c) n).bind fun (nodes, sub) =>
        refreshTree fuel (nodes.setChild b c sub) (some c) b := by
  rw [mbtInsertNode]
  cases b
  · have greater : 0 < compareFunc c n := (orders.positive c n).mpr side
    rw [if_pos greater]
    rfl
  · have less : compareFunc c n < 0 := (orders.negative c n).mpr side
    rw [if_neg (by omega), if_pos less]
    rfl

/-- What `mbt_Insert_Node` leaves. -/
structure Inserted (key : ν → κ) (nodes nodes' : MBTNodes ν)
    (parent p : Option ν) (t t' : BinaryTree ν) (n : ν) : Prop where
  tree : TreeAt nodes' parent p t'
  sorted : SortedBy key (inorder t')
  members : (inorder t').Perm (n :: inorder t)
  outside : ∀ m, m ∉ inorder t → m ≠ n → Same nodes nodes' m

omit [DecidableEq ν] in
theorem Inserted.numNodes {t t' : BinaryTree ν}
    (inserted : Inserted key nodes nodes' parent p t t' n) :
    t'.numNodes = t.numNodes + 1 := by
  rw [← length_inorder, inserted.members.length_eq, List.length_cons, length_inorder]

/-- The nodes that `n` goes to the left of. -/
def comesBefore (key : ν → κ) (n c : ν) : Bool := decide (key n < key c)

/-- `mbt_Insert_Node` on the tree that a pointer leads to. -/
def insertAt (goesLeft : ν → Bool) (n : ν) : Nat → BinaryTree ν → Option (BinaryTree ν)
  | 0, _ => none
  | _ + 1, nil => some (node n nil nil)
  | fuel + 1, node c l r =>
    if goesLeft c then
      (insertAt goesLeft n fuel l).bind fun l' => refreshAt fuel true (node c l' r)
    else (insertAt goesLeft n fuel r).bind fun r' => refreshAt fuel false (node c l r')

omit [LinearOrder κ] [DecidableEq ν] in
theorem insertAt_join {goesLeft : ν → Bool} {near far : BinaryTree ν}
    (side : goesLeft c = b) (fuel : Nat) :
    insertAt goesLeft n (fuel + 1) (join b c near far) =
      (insertAt goesLeft n fuel near).bind fun near' => refreshAt fuel b (join b c near' far) := by
  cases b
  · exact if_neg (Bool.eq_false_iff.mp side)
  · exact if_pos side

omit [DecidableEq ν] in
theorem comesBefore_of_onSide (side : OnSide key b n c) : comesBefore key n c = b := by
  cases b
  · exact decide_eq_false (lt_asymm side)
  · exact decide_eq_true side

theorem ofNat_succ (count : Nat) : BitVec.ofNat 32 (count + 1) = BitVec.ofNat 32 count + 1 :=
  BitVec.ofNat_add count 1

theorem mbtInsertNode_join {near far : BinaryTree ν} {fuel : Nat}
    (orders : OrdersBy compareFunc key) (tree : TreeAt nodes parent (some c) (join b c near far))
    (sorted : SortedBy key (inorder (join b c near far)))
    (side : OnSide key b n c) (new : n ∉ inorder (join b c near far))
    (fits : (join b c near far).numNodes + 1 < 2 ^ 32)
    (enough : ((join b c near far).numNodes + 1) * ((join b c near far).numNodes + 1) < fuel)
    {nodes₁ : MBTNodes ν} {p' : Option ν} {near' : BinaryTree ν}
    (runs :
      mbtInsertNode compareFunc fuel ((nodes.setSize c (nodes.size c + 1)).setParent n (some c))
          (nodes.child b c) n =
        some (nodes₁, p'))
    (inserted :
      Inserted key ((nodes.setSize c (nodes.size c + 1)).setParent n (some c))
        nodes₁ (some c) p' near near' n)
    (onTree : insertAt (comesBefore key n) n fuel near = some near') :
    ∃ nodes' p' t',
      mbtInsertNode compareFunc (fuel + 1) nodes (some c) n = some (nodes', p') ∧
        insertAt (comesBefore key n) n (fuel + 1) (join b c near far) = some t' ∧
        Inserted key nodes nodes' parent p' (join b c near far) t' n := by
  obtain ⟨_, above, size, nearTree, farTree⟩ := treeAt_join.mp tree
  have nodup := sorted.nodup
  obtain ⟨notNear, notFar, _, _, disjoint⟩ := nodup_join.mp nodup
  obtain ⟨_, farSorted, _, farSide⟩ := sortedBy_join.mp sorted
  rw [mem_inorder_join, not_or, not_or] at new
  obtain ⟨notRoot, newNear, newFar⟩ := new
  have inNear' : ∀ {m}, m ∈ inorder near' ↔ m = n ∨ m ∈ inorder near := by
    intro m
    rw [inserted.members.mem_iff, List.mem_cons]
  have notNear' : c ∉ inorder near' := by
    rw [inNear']
    exact not_or.mpr ⟨Ne.symm notRoot, notNear⟩
  obtain ⟨childC, parentC, sizeC⟩ := inserted.outside c notNear (Ne.symm notRoot)
  have middleSame :
      ∀ m, m ∉ inorder near → m ≠ n → m ≠ c → Same nodes (nodes₁.setChild b c p') m := by
    intro m notHere notNew notC
    have start :
        Same nodes ((nodes.setSize c (nodes.size c + 1)).setParent n (some c)) m := by
      refine ⟨fun _ => rfl, ?_, ?_⟩
      · rw [MBTNodes.parent_setParent, if_neg notNew]
        rfl
      · rw [MBTNodes.size_setParent, MBTNodes.size_setSize, if_neg notC]
    exact (start.trans (inserted.outside m notHere notNew)).setChild notC
  have middle :
      TreeAt (nodes₁.setChild b c p') parent (some c) (join b c near' far) := by
    refine treeAt_join.mpr ⟨rfl, ?_, ?_, ?_, ?_⟩
    · rw [MBTNodes.parent_setChild, parentC, MBTNodes.parent_setParent, if_neg (Ne.symm notRoot)]
      exact above
    · rw [MBTNodes.size_setChild, sizeC, MBTNodes.size_setParent,
        MBTNodes.size_setSize, if_pos rfl, size, ← ofNat_succ,
        inserted.numNodes]
      congr 1
      omega
    · rw [MBTNodes.child_setChild, if_pos ⟨rfl, rfl⟩]
      apply inserted.tree.congr
      intro m inside
      exact (Same.refl nodes₁ m).setChild (ne_of_mem_of_not_mem inside notNear')
    · rw [MBTNodes.child_setChild, if_neg fun both => by cases b <;> simp at both, childC]
      apply farTree.congr
      intro m inFar
      exact
        middleSame m (fun inNear => disjoint inNear inFar) (ne_of_mem_of_not_mem inFar newFar)
          (ne_of_mem_of_not_mem inFar notFar)
  have middleSorted : SortedBy key (inorder (join b c near' far)) := by
    obtain ⟨_, _, nearSide, _⟩ := sortedBy_join.mp sorted
    refine sortedBy_join.mpr ⟨inserted.sorted, farSorted, ?_, farSide⟩
    intro m inside
    rcases inNear'.mp inside with rfl | old
    · exact side
    · exact nearSide m old
  have count :
      (join b c near' far).numNodes = (join b c near far).numNodes + 1 := by
    rw [numNodes_join, numNodes_join, inserted.numNodes]
    omega
  have light := weight_le (join b c near' far)
  rw [count] at light
  obtain ⟨nodes', p'', t', ends, endsTree, refreshed⟩ :=
    refreshTree_spec fuel b middle middleSorted.nodup (count ▸ fits)
      (Nat.lt_of_le_of_lt light enough)
  refine ⟨nodes', p'', t', ?_, ?_, refreshed.tree, ?_, ?_, ?_⟩
  · rw [mbtInsertNode_side orders side, runs, Option.bind_some]
    exact ends
  · rw [insertAt_join (comesBefore_of_onSide side), onTree, Option.bind_some]
    exact endsTree
  · rw [refreshed.order]
    exact middleSorted
  · rw [refreshed.order]
    calc
      List.Perm (inorder (join b c near' far))
          (c :: (inorder near' ++ inorder far)) := perm_join b c near' far
      List.Perm _ (c :: n :: (inorder near ++ inorder far)) :=
        (inserted.members.append_right _).cons c
      List.Perm _ (n :: c :: (inorder near ++ inorder far)) := .swap _ _ _
      List.Perm _ (n :: inorder (join b c near far)) := (perm_join b c near far).symm.cons n
  · intro m outside notNew
    rw [mem_inorder_join, not_or, not_or] at outside
    obtain ⟨notC, notHere, notThere⟩ := outside
    apply (middleSame m notHere notNew notC).trans
    apply refreshed.outside
    rw [mem_inorder_join, inNear']
    tauto

theorem mbtInsertNode_spec (orders : OrdersBy compareFunc key) (fuel : Nat) :
    ∀ {nodes : MBTNodes ν} {parent p : Option ν} {t : BinaryTree ν},
      TreeAt nodes parent p t → SortedBy key (inorder t) →
      (∀ m ∈ inorder t, key m ≠ key n) →
      nodes.parent n = parent → nodes.size n = 1 →
      (∀ side, nodes.child side n = none) → t.numNodes + 1 < 2 ^ 32 →
      (t.numNodes + 1) * (t.numNodes + 1) + 1 < fuel →
      ∃ nodes' p' t',
        mbtInsertNode compareFunc fuel nodes p n = some (nodes', p') ∧
          insertAt (comesBefore key n) n fuel t = some t' ∧
          Inserted key nodes nodes' parent p' t t' n := by
  induction fuel with
  | zero =>
    intro nodes parent p t _ _ _ _ _ _ _ enough
    cases Nat.not_lt_zero _ enough
  | succ fuel ih =>
    intro nodes parent p t tree sorted new above size links fits enough
    cases t with
    | nil =>
      obtain rfl := treeAt_nil.mp tree
      refine ⟨nodes, some n, node n nil nil, rfl, rfl, ?_, ?_, ?_, ?_⟩
      · exact ⟨rfl, above, size, links true, links false⟩
      · exact List.pairwise_singleton _ n
      · exact List.Perm.refl [n]
      · exact fun m _ _ => Same.refl nodes m
    | node c l r =>
      obtain rfl := tree.1
      obtain ⟨b, side⟩ := onSide_or (new c (by simp [inorder]))
      obtain ⟨near, far, parts⟩ := exists_join b c l r
      rw [parts] at tree sorted new fits enough ⊢
      have notHere : n ∉ inorder (join b c near far) := fun inside => new n inside rfl
      have notRoot : n ≠ c := by
        rintro rfl
        exact notHere (mem_inorder_join.mpr (Or.inl rfl))
      obtain ⟨_, _, _, nearTree, _⟩ := treeAt_join.mp tree
      obtain ⟨nearSorted, _⟩ := sortedBy_join.mp sorted
      obtain ⟨notNear, _⟩ := nodup_join.mp sorted.nodup
      have fitsNear := fits
      have enoughNear := enough
      rw [numNodes_join] at fitsNear enoughNear
      obtain ⟨nodes₁, p', near', runs, onTree, inserted⟩ :
          ∃ nodes₁ p' near',
            mbtInsertNode compareFunc fuel
                ((nodes.setSize c (nodes.size c + 1)).setParent n (some c))
                (nodes.child b c) n =
              some (nodes₁, p') ∧
            insertAt (comesBefore key n) n fuel near = some near' ∧
            Inserted key ((nodes.setSize c (nodes.size c + 1)).setParent n (some c))
              nodes₁ (some c) p' near near' n := by
        apply ih _ nearSorted
        · intro m inNear
          exact new m (mem_inorder_join.mpr (Or.inr (Or.inl inNear)))
        · exact Function.update_self n _ _
        · rw [MBTNodes.size_setParent, MBTNodes.size_setSize, if_neg notRoot, size]
        · exact links
        · omega
        · nlinarith
        · apply nearTree.congr
          intro m inNear
          have notNew : m ≠ n := by
            rintro rfl
            exact notHere (mem_inorder_join.mpr (Or.inr (Or.inl inNear)))
          refine ⟨fun _ => rfl, ?_, ?_⟩
          · rw [MBTNodes.parent_setParent, if_neg notNew]
            rfl
          · rw [MBTNodes.size_setParent, MBTNodes.size_setSize,
              if_neg (ne_of_mem_of_not_mem inNear notNear)]
      exact mbtInsertNode_join orders tree sorted side notHere fits (by omega) runs inserted onTree

omit [DecidableEq ν] in
theorem mbtGetNodeByRank_spec (fuel : Nat) :
    ∀ {parent p : Option ν} {t : BinaryTree ν} {index : BitVec 32},
      TreeAt nodes parent p t → t.numNodes < 2 ^ 32 → t.numNodes < fuel →
      mbtGetNodeByRank nodes fuel p index = some ((inorder t)[index.toNat]?) := by
  induction fuel with
  | zero =>
    intro parent p t index _ _ enough
    cases Nat.not_lt_zero _ enough
  | succ fuel ih =>
    intro parent p t index tree fits enough
    cases t with
    | nil =>
      rw [treeAt_nil.mp tree]
      rfl
    | node c l r =>
      have size := tree.sizeOf
      obtain ⟨rfl, _, _, leftTree, rightTree⟩ := tree
      rw [MBTNodes.sizeOf] at size
      have sizeNat : (nodes.size c).toNat = l.numNodes + r.numNodes + 1 := by
        rw [size, BitVec.toNat_ofNat, Nat.mod_eq_of_lt fits, numNodes]
      rw [numNodes] at fits enough
      have rank :
          (nodes.sizeOf (nodes.child true c)).toNat = l.numNodes := by
        rw [leftTree.sizeOf, BitVec.toNat_ofNat, Nat.mod_eq_of_lt (by omega)]
      have inside_iff :
          index ≤ nodes.size c ↔ index.toNat ≤ l.numNodes + r.numNodes + 1 := by
        rw [BitVec.le_def, sizeNat]
      have before_iff :
          index < nodes.sizeOf (nodes.child true c) ↔ index.toNat < l.numNodes := by
        rw [BitVec.lt_def, rank]
      rw [mbtGetNodeByRank, inorder]
      dsimp only
      by_cases inside : index ≤ nodes.size c
      · rw [if_pos inside]
        rw [inside_iff] at inside
        by_cases here : index = nodes.sizeOf (nodes.child true c)
        · rw [if_pos here, here, rank, ← length_inorder l,
            List.getElem?_append_right (Nat.le_refl _), Nat.sub_self]
          rfl
        · have notRank : index.toNat ≠ l.numNodes := by
            intro same
            exact here (BitVec.eq_of_toNat_eq (same.trans rank.symm))
          rw [if_neg here]
          by_cases before : index < nodes.sizeOf (nodes.child true c)
          · rw [if_pos before, ih leftTree (by omega) (by omega),
              List.getElem?_append_left (by rw [length_inorder]; exact before_iff.mp before)]
          · rw [if_neg before]
            rw [before_iff] at before
            have shifted :
                (index - nodes.sizeOf (nodes.child true c) - 1).toNat =
                  index.toNat - l.numNodes - 1 := by
              have small := index.isLt
              rw [BitVec.toNat_sub_of_le, BitVec.toNat_sub_of_le, rank]
              · rfl
              · rw [BitVec.le_def, rank]
                omega
              · rw [BitVec.le_def, BitVec.toNat_sub_of_le, rank]
                · have one : (1 : BitVec 32).toNat = 1 := rfl
                  omega
                · rw [BitVec.le_def, rank]
                  omega
            rw [ih rightTree (by omega) (by omega),
              shifted,
              List.getElem?_append_right (by rw [length_inorder]; omega),
              length_inorder, ← List.getElem?_cons_succ (a := c)]
            congr 2
            omega
      · rw [if_neg inside, List.getElem?_eq_none]
        rw [inside_iff] at inside
        rw [List.length_append, List.length_cons, length_inorder, length_inorder]
        omega

/-! ## Runs -/

abbrev MBTAddress : Type := { address : BitVec 32 // address ≠ 0 }

theorem length_lt_of_nodup {addresses : List MBTAddress}
    (nodup : addresses.Nodup) : addresses.length < 2 ^ 32 := by
  have distinct : (addresses.map fun a => a.val.toFin).Nodup :=
    nodup.map fun a a' same => Subtype.ext (BitVec.eq_of_toFin_eq same)
  have notNull : (0 : Fin (2 ^ 32)) ∉ addresses.map fun a => a.val.toFin := by
    rw [List.mem_map]
    rintro ⟨a, _, null⟩
    exact a.property (BitVec.eq_of_toFin_eq null)
  have all : (0 :: addresses.map fun a => a.val.toFin).Nodup :=
    List.nodup_cons.mpr ⟨notNull, distinct⟩
  have bound := List.Nodup.length_le_card all
  rw [List.length_cons, List.length_map, Fintype.card_fin] at bound
  exact bound

/-- A node as it is handed over: without links, and with some size. -/
def MBTNodes.create (nodes : MBTNodes ν) (n : ν) (size : BitVec 32) : MBTNodes ν where
  child side m := if m = n then none else nodes.child side m
  parent m := if m = n then none else nodes.parent m
  size m := if m = n then size else nodes.size m

theorem Same.create {m : ν} {size : BitVec 32} (other : m ≠ n) :
    Same nodes (nodes.create n size) m :=
  ⟨fun _ => if_neg other, if_neg other, if_neg other⟩

def mbtAddNode (compareFunc : ν → ν → Int) (fuel : Nat)
    (state : MBTNodes ν × Option ν) (call : ν × BitVec 32) :
    Option (MBTNodes ν × Option ν) :=
  mbtInsertNode compareFunc fuel (state.1.create call.1 call.2) state.2 call.1

/-- A search tree with right links and sizes that has these nodes. -/
structure OrderedTree (key : ν → κ) (state : MBTNodes ν × Option ν)
    (members : List ν) (t : BinaryTree ν) : Prop where
  tree : TreeAt state.1 none state.2 t
  sorted : SortedBy key (inorder t)
  members : (inorder t).Perm members

variable {compareFunc : MBTAddress → MBTAddress → Int}

theorem mbtAddNode_spec {key : MBTAddress → κ} (orders : OrdersBy compareFunc key)
    {state : MBTNodes MBTAddress × Option MBTAddress} {members : List MBTAddress}
    {t : BinaryTree MBTAddress} {n : MBTAddress} (ordered : OrderedTree key state members t)
    (new : ∀ m ∈ members, key m ≠ key n) {fuel : Nat}
    (enough : (members.length + 1) * (members.length + 1) + 1 < fuel) :
    ∃ state' t', mbtAddNode compareFunc fuel state (n, 1) = some state' ∧
      insertAt (comesBefore key n) n fuel t = some t' ∧
      OrderedTree key state' (n :: members) t' := by
  have count : t.numNodes = members.length := by rw [← length_inorder, ordered.members.length_eq]
  have newInside : ∀ m ∈ inorder t, key m ≠ key n := by
    intro m inside
    exact new m (ordered.members.mem_iff.mp inside)
  have notInside : n ∉ inorder t := fun inside => newInside n inside rfl
  have fits : t.numNodes + 1 < 2 ^ 32 := by
    rw [← length_inorder, ← List.length_cons (a := n)]
    exact length_lt_of_nodup (List.nodup_cons.mpr ⟨notInside, ordered.sorted.nodup⟩)
  obtain ⟨nodes', p', t', runs, onTree, inserted⟩ :=
    mbtInsertNode_spec (n := n) orders fuel
      (ordered.tree.congr fun m inside => Same.create (ne_of_mem_of_not_mem inside notInside))
      ordered.sorted newInside (if_pos rfl) (if_pos rfl)
      (fun _ => if_pos rfl) fits (by rw [count]; exact enough)
  exact
    ⟨(nodes', p'), t', runs, onTree, inserted.tree, inserted.sorted,
      inserted.members.trans (ordered.members.cons n)⟩

theorem mbtAddNodes_spec {key : MBTAddress → κ} (orders : OrdersBy compareFunc key) {fuel : Nat}
    (calls : List (MBTAddress × BitVec 32)) :
    ∀ {state : MBTNodes MBTAddress × Option MBTAddress}
      {members : List MBTAddress} {t : BinaryTree MBTAddress},
      OrderedTree key state members t →
      calls.Pairwise (fun call later => key call.1 ≠ key later.1) →
      (∀ call ∈ calls, ∀ m ∈ members, key m ≠ key call.1) →
      (∀ call ∈ calls, call.2 = 1) →
      (members.length + calls.length) * (members.length + calls.length) + 1 < fuel →
      ∃ state' t',
        calls.foldlM (mbtAddNode compareFunc fuel) state = some state' ∧
          calls.foldlM (fun t call => insertAt (comesBefore key call.1) call.1 fuel t) t = some t' ∧
          OrderedTree key state' ((calls.map Prod.fst).reverse ++ members) t' := by
  induction calls with
  | nil =>
    intro state members t ordered _ _ _ _
    exact ⟨state, t, rfl, rfl, ordered⟩
  | cons call calls ih =>
    intro state members t ordered distinct new sized enough
    obtain ⟨newLater, distinctLater⟩ := List.pairwise_cons.mp distinct
    obtain ⟨newHere, newRest⟩ := List.forall_mem_cons.mp new
    obtain ⟨sizedHere, sizedRest⟩ := List.forall_mem_cons.mp sized
    obtain ⟨n, size⟩ := call
    obtain rfl : size = 1 := sizedHere
    rw [List.length_cons] at enough
    have enoughHere :
        (members.length + 1) * (members.length + 1) + 1 < fuel := by
      nlinarith
    obtain ⟨state₁, t₁, first, firstTree, ordered₁⟩ :=
      mbtAddNode_spec orders ordered newHere enoughHere
    obtain ⟨state', t', rest, restTree, ordered'⟩ :=
      ih ordered₁ distinctLater
        (by
          intro later member m inside
          rcases List.mem_cons.mp inside with rfl | old
          · exact newLater later member
          · exact newRest later member m old)
        sizedRest
        (by
          rw [List.length_cons, Nat.add_assoc, Nat.add_comm 1]
          exact enough)
    refine ⟨state', t', ?_, ?_, ?_⟩
    · rw [List.foldlM_cons, first]
      exact rest
    · rw [List.foldlM_cons, firstTree]
      exact restTree
    · rw [List.map_cons, List.reverse_cons, List.append_assoc]
      exact ordered'

/-- Nodes with different keys that come with size 1 make a search tree with
right links and sizes, in which ranks are positions. -/
theorem mbtAddNode_ordered {compareFunc : MBTAddress → MBTAddress → Int}
    {key : MBTAddress → κ} (orders : OrdersBy compareFunc key)
    (nodes : MBTNodes MBTAddress) (calls : List (MBTAddress × BitVec 32))
    (new : calls.Pairwise fun call later => key call.1 ≠ key later.1)
    (sized : ∀ call ∈ calls, call.2 = 1) :
    ∃ enough, ∀ fuel, enough ≤ fuel →
      ∃ nodes' root t,
        calls.foldlM (mbtAddNode compareFunc fuel) (nodes, none) = some (nodes', root) ∧
          TreeAt nodes' none root t ∧ SortedBy key (inorder t) ∧
          (inorder t).Perm (calls.map Prod.fst) ∧
          ∀ index, mbtGetNodeByRank nodes' fuel root index = some ((inorder t)[index.toNat]?) := by
  refine ⟨calls.length * calls.length + calls.length + 2, ?_⟩
  intro fuel enough
  have empty : OrderedTree key (nodes, none) [] nil := ⟨rfl, List.Pairwise.nil, List.Perm.refl []⟩
  have enoughAll :
      (([] : List MBTAddress).length + calls.length) *
          (([] : List MBTAddress).length + calls.length) + 1 < fuel := by
    rw [List.length_nil, Nat.zero_add]
    omega
  obtain ⟨⟨nodes', root⟩, t, runs, -, ordered⟩ :=
    mbtAddNodes_spec orders calls empty new (fun _ _ _ inside => by cases inside) sized enoughAll
  have members : (inorder t).Perm (calls.map Prod.fst) := by
    have reversed := ordered.members
    rw [List.append_nil] at reversed
    exact reversed.trans (List.reverse_perm _)
  have count : t.numNodes = calls.length := by
    rw [← length_inorder, members.length_eq, List.length_map]
  refine ⟨nodes', root, t, runs, ordered.tree, ordered.sorted, members, ?_⟩
  intro index
  apply mbtGetNodeByRank_spec fuel ordered.tree
  · rw [← length_inorder]
    exact length_lt_of_nodup ordered.sorted.nodup
  · rw [count]
    omega

/-- The difference of keys, as `_Eit_Node_Compare` returns it. -/
def keyDifference (key : ν → Nat) (nodeBase nodeOther : ν) : Int := key nodeOther - key nodeBase

omit [DecidableEq ν] in
theorem keyDifference_orders (key : ν → Nat) : OrdersBy (keyDifference key) key where
  positive n m := by
    rw [keyDifference]
    omega
  negative n m := by
    rw [keyDifference]
    omega

def noNodes : MBTNodes ν where
  child _ _ := none
  parent _ := none
  size _ := 0

/-- Two nodes at 16 and 32. -/
theorem mbtAddNode_ordered_two :
    ∃ enough, ∀ fuel, enough ≤ fuel →
      ∃ nodes' root t,
        [((⟨16, by decide⟩ : MBTAddress), (1 : BitVec 32)),
            (⟨32, by decide⟩, 1)].foldlM
            (mbtAddNode (keyDifference fun n => n.val.toNat) fuel)
            (noNodes, none) =
          some (nodes', root) ∧
        TreeAt nodes' none root t ∧
        SortedBy (fun n => n.val.toNat) (inorder t) ∧
        (inorder t).Perm [⟨16, by decide⟩, ⟨32, by decide⟩] ∧
        ∀ index, mbtGetNodeByRank nodes' fuel root index = some ((inorder t)[index.toNat]?) :=
  mbtAddNode_ordered (keyDifference_orders fun n => n.val.toNat) noNodes
    [(⟨16, by decide⟩, 1), (⟨32, by decide⟩, 1)] (by simp) (by simp)

omit [DecidableEq ν] in
theorem TreeAt.size_leaf {root : ν} {t : BinaryTree ν}
    (tree : TreeAt nodes parent (some root) t) (left : nodes.child true root = none)
    (right : nodes.child false root = none) : nodes.size root = 1 := by
  cases t with
  | nil => cases tree
  | node n l r =>
    obtain ⟨same, _, size, leftTree, rightTree⟩ := tree
    obtain rfl := Option.some.inj same
    rw [left] at leftTree
    rw [right] at rightTree
    cases l with
    | node => cases leftTree.1
    | nil =>
      cases r with
      | node => cases rightTree.1
      | nil => exact size

/-- A key that is there is counted again, and a node that `mbt_init_node` has
cleared is not counted. -/
theorem mbtAddNode_miscounted :
    (∃ nodes' root,
      [((⟨16, by decide⟩ : MBTAddress), (1 : BitVec 32)),
          (⟨32, by decide⟩, 1)].foldlM
          (mbtAddNode (keyDifference fun _ => 0) 9) (noNodes, none) =
        some (nodes', root) ∧
      ∀ t, ¬ TreeAt nodes' none root t) ∧
    ∃ nodes' root,
      [((⟨16, by decide⟩ : MBTAddress), (0 : BitVec 32))].foldlM
          (mbtAddNode (keyDifference fun _ => 0) 9) (noNodes, none) =
        some (nodes', root) ∧
      ∀ t, ¬ TreeAt nodes' none root t := by
  have wrong {state : MBTNodes MBTAddress × Option MBTAddress} {size : BitVec 32}
      (fields :
        (state.2, state.1.child true ⟨16, by decide⟩,
          state.1.child false ⟨16, by decide⟩,
          state.1.size ⟨16, by decide⟩) =
          (some ⟨16, by decide⟩, none, none, size))
      (notOne : size ≠ 1) (t : BinaryTree MBTAddress) :
      ¬ TreeAt state.1 none state.2 t := by
    intro tree
    simp only [Prod.mk.injEq] at fields
    obtain ⟨root, left, right, same⟩ := fields
    rw [root] at tree
    exact notOne (same.symm.trans (tree.size_leaf left right))
  constructor
  · have runs :
        ([((⟨16, by decide⟩ : MBTAddress), (1 : BitVec 32)),
            (⟨32, by decide⟩, 1)].foldlM
            (mbtAddNode (keyDifference fun _ => 0) 9) (noNodes, none)).map
            (fun state =>
              (state.2, state.1.child true ⟨16, by decide⟩,
                state.1.child false ⟨16, by decide⟩,
                state.1.size ⟨16, by decide⟩)) =
          some (some ⟨16, by decide⟩, none, none, 2) := by
      decide
    obtain ⟨⟨nodes', root⟩, run, fields⟩ := Option.map_eq_some_iff.mp runs
    exact ⟨nodes', root, run, wrong fields (by decide)⟩
  · have runs :
        ([((⟨16, by decide⟩ : MBTAddress), (0 : BitVec 32))].foldlM
            (mbtAddNode (keyDifference fun _ => 0) 9) (noNodes, none)).map
            (fun state =>
              (state.2, state.1.child true ⟨16, by decide⟩,
                state.1.child false ⟨16, by decide⟩,
                state.1.size ⟨16, by decide⟩)) =
          some (some ⟨16, by decide⟩, none, none, 0) := by
      decide
    obtain ⟨⟨nodes', root⟩, run, fields⟩ := Option.map_eq_some_iff.mp runs
    exact ⟨nodes', root, run, wrong fields (by decide)⟩

end

/-!
# The balance of the order-statistics tree

After a rotation `_Refresh_Tree` refreshes the subtrees of the node that went down, by
the pointer it was called with, and the new root.  The old root itself is not refreshed,
and neither are the nodes on the outer side.  The tree is size-balanced as long as these
are in balance after every rotation.
-/

section

open Lib BinaryTree

universe u v

section Tree

variable {ν : Type u} {b : Bool} {c n : ν} {goesLeft : ν → Bool}

theorem refreshAt_balanced {t : BinaryTree ν} (balanced : Balanced t) (b : Bool)
    (fuel : Nat) : refreshAt (fuel + 1) b t = some t := by
  cases t with
  | nil => rfl
  | node c l r =>
    obtain ⟨near, far, parts⟩ := exists_join b c l r
    rw [parts] at balanced ⊢
    exact refreshAt_none (heavierUp_eq_none_iff.mpr (balanced_join.mp balanced).1)

theorem refreshAt_rebuild {near far : BinaryTree ν} {fuel : Nat}
    (balanced : Balanced (rebuild b c near far)) :
    refreshAt (fuel + 2) b (join b c near far) = some (rebuild b c near far) := by
  cases up : heavierUp b near far with
  | none =>
    rw [rebuild_of_none up]
    exact refreshAt_none up
  | some parts =>
    obtain ⟨upper, outer, inner⟩ := parts
    rw [rebuild_of_some up] at balanced ⊢
    obtain ⟨-, -, -, old⟩ := balanced_join.mp balanced
    refine
      refreshAt_some up (refreshAt_balanced (old.child true) true fuel)
        (refreshAt_balanced (old.child false) false fuel) ?_
        (refreshAt_balanced balanced false fuel)
    rw [join_subtree]
    exact refreshAt_balanced balanced true fuel

theorem insertAt_eq_insertOnce {t : BinaryTree ν} {fuel : Nat} (balanced : Balanced t)
    (fits : InsertFits goesLeft n t) (enough : t.numNodes + 2 ≤ fuel) :
    insertAt goesLeft n fuel t = some (insertOnce goesLeft n t) := by
  induction fuel generalizing t with
  | zero => cases enough
  | succ fuel ih =>
    cases t with
    | nil => rfl
    | node c l r =>
      obtain ⟨near, far, parts⟩ := exists_join (goesLeft c) c l r
      rw [parts] at balanced fits enough ⊢
      have grown := (insertOnce_grows balanced fits).balanced
      obtain ⟨nearFits, -⟩ := (insertFits_join rfl).mp fits
      obtain ⟨-, -, nearBalanced, -⟩ := balanced_join.mp balanced
      rw [numNodes_join] at enough
      rw [insertOnce_join rfl] at grown ⊢
      rw [insertAt_join rfl, ih nearBalanced nearFits (by omega), Option.bind_some]
      obtain ⟨fuel, rfl⟩ : ∃ less, fuel = less + 2 := ⟨fuel - 2, by omega⟩
      exact refreshAt_rebuild grown

end Tree

section Run

variable {κ : Type v} [LinearOrder κ] {key : MBTAddress → κ}

def insertKey (key : MBTAddress → κ) (t : BinaryTree MBTAddress)
    (call : MBTAddress × BitVec 32) : BinaryTree MBTAddress :=
  insertOnce (comesBefore key call.1) call.1 t

/-- The rotations for this node leave in balance what they bring together. -/
def KeyFits (key : MBTAddress → κ) (t : BinaryTree MBTAddress)
    (call : MBTAddress × BitVec 32) : Prop :=
  InsertFits (comesBefore key call.1) call.1 t
deriving Decidable

variable {calls : List (MBTAddress × BitVec 32)}

theorem insertAts_balanced {fuel : Nat} {t t' : BinaryTree MBTAddress} (balanced : Balanced t)
    (fits : AllowedAlong (KeyFits key) (insertKey key) t calls)
    (enough : t.numNodes + calls.length + 2 ≤ fuel)
    (runs :
      calls.foldlM (fun t call => insertAt (comesBefore key call.1) call.1 fuel t) t = some t') :
    Balanced t' := by
  induction calls generalizing t with
  | nil =>
    obtain rfl := Option.some.inj runs
    exact balanced
  | cons call calls ih =>
    obtain ⟨here, later⟩ := fits
    rw [List.length_cons] at enough
    have grows : Grows t (insertKey key t call) := insertOnce_grows balanced here
    rw [List.foldlM_cons, insertAt_eq_insertOnce balanced here (by omega)] at runs
    exact ih grows.balanced later (by rw [grows.count]; omega) runs

/-- As long as every rotation leaves in balance what it brings together, the tree is
size-balanced after every insertion, and its depth is logarithmic. -/
theorem mbtAddNode_balanced {compareFunc : MBTAddress → MBTAddress → Int}
    (orders : OrdersBy compareFunc key)
    (nodes : MBTNodes MBTAddress) (calls : List (MBTAddress × BitVec 32))
    (new : calls.Pairwise fun call later => key call.1 ≠ key later.1)
    (sized : ∀ call ∈ calls, call.2 = 1)
    (fits : AllowedAlong (KeyFits key) (insertKey key) nil calls) :
    ∃ enough, ∀ fuel, enough ≤ fuel → ∀ done rest, calls = done ++ rest →
      ∃ nodes' root t,
        done.foldlM (mbtAddNode compareFunc fuel) (nodes, none) = some (nodes', root) ∧
          TreeAt nodes' none root t ∧ (inorder t).Perm (done.map Prod.fst) ∧
          Balanced t ∧ 2 ^ (t.height / 2) ≤ t.numNodes + 1 := by
  refine ⟨calls.length * calls.length + calls.length + 2, ?_⟩
  intro fuel enough done rest split
  obtain ⟨doneFits, -⟩ := AllowedAlong.of_append (split ▸ fits)
  obtain ⟨doneNew, -⟩ := List.pairwise_append.mp (split ▸ new)
  have doneSized : ∀ call ∈ done, call.2 = 1 := by
    intro call member
    exact sized call (split ▸ List.mem_append_left rest member)
  have shorter : done.length ≤ calls.length := by
    rw [split, List.length_append]
    omega
  have product := Nat.mul_le_mul shorter shorter
  have empty : OrderedTree key (nodes, none) [] nil := ⟨rfl, List.Pairwise.nil, List.Perm.refl []⟩
  have enoughDone :
      (([] : List MBTAddress).length + done.length) *
          (([] : List MBTAddress).length + done.length) + 1 < fuel := by
    rw [List.length_nil, Nat.zero_add]
    omega
  obtain ⟨⟨nodes', root⟩, t, runs, onTree, ordered⟩ :=
    mbtAddNodes_spec orders done empty doneNew
      (fun _ _ _ inside => by cases inside) doneSized enoughDone
  have members := ordered.members
  rw [List.append_nil] at members
  have empty₀ : Balanced (nil : BinaryTree MBTAddress) := trivial
  have enoughTree :
      (nil : BinaryTree MBTAddress).numNodes + done.length + 2 ≤ fuel := by
    rw [numNodes, Nat.zero_add]
    omega
  have balanced : Balanced t := insertAts_balanced empty₀ doneFits enoughTree onTree
  exact
    ⟨nodes', root, t, runs, ordered.tree, members.trans (List.reverse_perm _),
      balanced, balanced.two_pow_height.1⟩

/-- Three nodes in descending order: the third one makes the second one the root. -/
theorem mbtAddNode_balanced_three :
    ∃ enough, ∀ fuel, enough ≤ fuel → ∀ done rest,
      [((⟨48, by decide⟩ : MBTAddress), (1 : BitVec 32)), (⟨32, by decide⟩, 1),
          (⟨16, by decide⟩, 1)] = done ++ rest →
        ∃ nodes' root t,
          done.foldlM (mbtAddNode (keyDifference fun n => n.val.toNat) fuel) (noNodes, none) =
            some (nodes', root) ∧
          TreeAt nodes' none root t ∧ (inorder t).Perm (done.map Prod.fst) ∧
          Balanced t ∧ 2 ^ (t.height / 2) ≤ t.numNodes + 1 :=
  mbtAddNode_balanced (keyDifference_orders fun n => n.val.toNat) noNodes
    [(⟨48, by decide⟩, 1), (⟨32, by decide⟩, 1), (⟨16, by decide⟩, 1)]
    (by simp) (by simp) (by decide)

theorem unbalanced_of_insertAts {compareFunc : MBTAddress → MBTAddress → Int}
    (orders : OrdersBy compareFunc key) (nodes : MBTNodes MBTAddress) {fuel : Nat}
    (new : calls.Pairwise fun call later => key call.1 ≠ key later.1)
    (sized : ∀ call ∈ calls, call.2 = 1) (enough : calls.length * calls.length + 1 < fuel)
    (evaluated :
      ((calls.foldlM (fun t call => insertAt (comesBefore key call.1) call.1 fuel t)
          nil).map fun t => decide (Balanced t)) =
        some false) :
    ∃ nodes' root t,
      calls.foldlM (mbtAddNode compareFunc fuel) (nodes, none) = some (nodes', root) ∧
        TreeAt nodes' none root t ∧ ¬ Balanced t := by
  have empty : OrderedTree key (nodes, none) [] nil := ⟨rfl, List.Pairwise.nil, List.Perm.refl []⟩
  have enoughAll :
      (([] : List MBTAddress).length + calls.length) *
          (([] : List MBTAddress).length + calls.length) + 1 < fuel := by
    rw [List.length_nil, Nat.zero_add]
    exact enough
  obtain ⟨⟨nodes', root⟩, t, runs, onTree, ordered⟩ :=
    mbtAddNodes_spec orders calls empty new nofun sized enoughAll
  rw [onTree] at evaluated
  exact ⟨nodes', root, t, runs, ordered.tree, of_decide_eq_false (Option.some.inj evaluated)⟩

/-- The last insertion makes the node 7 the root by two rotations.  The node 5 that
goes down keeps its left child 3, whose child 2 has two nodes, and gets the node 6
alone on the right. -/
theorem mbtAddNode_unbalanced :
    ∃ fuel nodes' root t,
      [((⟨14, by decide⟩ : MBTAddress), (1 : BitVec 32)), (⟨13, by decide⟩, 1),
          (⟨12, by decide⟩, 1), (⟨11, by decide⟩, 1), (⟨10, by decide⟩, 1),
          (⟨7, by decide⟩, 1), (⟨6, by decide⟩, 1), (⟨5, by decide⟩, 1),
          (⟨4, by decide⟩, 1), (⟨3, by decide⟩, 1), (⟨2, by decide⟩, 1),
          (⟨1, by decide⟩, 1), (⟨9, by decide⟩, 1), (⟨8, by decide⟩, 1)].foldlM
          (mbtAddNode (keyDifference fun n => n.val.toNat) fuel) (noNodes, none) =
        some (nodes', root) ∧
      TreeAt nodes' none root t ∧ ¬ Balanced t :=
  ⟨198, unbalanced_of_insertAts (keyDifference_orders fun n => n.val.toNat) noNodes
    (by decide +kernel) (by simp) (by decide) (by decide +kernel)⟩

end Run

end

end IteSdk.TsDemuxer
