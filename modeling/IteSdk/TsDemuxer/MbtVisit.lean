import IteSdk.TsDemuxer.MbtRun

/-!
# Looking up and visiting

`mbt_Find_Node`, `mbt_Visit_Order` and `mbt_Del_Tree` in every state that runs of
insertions and deletions lead to.
-/

namespace IteSdk.TsDemuxer

open Lib BinaryTree

universe u v

inductive MBTVisitType
  | preorder
  | inorder
  | postorder

variable {ν : Type u} {κ : Type v} [LinearOrder κ]

def MBTVisitType.around (visitType : MBTVisitType) (rootNode : ν) (first second : List ν) :
    List ν :=
  match visitType with
  | .preorder => rootNode :: (first ++ second)
  | .inorder => first ++ rootNode :: second
  | .postorder => first ++ second ++ [rootNode]

/-- The nodes that `act_func` is called with, in this order.  A call may change the node
it gets, in postorder free it, but no links of the others. -/
def mbtVisitOrder (nodes : MBTNodes ν) (visitType : MBTVisitType) (bMaxFirst : Bool) :
    Nat → Option ν → Option (List ν)
  | 0, _ => none
  | _ + 1, none => some []
  | fuel + 1, some rootNode =>
    (mbtVisitOrder nodes visitType bMaxFirst fuel (nodes.child (!bMaxFirst) rootNode)).bind
      fun first =>
    (mbtVisitOrder nodes visitType bMaxFirst fuel (nodes.child bMaxFirst rootNode)).map
      fun second => visitType.around rootNode first second

/-- The nodes that `_Destroy_Tree_Node` is called with, and the new root. -/
def mbtDelTree (fuel : Nat) (state : MBTNodes ν × Option ν) : Option (List ν × Option ν) :=
  (mbtVisitOrder state.1 .postorder false fuel state.2).map fun destroyed => (destroyed, none)

theorem MBTVisitType.around_perm (visitType : MBTVisitType) (n : ν)
    {first second front back : List ν} (parts : (first ++ second).Perm (front ++ back)) :
    (visitType.around n first second).Perm (front ++ n :: back) := by
  have middle := (parts.cons n).trans List.perm_middle.symm
  cases visitType with
  | preorder => exact middle
  | inorder => exact List.perm_middle.trans middle
  | postorder => exact (List.perm_append_singleton n _).trans middle

theorem mbtFindNode_spec {compareFunc : ν → ν → Int} {key : ν → κ} {nodes : MBTNodes ν}
    (orders : OrdersBy compareFunc key) (pattern : ν) (fuel : Nat) :
    ∀ {parent p : Option ν} {t : BinaryTree ν}, TreeAt nodes parent p t →
      SortedBy key (inorder t) → t.numNodes < fuel →
      ∃ found, mbtFindNode compareFunc nodes pattern fuel p = some found ∧
        ∀ n, found = some n ↔ n ∈ inorder t ∧ key n = key pattern := by
  induction fuel with
  | zero =>
    intro parent p t _ _ enough
    cases Nat.not_lt_zero _ enough
  | succ fuel ih =>
    intro parent p t tree sorted enough
    cases t with
    | nil =>
      obtain rfl : p = none := tree
      exact ⟨none, rfl, by simp [inorder]⟩
    | node c l r =>
      obtain rfl := tree.1
      have positive := orders.positive c pattern
      have negative := orders.negative c pattern
      rw [mbtFindNode]
      by_cases here : key c = key pattern
      · rw [here, lt_self_iff_false, iff_false] at positive negative
        refine ⟨some c, by rw [if_neg positive, if_neg negative], fun n => ?_⟩
        constructor
        · rintro ⟨⟩
          exact ⟨by simp [inorder], here⟩
        · intro ⟨inside, same⟩
          exact congrArg some (sorted.key_injective (by simp [inorder]) inside (here.trans same.symm))
      · obtain ⟨b, side⟩ := onSide_or here
        obtain ⟨near, far, parts⟩ := exists_join b c l r
        rw [parts] at tree sorted enough ⊢
        rw [numNodes_join] at enough
        obtain ⟨_, _, _, nearTree, _⟩ := treeAt_join.mp tree
        obtain ⟨nearSorted, _, _, farSide⟩ := sortedBy_join.mp sorted
        obtain ⟨found, runs, spec⟩ := ih nearTree nearSorted (by omega)
        refine ⟨found, ?_, fun n => (spec n).trans ?_⟩
        · cases b with
          | false =>
            rw [if_pos (positive.mpr side), runs]
          | true =>
            have notGreater := fun greater => lt_asymm side (positive.mp greater)
            rw [if_neg notGreater, if_pos (negative.mpr side), runs]
        · rw [mem_inorder_join]
          constructor
          · intro ⟨inside, same⟩
            exact ⟨.inr (.inl inside), same⟩
          · rintro ⟨rfl | inNear | inFar, same⟩
            · exact absurd same here
            · exact ⟨inNear, same⟩
            · rw [OnSide, ← same] at side
              exact absurd side (farSide n inFar).not_onSide

theorem mbtVisitOrder_spec {nodes : MBTNodes ν} (visitType : MBTVisitType) (bMaxFirst : Bool)
    {t : BinaryTree ν} :
    ∀ {parent p : Option ν} (fuel : Nat), TreeAt nodes parent p t → t.numNodes < fuel →
      ∃ visited, mbtVisitOrder nodes visitType bMaxFirst fuel p = some visited ∧
        visited.Perm (inorder t) ∧
        (visitType = .inorder →
          visited = if bMaxFirst then (inorder t).reverse else inorder t) := by
  induction t with
  | nil =>
    intro parent p fuel tree enough
    obtain ⟨fuel, rfl⟩ := Nat.exists_eq_add_of_lt enough
    obtain rfl : p = none := tree
    exact ⟨[], rfl, List.Perm.refl [], by simp [inorder]⟩
  | node c l r left right =>
    intro parent p fuel tree enough
    obtain ⟨rfl, -, -, leftTree, rightTree⟩ := tree
    obtain ⟨fuel, rfl⟩ := Nat.exists_eq_add_of_lt enough
    rw [numNodes] at *
    obtain ⟨before, leftRuns, leftPerm, leftOrder⟩ :=
      left (l.numNodes + r.numNodes + 1 + fuel) leftTree (by omega)
    obtain ⟨after, rightRuns, rightPerm, rightOrder⟩ :=
      right (l.numNodes + r.numNodes + 1 + fuel) rightTree (by omega)
    rw [mbtVisitOrder]
    cases bMaxFirst with
    | false =>
      rw [Bool.not_false, leftRuns, rightRuns]
      refine ⟨_, rfl, visitType.around_perm c (leftPerm.append rightPerm), ?_⟩
      rintro rfl
      rw [leftOrder rfl, rightOrder rfl]
      rfl
    | true =>
      rw [Bool.not_true, leftRuns, rightRuns]
      refine ⟨_, rfl, visitType.around_perm c
        ((rightPerm.append leftPerm).trans List.perm_append_comm), ?_⟩
      rintro rfl
      rw [leftOrder rfl, rightOrder rfl]
      simp [MBTVisitType.around, inorder]

section

variable {state : MBTNodes MBTAddress × Option MBTAddress} {members : List MBTAddress}
  {key : MBTAddress → κ} {fuel : Nat} (reached : MBTReached key state members)
  (enough : members.length < fuel)

include reached enough

theorem MBTReached.bounded : ∃ t, OrderedTree key state members t ∧ t.numNodes < fuel := by
  obtain ⟨t, ordered⟩ := reached.ordered
  refine ⟨t, ordered, ?_⟩
  rwa [← length_inorder, ordered.members.length_eq]

end

def oneNode : MBTAddress := ⟨16, by decide⟩

def address (n : MBTAddress) : Nat := n.val.toNat

theorem reached_one : MBTReached address (noNodes.create oneNode 1, some oneNode) [oneNode] :=
  MBTReached.insert (.empty noNodes) (keyDifference_orders address) (by simp)
    (rfl : mbtAddNode (keyDifference address) 1 (noNodes, none) (oneNode, 1) = _)

end IteSdk.TsDemuxer
