import Mathlib.Logic.Function.Basic

/-!
# The order-statistics tree

`ts_info/mbt.c`.  A pointer to a pointer is what it points to before the call
and, in the result, after it.  The left and the right of two functions that
mirror each other are a `Bool`, true for left, as in `_Refresh_Tree`.  `none`
stands for a null pointer that is followed or fuel that has run out.
-/

namespace IteSdk.TsDemuxer

universe u

variable {ν : Type u}

/-- The fields of every `MBT_NODE`; `child true` is `left` and `child false` is
`right`. -/
@[ext] structure MBTNodes (ν : Type u) where
  child : Bool → ν → Option ν
  parent : ν → Option ν
  size : ν → BitVec 32

namespace MBTNodes

variable [DecidableEq ν]

def setChild (nodes : MBTNodes ν) (bLeft : Bool) (n : ν) (value : Option ν) : MBTNodes ν :=
  { nodes with
    child := Function.update nodes.child bLeft (Function.update (nodes.child bLeft) n value) }

def setParent (nodes : MBTNodes ν) (n : ν) (value : Option ν) : MBTNodes ν :=
  { nodes with parent := Function.update nodes.parent n value }

def setSize (nodes : MBTNodes ν) (n : ν) (value : BitVec 32) : MBTNodes ν :=
  { nodes with size := Function.update nodes.size n value }

section

variable (nodes : MBTNodes ν)

include nodes

theorem child_setChild (bLeft side : Bool) (n m : ν) (value : Option ν) :
    (nodes.setChild bLeft n value).child side m =
      if side = bLeft ∧ m = n then value else nodes.child side m := by
  by_cases sameSide : side = bLeft
  · subst sameSide
    rw [setChild]
    dsimp only
    rw [Function.update_self, Function.update_apply]
    simp
  · rw [setChild]
    dsimp only
    rw [Function.update_of_ne sameSide, if_neg fun both => sameSide both.1]

@[simp] theorem parent_setChild (bLeft : Bool) (n : ν) (value : Option ν) :
    (nodes.setChild bLeft n value).parent = nodes.parent :=
  rfl

@[simp] theorem size_setChild (bLeft : Bool) (n : ν) (value : Option ν) :
    (nodes.setChild bLeft n value).size = nodes.size :=
  rfl

theorem parent_setParent (n m : ν) (value : Option ν) :
    (nodes.setParent n value).parent m = if m = n then value else nodes.parent m :=
  Function.update_apply _ _ _ _

@[simp] theorem child_setParent (n : ν) (value : Option ν) :
    (nodes.setParent n value).child = nodes.child :=
  rfl

@[simp] theorem size_setParent (n : ν) (value : Option ν) :
    (nodes.setParent n value).size = nodes.size :=
  rfl

theorem size_setSize (n m : ν) (value : BitVec 32) :
    (nodes.setSize n value).size m = if m = n then value else nodes.size m :=
  Function.update_apply _ _ _ _

@[simp] theorem child_setSize (n : ν) (value : BitVec 32) :
    (nodes.setSize n value).child = nodes.child :=
  rfl

@[simp] theorem parent_setSize (n : ν) (value : BitVec 32) :
    (nodes.setSize n value).parent = nodes.parent :=
  rfl

end

/-- `if (pointer) pointer->parent = value`. -/
def setParentOf (nodes : MBTNodes ν) (pointer value : Option ν) : MBTNodes ν :=
  match pointer with
  | none => nodes
  | some n => nodes.setParent n value

section

variable (nodes : MBTNodes ν) (pointer value : Option ν)

include nodes pointer value

theorem parent_setParentOf (m : ν) :
    (nodes.setParentOf pointer value).parent m =
      if pointer = some m then value else nodes.parent m := by
  cases pointer with
  | none => rfl
  | some n =>
    rw [setParentOf, parent_setParent]
    simp [eq_comm]

@[simp] theorem child_setParentOf : (nodes.setParentOf pointer value).child = nodes.child := by
  cases pointer <;> rfl

@[simp] theorem size_setParentOf : (nodes.setParentOf pointer value).size = nodes.size := by
  cases pointer <;> rfl

end

/-- `pointer ? pointer->size : 0`. -/
def sizeOf (nodes : MBTNodes ν) : Option ν → BitVec 32
  | none => 0
  | some n => nodes.size n

omit [DecidableEq ν] in
theorem sizeOf_congr {nodes nodes' : MBTNodes ν} {pointer : Option ν}
    (same : ∀ n, pointer = some n → nodes'.size n = nodes.size n) :
    nodes'.sizeOf pointer = nodes.sizeOf pointer := by
  cases pointer with
  | none => rfl
  | some n => exact same n rfl

def childrenSize (nodes : MBTNodes ν) (n : ν) : BitVec 32 :=
  nodes.sizeOf (nodes.child true n) + nodes.sizeOf (nodes.child false n) + 1

end MBTNodes

section Model

variable [DecidableEq ν]

/-- `_Right_Rotate_Tree` if the left child goes up, else `_Left_Rotate_Tree`. -/
def rotateTree (bLeft : Bool) (nodes : MBTNodes ν) (cNode : ν) : Option (MBTNodes ν × ν) :=
  match nodes.child bLeft cNode with
  | none => none
  | some upper =>
    let inner := nodes.child (!bLeft) upper
    let nodes := nodes.setChild bLeft cNode inner
    let nodes := nodes.setParentOf inner (some cNode)
    let nodes := nodes.setChild (!bLeft) upper (some cNode)
    let nodes := nodes.setParent upper (nodes.parent cNode)
    let nodes := nodes.setParent cNode (some upper)
    let nodes := nodes.setSize upper (nodes.size cNode)
    some (nodes.setSize cNode (nodes.childrenSize cNode), upper)

def rightRotateTree : MBTNodes ν → ν → Option (MBTNodes ν × ν) := rotateTree true

def leftRotateTree : MBTNodes ν → ν → Option (MBTNodes ν × ν) := rotateTree false

/-- `inner && (!outer || inner->size > outer->size)`. -/
def heavier (nodes : MBTNodes ν) : Option ν → Option ν → Bool
  | none, _ => false
  | some _, none => true
  | some inner, some outer => nodes.size outer < nodes.size inner

/-- The rotations of `_Refresh_Tree`: the nodes and the new root, unless it
returns without one. -/
def rotateHeavier (nodes : MBTNodes ν) (cNode : ν) (bLeft : Bool) :
    Option (Option (MBTNodes ν × ν)) :=
  match nodes.child bLeft cNode with
  | none => some none
  | some near =>
    let far := nodes.child (!bLeft) cNode
    if heavier nodes (nodes.child bLeft near) far then
      (rotateTree bLeft nodes cNode).map some
    else if heavier nodes (nodes.child (!bLeft) near) far then
      (rotateTree (!bLeft) nodes near).bind fun (nodes, upper) =>
        (rotateTree bLeft (nodes.setChild bLeft cNode (some upper)) cNode).map some
    else
      some none

def refreshTree : Nat → MBTNodes ν → Option ν → Bool → Option (MBTNodes ν × Option ν)
  | 0, _, _, _ => none
  | _ + 1, nodes, none, _ => some (nodes, none)
  | fuel + 1, nodes, some cNode, bLeft =>
    match rotateHeavier nodes cNode bLeft with
    | none => none
    | some none => some (nodes, some cNode)
    | some (some (nodes, root)) =>
      (refreshTree fuel nodes (nodes.child true cNode) true).bind fun (nodes, left) =>
      let nodes := nodes.setChild true cNode left
      (refreshTree fuel nodes (nodes.child false cNode) false).bind fun (nodes, right) =>
      let nodes := nodes.setChild false cNode right
      (refreshTree fuel nodes (some root) true).bind fun (nodes, root) =>
      refreshTree fuel nodes root false

def mbtGetNodeByRank (nodes : MBTNodes ν) : Nat → Option ν → BitVec 32 → Option (Option ν)
  | 0, _, _ => none
  | _ + 1, none, _ => some none
  | fuel + 1, some rootNode, index =>
    if index ≤ nodes.size rootNode then
      let r := nodes.sizeOf (nodes.child true rootNode)
      if index = r then
        some (some rootNode)
      else if index < r then
        mbtGetNodeByRank nodes fuel (nodes.child true rootNode) index
      else
        mbtGetNodeByRank nodes fuel (nodes.child false rootNode) (index - r - 1)
    else
      some none

/-- `mbt_Insert_Node`.  `compareFunc` has the extra data it is called with. -/
def mbtInsertNode (compareFunc : ν → ν → Int) :
    Nat → MBTNodes ν → Option ν → ν → Option (MBTNodes ν × Option ν)
  | 0, _, _, _ => none
  | _ + 1, nodes, none, insertNode => some (nodes, some insertNode)
  | fuel + 1, nodes, some cNode, insertNode =>
    let cmp := compareFunc cNode insertNode
    let nodes := nodes.setSize cNode (nodes.size cNode + 1)
    let nodes := nodes.setParent insertNode (some cNode)
    if 0 < cmp then
      (mbtInsertNode compareFunc fuel nodes (nodes.child false cNode)
        insertNode).bind fun (nodes, right) =>
      refreshTree fuel (nodes.setChild false cNode right) (some cNode) false
    else if cmp < 0 then
      (mbtInsertNode compareFunc fuel nodes (nodes.child true cNode)
        insertNode).bind fun (nodes, left) =>
      refreshTree fuel (nodes.setChild true cNode left) (some cNode) true
    else
      some (nodes, some cNode)

def mbtFindNode (compareFunc : ν → ν → Int) (nodes : MBTNodes ν)
    (patternNode : ν) : Nat → Option ν → Option (Option ν)
  | 0, _ => none
  | _ + 1, none => some none
  | fuel + 1, some cNode =>
    let cmp := compareFunc cNode patternNode
    if 0 < cmp then
      mbtFindNode compareFunc nodes patternNode fuel (nodes.child false cNode)
    else if cmp < 0 then
      mbtFindNode compareFunc nodes patternNode fuel (nodes.child true cNode)
    else
      some (some cNode)

def mbtGetRoot (nodes : MBTNodes ν) : Nat → ν → Option ν
  | 0, _ => none
  | fuel + 1, node =>
    match nodes.parent node with
    | none => some node
    | some parent => mbtGetRoot nodes fuel parent

/-- The search of `mbt_Del_Node`: the node that is found, and the last result of
`compareFunc` before it. -/
def findDelNode (compareFunc : ν → ν → Int) (nodes : MBTNodes ν)
    (patternNode : ν) : Nat → Option ν → Int → Option (Option ν × Int)
  | 0, _, _ => none
  | _ + 1, none, prevCmp => some (none, prevCmp)
  | fuel + 1, some cNode, prevCmp =>
    let cmp := compareFunc cNode patternNode
    if 0 < cmp then
      findDelNode compareFunc nodes patternNode fuel (nodes.child false cNode) cmp
    else if cmp < 0 then
      findDelNode compareFunc nodes patternNode fuel (nodes.child true cNode) cmp
    else
      some (some cNode, prevCmp)

/-- The loop of `mbt_Del_Node` that updates the sizes on the way to the root. -/
def decrementSizes : Nat → MBTNodes ν → Option ν → Option (MBTNodes ν)
  | 0, _, _ => none
  | _ + 1, nodes, none => some nodes
  | fuel + 1, nodes, some cNode =>
    let nodes := nodes.setSize cNode (nodes.size cNode - 1)
    decrementSizes fuel nodes (nodes.parent cNode)

def updateSubtree (nodes : MBTNodes ν) (bLeft : Bool)
    (parentNode subNode : Option ν) : Option (MBTNodes ν) :=
  match parentNode with
  | some parent => some (nodes.setChild bLeft parent subNode)
  | none =>
    match subNode with
    | none => none
    | some sub => some (nodes.setParent sub none)

/-- The search of `mbt_Del_Node` for the node whose left child has no left
child; that child comes with it. -/
def findLeftmost (nodes : MBTNodes ν) : Nat → ν → Option (ν × ν)
  | 0, _ => none
  | fuel + 1, cRtNode =>
    match nodes.child true cRtNode with
    | none => none
    | some sLtNode =>
      if nodes.child true sLtNode = none then
        some (cRtNode, sLtNode)
      else
        findLeftmost nodes fuel sLtNode

/-- `mbt_Visit_Order` with `MBT_VISIT_POSTORDER` and `_Gen_Size_Value`. -/
def genSizeValues : Nat → MBTNodes ν → Option ν → Option (MBTNodes ν)
  | 0, _, _ => none
  | _ + 1, nodes, none => some nodes
  | fuel + 1, nodes, some n =>
    (genSizeValues fuel nodes (nodes.child true n)).bind fun nodes =>
    (genSizeValues fuel nodes (nodes.child false n)).map fun nodes =>
    if nodes.child true n = none ∧ nodes.child false n = none then
      nodes.setSize n 1
    else
      nodes.setSize n (nodes.childrenSize n)

/-- The last loop of `mbt_Del_Node`. -/
def decrementSpine : Nat → MBTNodes ν → Option ν → Option (MBTNodes ν)
  | 0, _, _ => none
  | _ + 1, nodes, none => some nodes
  | fuel + 1, nodes, some tmpNode =>
    let nodes :=
      if nodes.parent tmpNode = none then nodes
      else nodes.setSize tmpNode (nodes.size tmpNode - 1)
    decrementSpine fuel nodes (nodes.child false tmpNode)

/-- `mbt_Del_Node` where the node has no right child. -/
def delWithoutRight (nodes : MBTNodes ν) (root : Option ν) (delNode : ν)
    (prevCmp : Int) : Option (MBTNodes ν × Option ν) :=
  let left := nodes.child true delNode
  let parent := nodes.parent delNode
  (updateSubtree nodes (prevCmp < 0) parent left).map fun nodes =>
    let nodes := nodes.setParentOf left parent
    if root = some delNode then
      match left with
      | some left => (nodes.setSize left (nodes.size left - 1), some left)
      | none => (nodes, none)
    else
      (nodes, root)

/-- `mbt_Del_Node` where the right child has no left child. -/
def delWithRight (nodes : MBTNodes ν) (root : Option ν)
    (delNode cRtNode : ν) (prevCmp : Int) : Option (MBTNodes ν × Option ν) :=
  let left := nodes.child true delNode
  let parent := nodes.parent delNode
  let nodes := nodes.setChild true cRtNode left
  let nodes := nodes.setParentOf left (some cRtNode)
  (updateSubtree nodes (prevCmp < 0) parent (some cRtNode)).map fun nodes =>
    let nodes := nodes.setSize cRtNode (nodes.childrenSize cRtNode)
    let nodes := nodes.setParent cRtNode parent
    (nodes, if root = some delNode then some cRtNode else root)

/-- The leftmost node on the right gives its own place to its right child and
takes the children of the node that is deleted. -/
def moveLeftmost (nodes : MBTNodes ν) (delNode cRtNode sLtNode : ν) : MBTNodes ν :=
  let nodes := nodes.setChild true cRtNode (nodes.child false sLtNode)
  let nodes := nodes.setParentOf (nodes.child false sLtNode) (some cRtNode)
  let nodes := nodes.setChild true sLtNode (nodes.child true delNode)
  let nodes := nodes.setChild false sLtNode (nodes.child false delNode)
  let nodes := nodes.setParentOf (nodes.child false delNode) (some sLtNode)
  nodes.setParentOf (nodes.child true delNode) (some sLtNode)

/-- `mbt_Del_Node` where the leftmost node on the right takes the place. -/
def delWithLeftmost (compareFunc : ν → ν → Int) (fuel : Nat)
    (nodes : MBTNodes ν) (root : Option ν) (delNode rightNode : ν)
    (prevCmp : Int) : Option (MBTNodes ν × Option ν) :=
  (findLeftmost nodes fuel rightNode).bind fun (cRtNode, sLtNode) =>
    let parent := nodes.parent delNode
    let nodes := moveLeftmost nodes delNode cRtNode sLtNode
    (updateSubtree nodes (prevCmp < 0) parent (some sLtNode)).bind fun nodes =>
      let nodes := nodes.setParent sLtNode (nodes.parent delNode)
      let root := if root = some delNode then some sLtNode else root
      (genSizeValues fuel nodes (some sLtNode)).bind fun nodes =>
        match root with
        | none => none
        | some rootNode =>
          if 0 ≤ compareFunc sLtNode rootNode then
            (decrementSpine fuel nodes (some sLtNode)).map fun nodes => (nodes, root)
          else
            some (nodes, root)

/-- `mbt_Del_Node`: what it returns, and the nodes and the root afterwards.
`compareFunc` has the null pointer as its extra data, as in `mbt_del_node`. -/
def mbtDelNode (compareFunc : ν → ν → Int) (fuel : Nat) (nodes : MBTNodes ν)
    (root : Option ν) (patternNode : ν) :
    Option (Option ν × MBTNodes ν × Option ν) :=
  match findDelNode compareFunc nodes patternNode fuel root 0 with
  | none => none
  | some (none, _) => none
  | some (some delNode, prevCmp) =>
    if nodes.parent delNode = none ∧ nodes.child true delNode = none ∧
        nodes.child false delNode = none then
      some (none, nodes, root)
    else
      (decrementSizes fuel nodes (some delNode)).bind fun nodes =>
        let result :=
          match nodes.child false delNode with
          | none => delWithoutRight nodes root delNode prevCmp
          | some rightNode =>
            if nodes.child true rightNode = none then
              delWithRight nodes root delNode rightNode prevCmp
            else
              delWithLeftmost compareFunc fuel nodes root delNode rightNode prevCmp
        result.map fun (nodes, root) => (some delNode, nodes, root)

end Model

end IteSdk.TsDemuxer
