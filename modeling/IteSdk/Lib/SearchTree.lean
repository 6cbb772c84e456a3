import Mathlib.Data.List.Nodup
import Mathlib.Data.Tree.Basic
import Mathlib.Order.Defs.LinearOrder
import Mathlib.Tactic.Linarith

/-!
# Binary trees in memory

Trees of nodes, built from either side so that a rotation to the left and one to
the right are the same.  `weight` is what every rotation makes smaller that
brings the larger of two subtrees up.
-/

namespace IteSdk.Lib

section

universe u v

variable {ν : Type u}

open BinaryTree

@[grind =]
def inorder : BinaryTree ν → List ν
  | nil => []
  | node n l r => inorder l ++ n :: inorder r

@[grind =]
def weight : BinaryTree ν → Nat
  | nil => 0
  | node _ l r => weight l + weight r + (l.numNodes + r.numNodes + 1)

/-- A tree whose subtree `near` is on the left if `bLeft` says so. -/
def join (bLeft : Bool) (n : ν) (near far : BinaryTree ν) : BinaryTree ν :=
  if bLeft then node n near far else node n far near

theorem exists_join (bLeft : Bool) (n : ν) (l r : BinaryTree ν) :
    ∃ near far, node n l r = join bLeft n near far := by
  cases bLeft with
  | true => exact ⟨l, r, rfl⟩
  | false => exact ⟨r, l, rfl⟩

section

variable (bLeft : Bool) (n : ν) (near far : BinaryTree ν)

include bLeft n near far

theorem join_not : join (!bLeft) n near far = join bLeft n far near := by cases bLeft <;> rfl

@[simp] theorem numNodes_join :
    (join bLeft n near far).numNodes = near.numNodes + far.numNodes + 1 := by
  cases bLeft
  · exact congrArg (· + 1) (Nat.add_comm _ _)
  · rfl

@[simp] theorem weight_join :
    weight (join bLeft n near far) =
      weight near + weight far + (near.numNodes + far.numNodes + 1) := by
  cases bLeft
  · simp only [join, Bool.false_eq_true, if_false, weight]
    omega
  · rfl

end

@[simp] theorem length_inorder (t : BinaryTree ν) : (inorder t).length = t.numNodes := by
  induction t with
  | nil => rfl
  | node n l r left right =>
    rw [inorder, List.length_append, List.length_cons, left, right, numNodes]
    omega

variable {near far : BinaryTree ν}

@[simp] theorem mem_inorder_join {bLeft : Bool} {n m : ν} :
    m ∈ inorder (join bLeft n near far) ↔ m = n ∨ m ∈ inorder near ∨ m ∈ inorder far := by
  cases bLeft
  · simp only [join, Bool.false_eq_true, if_false, inorder, List.mem_append, List.mem_cons]
    constructor
    · rintro (inFar | isRoot | inNear)
      · exact Or.inr (Or.inr inFar)
      · exact Or.inl isRoot
      · exact Or.inr (Or.inl inNear)
    · rintro (isRoot | inNear | inFar)
      · exact Or.inr (Or.inl isRoot)
      · exact Or.inr (Or.inr inNear)
      · exact Or.inl inFar
  · simp only [join, if_true, inorder, List.mem_append, List.mem_cons]
    constructor
    · rintro (inNear | isRoot | inFar)
      · exact Or.inr (Or.inl inNear)
      · exact Or.inl isRoot
      · exact Or.inr (Or.inr inFar)
    · rintro (isRoot | inNear | inFar)
      · exact Or.inr (Or.inl isRoot)
      · exact Or.inl inNear
      · exact Or.inr (Or.inr inFar)

theorem nodup_around {left right : List ν} {n : ν} :
    (left ++ n :: right).Nodup ↔
      n ∉ left ∧ n ∉ right ∧ left.Nodup ∧ right.Nodup ∧ left.Disjoint right := by
  rw [List.nodup_middle, List.nodup_cons, List.mem_append, not_or, List.nodup_append']
  tauto

theorem nodup_join {bLeft : Bool} {n : ν} :
    (inorder (join bLeft n near far)).Nodup ↔
      n ∉ inorder near ∧ n ∉ inorder far ∧ (inorder near).Nodup ∧
        (inorder far).Nodup ∧ (inorder near).Disjoint (inorder far) := by
  cases bLeft
  · refine Iff.trans (nodup_around : (inorder far ++ n :: inorder near).Nodup ↔ _) ?_
    rw [List.disjoint_comm]
    tauto
  · exact nodup_around

theorem inorder_join_congr {near near' far far' : BinaryTree ν}
    (nearOrder : inorder near' = inorder near)
    (farOrder : inorder far' = inorder far) (bLeft : Bool) (n : ν) :
    inorder (join bLeft n near' far') = inorder (join bLeft n near far) := by
  cases bLeft <;> simp [join, inorder, nearOrder, farOrder]

theorem perm_join (bLeft : Bool) (n : ν) (near far : BinaryTree ν) :
    (inorder (join bLeft n near far)).Perm (n :: (inorder near ++ inorder far)) := by
  cases bLeft
  · exact List.perm_middle.trans (List.perm_append_comm.cons n)
  · exact List.perm_middle

theorem weight_le (t : BinaryTree ν) : weight t ≤ t.numNodes * t.numNodes := by
  induction t with
  | nil => exact Nat.le_refl 0
  | node n l r left right =>
    rw [weight, numNodes]
    nlinarith

section Rotation

variable (bLeft : Bool) (n m : ν) (a x y : BinaryTree ν)

theorem inorder_rotate :
    inorder (join bLeft m a (join bLeft n x y)) = inorder (join bLeft n (join bLeft m a x) y) := by
  cases bLeft <;> simp [join, inorder]

theorem weight_rotate (heavier : y.numNodes < a.numNodes) :
    weight (join bLeft m a (join bLeft n x y)) < weight (join bLeft n (join bLeft m a x) y) := by
  simp only [weight_join, numNodes_join]
  omega

end Rotation

/-! ## Holes -/

/-- A node above a hole, and its subtree on the other side. -/
structure Frame (ν : Type u) where
  bLeft : Bool
  root : ν
  far : BinaryTree ν

/-- A tree is put into a hole below frames, of which the first is the lowest. -/
@[grind =]
def plug : List (Frame ν) → BinaryTree ν → BinaryTree ν
  | [], t => t
  | f :: frames, t => plug frames (join f.bLeft f.root t f.far)

theorem plug_append (lower upper : List (Frame ν)) (t : BinaryTree ν) :
    plug (lower ++ upper) t = plug upper (plug lower t) := by
  induction lower generalizing t with
  | nil => rfl
  | cons f lower ih => exact ih _

@[grind =]
def frontOf : List (Frame ν) → List ν
  | [] => []
  | f :: frames =>
    if f.bLeft then frontOf frames
    else frontOf frames ++ (inorder f.far ++ [f.root])

@[grind =]
def backOf : List (Frame ν) → List ν
  | [] => []
  | f :: frames =>
    if f.bLeft then f.root :: (inorder f.far ++ backOf frames)
    else backOf frames

theorem inorder_plug (frames : List (Frame ν)) (t : BinaryTree ν) :
    inorder (plug frames t) = frontOf frames ++ (inorder t ++ backOf frames) := by
  induction frames generalizing t with
  | nil => simp [plug, frontOf, backOf]
  | cons f frames ih =>
    rw [plug, ih, frontOf, backOf]
    cases f.bLeft <;> simp [join, inorder]

structure Apart (frames : List (Frame ν)) (t : BinaryTree ν) : Prop where
  hole : (inorder t).Nodup
  roots : (frames.map Frame.root).Nodup
  root_notMem : ∀ f ∈ frames, f.root ∉ inorder t
  far_notMem : ∀ f ∈ frames, ∀ m ∈ inorder f.far, m ∉ inorder t
  far_notRoot : ∀ f ∈ frames, ∀ m ∈ inorder f.far, m ∉ frames.map Frame.root

variable {t : BinaryTree ν}

theorem apart_of_nodup (frames : List (Frame ν))
    (nodup : (inorder (plug frames t)).Nodup) : Apart frames t := by
  induction frames generalizing t with
  | nil =>
    exact ⟨nodup, List.nodup_nil, by simp, by simp, by simp⟩
  | cons f frames ih =>
    have upper := ih nodup
    obtain ⟨notNear, notFar, near, _, disjoint⟩ := nodup_join.mp upper.hole
    have outside :
        ∀ {m : ν}, m ∉ inorder (join f.bLeft f.root t f.far) → m ≠ f.root ∧ m ∉ inorder t := by
      intro m notHere
      rw [mem_inorder_join, not_or, not_or] at notHere
      exact ⟨notHere.1, notHere.2.1⟩
    refine ⟨near, ?_, ?_, ?_, ?_⟩
    · rw [List.map_cons, List.nodup_cons]
      refine ⟨?_, upper.roots⟩
      intro again
      obtain ⟨g, member, same⟩ := List.mem_map.mp again
      exact (outside (upper.root_notMem g member)).1 same
    · refine List.forall_mem_cons.mpr ⟨notNear, ?_⟩
      exact fun g member => (outside (upper.root_notMem g member)).2
    · refine List.forall_mem_cons.mpr ⟨?_, ?_⟩
      · exact fun m inFar inNear => disjoint inNear inFar
      · exact fun g member m inFar =>
          (outside (upper.far_notMem g member m inFar)).2
    · refine List.forall_mem_cons.mpr ⟨?_, ?_⟩
      · intro m inFar root
        rw [List.map_cons, List.mem_cons] at root
        rcases root with rfl | root
        · exact notFar inFar
        · obtain ⟨g, member, rfl⟩ := List.mem_map.mp root
          exact upper.root_notMem g member (mem_inorder_join.mpr (Or.inr (Or.inr inFar)))
      · intro g member m inFar root
        rw [List.map_cons, List.mem_cons] at root
        rcases root with rfl | root
        · exact (outside (upper.far_notMem g member _ inFar)).1 rfl
        · exact upper.far_notRoot g member m inFar root

variable {frames : List (Frame ν)}

theorem Apart.root_injective (apart : Apart frames t) {f g : Frame ν} (inside : f ∈ frames)
    (insideToo : g ∈ frames) (same : f.root = g.root) : f = g :=
  List.inj_on_of_nodup_map apart.roots inside insideToo same

theorem mem_inorder_plug {n : ν} (inside : n ∈ inorder t ∨ n ∈ frames.map Frame.root) :
    n ∈ inorder (plug frames t) := by
  induction frames generalizing t with
  | nil =>
    exact inside.resolve_right List.not_mem_nil
  | cons f frames ih =>
    apply ih
    rw [mem_inorder_join]
    rw [List.map_cons, List.mem_cons] at inside
    tauto

theorem numNodes_plug (frames : List (Frame ν)) (t : BinaryTree ν) :
    frames.length + t.numNodes ≤ (plug frames t).numNodes := by
  induction frames generalizing t with
  | nil =>
    exact Nat.le_of_eq (Nat.zero_add _)
  | cons f frames ih =>
    have above := ih (join f.bLeft f.root t f.far)
    rw [numNodes_join] at above
    rw [plug, List.length_cons]
    omega

/-! ## Search order -/

section Order

variable {κ : Type v} [LinearOrder κ] (key : ν → κ)

def SortedBy (nodes : List ν) : Prop := nodes.Pairwise fun n m => key n < key m

/-- `m` belongs on one side of `n`. -/
def OnSide (bLeft : Bool) (m n : ν) : Prop := if bLeft then key m < key n else key n < key m

variable {key}

theorem SortedBy.nodup {nodes : List ν} (sorted : SortedBy key nodes) : nodes.Nodup :=
  List.Pairwise.imp (fun less same => less.ne (congrArg key same)) sorted

theorem sortedBy_around {left right : List ν} {n : ν} :
    SortedBy key (left ++ n :: right) ↔
      SortedBy key left ∧ SortedBy key right ∧
        (∀ m ∈ left, key m < key n) ∧ ∀ m ∈ right, key n < key m := by
  rw [SortedBy, List.pairwise_append, List.pairwise_cons]
  constructor
  · intro ⟨first, ⟨above, second⟩, across⟩
    exact ⟨first, second, fun m inside => across m inside n (by simp), above⟩
  · intro ⟨first, second, below, above⟩
    refine ⟨first, ⟨above, second⟩, ?_⟩
    intro m inside k member
    rcases List.mem_cons.mp member with rfl | behind
    · exact below m inside
    · exact (below m inside).trans (above k behind)

theorem sortedBy_join {bLeft : Bool} {n : ν} {near far : BinaryTree ν} :
    SortedBy key (inorder (join bLeft n near far)) ↔
      SortedBy key (inorder near) ∧ SortedBy key (inorder far) ∧
        (∀ m ∈ inorder near, OnSide key bLeft m n) ∧
        ∀ m ∈ inorder far, OnSide key (!bLeft) m n := by
  cases bLeft
  · have around : SortedBy key (inorder far ++ n :: inorder near) ↔ _ := sortedBy_around
    refine around.trans ?_
    simp only [OnSide]
    tauto
  · exact sortedBy_around

theorem SortedBy.hole {frames : List (Frame ν)} {t : BinaryTree ν}
    (sorted : SortedBy key (inorder (plug frames t))) :
    SortedBy key (inorder t) := by
  rw [inorder_plug] at sorted
  apply List.Pairwise.sublist _ sorted
  exact (List.sublist_append_left _ _).trans (List.sublist_append_right _ _)

theorem onSide_or {m n : ν} (different : key n ≠ key m) : ∃ bLeft, OnSide key bLeft m n := by
  rcases lt_or_gt_of_ne different with less | greater
  · exact ⟨false, less⟩
  · exact ⟨true, greater⟩

theorem OnSide.not_onSide {bLeft : Bool} {m n : ν}
    (side : OnSide key (!bLeft) m n) : ¬ OnSide key bLeft m n := by
  cases bLeft
  · exact lt_asymm side
  · exact lt_asymm side

theorem SortedBy.key_injective {nodes : List ν} {n m : ν}
    (sorted : SortedBy key nodes) (inside : n ∈ nodes) (insideToo : m ∈ nodes)
    (same : key n = key m) : n = m := by
  have keys : (nodes.map key).Nodup :=
    List.pairwise_map.mpr (List.Pairwise.imp (fun less => less.ne) sorted)
  exact List.inj_on_of_nodup_map keys inside insideToo same

end Order

end

/-!
# Size-balanced trees

A tree is balanced when the children of no node are larger than its sibling.  `rebuild`
puts a child back whose children may have become too large for the other side, by one
rotation or two.  A rotation moves nodes below each other that have not been siblings
before; `RotationFits` says that these are in balance too.
-/

section

universe u

variable {ν : Type u}

open BinaryTree

def subtree (bLeft : Bool) : BinaryTree ν → BinaryTree ν
  | nil => nil
  | node _ l r => if bLeft then l else r

@[simp] theorem subtree_join (bLeft : Bool) (n : ν) (near far : BinaryTree ν) :
    subtree bLeft (join bLeft n near far) = near := by
  cases bLeft <;> rfl

@[simp] theorem subtree_not_join (bLeft : Bool) (n : ν) (near far : BinaryTree ν) :
    subtree (!bLeft) (join bLeft n near far) = far := by
  cases bLeft <;> rfl

/-- The children of `t` are not larger than `sibling`. -/
def ChildrenFit (t sibling : BinaryTree ν) : Prop :=
  (subtree true t).numNodes ≤ sibling.numNodes ∧ (subtree false t).numNodes ≤ sibling.numNodes
deriving Decidable

/-- No node has a child that is smaller than one of its nephews. -/
@[grind =]
def Balanced : BinaryTree ν → Prop
  | nil => True
  | node _ l r => ChildrenFit l r ∧ ChildrenFit r l ∧ Balanced l ∧ Balanced r

instance Balanced.decidable : ∀ t : BinaryTree ν, Decidable (Balanced t)
  | nil => inferInstanceAs (Decidable True)
  | node _ l r =>
    have := Balanced.decidable l
    have := Balanced.decidable r
    inferInstanceAs (Decidable (_ ∧ _ ∧ _ ∧ _))

variable {bLeft : Bool}

@[simp] theorem childrenFit_join {n : ν} {near far sibling : BinaryTree ν} :
    ChildrenFit (join bLeft n near far) sibling ↔
      near.numNodes ≤ sibling.numNodes ∧ far.numNodes ≤ sibling.numNodes := by
  cases bLeft
  · exact and_comm
  · exact Iff.rfl

variable {near far : BinaryTree ν}

theorem balanced_join {n : ν} :
    Balanced (join bLeft n near far) ↔
      ChildrenFit near far ∧ ChildrenFit far near ∧ Balanced near ∧ Balanced far := by
  cases bLeft
  · change ChildrenFit far near ∧ ChildrenFit near far ∧ Balanced far ∧ Balanced near ↔ _
    tauto
  · exact Iff.rfl

theorem join_subtree (bLeft : Bool) (n : ν) (near far : BinaryTree ν) :
    join true n (subtree true (join bLeft n near far)) (subtree false (join bLeft n near far)) =
      join bLeft n near far := by
  cases bLeft <;> rfl

theorem Balanced.child {n : ν} (balanced : Balanced (join bLeft n near far)) (side : Bool) :
    Balanced (subtree side (join bLeft n near far)) := by
  rw [← join_subtree bLeft n near far] at balanced
  obtain ⟨-, -, left, right⟩ := balanced_join.mp balanced
  cases side
  · exact right
  · exact left

theorem ChildrenFit.mono {t sibling other : BinaryTree ν} (fit : ChildrenFit t sibling)
    (larger : sibling.numNodes ≤ other.numNodes) : ChildrenFit t other :=
  ⟨fit.1.trans larger, fit.2.trans larger⟩

variable {t sibling : BinaryTree ν}

theorem childrenFit_of_le (larger : t.numNodes ≤ sibling.numNodes + 1) : ChildrenFit t sibling := by
  cases t with
  | nil => exact ⟨Nat.zero_le _, Nat.zero_le _⟩
  | node n l r =>
    rw [numNodes] at larger
    change l.numNodes ≤ _ ∧ r.numNodes ≤ _
    omega

/-- A child is not smaller than either child of its sibling, so the grandchild on the
longest path counts twice. -/
theorem two_pow_succ_height (fit : ChildrenFit t sibling)
    (deep : ∀ bLeft, 2 ^ ((subtree bLeft t).height / 2) ≤ (subtree bLeft t).numNodes + 1) :
    2 ^ ((t.height + 1) / 2) ≤ t.numNodes + sibling.numNodes + 2 := by
  cases t with
  | nil =>
    rw [height, pow_zero]
    omega
  | node n l r =>
    obtain ⟨bLeft, tall⟩ :
        ∃ bLeft, (node n l r).height = (subtree bLeft (node n l r)).height + 1 := by
      rcases Nat.le_total l.height r.height with right | left
      · exact ⟨false, congrArg (· + 1) (Nat.max_eq_right right)⟩
      · exact ⟨true, congrArg (· + 1) (Nat.max_eq_left left)⟩
    have small : (subtree bLeft (node n l r)).numNodes ≤ sibling.numNodes := by
      cases bLeft
      · exact fit.2
      · exact fit.1
    have inside : (subtree bLeft (node n l r)).numNodes + 1 ≤ (node n l r).numNodes := by
      cases bLeft
      · change r.numNodes + 1 ≤ l.numNodes + r.numNodes + 1
        omega
      · change l.numNodes + 1 ≤ l.numNodes + r.numNodes + 1
        omega
    have twice :
        ((subtree bLeft (node n l r)).height + 1 + 1) / 2 =
          (subtree bLeft (node n l r)).height / 2 + 1 := by
      omega
    have grandchild := deep bLeft
    rw [tall, twice, pow_succ]
    omega

theorem Balanced.two_pow_height {t : BinaryTree ν} (balanced : Balanced t) :
    2 ^ (t.height / 2) ≤ t.numNodes + 1 ∧
      ∀ bLeft, 2 ^ ((subtree bLeft t).height / 2) ≤ (subtree bLeft t).numNodes + 1 := by
  induction t with
  | nil =>
    have flat : 2 ^ ((nil : BinaryTree ν).height / 2) ≤ (nil : BinaryTree ν).numNodes + 1 := by
      rw [height, pow_zero]
      exact Nat.le_add_left 1 _
    exact ⟨flat, fun _ => flat⟩
  | node n l r left right =>
    obtain ⟨leftFit, rightFit, leftBalanced, rightBalanced⟩ := balanced
    obtain ⟨leftDeep, leftChildren⟩ := left leftBalanced
    obtain ⟨rightDeep, rightChildren⟩ := right rightBalanced
    constructor
    · change 2 ^ ((max l.height r.height + 1) / 2) ≤ l.numNodes + r.numNodes + 1 + 1
      rcases Nat.le_total l.height r.height with rightTall | leftTall
      · have bound := two_pow_succ_height rightFit rightChildren
        rw [Nat.max_eq_right rightTall]
        omega
      · have bound := two_pow_succ_height leftFit leftChildren
        rw [Nat.max_eq_left leftTall]
        omega
    · intro bLeft
      cases bLeft
      · exact rightDeep
      · exact leftDeep

/-! ## Rotations that bring the heavier child of a child up -/

/-- The inner child of `upper` comes up between the two. -/
def innerUp (bLeft : Bool) (upper : ν) (outer : BinaryTree ν) :
    BinaryTree ν → Option (ν × BinaryTree ν × BinaryTree ν)
  | nil => none
  | node m l r =>
    some (m, join bLeft upper outer (subtree bLeft (node m l r)), subtree (!bLeft) (node m l r))

/-- What comes up when the child `near` has a child larger than `far`: the new root, and
the trees on its near side and next to `far`. -/
def heavierUp (bLeft : Bool) (near far : BinaryTree ν) : Option (ν × BinaryTree ν × BinaryTree ν) :=
  match near with
  | nil => none
  | node upper l r =>
    let outer := subtree bLeft (node upper l r)
    let inner := subtree (!bLeft) (node upper l r)
    if far.numNodes < outer.numNodes then some (upper, outer, inner)
    else if far.numNodes < inner.numNodes then innerUp bLeft upper outer inner
    else none

section HeavierUp

variable {bLeft : Bool} {upper m : ν} {outer inner y x near far : BinaryTree ν}

theorem heavierUp_join :
    heavierUp bLeft (join bLeft upper outer inner) far =
      if far.numNodes < outer.numNodes then some (upper, outer, inner)
      else if far.numNodes < inner.numNodes then innerUp bLeft upper outer inner
      else none := by
  cases bLeft <;> rfl

theorem heavierUp_outer (heavier : far.numNodes < outer.numNodes) :
    heavierUp bLeft (join bLeft upper outer inner) far = some (upper, outer, inner) := by
  rw [heavierUp_join, if_pos heavier]

theorem heavierUp_inner (notOuter : ¬ far.numNodes < outer.numNodes)
    (heavier : far.numNodes < (join bLeft m y x).numNodes) :
    heavierUp bLeft (join bLeft upper outer (join bLeft m y x)) far =
      some (m, join bLeft upper outer y, x) := by
  rw [heavierUp_join, if_neg notOuter, if_pos heavier]
  cases bLeft <;> rfl

theorem heavierUp_eq_none_iff : heavierUp bLeft near far = none ↔ ChildrenFit near far := by
  cases near with
  | nil => exact iff_of_true rfl ⟨Nat.zero_le _, Nat.zero_le _⟩
  | node upper l r =>
    obtain ⟨outer, inner, parts⟩ := exists_join bLeft upper l r
    rw [parts, childrenFit_join, heavierUp_join]
    split
    · rename_i heavier
      exact iff_of_false (Option.some_ne_none _) (by omega)
    · split
      · rename_i heavier
        cases inner with
        | nil => exact absurd heavier (Nat.not_lt_zero _)
        | node m l' r' => exact iff_of_false (Option.some_ne_none _) (by omega)
      · exact iff_of_true rfl (by omega)

end HeavierUp

/-- The node `c` with its children, after the rotations. -/
def rebuild (bLeft : Bool) (c : ν) (near far : BinaryTree ν) : BinaryTree ν :=
  match heavierUp bLeft near far with
  | none => join bLeft c near far
  | some (upper, outer, inner) => join bLeft upper outer (join bLeft c inner far)

/-- The nodes that a rotation brings below each other are in balance. -/
def RotationFits (bLeft : Bool) (near far : BinaryTree ν) : Prop :=
  ∀ up ∈ heavierUp bLeft near far,
    ChildrenFit far up.2.2 ∧ ChildrenFit (subtree bLeft up.2.1) (subtree (!bLeft) up.2.1)
deriving Decidable

/-- A subtree has taken one node more: either the siblings of the whole still fit, or
the node is in one child and the other is the same. -/
structure Grows (t t' : BinaryTree ν) : Prop where
  balanced : Balanced t'
  count : t'.numNodes = t.numNodes + 1
  shape :
    (∀ sibling : BinaryTree ν, ChildrenFit t sibling → ChildrenFit t' sibling) ∨
      ∃ bLeft c near near' far,
        t = join bLeft c near far ∧ t' = join bLeft c near' far ∧ near'.numNodes = near.numNodes + 1

section Rebuild

variable {bLeft : Bool} {c : ν} {near near' far : BinaryTree ν}

theorem rebuild_of_none (up : heavierUp bLeft near far = none) :
    rebuild bLeft c near far = join bLeft c near far := by
  rw [rebuild, up]

variable {upper : ν}

theorem rebuild_of_some {outer inner : BinaryTree ν}
    (up : heavierUp bLeft near far = some (upper, outer, inner)) :
    rebuild bLeft c near far = join bLeft upper outer (join bLeft c inner far) := by
  rw [rebuild, up]

theorem Grows.rebuild_outer {outer outer' inner : BinaryTree ν}
    (balanced : Balanced (join bLeft c (join bLeft upper outer inner) far))
    (grown : Balanced (join bLeft upper outer' inner))
    (count : outer'.numNodes = outer.numNodes + 1) (heavier : far.numNodes < outer'.numNodes)
    (fits : RotationFits bLeft (join bLeft upper outer' inner) far) :
    Grows (join bLeft c (join bLeft upper outer inner) far)
      (rebuild bLeft c (join bLeft upper outer' inner) far) := by
  have up : heavierUp bLeft (join bLeft upper outer' inner) far = _ := heavierUp_outer heavier
  obtain ⟨farFits, -⟩ := fits _ up
  obtain ⟨nearFits, -, -, farBalanced⟩ := balanced_join.mp balanced
  obtain ⟨outerLess, innerLess⟩ := childrenFit_join.mp nearFits
  obtain ⟨outerFits, innerFits, outerBalanced, innerBalanced⟩ := balanced_join.mp grown
  rw [rebuild_of_some up]
  refine ⟨?_, ?_, Or.inl fun sibling whole => ?_⟩
  · refine balanced_join.mpr ⟨?_, ?_, outerBalanced, balanced_join.mpr ⟨?_, ?_, ?_, ?_⟩⟩
    · exact outerFits.mono (by rw [numNodes_join]; omega)
    · rw [childrenFit_join]
      omega
    · exact childrenFit_of_le (by omega)
    · exact farFits
    · exact innerBalanced
    · exact farBalanced
  · simp only [numNodes_join]
    omega
  · simp only [childrenFit_join, numNodes_join] at whole ⊢
    omega

theorem Grows.rebuild_inner {outer inner inner' : BinaryTree ν}
    (balanced : Balanced (join bLeft c (join bLeft upper outer inner) far))
    (grown : Balanced (join bLeft upper outer inner'))
    (count : inner'.numNodes = inner.numNodes + 1) (heavier : far.numNodes < inner'.numNodes)
    (fits : RotationFits bLeft (join bLeft upper outer inner') far) :
    Grows (join bLeft c (join bLeft upper outer inner) far)
      (rebuild bLeft c (join bLeft upper outer inner') far) := by
  cases inner' with
  | nil => exact absurd heavier (Nat.not_lt_zero _)
  | node m l r =>
    obtain ⟨y, x, parts⟩ := exists_join bLeft m l r
    rw [parts] at grown count heavier fits ⊢
    obtain ⟨nearFits, -, -, farBalanced⟩ := balanced_join.mp balanced
    obtain ⟨outerLess, innerLess⟩ := childrenFit_join.mp nearFits
    obtain ⟨outerFits, innerFits, outerBalanced, innerBalanced⟩ := balanced_join.mp grown
    obtain ⟨yFits, xFits, yBalanced, xBalanced⟩ := balanced_join.mp innerBalanced
    obtain ⟨yLess, xLess⟩ := childrenFit_join.mp innerFits
    have up :
        heavierUp bLeft (join bLeft upper outer (join bLeft m y x)) far = _ :=
      heavierUp_inner (Nat.not_lt.mpr outerLess) heavier
    obtain ⟨farFits, outerFits'⟩ := fits _ up
    dsimp only at farFits outerFits'
    rw [subtree_join, subtree_not_join] at outerFits'
    rw [rebuild_of_some up]
    rw [numNodes_join] at count heavier
    refine ⟨?_, ?_, Or.inl fun sibling whole => ?_⟩
    · refine balanced_join.mpr ⟨?_, ?_, balanced_join.mpr ⟨?_, ?_, ?_, ?_⟩,
        balanced_join.mpr ⟨?_, ?_, ?_, ?_⟩⟩
      · rw [childrenFit_join, numNodes_join]
        omega
      · rw [childrenFit_join, numNodes_join]
        omega
      · exact outerFits'
      · exact childrenFit_of_le (by omega)
      · exact outerBalanced
      · exact yBalanced
      · exact childrenFit_of_le (by omega)
      · exact farFits
      · exact xBalanced
      · exact farBalanced
    · simp only [numNodes_join]
      omega
    · simp only [childrenFit_join, numNodes_join] at whole ⊢
      omega

theorem Grows.rebuild (balanced : Balanced (join bLeft c near far)) (grows : Grows near near')
    (fits : RotationFits bLeft near' far) :
    Grows (join bLeft c near far) (rebuild bLeft c near' far) := by
  obtain ⟨nearFits, farFits, -, farBalanced⟩ := balanced_join.mp balanced
  obtain ⟨balanced', count, shape⟩ := grows
  by_cases light : ChildrenFit near' far
  · rw [rebuild_of_none (heavierUp_eq_none_iff.mpr light)]
    refine ⟨?_, ?_, Or.inr ⟨bLeft, c, near, near', far, rfl, rfl, count⟩⟩
    · exact balanced_join.mpr ⟨light, farFits.mono (by omega), balanced', farBalanced⟩
    · simp only [numNodes_join]
      omega
  · rcases shape with calm | ⟨side, upper, below, below', beside, rfl, rfl, belowCount⟩
    · exact absurd (calm far nearFits) light
    · rw [childrenFit_join] at light nearFits
      by_cases same : side = bLeft
      · subst same
        exact Grows.rebuild_outer balanced balanced' belowCount (by omega) fits
      · -- The node went to the inner side.
        have inner : side = !bLeft := Bool.eq_not_of_ne same
        subst inner
        rw [join_not] at balanced balanced' fits ⊢
        rw [join_not]
        exact Grows.rebuild_inner balanced balanced' belowCount (by omega) fits

end Rebuild

section Insert

/-- The node goes down to one side of each node, and the way up is rebuilt. -/
def insertOnce (goesLeft : ν → Bool) (n : ν) : BinaryTree ν → BinaryTree ν
  | nil => node n nil nil
  | node c l r =>
    if goesLeft c then rebuild true c (insertOnce goesLeft n l) r
    else rebuild false c (insertOnce goesLeft n r) l

/-- Every rotation on the way up leaves in balance what it brings together. -/
def InsertFits (goesLeft : ν → Bool) (n : ν) : BinaryTree ν → Prop
  | nil => True
  | node c l r =>
    if goesLeft c then
      InsertFits goesLeft n l ∧ RotationFits true (insertOnce goesLeft n l) r
    else InsertFits goesLeft n r ∧ RotationFits false (insertOnce goesLeft n r) l

instance InsertFits.decidable (goesLeft : ν → Bool) (n : ν) :
    ∀ t : BinaryTree ν, Decidable (InsertFits goesLeft n t)
  | nil => inferInstanceAs (Decidable True)
  | node c l r =>
    have := InsertFits.decidable goesLeft n l
    have := InsertFits.decidable goesLeft n r
    inferInstanceAs (Decidable (if goesLeft c then _ else _))

variable {goesLeft : ν → Bool} {n c : ν} {near far : BinaryTree ν}

theorem insertOnce_join {bLeft : Bool} (side : goesLeft c = bLeft) :
    insertOnce goesLeft n (join bLeft c near far) =
      rebuild bLeft c (insertOnce goesLeft n near) far := by
  cases bLeft
  · exact if_neg (Bool.eq_false_iff.mp side)
  · exact if_pos side

theorem insertFits_join {bLeft : Bool} (side : goesLeft c = bLeft) :
    InsertFits goesLeft n (join bLeft c near far) ↔
      InsertFits goesLeft n near ∧ RotationFits bLeft (insertOnce goesLeft n near) far := by
  cases bLeft
  · exact iff_of_eq (if_neg (Bool.eq_false_iff.mp side))
  · exact iff_of_eq (if_pos side)

theorem insertOnce_grows {t : BinaryTree ν} (balanced : Balanced t)
    (fits : InsertFits goesLeft n t) : Grows t (insertOnce goesLeft n t) := by
  induction t with
  | nil =>
    refine ⟨?_, rfl, Or.inl fun sibling _ => ⟨Nat.zero_le _, Nat.zero_le _⟩⟩
    exact ⟨⟨Nat.le_refl 0, Nat.le_refl 0⟩, ⟨Nat.le_refl 0, Nat.le_refl 0⟩, trivial, trivial⟩
  | node c l r left right =>
    have step {near far : BinaryTree ν} (balanced : Balanced (join (goesLeft c) c near far))
        (fits : InsertFits goesLeft n (join (goesLeft c) c near far))
        (below :
          Balanced near → InsertFits goesLeft n near → Grows near (insertOnce goesLeft n near)) :
        Grows (join (goesLeft c) c near far)
          (insertOnce goesLeft n (join (goesLeft c) c near far)) := by
      obtain ⟨belowFits, rotationFits⟩ := (insertFits_join rfl).mp fits
      obtain ⟨-, -, nearBalanced, -⟩ := balanced_join.mp balanced
      rw [insertOnce_join rfl]
      exact Grows.rebuild balanced (below nearBalanced belowFits) rotationFits
    cases side : goesLeft c
    · rw [side] at step
      exact step balanced fits right
    · rw [side] at step
      exact step balanced fits left

end Insert

end

end IteSdk.Lib
