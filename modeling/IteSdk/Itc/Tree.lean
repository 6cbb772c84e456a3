import IteSdk.Lib.Chain
import Mathlib.Logic.Relation

/-!
# Intrusive trees

`itc_tree.c`.  Pointers to nodes that an assertion keeps from being null are
nodes.  `none` stands for a null pointer that is followed, a failed assertion or
fuel that has run out.
-/

namespace IteSdk.Itc

section

open Lib

universe u

variable {ν : Type u}

/-- The fields of every `ITCTree`. -/
@[ext] structure ITCTrees (ν : Type u) where
  parent : ν → Option ν
  sibling : ν → Option ν
  child : ν → Option ν

namespace ITCTrees

variable [DecidableEq ν]

def setParent (trees : ITCTrees ν) (node : ν) (value : Option ν) : ITCTrees ν :=
  { trees with parent := Function.update trees.parent node value }

def setSibling (trees : ITCTrees ν) (node : ν) (value : Option ν) : ITCTrees ν :=
  { trees with sibling := Function.update trees.sibling node value }

def setChild (trees : ITCTrees ν) (node : ν) (value : Option ν) : ITCTrees ν :=
  { trees with child := Function.update trees.child node value }

/-- `node->parent->child = value`. -/
def setFirst (trees : ITCTrees ν) (node value : ν) : Option (ITCTrees ν) :=
  match trees.parent node with
  | none => none
  | some parent => some (trees.setChild parent (some value))

end ITCTrees

section Model

variable [DecidableEq ν]

def itcTreePushFront (trees : ITCTrees ν) (tree thisNode : ν) : ITCTrees ν :=
  let trees :=
    match trees.child tree with
    | none => trees.setSibling thisNode none
    | some child => trees.setSibling thisNode (some child)
  (trees.setChild tree (some thisNode)).setParent thisNode (some tree)

def itcTreePushBack (fuel : Nat) (trees : ITCTrees ν) (tree thisNode : ν) : Option (ITCTrees ν) :=
  let linked :=
    match trees.child tree with
    | none => some (trees.setChild tree (some thisNode))
    | some child =>
      (seek trees.sibling Option.isNone fuel child).map fun child =>
        trees.setSibling child (some thisNode)
  linked.map fun trees => (trees.setParent thisNode (some tree)).setSibling thisNode none

def itcTreeRemove (fuel : Nat) (trees : ITCTrees ν) (thisNode : ν) : Option (ITCTrees ν) :=
  match trees.parent thisNode with
  | none => some trees
  | some parent =>
    match trees.child parent with
    | none => none
    | some prevSibling =>
      let unlinked :=
        if prevSibling = thisNode then
          some (trees.setChild parent (trees.sibling thisNode))
        else
          (seek trees.sibling (· = some thisNode) fuel prevSibling).map
            fun prevSibling => trees.setSibling prevSibling (trees.sibling thisNode)
      unlinked.map fun trees => (trees.setSibling thisNode none).setParent thisNode none

/-- The loop of `itcTreeRotateFront`: the last child and the one before it. -/
def seekLast (sibling : ν → Option ν) : Nat → Option ν → ν → Option (Option ν × ν)
  | 0, _, _ => none
  | fuel + 1, prevChild, child =>
    match sibling child with
    | none => some (prevChild, child)
    | some next => seekLast sibling fuel (some child) next

def itcTreeRotateFront (fuel : Nat) (trees : ITCTrees ν) (tree : ν) : Option (ITCTrees ν) :=
  match trees.child tree with
  | none => some trees
  | some first =>
    if trees.sibling first = none then
      some trees
    else
      match seekLast trees.sibling fuel none first with
      | none => none
      | some (none, _) => none
      | some (some prevChild, child) =>
        let trees := trees.setSibling child (trees.child tree)
        let trees := trees.setChild tree (some child)
        some (trees.setSibling prevChild none)

def itcTreeRotateBack (fuel : Nat) (trees : ITCTrees ν) (tree : ν) : Option (ITCTrees ν) :=
  match trees.child tree with
  | none => some trees
  | some firstNode =>
    if trees.sibling firstNode = none then
      some trees
    else
      (seek trees.sibling Option.isNone fuel firstNode).map fun child =>
        let trees := trees.setChild tree (trees.sibling firstNode)
        let trees := trees.setSibling child (some firstNode)
        trees.setSibling firstNode none

/-- What each branch of `itcTreeSwap` for one parent ends with: the nodes are
exchanged when nothing leads to `firstNode` any more and `secondNode` is behind
it. -/
def exchangeSiblings (fuel : Nat) (trees : ITCTrees ν)
    (firstNode secondNode : ν) : Option (ITCTrees ν) :=
  if trees.sibling firstNode = some secondNode then
    let trees := trees.setSibling firstNode (trees.sibling secondNode)
    some (trees.setSibling secondNode (some firstNode))
  else
    match trees.sibling firstNode with
    | none => none
    | some prevSibling =>
      (seek trees.sibling (· = some secondNode) fuel prevSibling).map
        fun prevSibling =>
          let trees := trees.setSibling prevSibling (some firstNode)
          let tempSibling := trees.sibling firstNode
          let trees := trees.setSibling firstNode (trees.sibling secondNode)
          trees.setSibling secondNode tempSibling

/-- The part of `itcTreeSwap` for nodes with one parent. -/
def swapSiblings (fuel : Nat) (trees : ITCTrees ν)
    (parent firstNode secondNode : ν) : Option (ITCTrees ν) :=
  match trees.child parent with
  | none => none
  | some prevSibling =>
    if prevSibling = firstNode then
      (trees.setFirst prevSibling secondNode).bind fun trees =>
        exchangeSiblings fuel trees firstNode secondNode
    else if prevSibling = secondNode then
      (trees.setFirst prevSibling firstNode).bind fun trees =>
        exchangeSiblings fuel trees secondNode firstNode
    else
      (seek trees.sibling (fun next => next = some firstNode || next = some secondNode) fuel
        prevSibling).bind fun prevSibling =>
          if trees.sibling prevSibling = some firstNode then
            exchangeSiblings fuel (trees.setSibling prevSibling (some secondNode)) firstNode
              secondNode
          else if trees.sibling prevSibling = some secondNode then
            exchangeSiblings fuel (trees.setSibling prevSibling (some firstNode)) secondNode
              firstNode
          else
            some trees

/-- `itcTreeSwap` lets what leads to a node lead to another one. -/
def replaceChild (fuel : Nat) (trees : ITCTrees ν) (parent node other : ν) : Option (ITCTrees ν) :=
  match trees.child parent with
  | none => none
  | some prevSibling =>
    if prevSibling = node then
      trees.setFirst prevSibling other
    else
      (seek trees.sibling (· = some node) fuel prevSibling).map
        fun prevSibling => trees.setSibling prevSibling (some other)

/-- The end of `itcTreeSwap` for nodes with different parents. -/
def exchangeFields (trees : ITCTrees ν) (firstNode secondNode : ν) : ITCTrees ν :=
  let tempParent := trees.parent firstNode
  let tempSibling := trees.sibling firstNode
  let trees := trees.setParent firstNode (trees.parent secondNode)
  let trees := trees.setSibling firstNode (trees.sibling secondNode)
  let trees := trees.setParent secondNode tempParent
  trees.setSibling secondNode tempSibling

def itcTreeSwap (fuel : Nat) (trees : ITCTrees ν) (firstNode secondNode : ν) :
    Option (ITCTrees ν) :=
  if firstNode = secondNode then
    none
  else
    match trees.parent firstNode with
    | none => some trees
    | some firstParent =>
      match trees.parent secondNode with
      | none => some trees
      | some secondParent =>
        if firstParent = secondParent then
          swapSiblings fuel trees firstParent firstNode secondNode
        else
          ((replaceChild fuel trees firstParent firstNode secondNode).bind
            fun trees => replaceChild fuel trees secondParent secondNode firstNode).map
            fun trees => exchangeFields trees firstNode secondNode

end Model

end

/-!
# Forests of intrusive trees

`WellLinked` says which child lists the pointers stand for.  Every operation of
`itc_tree.c` but `itcTreeSwap` changes one list.
-/

section

open Lib

universe u

variable {ν : Type u}

def ChildOf (kids : ν → List ν) (parent node : ν) : Prop := node ∈ kids parent

/-- `node` is `tree` or above it. -/
def Above (kids : ν → List ν) : ν → ν → Prop := Relation.ReflTransGen (ChildOf kids)

def Acyclic (kids : ν → List ν) : Prop := ∀ node, ¬ Relation.TransGen (ChildOf kids) node node

/-- The pointers stand for a forest with these child lists. -/
structure WellLinked (trees : ITCTrees ν) (kids : ν → List ν) : Prop where
  linked : ∀ p, Chain trees.sibling (trees.child p) (kids p) none
  parent_iff : ∀ p n, n ∈ kids p ↔ trees.parent n = some p
  root : ∀ n, trees.parent n = none → trees.sibling n = none
  acyclic : Acyclic kids

namespace WellLinked

variable {trees : ITCTrees ν} {kids : ν → List ν}

section

variable (forest : WellLinked trees kids)

include forest

theorem nodup (p : ν) : (kids p).Nodup := (forest.linked p).nodup

theorem parent_unique {n p q : ν} (first : n ∈ kids p) (second : n ∈ kids q) : p = q := by
  rw [forest.parent_iff] at first second
  exact Option.some.inj (first.symm.trans second)

theorem notMem_of_root {n : ν} (root : trees.parent n = none) (p : ν) : n ∉ kids p := by
  rw [forest.parent_iff, root]
  simp

theorem sibling_mem {n m : ν} (leads : trees.sibling n = some m) :
    ∃ p, n ∈ kids p ∧ m ∈ kids p := by
  cases above : trees.parent n with
  | none =>
    rw [forest.root n above] at leads
    cases leads
  | some p =>
    have inside := (forest.parent_iff p n).mpr above
    exact ⟨p, inside, (forest.linked p).next_mem inside leads⟩

theorem child_ne_sibling {p n m : ν} (first : trees.child p = some m) :
    trees.sibling n ≠ some m := by
  intro leads
  obtain ⟨q, inside, leadsInside⟩ := forest.sibling_mem leads
  have start := (forest.linked p).start_mem first
  obtain rfl := forest.parent_unique start leadsInside
  have chain := forest.linked p
  rw [first] at chain
  exact chain.next_ne_start inside leads

theorem sibling_injective {n k m : ν} (first : trees.sibling n = some m)
    (second : trees.sibling k = some m) :
    n = k := by
  obtain ⟨p, firstInside, inside⟩ := forest.sibling_mem first
  obtain ⟨q, secondInside, insideToo⟩ := forest.sibling_mem second
  obtain rfl := forest.parent_unique inside insideToo
  exact (forest.linked p).next_injective firstInside secondInside first second

theorem exists_first {p n : ν} (inside : n ∈ kids p) : ∃ first, trees.child p = some first := by
  cases start : trees.child p with
  | none =>
    have chain := forest.linked p
    rw [start] at chain
    have empty : kids p = [] := chain.unique rfl
    rw [empty] at inside
    cases inside
  | some first =>
    exact ⟨first, rfl⟩

theorem seek_last {tree first : ν} (start : trees.child tree = some first) {fuel : Nat}
    (enough : (kids tree).length ≤ fuel) :
    ∃ front last, kids tree = front ++ [last] ∧
      Chain trees.sibling (some first) front (some last) ∧
      trees.sibling last = none ∧
      seek trees.sibling Option.isNone fuel first = some last := by
  have chain := forest.linked tree
  rcases List.eq_nil_or_concat (kids tree) with empty | ⟨front, last, parts⟩
  · rw [empty, start] at chain
    cases (chain : some first = none)
  · rw [List.concat_eq_append] at parts
    rw [parts, start] at chain
    rw [parts, List.length_append, List.length_singleton] at enough
    obtain ⟨before, stops⟩ := chain_split.mp chain
    refine ⟨front, last, parts, before, stops, ?_⟩
    exact seek_chain chain (fun _ _ => rfl) rfl enough

end

end WellLinked

variable {kids kids' : ν → List ν}

theorem Acyclic.mono (acyclic : Acyclic kids)
    (fewer : ∀ p n, n ∈ kids' p → n ∈ kids p) : Acyclic kids' :=
  fun node cycle => acyclic node (Relation.TransGen.mono fewer _ _ cycle)

/-- A path along the old edges and one more either does without it or goes
through it. -/
theorem transGen_of_added {tree node : ν}
    (added : ∀ p n, n ∈ kids' p → n ∈ kids p ∨ p = tree ∧ n = node) {a b : ν}
    (path : Relation.TransGen (ChildOf kids') a b) :
    Relation.TransGen (ChildOf kids) a b ∨ Above kids a tree ∧ Above kids node b := by
  induction path with
  | single edge =>
    rcases added _ _ edge with old | ⟨rfl, rfl⟩
    · exact Or.inl (.single old)
    · exact Or.inr ⟨.refl, .refl⟩
  | tail _ edge ih =>
    rcases added _ _ edge with old | ⟨rfl, rfl⟩
    · rcases ih with path | ⟨above, below⟩
      · exact Or.inl (path.tail old)
      · exact Or.inr ⟨above, below.tail old⟩
    · rcases ih with path | ⟨above, _⟩
      · exact Or.inr ⟨path.to_reflTransGen, .refl⟩
      · exact Or.inr ⟨above, .refl⟩

theorem Acyclic.added {tree node : ν} (acyclic : Acyclic kids) (apart : ¬ Above kids node tree)
    (added : ∀ p n, n ∈ kids' p → n ∈ kids p ∨ p = tree ∧ n = node) :
    Acyclic kids' := by
  intro n cycle
  rcases transGen_of_added added cycle with old | ⟨above, below⟩
  · exact acyclic n old
  · exact apart (below.trans above)

theorem seekLast_chain {sibling : ν → Option ν} (front : List ν) :
    ∀ {first q r : ν} {before : Option ν} {fuel : Nat},
      Chain sibling (some first) (front ++ [q, r]) none →
      front.length + 1 < fuel →
      seekLast sibling fuel before first = some (some q, r) := by
  induction front with
  | nil =>
    intro first q r before fuel chain enough
    obtain ⟨fuel, rfl⟩ : ∃ fewer, fuel = fewer + 2 :=
      ⟨fuel - 2, by rw [List.length_nil] at enough; omega⟩
    obtain ⟨same, leads, stops⟩ := chain
    obtain rfl := Option.some.inj same
    have atEnd : sibling r = none := stops
    rw [seekLast, leads]
    dsimp only
    rw [seekLast, atEnd]
  | cons n front ih =>
    intro first q r before fuel chain enough
    obtain ⟨fuel, rfl⟩ : ∃ fewer, fuel = fewer + 1 := ⟨fuel - 1, by omega⟩
    obtain ⟨same, later⟩ : some first = some n ∧
        Chain sibling (sibling n) (front ++ [q, r]) none := chain
    obtain rfl := Option.some.inj same
    obtain ⟨m, leads⟩ : ∃ m, sibling first = some m := by
      cases front with
      | nil => exact ⟨q, later.1⟩
      | cons m _ => exact ⟨m, later.1⟩
    rw [leads] at later
    rw [seekLast, leads]
    dsimp only
    apply ih later
    rw [List.length_cons] at enough
    omega

/-- The child list of `itcTreeRotateFront`. -/
def rotateFront (nodes : List ν) : List ν :=
  match nodes.getLast? with
  | none => []
  | some last => last :: nodes.dropLast

/-- The child list of `itcTreeRotateBack`. -/
def rotateBack : List ν → List ν
  | [] => []
  | first :: rest => rest ++ [first]

@[simp] theorem rotateFront_concat (front : List ν) (last : ν) :
    rotateFront (front ++ [last]) = last :: front := by
  simp [rotateFront]

section OneList

variable [DecidableEq ν] {trees trees' : ITCTrees ν} {kids : ν → List ν}
  {tree node : ν} {nodes : List ν}

namespace WellLinked

section

variable (forest : WellLinked trees kids)

include forest

theorem linked_update (child : ∀ p, p ≠ tree → trees'.child p = trees.child p)
    (sibling : ∀ p n, p ≠ tree → n ∈ kids p → trees'.sibling n = trees.sibling n)
    (chain : Chain trees'.sibling (trees'.child tree) nodes none) (p : ν) :
    Chain trees'.sibling (trees'.child p) (Function.update kids tree nodes p) none := by
  by_cases same : p = tree
  · subst same
    rw [Function.update_self]
    exact chain
  · rw [Function.update_of_ne same, child p same]
    exact (forest.linked p).congr fun n member => sibling p n same member

theorem pushed (isRoot : trees.parent node = none) (apart : ¬ Above kids node tree)
    (members : ∀ n, n ∈ nodes ↔ n = node ∨ n ∈ kids tree)
    (parent : trees'.parent = Function.update trees.parent node (some tree))
    (child : ∀ p, p ≠ tree → trees'.child p = trees.child p)
    (sibling : ∀ n, n ≠ node → n ∉ kids tree → trees'.sibling n = trees.sibling n)
    (chain : Chain trees'.sibling (trees'.child tree) nodes none) :
    WellLinked trees' (Function.update kids tree nodes) where
  linked := by
    apply forest.linked_update child _ chain
    intro p n other member
    apply sibling n
    · rintro rfl
      exact forest.notMem_of_root isRoot p member
    · intro inside
      exact other (forest.parent_unique member inside)
  parent_iff p n := by
    rw [parent]
    by_cases isNode : n = node
    · subst isNode
      rw [Function.update_self]
      by_cases same : p = tree
      · subst same
        simp [members]
      · rw [Function.update_of_ne same]
        simp [forest.notMem_of_root isRoot p, Ne.symm same]
    · rw [Function.update_of_ne isNode, ← forest.parent_iff]
      by_cases same : p = tree
      · subst same
        simp [members, isNode]
      · rw [Function.update_of_ne same]
  root n isRoot' := by
    rw [parent] at isRoot'
    by_cases isNode : n = node
    · subst isNode
      simp at isRoot'
    · rw [Function.update_of_ne isNode] at isRoot'
      rw [sibling n isNode (forest.notMem_of_root isRoot' tree)]
      exact forest.root n isRoot'
  acyclic := by
    apply forest.acyclic.added apart
    intro p n member
    by_cases same : p = tree
    · subst same
      rw [Function.update_self, members] at member
      exact member.symm.imp_right fun isNode => ⟨rfl, isNode⟩
    · rw [Function.update_of_ne same] at member
      exact Or.inl member

theorem rearranged (members : ∀ n, n ∈ nodes ↔ n ∈ kids tree)
    (parent : trees'.parent = trees.parent) (child : ∀ p, p ≠ tree → trees'.child p = trees.child p)
    (sibling : ∀ n, n ∉ kids tree → trees'.sibling n = trees.sibling n)
    (chain : Chain trees'.sibling (trees'.child tree) nodes none) :
    WellLinked trees' (Function.update kids tree nodes) where
  linked := by
    apply forest.linked_update child _ chain
    intro p n other member
    exact sibling n fun inside => other (forest.parent_unique member inside)
  parent_iff p n := by
    rw [parent, ← forest.parent_iff]
    by_cases same : p = tree
    · subst same
      rw [Function.update_self, members]
    · rw [Function.update_of_ne same]
  root n isRoot := by
    rw [parent] at isRoot
    rw [sibling n (forest.notMem_of_root isRoot tree)]
    exact forest.root n isRoot
  acyclic := by
    apply forest.acyclic.mono
    intro p n member
    by_cases same : p = tree
    · subst same
      rwa [Function.update_self, members] at member
    · rwa [Function.update_of_ne same] at member

theorem removed (inside : node ∈ kids tree) (members : ∀ n, n ∈ nodes ↔ n ≠ node ∧ n ∈ kids tree)
    (parent : trees'.parent = Function.update trees.parent node none)
    (child : ∀ p, p ≠ tree → trees'.child p = trees.child p) (cleared : trees'.sibling node = none)
    (sibling : ∀ n, n ∉ kids tree → trees'.sibling n = trees.sibling n)
    (chain : Chain trees'.sibling (trees'.child tree) nodes none) :
    WellLinked trees' (Function.update kids tree nodes) where
  linked := by
    apply forest.linked_update child _ chain
    intro p n other member
    exact sibling n fun here => other (forest.parent_unique member here)
  parent_iff p n := by
    rw [parent]
    by_cases isNode : n = node
    · subst isNode
      rw [Function.update_self]
      by_cases same : p = tree
      · subst same
        simp [members]
      · rw [Function.update_of_ne same]
        simp only [reduceCtorEq, iff_false]
        intro member
        exact same (forest.parent_unique member inside)
    · rw [Function.update_of_ne isNode, ← forest.parent_iff]
      by_cases same : p = tree
      · subst same
        simp [members, isNode]
      · rw [Function.update_of_ne same]
  root n isRoot := by
    rw [parent] at isRoot
    by_cases isNode : n = node
    · subst isNode
      exact cleared
    · rw [Function.update_of_ne isNode] at isRoot
      rw [sibling n (forest.notMem_of_root isRoot tree)]
      exact forest.root n isRoot
  acyclic := by
    apply forest.acyclic.mono
    intro p n member
    by_cases same : p = tree
    · subst same
      rw [Function.update_self, members] at member
      exact member.2
    · rwa [Function.update_of_ne same] at member

end

end WellLinked

theorem itcTreePushFront_linked (forest : WellLinked trees kids)
    (isRoot : trees.parent node = none) (apart : ¬ Above kids node tree) :
    WellLinked (itcTreePushFront trees tree node)
      (Function.update kids tree (node :: kids tree)) := by
  have fields :
      itcTreePushFront trees tree node =
        { parent := Function.update trees.parent node (some tree)
          sibling := Function.update trees.sibling node (trees.child tree)
          child := Function.update trees.child tree (some node) } := by
    rw [itcTreePushFront]
    cases trees.child tree <;> rfl
  rw [fields]
  apply forest.pushed isRoot apart
  · intro n
    exact List.mem_cons
  · rfl
  · intro p other
    exact Function.update_of_ne other _ _
  · intro n other _
    exact Function.update_of_ne other _ _
  · refine ⟨Function.update_self tree _ _, ?_⟩
    dsimp only
    rw [Function.update_self]
    exact (forest.linked tree).update_of_notMem (forest.notMem_of_root isRoot tree) _

variable {fuel : Nat}

section

variable (forest : WellLinked trees kids)

include forest

theorem itcTreePushBack_linked (isRoot : trees.parent node = none)
    (apart : ¬ Above kids node tree) (enough : (kids tree).length ≤ fuel) :
    ∃ trees', itcTreePushBack fuel trees tree node = some trees' ∧
      WellLinked trees' (Function.update kids tree (kids tree ++ [node])) := by
  have members : ∀ n, n ∈ kids tree ++ [node] ↔ n = node ∨ n ∈ kids tree := by
    intro n
    rw [List.mem_append, List.mem_singleton, or_comm]
  have absent := forest.notMem_of_root isRoot tree
  rw [itcTreePushBack]
  cases start : trees.child tree with
  | none =>
    have chain := forest.linked tree
    rw [start] at chain
    have empty : kids tree = [] := chain.unique rfl
    refine ⟨_, rfl, forest.pushed isRoot apart members rfl ?_ ?_ ?_⟩
    · intro p other
      exact Function.update_of_ne other _ _
    · intro n other _
      exact Function.update_of_ne other _ _
    · rw [empty]
      exact ⟨Function.update_self tree _ _, Function.update_self node _ _⟩
  | some first =>
    obtain ⟨front, last, parts, before, _, found⟩ := forest.seek_last start enough
    have nodup := forest.nodup tree
    rw [parts] at nodup absent
    have lastNew : last ∉ front := (List.nodup_append_comm.mp nodup).notMem
    dsimp only
    rw [found]
    refine ⟨_, rfl, forest.pushed isRoot apart members rfl ?_ ?_ ?_⟩
    · intro p other
      rfl
    · intro n other outside
      have notLast : n ≠ last := by
        rintro rfl
        exact outside (by rw [parts]; simp)
      exact (Function.update_of_ne other _ _).trans (Function.update_of_ne notLast _ _)
    · rw [parts]
      refine chain_split.mpr ⟨?_, Function.update_self node _ _⟩
      have longer := before.redirect lastNew (some node)
      rw [← start] at longer
      exact longer.update_of_notMem absent none

theorem itcTreeRemove_linked (inside : node ∈ kids tree) (enough : (kids tree).length ≤ fuel) :
    ∃ trees', itcTreeRemove fuel trees node = some trees' ∧
      WellLinked trees' (Function.update kids tree ((kids tree).erase node)) := by
  have nodup := forest.nodup tree
  have members :
      ∀ n, n ∈ (kids tree).erase node ↔ n ≠ node ∧ n ∈ kids tree :=
    fun n => nodup.mem_erase_iff
  have chain := forest.linked tree
  have parent := (forest.parent_iff tree node).mp inside
  obtain ⟨front, rest, parts⟩ := List.append_of_mem inside
  rw [parts] at nodup chain
  obtain ⟨before, behind⟩ := chain_split.mp chain
  have notFront : node ∉ front := by
    intro again
    exact (List.nodup_append.mp nodup).2.2 node again node List.mem_cons_self rfl
  have notRest : node ∉ rest := (List.nodup_cons.mp (List.nodup_append.mp nodup).2.1).1
  have erased : (kids tree).erase node = front ++ rest := by
    rw [parts, List.erase_append_right _ notFront, List.erase_cons_head]
  rw [itcTreeRemove, parent]
  dsimp only
  cases start : trees.child tree with
  | none =>
    rw [start] at before
    cases front with
    | nil => cases before
    | cons first front => cases before.1
  | some first =>
    dsimp only
    by_cases isFirst : first = node
    · subst isFirst
      rw [start] at before
      have empty : front = [] := by
        cases front with
        | nil => rfl
        | cons other front =>
          cases before.1
          simp at notFront
      rw [if_pos rfl]
      refine ⟨_, rfl, forest.removed inside members rfl ?_ ?_ ?_ ?_⟩
      · intro p other
        exact Function.update_of_ne other _ _
      · exact Function.update_self first _ _
      · intro n outside
        have other : n ≠ first := ne_of_mem_of_not_mem inside outside |>.symm
        exact Function.update_of_ne other _ _
      · rw [erased, empty, List.nil_append]
        have later := behind.update_of_notMem notRest none
        rw [← Function.update_self tree (trees.sibling first) trees.child]
          at later
        exact later
    · rw [start] at chain
      have short : front.length ≤ fuel := by
        rw [parts, List.length_append] at enough
        omega
      obtain ⟨earlier, last, rfl, toLast, leads, found⟩ := chain.seek_node isFirst short
      rw [if_neg isFirst, found]
      have disjoint := (List.nodup_append.mp nodup).2.2
      have lastNew : last ∉ earlier :=
        (List.nodup_append_comm.mp (List.nodup_append.mp nodup).1).notMem
      have lastNotRest : last ∉ rest := by
        intro again
        exact disjoint last (by simp) last (List.mem_cons_of_mem node again) rfl
      have lastInside : last ∈ kids tree := by
        rw [parts]
        simp
      refine ⟨_, rfl, forest.removed inside members rfl ?_ ?_ ?_ ?_⟩
      · intro p other
        rfl
      · exact Function.update_self node _ _
      · intro n outside
        have other : n ≠ node := (ne_of_mem_of_not_mem inside outside).symm
        have notLast : n ≠ last := (ne_of_mem_of_not_mem lastInside outside).symm
        exact (Function.update_of_ne other _ _).trans (Function.update_of_ne notLast _ _)
      · rw [erased]
        have shorter :
            Chain (Function.update trees.sibling last (trees.sibling node))
              (trees.child tree) (earlier ++ [last] ++ rest) none :=
          chain_append.mpr
            ⟨trees.sibling node, start ▸ toLast.redirect lastNew _,
              behind.update_of_notMem lastNotRest _⟩
        have absent : node ∉ earlier ++ [last] ++ rest := by
          rw [List.mem_append]
          exact not_or.mpr ⟨notFront, notRest⟩
        exact shorter.update_of_notMem absent none

theorem WellLinked.update_same (same : nodes = kids tree) :
    WellLinked trees (Function.update kids tree nodes) := by
  rw [same, Function.update_eq_self]
  exact forest

theorem itcTreeRotateFront_linked (enough : (kids tree).length ≤ fuel) :
    ∃ trees', itcTreeRotateFront fuel trees tree = some trees' ∧
      WellLinked trees' (Function.update kids tree (rotateFront (kids tree))) := by
  have chain := forest.linked tree
  rw [itcTreeRotateFront]
  cases start : trees.child tree with
  | none =>
    rw [start] at chain
    have empty : kids tree = [] := chain.unique rfl
    exact ⟨trees, rfl, forest.update_same (by rw [empty]; rfl)⟩
  | some first =>
    dsimp only
    by_cases single : trees.sibling first = none
    · rw [start] at chain
      have one : kids tree = [first] := chain.unique ⟨rfl, single⟩
      rw [if_pos single]
      exact ⟨trees, rfl, forest.update_same (by rw [one]; rfl)⟩
    · rw [if_neg single]
      obtain ⟨longer, last, parts, toLast, _, _⟩ := forest.seek_last start (Nat.le_refl _)
      rcases List.eq_nil_or_concat longer with rfl | ⟨front, q, rfl⟩
      · rw [List.nil_append] at parts
        rw [parts, start] at chain
        obtain ⟨same, stops⟩ := chain
        obtain rfl := Option.some.inj same
        exact absurd stops single
      · rw [List.concat_eq_append] at parts toLast
        have nodup := forest.nodup tree
        rw [parts] at chain nodup enough ⊢
        obtain ⟨unlike, lastNew⟩ := nodup_append_singleton.mp nodup
        obtain ⟨_, qNew⟩ := nodup_append_singleton.mp unlike
        obtain ⟨toQ, _⟩ := chain_split.mp toLast
        have found :
            seekLast trees.sibling fuel none first = some (some q, last) := by
          rw [start, List.append_assoc] at chain
          apply seekLast_chain front chain
          rw [List.length_append, List.length_append,
            List.length_singleton, List.length_singleton] at enough
          omega
        have notQ : last ≠ q := by
          rintro rfl
          exact lastNew (by simp)
        rw [found]
        refine ⟨_, rfl, forest.rearranged ?_ rfl ?_ ?_ ?_⟩
        · intro n
          rw [rotateFront_concat, parts, List.mem_append, List.mem_cons,
            List.mem_singleton, or_comm]
        · intro p other
          exact Function.update_of_ne other _ _
        · intro n outside
          rw [parts] at outside
          have isOther : n ≠ q := by
            rintro rfl
            exact outside (by simp)
          have notLast : n ≠ last := by
            rintro rfl
            exact outside (by simp)
          exact (Function.update_of_ne isOther _ _).trans (Function.update_of_ne notLast _ _)
        · rw [rotateFront_concat]
          refine ⟨Function.update_self tree _ _, ?_⟩
          have lastNotFront : last ∉ front := by
            intro inside
            exact lastNew (List.mem_append_left [q] inside)
          have shorter := (toQ.update_of_notMem lastNotFront (some first)).redirect qNew none
          have leads :
              (((trees.setSibling last (some first)).setChild tree
                  (some last)).setSibling q none).sibling last =
                some first :=
            (Function.update_of_ne notQ _ _).trans (Function.update_self last _ _)
          rw [leads]
          exact shorter

theorem itcTreeRotateBack_linked (enough : (kids tree).length ≤ fuel) :
    ∃ trees', itcTreeRotateBack fuel trees tree = some trees' ∧
      WellLinked trees' (Function.update kids tree (rotateBack (kids tree))) := by
  have chain := forest.linked tree
  rw [itcTreeRotateBack]
  cases start : trees.child tree with
  | none =>
    rw [start] at chain
    have empty : kids tree = [] := chain.unique rfl
    exact ⟨trees, rfl, forest.update_same (by rw [empty]; rfl)⟩
  | some first =>
    dsimp only
    by_cases single : trees.sibling first = none
    · rw [start] at chain
      have one : kids tree = [first] := chain.unique ⟨rfl, single⟩
      rw [if_pos single]
      exact ⟨trees, rfl, forest.update_same (by rw [one]; rfl)⟩
    · rw [if_neg single]
      obtain ⟨longer, last, parts, toLast, stops, found⟩ := forest.seek_last start enough
      cases longer with
      | nil =>
        obtain rfl := Option.some.inj toLast
        exact absurd stops single
      | cons other middle =>
        obtain ⟨same, toLast⟩ := toLast
        obtain rfl := Option.some.inj same
        have nodup := forest.nodup tree
        rw [parts] at nodup
        rw [List.cons_append] at nodup parts
        obtain ⟨firstNew, nodup⟩ := List.nodup_cons.mp nodup
        obtain ⟨_, lastNew⟩ := nodup_append_singleton.mp nodup
        have notFirst : last ≠ first := by
          rintro rfl
          exact firstNew (by simp)
        rw [found]
        refine ⟨_, rfl, forest.rearranged ?_ rfl ?_ ?_ ?_⟩
        · intro n
          rw [parts, rotateBack, List.mem_append, List.mem_singleton, List.mem_cons, or_comm]
        · intro p other
          exact Function.update_of_ne other _ _
        · intro n outside
          rw [parts] at outside
          have isOther : n ≠ first := by
            rintro rfl
            exact outside (by simp)
          have notLast : n ≠ last := by
            rintro rfl
            exact outside (by simp)
          exact (Function.update_of_ne isOther _ _).trans (Function.update_of_ne notLast _ _)
        · rw [parts, rotateBack]
          have longer := (toLast.redirect lastNew (some first)).redirect firstNew none
          rw [← Function.update_self tree (trees.sibling first) trees.child] at longer
          exact longer

end

end OneList

end

end IteSdk.Itc
