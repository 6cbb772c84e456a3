import IteSdk.Itc.Tree

/-!
# Exchanging two nodes

`itcTreeSwap` exchanges two nodes in all pointers, so that every child list is
the old one with the two nodes exchanged.
-/

namespace IteSdk.Itc

section

open Lib

universe u

variable {ν : Type u} [DecidableEq ν]

section Cycles

variable {kids : ν → List ν} {a b : ν}

def swapLists (kids : ν → List ν) (a b p : ν) : List ν := (kids p).map (Equiv.swap a b)

theorem mem_swapLists {p n : ν} : n ∈ swapLists kids a b p ↔ Equiv.swap a b n ∈ kids p := by
  rw [swapLists, List.mem_map]
  constructor
  · rintro ⟨m, member, rfl⟩
    rw [Equiv.swap_apply_self]
    exact member
  · intro member
    exact ⟨_, member, Equiv.swap_apply_self a b n⟩

theorem mem_swapLists_of_ne {p n : ν} (notFirst : n ≠ a) (notSecond : n ≠ b)
    (edge : ChildOf (swapLists kids a b) p n) : ChildOf kids p n := by
  have inside := mem_swapLists.mp edge
  rwa [Equiv.swap_apply_of_ne_of_ne notFirst notSecond] at inside

/-- Whoever is above a node in the new forest, or one of the exchanged nodes, was
above it. -/
theorem above_swapLists {x y : ν} (path : Above (swapLists kids a b) x y) :
    Above kids x y ∨ Above kids a y ∨ Above kids b y := by
  induction path with
  | refl =>
    exact Or.inl .refl
  | @tail y z _ edge ih =>
    by_cases isFirst : z = a
    · exact Or.inr (Or.inl (isFirst ▸ .refl))
    · by_cases isSecond : z = b
      · exact Or.inr (Or.inr (isSecond ▸ .refl))
      · have old := mem_swapLists_of_ne isFirst isSecond edge
        exact ih.imp (·.tail old) (Or.imp (·.tail old) (·.tail old))

theorem transGen_swapLists {x y : ν} (path : Relation.TransGen (ChildOf (swapLists kids a b)) x y) :
    Relation.TransGen (ChildOf kids) x y ∨
      ∃ s, (s = a ∨ s = b) ∧ Relation.TransGen (ChildOf (swapLists kids a b)) x s ∧
        Above (swapLists kids a b) s y := by
  induction path with
  | @single y edge =>
    by_cases special : y = a ∨ y = b
    · exact Or.inr ⟨y, special, .single edge, .refl⟩
    · obtain ⟨notFirst, notSecond⟩ := not_or.mp special
      exact Or.inl (.single (mem_swapLists_of_ne notFirst notSecond edge))
  | @tail y z path edge ih =>
    by_cases special : z = a ∨ z = b
    · exact Or.inr ⟨z, special, path.tail edge, .refl⟩
    · obtain ⟨notFirst, notSecond⟩ := not_or.mp special
      rcases ih with old | ⟨s, isSpecial, toIt, behind⟩
      · exact Or.inl (old.tail (mem_swapLists_of_ne notFirst notSecond edge))
      · exact Or.inr ⟨s, isSpecial, toIt, behind.tail edge⟩

theorem swapLists_comm : swapLists kids a b = swapLists kids b a := by
  funext p
  rw [swapLists, swapLists, Equiv.swap_comm]

theorem no_cycle_swapLists (acyclic : Acyclic kids) (apart : ¬ Above kids a b) :
    ¬ Relation.TransGen (ChildOf (swapLists kids a b)) a a := by
  intro cycle
  obtain ⟨q, path, edge⟩ := Relation.TransGen.tail'_iff.mp cycle
  have old : b ∈ kids q := by
    have inside := mem_swapLists.mp edge
    rwa [Equiv.swap_apply_left] at inside
  rcases above_swapLists path with above | above | above
  · exact apart (above.tail old)
  · exact apart (above.tail old)
  · exact acyclic b (Relation.TransGen.tail'_iff.mpr ⟨q, above, old⟩)

theorem Acyclic.swap (acyclic : Acyclic kids) (apart : ¬ Above kids a b)
    (apart' : ¬ Above kids b a) : Acyclic (swapLists kids a b) := by
  intro n cycle
  rcases transGen_swapLists cycle with old | ⟨s, special, toIt, behind⟩
  · exact acyclic n old
  · have again : Relation.TransGen (ChildOf (swapLists kids a b)) s s :=
      Relation.TransGen.trans_right behind toIt
    rcases special with rfl | rfl
    · exact no_cycle_swapLists acyclic apart again
    · rw [swapLists_comm] at again
      exact no_cycle_swapLists acyclic apart' again

end Cycles

section Pointers

variable {trees : ITCTrees ν} {kids : ν → List ν} {a b : ν}

/-- The pointers with two nodes exchanged; each keeps its own children. -/
def ITCTrees.swapped (trees : ITCTrees ν) (a b : ν) : ITCTrees ν where
  parent n := trees.parent (Equiv.swap a b n)
  sibling n := (trees.sibling (Equiv.swap a b n)).map (Equiv.swap a b)
  child p := (trees.child p).map (Equiv.swap a b)

theorem WellLinked.swapped (forest : WellLinked trees kids)
    (apart : ¬ Above kids a b) (apart' : ¬ Above kids b a) :
    WellLinked (trees.swapped a b) (swapLists kids a b) where
  linked p := by
    have chain := (forest.linked p).map (Equiv.swap a b)
    rw [Equiv.symm_swap] at chain
    exact chain
  parent_iff p n := by
    rw [mem_swapLists]
    exact forest.parent_iff p (Equiv.swap a b n)
  root n isRoot := by
    have none_ : trees.sibling (Equiv.swap a b n) = none := forest.root _ isRoot
    exact congrArg (Option.map (Equiv.swap a b)) none_
  acyclic := forest.acyclic.swap apart apart'

/-- What leads to a node in `origin` leads to another one. -/
def ITCTrees.redirect (trees origin : ITCTrees ν) (node other : ν) : ITCTrees ν where
  parent := trees.parent
  sibling n := if origin.sibling n = some node then some other else trees.sibling n
  child p := if origin.child p = some node then some other else trees.child p

theorem WellLinked.setChild_redirect (forest : WellLinked trees kids)
    {p node : ν} (start : trees.child p = some node) (other : ν) (current : ITCTrees ν) :
    current.setChild p (some other) = current.redirect trees node other := by
  apply ITCTrees.ext
  · rfl
  · funext n
    exact (if_neg (forest.child_ne_sibling start)).symm
  · funext q
    by_cases same : q = p
    · subst same
      exact (Function.update_self q _ _).trans (if_pos start).symm
    · have notStart : trees.child q ≠ some node := by
        intro startToo
        exact
          same
            (forest.parent_unique ((forest.linked q).start_mem startToo)
              ((forest.linked p).start_mem start))
      exact (Function.update_of_ne same _ _).trans (if_neg notStart).symm

theorem WellLinked.setSibling_redirect (forest : WellLinked trees kids)
    {q node : ν} (leads : trees.sibling q = some node) (other : ν) (current : ITCTrees ν) :
    current.setSibling q (some other) = current.redirect trees node other := by
  apply ITCTrees.ext
  · rfl
  · funext n
    by_cases same : n = q
    · subst same
      exact (Function.update_self n _ _).trans (if_pos leads).symm
    · have notLeads : trees.sibling n ≠ some node := by
        intro leadsToo
        exact same (forest.sibling_injective leadsToo leads)
      exact (Function.update_of_ne same _ _).trans (if_neg notLeads).symm
  · funext p
    have notStart : trees.child p ≠ some node := by
      intro start
      exact forest.child_ne_sibling start leads
    exact (if_neg notStart).symm

variable {fuel : Nat}

/-- `itcTreeSwap` redirects what leads to a node, if the pointers of its list are
still there. -/
theorem replaceChild_redirect (forest : WellLinked trees kids) {p node : ν}
    (inside : node ∈ kids p) (other : ν) {current : ITCTrees ν}
    (parent : current.parent = trees.parent) (child : current.child p = trees.child p)
    (sibling : ∀ n ∈ kids p, current.sibling n = trees.sibling n)
    (enough : (kids p).length ≤ fuel) :
    replaceChild fuel current p node other = some (current.redirect trees node other) := by
  have chain : Chain current.sibling (trees.child p) (kids p) none :=
    (forest.linked p).congr sibling
  obtain ⟨front, rest, parts⟩ := List.append_of_mem inside
  obtain ⟨first, start⟩ := forest.exists_first inside
  rw [replaceChild, child, start]
  dsimp only
  by_cases isFirst : first = node
  · subst isFirst
    have above := (forest.parent_iff p first).mp inside
    rw [if_pos rfl, ITCTrees.setFirst, parent, above]
    exact congrArg some (forest.setChild_redirect start other current)
  · rw [parts, start] at chain
    rw [parts, List.length_append] at enough
    have short : front.length ≤ fuel := by omega
    obtain ⟨earlier, last, rfl, _, leads, found⟩ := chain.seek_node isFirst short
    have lastInside : last ∈ kids p := by
      rw [parts]
      simp
    rw [sibling last lastInside] at leads
    rw [if_neg isFirst, found]
    exact congrArg some (forest.setSibling_redirect leads other current)

theorem swapped_comm : trees.swapped a b = trees.swapped b a := by
  rw [ITCTrees.swapped, ITCTrees.swapped, Equiv.swap_comm]

theorem redirect_redirect (target : Option ν) :
    (if target = some b then some a
      else if target = some a then some b else target) =
      target.map (Equiv.swap a b) := by
  cases target with
  | none =>
    rfl
  | some n =>
    rw [Option.map_some, Equiv.swap_apply_def]
    by_cases isFirst : n = a
    · subst isFirst
      by_cases isSecond : n = b
      · simp [isSecond]
      · simp [isSecond]
    · by_cases isSecond : n = b
      · subst isSecond
        simp [isFirst]
      · simp [isFirst, isSecond]

theorem exchangeFields_swapped :
    exchangeFields ((trees.redirect trees a b).redirect trees b a) a b = trees.swapped a b := by
  have targets :
      ((trees.redirect trees a b).redirect trees b a).sibling =
        fun n => (trees.sibling n).map (Equiv.swap a b) := by
    funext n
    exact redirect_redirect (trees.sibling n)
  apply ITCTrees.ext
  · have parents := Equiv.comp_swap_eq_update b a trees.parent
    rw [Equiv.swap_comm] at parents
    exact parents.symm
  · have siblings :=
      Equiv.comp_swap_eq_update b a ((trees.redirect trees a b).redirect trees b a).sibling
    rw [Equiv.swap_comm] at siblings
    refine siblings.symm.trans ?_
    rw [targets]
    rfl
  · funext p
    exact redirect_redirect (trees.child p)

theorem itcTreeSwap_apart (forest : WellLinked trees kids) {p q : ν}
    (inside : a ∈ kids p) (insideToo : b ∈ kids q) (apart : p ≠ q)
    (enough : (kids p).length ≤ fuel) (enoughToo : (kids q).length ≤ fuel) :
    itcTreeSwap fuel trees a b = some (trees.swapped a b) := by
  have different : a ≠ b := by
    rintro rfl
    exact apart (forest.parent_unique inside insideToo)
  have notStart : trees.child q ≠ some a := by
    intro start
    exact apart (forest.parent_unique inside ((forest.linked q).start_mem start))
  have notSibling : ∀ n ∈ kids q, trees.sibling n ≠ some a := by
    intro n member leads
    obtain ⟨r, here, there⟩ := forest.sibling_mem leads
    exact apart ((forest.parent_unique inside there).trans (forest.parent_unique here member))
  have first := replaceChild_redirect forest inside b rfl rfl (fun _ _ => rfl) enough
  have second :
      replaceChild fuel (trees.redirect trees a b) q b a =
        some ((trees.redirect trees a b).redirect trees b a) := by
    have parent : (trees.redirect trees a b).parent = trees.parent := rfl
    apply replaceChild_redirect forest insideToo a parent _ _ enoughToo
    · exact if_neg notStart
    · intro n member
      exact if_neg (notSibling n member)
  rw [itcTreeSwap, if_neg different, (forest.parent_iff p a).mp inside,
    (forest.parent_iff q b).mp insideToo]
  dsimp only
  rw [if_neg apart, first, Option.bind_some, second, Option.map_some, exchangeFields_swapped]

/-! ## Nodes with one parent -/

omit [DecidableEq ν] in
theorem WellLinked.parent_eq (forest : WellLinked trees kids) {p : ν}
    (inside : a ∈ kids p) (insideToo : b ∈ kids p) :
    trees.parent a = trees.parent b := by
  rw [(forest.parent_iff p a).mp inside, (forest.parent_iff p b).mp insideToo]

theorem apply_swap_of_eq {β : Type u} {f : ν → β} (same : f a = f b) (n : ν) :
    f (Equiv.swap a b n) = f n := by
  by_cases isFirst : n = a
  · rw [isFirst, Equiv.swap_apply_left, same]
  · by_cases isSecond : n = b
    · rw [isSecond, Equiv.swap_apply_right, same]
    · rw [Equiv.swap_apply_of_ne_of_ne isFirst isSecond]

theorem map_swap_of_ne {target : Option ν} (notFirst : target ≠ some a)
    (notSecond : target ≠ some b) : target.map (Equiv.swap a b) = target := by
  rw [← redirect_redirect, if_neg notSecond, if_neg notFirst]

theorem map_swap_of_ne_right {target : Option ν} (notSecond : target ≠ some b) :
    target.map (Equiv.swap a b) = if target = some a then some b else target := by
  rw [← redirect_redirect, if_neg notSecond]

section

variable (forest : WellLinked trees kids)

include forest

/-- What has to be done with the siblings of two nodes when what leads to the
first one has been redirected. -/
theorem swapped_of_siblings {p before : ν} (inside : a ∈ kids p) (insideToo : b ∈ kids p)
    (leads : trees.sibling before = some b) {sibling : ν → Option ν}
    (atFirst : sibling a = (trees.sibling b).map (Equiv.swap a b))
    (atSecond : sibling b = (trees.sibling a).map (Equiv.swap a b))
    (atBefore : before ≠ a → sibling before = some a)
    (others : ∀ n, n ≠ a → n ≠ b → n ≠ before → sibling n = (trees.redirect trees a b).sibling n) :
    { trees.redirect trees a b with sibling := sibling } = trees.swapped a b := by
  have notStart : ∀ q, trees.child q ≠ some b := fun q start => forest.child_ne_sibling start leads
  apply ITCTrees.ext
  · funext n
    exact (apply_swap_of_eq (forest.parent_eq inside insideToo) n).symm
  · funext n
    rw [ITCTrees.swapped]
    dsimp only
    by_cases isFirst : n = a
    · rw [isFirst, Equiv.swap_apply_left, atFirst]
    · by_cases isSecond : n = b
      · rw [isSecond, Equiv.swap_apply_right, atSecond]
      · rw [Equiv.swap_apply_of_ne_of_ne isFirst isSecond]
        by_cases isBefore : n = before
        · subst isBefore
          rw [atBefore isFirst, leads, Option.map_some, Equiv.swap_apply_right]
        · have notLeads : trees.sibling n ≠ some b := fun leadsToo =>
            isBefore (forest.sibling_injective leadsToo leads)
          rw [others n isFirst isSecond isBefore, map_swap_of_ne_right notLeads]
          rfl
  · funext q
    exact (map_swap_of_ne_right (notStart q)).symm

section

variable {p : ν} {front middle rest : List ν}
  (parts : kids p = front ++ a :: (middle ++ b :: rest)) (enough : (kids p).length ≤ fuel)

include parts enough

/-- The pointers are exchanged when nothing but what leads to the first node has
been redirected. -/
theorem exchangeSiblings_swapped :
    exchangeSiblings fuel (trees.redirect trees a b) a b = some (trees.swapped a b) := by
  have inside : a ∈ kids p := by
    rw [parts]
    simp
  have insideToo : b ∈ kids p := by
    rw [parts]
    simp
  have chain := forest.linked p
  rw [parts] at chain
  have behind := (chain_split.mp chain).2
  -- Behind the first node nothing leads to it.
  have suffix :
      Chain trees.sibling (some a) (a :: (middle ++ b :: rest)) none :=
    ⟨rfl, behind⟩
  have kept :
      ∀ n ∈ a :: (middle ++ b :: rest), (trees.redirect trees a b).sibling n = trees.sibling n :=
    fun n member => if_neg (suffix.next_ne_start member)
  have keptFirst := kept a List.mem_cons_self
  have keptSecond := kept b (by simp)
  have nodup := suffix.nodup
  obtain ⟨firstNew, nodupBehind⟩ := List.nodup_cons.mp nodup
  have notSame : b ≠ a := by
    rintro rfl
    exact firstNew (by simp)
  have secondApart : trees.sibling b ≠ some b := by
    have last : Chain trees.sibling (some b) (b :: rest) none := ⟨rfl, (chain_split.mp behind).2⟩
    exact last.next_ne_start List.mem_cons_self
  have atFirst :
      trees.sibling b = (trees.sibling b).map (Equiv.swap a b) :=
    (map_swap_of_ne (suffix.next_ne_start (by simp)) secondApart).symm
  rw [exchangeSiblings, keptFirst, keptSecond]
  by_cases adjacent : trees.sibling a = some b
  · rw [if_pos adjacent]
    refine congrArg some (swapped_of_siblings forest inside insideToo adjacent ?_ ?_ ?_ ?_)
    · rw [Function.update_of_ne notSame.symm, ← atFirst]
      exact Function.update_self a _ _
    · rw [adjacent, Option.map_some, Equiv.swap_apply_right]
      exact Function.update_self b _ _
    · intro other
      exact absurd rfl other
    · intro n notFirst notSecond _
      exact (Function.update_of_ne notSecond _ _).trans (Function.update_of_ne notFirst _ _)
  · rw [if_neg adjacent]
    obtain ⟨m, next⟩ : ∃ m, trees.sibling a = some m := by
      cases middle with
      | nil => exact ⟨b, behind.1⟩
      | cons m _ => exact ⟨m, behind.1⟩
    have notSecond : m ≠ b := by
      rintro rfl
      exact adjacent next
    have chainKept :
        Chain (trees.redirect trees a b).sibling (some m) (middle ++ b :: rest) none :=
      next ▸ behind.congr fun n member => kept n (List.mem_cons_of_mem a member)
    have short : middle.length ≤ fuel := by
      rw [parts, List.length_append, List.length_cons, List.length_append]
        at enough
      omega
    obtain ⟨earlier, last, rfl, _, leadsKept, found⟩ := chainKept.seek_node notSecond short
    have leads : trees.sibling last = some b := by
      rw [← kept last (by simp)]
      exact leadsKept
    have lastApart : last ≠ a := by
      rintro rfl
      exact firstNew (by simp)
    have lastNotSecond : last ≠ b := by
      rintro rfl
      exact secondApart leads
    rw [next]
    dsimp only
    rw [found]
    refine congrArg some (swapped_of_siblings forest inside insideToo leads ?_ ?_ ?_ ?_)
    · rw [← atFirst, Function.update_of_ne notSame.symm]
      refine (Function.update_self a _ _).trans ?_
      exact (Function.update_of_ne lastNotSecond.symm _ _).trans keptSecond
    · rw [map_swap_of_ne (suffix.next_ne_start List.mem_cons_self) adjacent]
      refine (Function.update_self b _ _).trans ?_
      exact (Function.update_of_ne lastApart.symm _ _).trans keptFirst
    · intro _
      refine (Function.update_of_ne lastNotSecond _ _).trans ?_
      refine (Function.update_of_ne lastApart _ _).trans ?_
      exact Function.update_self last _ _
    · intro n notFirst notSecond notLast
      refine (Function.update_of_ne notSecond _ _).trans ?_
      refine (Function.update_of_ne notFirst _ _).trans ?_
      exact Function.update_of_ne notLast _ _

theorem swapSiblings_first :
    swapSiblings fuel trees p a b = some (trees.swapped a b) ∧
      swapSiblings fuel trees p b a = some (trees.swapped a b) := by
  have inside : a ∈ kids p := by
    rw [parts]
    simp
  have exchanged := exchangeSiblings_swapped forest parts enough
  have nodup := forest.nodup p
  have chain := forest.linked p
  obtain ⟨first, start⟩ := forest.exists_first inside
  rw [parts] at nodup chain
  rw [start] at chain
  have notSame : b ≠ a := by
    rintro rfl
    have later := (List.nodup_append.mp nodup).2.1
    exact (List.nodup_cons.mp later).1 (by simp)
  rw [swapSiblings, swapSiblings, start]
  dsimp only
  by_cases isFirst : first = a
  · subst isFirst
    have above := (forest.parent_iff p first).mp inside
    rw [if_pos rfl, if_neg notSame.symm, if_pos rfl, ITCTrees.setFirst, above,
      Option.bind_some, forest.setChild_redirect start b trees, exchanged]
    exact ⟨rfl, rfl⟩
  · have disjoint := (List.nodup_append.mp nodup).2.2
    have short : front.length ≤ fuel := by
      rw [parts, List.length_append] at enough
      omega
    have passes :
        ∀ m ∈ front, m ≠ a ∧ m ≠ b := by
      intro m member
      exact ⟨disjoint m member a List.mem_cons_self, disjoint m member b (by simp)⟩
    obtain ⟨earlier, last, rfl, toLast, leads, found⟩ :=
      chain.seek_before (fun next => next = some a || next = some b) isFirst
        (fun m member => by simp [passes m member]) (by simp) short
    have notSecond : first ≠ b := by
      have firstInside : first ∈ earlier ++ [last] := by
        cases earlier with
        | nil => simp [Option.some.inj toLast]
        | cons other earlier => simp [Option.some.inj toLast.1]
      exact (passes first firstInside).2
    have foundToo :
        seek trees.sibling (fun next => next = some b || next = some a) fuel first = some last := by
      simpa only [Bool.or_comm] using found
    have notLeads : trees.sibling last ≠ some b := by
      rw [leads]
      simpa using notSame.symm
    rw [if_neg isFirst, if_neg notSecond, if_neg notSecond, if_neg isFirst,
      found, foundToo, Option.bind_some, Option.bind_some, if_pos leads,
      if_neg notLeads, if_pos leads,
      forest.setSibling_redirect leads b trees, exchanged]
    exact ⟨rfl, rfl⟩

end

theorem itcTreeSwap_siblings {p : ν} (inside : a ∈ kids p) (insideToo : b ∈ kids p)
    (different : a ≠ b) (enough : (kids p).length ≤ fuel) :
    itcTreeSwap fuel trees a b = some (trees.swapped a b) := by
  rw [itcTreeSwap, if_neg different, (forest.parent_iff p a).mp inside,
    (forest.parent_iff p b).mp insideToo]
  dsimp only
  rw [if_pos rfl]
  obtain ⟨front, rest, parts⟩ := List.append_of_mem inside
  have member := insideToo
  rw [parts, List.mem_append, List.mem_cons] at member
  rcases member with inFront | rfl | behind
  · obtain ⟨front, middle, rfl⟩ := List.append_of_mem inFront
    rw [List.append_assoc, List.cons_append] at parts
    rw [(swapSiblings_first forest parts enough).2, swapped_comm]
  · exact absurd rfl different
  · obtain ⟨middle, rest, rfl⟩ := List.append_of_mem behind
    exact (swapSiblings_first forest parts enough).1

end

end Pointers

end

/-!
# Operations on a forest

Every operation of `itc_tree.c` keeps a forest well linked and acts on its child
lists as the list operation of its name, if a node that is pushed is a root and
not above the tree it is pushed into.
-/

section

open Lib

universe u

variable {ν : Type u} [DecidableEq ν]

/-- A call of `itc_tree.c`. -/
inductive ITCTreeOp (ν : Type u)
  | pushFront (tree node : ν)
  | pushBack (tree node : ν)
  | remove (node : ν)
  | rotateFront (tree : ν)
  | rotateBack (tree : ν)
  | swap (node1 node2 : ν)

namespace ITCTreeOp

def run (fuel : Nat) (trees : ITCTrees ν) : ITCTreeOp ν → Option (ITCTrees ν)
  | pushFront tree node => some (itcTreePushFront trees tree node)
  | pushBack tree node => itcTreePushBack fuel trees tree node
  | remove node => itcTreeRemove fuel trees node
  | rotateFront tree => itcTreeRotateFront fuel trees tree
  | rotateBack tree => itcTreeRotateBack fuel trees tree
  | swap node1 node2 => itcTreeSwap fuel trees node1 node2

omit [DecidableEq ν] in
def Allowed (kids : ν → List ν) : ITCTreeOp ν → Prop
  | pushFront tree node => (∀ p, node ∉ kids p) ∧ ¬ Above kids node tree
  | pushBack tree node => (∀ p, node ∉ kids p) ∧ ¬ Above kids node tree
  | remove _ => True
  | rotateFront _ => True
  | rotateBack _ => True
  | swap node1 node2 =>
    node1 ≠ node2 ∧ ¬ Above kids node1 node2 ∧ ¬ Above kids node2 node1

open Classical in
/-- The child lists that an operation is for.  Roots have no position, so there
is nothing to exchange. -/
noncomputable def lists (kids : ν → List ν) : ITCTreeOp ν → ν → List ν
  | pushFront tree node => Function.update kids tree (node :: kids tree)
  | pushBack tree node => Function.update kids tree (kids tree ++ [node])
  | remove node => fun p => (kids p).erase node
  | rotateFront tree =>
    Function.update kids tree (Itc.rotateFront (kids tree))
  | rotateBack tree => Function.update kids tree (Itc.rotateBack (kids tree))
  | swap node1 node2 =>
    if (∃ p, node1 ∈ kids p) ∧ ∃ q, node2 ∈ kids q then
      swapLists kids node1 node2
    else
      kids

end ITCTreeOp

variable {trees : ITCTrees ν} {kids : ν → List ν}

omit [DecidableEq ν] in
theorem WellLinked.root_iff (forest : WellLinked trees kids) {n : ν} :
    trees.parent n = none ↔ ∀ p, n ∉ kids p := by
  constructor
  · exact forest.notMem_of_root
  · intro absent
    cases above : trees.parent n with
    | none => rfl
    | some p => exact absurd ((forest.parent_iff p n).mpr above) (absent p)

theorem itcTreeRemove_erase (forest : WellLinked trees kids) (node : ν) :
    ∃ enough, ∀ fuel, enough ≤ fuel →
      ∃ trees', itcTreeRemove fuel trees node = some trees' ∧
        WellLinked trees' fun p => (kids p).erase node := by
  cases above : trees.parent node with
  | none =>
    have absent := forest.root_iff.mp above
    have same : (fun p => (kids p).erase node) = kids := by
      funext p
      exact List.erase_of_not_mem (absent p)
    refine ⟨0, fun fuel _ => ⟨trees, ?_, ?_⟩⟩
    · rw [itcTreeRemove, above]
    · rw [same]
      exact forest
  | some p =>
    have inside := (forest.parent_iff p node).mpr above
    have same :
        (fun p => (kids p).erase node) = Function.update kids p ((kids p).erase node) := by
      funext q
      by_cases isParent : q = p
      · rw [isParent, Function.update_self]
      · rw [Function.update_of_ne isParent]
        apply List.erase_of_not_mem
        intro insideToo
        exact isParent (forest.parent_unique insideToo inside)
    refine ⟨(kids p).length, fun fuel enough => ?_⟩
    rw [same]
    exact itcTreeRemove_linked forest inside enough

theorem itcTreeSwap_linked (forest : WellLinked trees kids) {a b : ν}
    (different : a ≠ b) (apart : ¬ Above kids a b) (apart' : ¬ Above kids b a) :
    ∃ enough, ∀ fuel, enough ≤ fuel →
      ∃ trees', itcTreeSwap fuel trees a b = some trees' ∧
        WellLinked trees' ((ITCTreeOp.swap a b).lists kids) := by
  rw [ITCTreeOp.lists]
  by_cases nested : (∃ p, a ∈ kids p) ∧ ∃ q, b ∈ kids q
  · rw [if_pos nested]
    obtain ⟨⟨p, inside⟩, ⟨q, insideToo⟩⟩ := nested
    refine ⟨(kids p).length + (kids q).length, fun fuel enough =>
      ⟨trees.swapped a b, ?_, forest.swapped apart apart'⟩⟩
    by_cases siblings : p = q
    · subst siblings
      exact itcTreeSwap_siblings forest inside insideToo different (by omega)
    · exact itcTreeSwap_apart forest inside insideToo siblings (by omega) (by omega)
  · rw [if_neg nested]
    refine ⟨0, fun fuel _ => ⟨trees, ?_, forest⟩⟩
    rw [itcTreeSwap, if_neg different]
    cases above : trees.parent a with
    | none =>
      rfl
    | some p =>
      cases aboveToo : trees.parent b with
      | none =>
        rfl
      | some q =>
        exact
          absurd
            ⟨⟨p, (forest.parent_iff p a).mpr above⟩, ⟨q, (forest.parent_iff q b).mpr aboveToo⟩⟩
            nested

/-- Every operation ends, acts on the child lists as it should, and keeps the
forest well linked. -/
theorem itcTree_linked (forest : WellLinked trees kids) (op : ITCTreeOp ν)
    (allowed : op.Allowed kids) :
    ∃ enough, ∀ fuel, enough ≤ fuel →
      ∃ trees', op.run fuel trees = some trees' ∧ WellLinked trees' (op.lists kids) ∧
        ∀ p, (op.lists kids p).Nodup := by
  suffices linked :
      ∃ enough, ∀ fuel, enough ≤ fuel →
        ∃ trees', op.run fuel trees = some trees' ∧ WellLinked trees' (op.lists kids) by
    obtain ⟨enough, runs⟩ := linked
    refine ⟨enough, fun fuel many => ?_⟩
    obtain ⟨trees', run, forest'⟩ := runs fuel many
    exact ⟨trees', run, forest', forest'.nodup⟩
  cases op with
  | pushFront tree node =>
    obtain ⟨isRoot, apart⟩ := allowed
    exact
      ⟨0, fun _ _ => ⟨_, rfl, itcTreePushFront_linked forest (forest.root_iff.mpr isRoot) apart⟩⟩
  | pushBack tree node =>
    obtain ⟨isRoot, apart⟩ := allowed
    exact
      ⟨(kids tree).length, fun _ enough =>
        itcTreePushBack_linked forest (forest.root_iff.mpr isRoot) apart enough⟩
  | remove node =>
    exact itcTreeRemove_erase forest node
  | rotateFront tree =>
    exact ⟨(kids tree).length, fun _ enough => itcTreeRotateFront_linked forest enough⟩
  | rotateBack tree =>
    exact ⟨(kids tree).length, fun _ enough => itcTreeRotateBack_linked forest enough⟩
  | swap node1 node2 =>
    obtain ⟨different, apart, apart'⟩ := allowed
    exact itcTreeSwap_linked forest different apart apart'

def twoChildren : Fin 4 → List (Fin 4)
  | 0 => [1, 2]
  | _ => []

def twoChildrenTrees : ITCTrees (Fin 4) where
  parent n := if n = 1 ∨ n = 2 then some 0 else none
  sibling n := if n = 1 then some 2 else none
  child p := if p = 0 then some 1 else none

theorem twoChildren_linked : WellLinked twoChildrenTrees twoChildren where
  linked := by
    intro p
    match p with
    | 0 => exact ⟨rfl, rfl, rfl⟩
    | 1 | 2 | 3 => rfl
  parent_iff := by decide
  root := by decide
  acyclic := by
    intro n cycle
    obtain ⟨p, _, last⟩ := Relation.TransGen.tail'_iff.mp cycle
    obtain ⟨m, first, _⟩ := Relation.TransGen.head'_iff.mp cycle
    have flat : ∀ p n m, n ∈ twoChildren p → m ∉ twoChildren n := by decide
    exact flat p n m last first

theorem twoChildren_leaf {n m : Fin 4} (leaf : twoChildren n = [])
    (different : n ≠ m) : ¬ Above twoChildren n m := by
  intro above
  rcases above.cases_head with same | ⟨child, edge, _⟩
  · exact different same
  · rw [ChildOf, leaf] at edge
    cases edge

/-- The two children are exchanged. -/
theorem itcTree_linked_swap :
    ∃ enough, ∀ fuel, enough ≤ fuel →
      ∃ trees', (ITCTreeOp.swap 1 2).run fuel twoChildrenTrees = some trees' ∧
        WellLinked trees' ((ITCTreeOp.swap 1 2).lists twoChildren) ∧
        ∀ p, ((ITCTreeOp.swap 1 2).lists twoChildren p).Nodup :=
  itcTree_linked twoChildren_linked (.swap 1 2)
    ⟨by decide, twoChildren_leaf rfl (by decide), twoChildren_leaf rfl (by decide)⟩

/-- A node that is pushed into another tree while it is a child stays where it
was as well. -/
theorem itcTreePushFront_child :
    WellLinked twoChildrenTrees twoChildren ∧
      ∀ kids, ¬ WellLinked (itcTreePushFront twoChildrenTrees 3 1) kids := by
  refine ⟨twoChildren_linked, fun kids forest => ?_⟩
  have start : (itcTreePushFront twoChildrenTrees 3 1).child 0 = some 1 := by decide
  have inside : 1 ∈ kids 0 := (forest.linked 0).start_mem start
  have parent := (forest.parent_iff 0 1).mp inside
  revert parent
  decide

end

end IteSdk.Itc
