import IteSdk.Lib.CircularList
import Mathlib.Logic.Equiv.Basic

/-!
# LIST_SWAP

`list_swap_##type##_node` of `list_template.h`; it fails where it follows a null pointer.
-/

namespace IteSdk.TsDemuxer

open Lib

universe u

variable {ν : Type u} [DecidableEq ν]

def listSwapNode (links : RingLinks ν) (pNode1 pNode2 : ν) : Option (RingLinks ν) := do
  let links := links.setPrev (← links.next pNode2) (links.next pNode1)
  let links := links.setPrev (← links.next pNode1) (some pNode2)
  let links := links.setNext pNode1 (links.next pNode2)
  let links := links.setNext pNode2 (links.prev (← links.next pNode1))
  let links := links.setPrev (← links.next pNode1) (some pNode1)
  let links := links.setNext (← links.prev pNode2) (some pNode1)
  let links := links.setNext (← links.prev pNode1) (links.prev pNode2)
  let links := links.setPrev pNode2 (links.prev pNode1)
  let links := links.setPrev pNode1 (links.next (← links.prev pNode2))
  return links.setNext (← links.prev pNode2) (some pNode2)

section Swap

variable {links : RingLinks ν} {nodes : List ν} {pNode1 pNode2 next1 next2 prev1 prev2 : ν}

/-- The links of the first node become those of the second one, seen from the other side. -/
theorem listSwapNode_eq (behind1 : links.Linked pNode1 next1) (behind2 : links.Linked pNode2 next2)
    (before1 : links.Linked prev1 pNode1) (before2 : links.Linked prev2 pNode2)
    (apart : pNode1 ≠ pNode2) (more1 : next1 ≠ pNode1) (more2 : next2 ≠ pNode2) :
    listSwapNode links pNode1 pNode2 =
      some
        { next := fun node =>
            if node = pNode1 then some (if next2 = pNode1 then pNode2 else next2)
            else if node = pNode2 then some (if next1 = pNode2 then pNode1 else next1)
            else if node = prev1 then some pNode2
            else if node = prev2 then some pNode1 else links.next node
          prev := fun node =>
            if node = pNode1 then some (if prev2 = pNode1 then pNode2 else prev2)
            else if node = pNode2 then some (if prev1 = pNode2 then pNode1 else prev1)
            else if node = next1 then some pNode2
            else if node = next2 then some pNode1 else links.prev node } := by
  obtain ⟨n1, n1'⟩ := behind1
  obtain ⟨n2, n2'⟩ := behind2
  obtain ⟨p1', p1⟩ := before1
  obtain ⟨p2', p2⟩ := before2
  have nexts : next1 ≠ next2 := by grind
  have prevs : prev1 ≠ prev2 := by grind
  have others : prev1 ≠ pNode1 ∧ prev2 ≠ pNode2 := by grind
  have adjacent12 : next1 = pNode2 ↔ prev2 = pNode1 := by grind
  have adjacent21 : next2 = pNode1 ↔ prev1 = pNode2 := by grind
  have sides := And.intro (And.intro apart.symm more1.symm) (And.intro more2.symm nexts.symm)
  have otherSides := And.intro prevs.symm (And.intro others.1.symm others.2.symm)
  simp only [listSwapNode, RingLinks.setNext, RingLinks.setPrev, Option.bind_eq_bind]
  -- The assignments alias each other where the nodes are adjacent, on either side or on both.
  by_cases first : next1 = pNode2 <;> by_cases second : next2 = pNode1
  · obtain ⟨rfl, rfl⟩ := And.intro (adjacent12.mp first) (adjacent21.mp second)
    subst first
    simp [Function.update_apply, *]
    constructor <;> funext node <;> grind
  · obtain rfl := adjacent12.mp first
    subst first
    have far := And.intro (Ne.symm second) (Ne.symm (mt adjacent21.mpr second))
    simp [Function.update_apply, *]
    constructor <;> funext node <;> grind
  · obtain rfl := adjacent21.mp second
    subst second
    have far := And.intro (Ne.symm first) (Ne.symm (mt adjacent12.mpr first))
    simp [Function.update_apply, *]
    constructor <;> funext node <;> grind
  · have far := And.intro (Ne.symm second) (Ne.symm (mt adjacent21.mpr second))
    have near := And.intro (Ne.symm first) (Ne.symm (mt adjacent12.mpr first))
    simp [Function.update_apply, *]
    constructor <;> funext node <;> grind

omit [DecidableEq ν] in
theorem neighbours (ring : links.Ring nodes) (nodup : nodes.Nodup) {other : ν}
    (member : pNode1 ∈ nodes) (also : other ∈ nodes) (apart : pNode1 ≠ other) :
    ∃ next ∈ nodes, ∃ prev ∈ nodes, links.Linked pNode1 next ∧ links.Linked prev pNode1 ∧
      next ≠ pNode1 := by
  obtain ⟨front, back, rfl⟩ := List.append_of_mem member
  have inside : other ∈ back ++ front := by simpa [apart.symm, or_comm] using also
  have alone : pNode1 ∉ back ++ front := by
    simpa [not_or, and_comm] using (List.nodup_middle.mp nodup).notMem
  have chain := RingLinks.ring_cons.mp (RingLinks.ring_rotate.mp ring)
  generalize around : back ++ front = rest at inside alone
  rw [List.append_eq, around] at chain
  have within : ∀ node ∈ rest, node ∈ front ++ pNode1 :: back := by
    intro node there
    rw [← around] at there
    grind
  obtain ⟨initial, prev, split⟩ :=
    (List.eq_nil_or_concat rest).resolve_left (List.ne_nil_of_mem inside)
  obtain ⟨next, later, begins⟩ := List.exists_cons_of_ne_nil (List.ne_nil_of_mem inside)
  refine ⟨next, within _ (by simp [begins]), prev, within _ (by simp [split]), ?_, ?_, ?_⟩
  · rw [begins] at chain
    exact (List.isChain_cons_cons.mp chain).1
  · rw [split, List.concat_eq_append, List.append_assoc, ← List.cons_append] at chain
    exact List.isChain_pair.mp (List.isChain_append.mp chain).2.1
  · rintro rfl
    exact alone (by simp [begins])

/-- The two nodes change places and all others stay in theirs. -/
theorem listSwapNode_ring (ring : links.Ring nodes) (nodup : nodes.Nodup)
    (member1 : pNode1 ∈ nodes) (member2 : pNode2 ∈ nodes) (apart : pNode1 ≠ pNode2) :
    ∃ after, listSwapNode links pNode1 pNode2 = some after ∧
      after.Ring (nodes.map (Equiv.swap pNode1 pNode2)) ∧
        ∀ node ∉ nodes, after.next node = links.next node ∧ after.prev node = links.prev node := by
  obtain ⟨next1, nextIn1, prev1, prevIn1, behind1, before1, more1⟩ :=
    neighbours ring nodup member1 member2 apart
  obtain ⟨next2, nextIn2, prev2, prevIn2, behind2, before2, more2⟩ :=
    neighbours ring nodup member2 member1 apart.symm
  refine ⟨_, listSwapNode_eq behind1 behind2 before1 before2 apart more1 more2, ?_, ?_⟩
  · rw [RingLinks.Ring, ← Cycle.map_coe, Cycle.chain_map]
    refine ring.imp fun left right linked => ?_
    obtain ⟨next, prev⟩ := linked
    obtain ⟨⟨n1, n1'⟩, n2, n2'⟩ := And.intro behind1 behind2
    obtain ⟨⟨p1, p1'⟩, p2, p2'⟩ := And.intro before1 before2
    simp only [RingLinks.Linked, Equiv.swap_apply_def]
    constructor
    · by_cases here : left = pNode1 ∨ left = pNode2
      · obtain rfl | rfl := here <;> grind
      · rw [not_or] at here
        simp only [if_neg here.1, if_neg here.2]
        grind
    · by_cases here : right = pNode1 ∨ right = pNode2
      · obtain rfl | rfl := here <;> grind
      · rw [not_or] at here
        simp only [if_neg here.1, if_neg here.2]
        grind
  · intro node outside
    have other {inside : ν} (there : inside ∈ nodes) : node ≠ inside := by
      rintro rfl
      exact outside there
    simp only [if_neg (other member1), if_neg (other member2), if_neg (other nextIn1),
      if_neg (other nextIn2), if_neg (other prevIn1), if_neg (other prevIn2), and_self]

/-- Two nodes that are the whole ring. -/
theorem listSwapNode_ring_two :
    ∃ after, listSwapNode ⟨fun node => some !node, fun node => some !node⟩ false true = some after ∧
      after.Ring ([false, true].map (Equiv.swap false true)) ∧
        ∀ node ∉ [false, true], after.next node = some !node ∧ after.prev node = some !node :=
  listSwapNode_ring (by simp [RingLinks.ring_cons, RingLinks.Linked]) (by decide) (by decide)
    (by decide) (by decide)

end Swap

end IteSdk.TsDemuxer
