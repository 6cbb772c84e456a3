import IteSdk.Xd.BinaryHeap
import Mathlib.Algebra.Order.Group.Unbundled.Int

/-!
# The heap is ordered

The element that rises or sinks leaves a hole; the cells away from the hole are ordered,
and so are those around it in the direction of the loop.
-/

namespace IteSdk.Xd

open Lib Function

def HeapOrdered (size : Nat) (pElement : Nat → Int) : Prop :=
  ∀ j, 2 ≤ j → j ≤ size → pElement (j / 2) ≤ pElement j

def OrderedExcept (size : Nat) (pElement : Nat → Int) (hole : Nat) : Prop :=
  ∀ j, 2 ≤ j → j ≤ size → j ≠ hole → j / 2 ≠ hole → pElement (j / 2) ≤ pElement j

/-- What the rising `element` finds. -/
structure RiseOrder (size : Nat) (element : Int) (pElement : Nat → Int) (hole : Nat) :
    Prop where
  elsewhere : OrderedExcept size pElement hole
  below : ∀ j, 2 ≤ j → j ≤ size → j / 2 = hole → element ≤ pElement j
  across : ∀ j, 2 ≤ j → j ≤ size → j / 2 = hole → pElement (hole / 2) ≤ pElement j

/-- What the sinking `element` finds. -/
structure SinkOrder (size : Nat) (element : Int) (pElement : Nat → Int) (hole : Nat) :
    Prop where
  elsewhere : OrderedExcept size pElement hole
  above : 2 ≤ hole → pElement (hole / 2) ≤ element
  across : 2 ≤ hole → ∀ j, 2 ≤ j → j ≤ size → j / 2 = hole → pElement (hole / 2) ≤ pElement j

variable {size i : Nat} {element : Int} {pElement : Nat → Int}

theorem OrderedExcept.fill (elsewhere : OrderedExcept size pElement i)
    (above : 2 ≤ i → pElement (i / 2) ≤ element)
    (below : ∀ j, 2 ≤ j → j ≤ size → j / 2 = i → element ≤ pElement j) :
    HeapOrdered size (update pElement i element) := by
  intro j second inside
  by_cases here : j = i
  · subst here
    have parent : j / 2 ≠ j := by omega
    rw [update_self, update_of_ne parent]
    exact above second
  · rw [update_of_ne here]
    by_cases child : j / 2 = i
    · rw [child, update_self]
      exact below j second inside child
    · rw [update_of_ne child]
      exact elsewhere j second inside here child

theorem RiseOrder.move (order : RiseOrder size element pElement i) (inside : i ≤ size)
    (lowest : pElement 0 ≤ element) (rises : element < pElement (i / 2)) :
    RiseOrder size element (update pElement i (pElement (i / 2))) (i / 2) := by
  have parent : i / 2 ≠ 0 := by
    intro top
    rw [top] at rises
    omega
  have grandparent : pElement (i / 2 / 2) ≤ pElement (i / 2) := by
    by_cases top : i / 2 = 1
    · rw [top] at rises ⊢
      exact (Int.lt_of_le_of_lt lowest rises).le
    · exact order.elsewhere (i / 2) (by omega) (by omega) (by omega) (by omega)
  have sibling (j : Nat) (second : 2 ≤ j) (small : j ≤ size) (apart : j ≠ i)
      (same : j / 2 = i / 2) : pElement (i / 2) ≤ pElement j := by
    have ordered := order.elsewhere j second small apart (by omega)
    rwa [same] at ordered
  refine ⟨?_, ?_, ?_⟩
  · intro j second small apart notChild
    have here : j ≠ i := by
      rintro rfl
      exact notChild rfl
    rw [update_of_ne here]
    by_cases child : j / 2 = i
    · rw [child, update_self]
      exact order.across j second small child
    · rw [update_of_ne child]
      exact order.elsewhere j second small here child
  · intro j second small child
    by_cases here : j = i
    · rw [here, update_self]
      exact rises.le
    · rw [update_of_ne here]
      exact rises.le.trans (sibling j second small here child)
  · intro j second small child
    have above : i / 2 / 2 ≠ i := by omega
    rw [update_of_ne above]
    by_cases here : j = i
    · rw [here, update_self]
      exact grandparent
    · rw [update_of_ne here]
      exact grandparent.trans (sibling j second small here child)

theorem heapRise_ordered (order : RiseOrder size element pElement i) (positive : i ≠ 0)
    (inside : i ≤ size) (lowest : pElement 0 ≤ element) :
    HeapOrdered size (heapRise element pElement i) := by
  induction i using Nat.strong_induction_on generalizing pElement with
  | _ i ih =>
    rw [heapRise]
    split
    · next rises =>
      have parent : i / 2 ≠ 0 := by
        intro top
        rw [top] at rises
        omega
      have lowestStays : update pElement i (pElement (i / 2)) 0 ≤ element := by
        rwa [update_of_ne positive.symm]
      exact ih (i / 2) (by omega) (order.move inside lowest rises.2) parent (by omega) lowestStays
    · next stays =>
      have above : pElement (i / 2) ≤ element := by omega
      exact order.elsewhere.fill (fun _ => above) order.below

theorem heapChild_le (pElement : Nat → Int) {j : Nat} (small : j ≤ size) (child : j / 2 = i) :
    pElement (heapChild size pElement i) ≤ pElement j := by
  have sides : j = i * 2 ∨ j = i * 2 + 1 := by omega
  rw [heapChild]
  split
  · next right =>
    rcases sides with rfl | rfl
    · exact right.2.le
    · exact Int.le_refl _
  · next left =>
    rcases sides with rfl | rfl
    · exact Int.le_refl _
    · have notLast : i * 2 ≠ size := by omega
      exact Int.not_lt.mp fun less => left ⟨notLast, less⟩

theorem heapChild_half (size : Nat) (pElement : Nat → Int) (i : Nat) :
    heapChild size pElement i / 2 = i := by
  rw [heapChild]
  split <;> omega

theorem SinkOrder.move (order : SinkOrder size element pElement i) (positive : i ≠ 0)
    (goesOn : i * 2 ≤ size) (sinks : pElement (heapChild size pElement i) < element) :
    SinkOrder size element (update pElement i (pElement (heapChild size pElement i)))
      (heapChild size pElement i) := by
  have half := heapChild_half size pElement i
  have bounds := heapChild_inside pElement goesOn
  refine ⟨?_, ?_, ?_⟩
  · intro j second small apart notChild
    by_cases here : j = i
    · subst here
      have parent : j / 2 ≠ j := by omega
      rw [update_self, update_of_ne parent]
      exact order.across second _ (by omega) bounds.2 half
    · rw [update_of_ne here]
      by_cases child : j / 2 = i
      · rw [child, update_self]
        exact heapChild_le pElement small child
      · rw [update_of_ne child]
        exact order.elsewhere j second small here child
  · intro _
    rw [half, update_self]
    exact sinks.le
  · intro _ j second small child
    have apart : j ≠ i := by omega
    have grandchild : j / 2 ≠ i := by omega
    have ordered := order.elsewhere j second small apart grandchild
    rw [half, update_self, update_of_ne apart]
    rwa [child] at ordered

theorem heapSink_ordered (order : SinkOrder size element pElement i) (positive : i ≠ 0) :
    HeapOrdered size (heapSink size element pElement i) := by
  induction pElement, i using heapSink.induct size element with
  | case1 pElement i goesOn child sinks ih =>
    have bounds := heapChild_inside pElement goesOn.2
    rw [heapSink, if_pos goesOn]
    rw [if_pos sinks]
    exact ih (order.move positive goesOn.2 sinks) (by omega)
  | case2 pElement i goesOn child stays =>
    rw [heapSink, if_pos goesOn]
    rw [if_neg stays]
    refine order.elsewhere.fill order.above fun j _ small isChild => ?_
    exact (Int.not_lt.mp stays).trans (heapChild_le pElement small isChild)
  | case3 pElement i ends =>
    rw [heapSink, if_neg ends]
    refine order.elsewhere.fill order.above fun j _ small isChild => ?_
    omega

theorem HeapOrdered.first_le (ordered : HeapOrdered size pElement) (positive : i ≠ 0)
    (inside : i ≤ size) :
    pElement 1 ≤ pElement i := by
  induction i using Nat.strong_induction_on with
  | _ i ih =>
    by_cases top : i = 1
    · rw [top]
    · have parent := ih (i / 2) (by omega) (by omega) (by omega)
      exact parent.trans (ordered i (by omega) inside)

theorem HeapOrdered.rise (ordered : HeapOrdered size pElement) (element : Int) :
    RiseOrder (size + 1) element pElement (size + 1) where
  elsewhere := by
    intro j second small apart _
    exact ordered j second (by omega)
  below := by
    intro j second small child
    omega
  across := by
    intro j second small child
    omega

theorem HeapOrdered.sink (ordered : HeapOrdered size pElement) (element : Int) :
    SinkOrder (size - 1) element pElement 1 where
  elsewhere := by
    intro j second small _ _
    exact ordered j second (by omega)
  above := by
    intro second
    omega
  across := by
    intro second
    omega

end IteSdk.Xd
