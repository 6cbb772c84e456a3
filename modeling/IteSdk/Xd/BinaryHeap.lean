import IteSdk.Lib.Cells
import Mathlib.Order.Interval.Finset.Nat

/-!
# The heap of erased blocks

`xd_binaryheap.c`: a binary heap in an array whose cell 0 holds a value below all
elements.
-/

namespace IteSdk.Xd

open Lib Function

def XD_MINVALUE : Int := -1

/-- The loop of `XD_HeapInsertElement`.  It ends at cell 1 at the latest, whose parent
is the value below all elements. -/
def heapRise (element : Int) (pElement : Nat → Int) (i : Nat) : Nat → Int :=
  if i ≠ 0 ∧ element < pElement (i / 2) then
    heapRise element (update pElement i (pElement (i / 2))) (i / 2)
  else update pElement i element
termination_by i
decreasing_by omega

def heapChild (size : Nat) (pElement : Nat → Int) (i : Nat) : Nat :=
  if i * 2 ≠ size ∧ pElement (i * 2 + 1) < pElement (i * 2) then i * 2 + 1
  else i * 2

theorem heapChild_inside {size i : Nat} (pElement : Nat → Int) (inside : i * 2 ≤ size) :
    i * 2 ≤ heapChild size pElement i ∧ heapChild size pElement i ≤ size := by
  rw [heapChild]
  split <;> omega

/-- The loop of `XD_HeapPopMinElement`, which begins at cell 1. -/
def heapSink (size : Nat) (lastElement : Int) (pElement : Nat → Int) (i : Nat) : Nat → Int :=
  if i ≠ 0 ∧ i * 2 ≤ size then
    let child := heapChild size pElement i
    if pElement child < lastElement then
      heapSink size lastElement (update pElement i (pElement child)) child
    else update pElement i lastElement
  else update pElement i lastElement
termination_by size + 1 - i
decreasing_by
  have inside : i * 2 ≤ heapChild size pElement i ∧ heapChild size pElement i ≤ size :=
    heapChild_inside pElement (by omega)
  omega

variable {element : Int} {pElement : Nat → Int} {size i : Nat}

theorem heapRise_zero (positive : i ≠ 0) (lowest : pElement 0 ≤ element) :
    heapRise element pElement i 0 = pElement 0 := by
  induction i using Nat.strong_induction_on generalizing pElement with
  | _ i ih =>
    rw [heapRise]
    split
    · next rises =>
      have parent : i / 2 ≠ 0 := by
        intro top
        rw [top] at rises
        omega
      rw [ih (i / 2) (by omega) parent, update_of_ne positive.symm]
      rwa [update_of_ne positive.symm]
    · rw [update_of_ne positive.symm]

theorem heapRise_held (inside : i ∈ Finset.Icc 1 size) (lowest : pElement 0 ≤ element) :
    held (heapRise element pElement i) (Finset.Icc 1 size) =
      element ::ₘ held pElement ((Finset.Icc 1 size).erase i) := by
  induction i using Nat.strong_induction_on generalizing pElement with
  | _ i ih =>
    have bounds := Finset.mem_Icc.mp inside
    rw [heapRise]
    split
    · next rises =>
      have parent : i / 2 ≠ 0 := by
        intro top
        rw [top] at rises
        omega
      have parentInside : i / 2 ∈ Finset.Icc 1 size := Finset.mem_Icc.mpr ⟨by omega, by omega⟩
      rw [ih (i / 2) (by omega) parentInside, held_move inside parentInside (by omega)]
      rwa [update_of_ne (by omega)]
    · exact held_fill inside element

theorem heapSink_zero (positive : i ≠ 0) : heapSink size element pElement i 0 = pElement 0 := by
  induction pElement, i using heapSink.induct size element with
  | case1 pElement i goesOn child below ih =>
    have inside := heapChild_inside pElement goesOn.2
    rw [heapSink, if_pos goesOn]
    rw [if_pos below, ih (by omega), update_of_ne positive.symm]
  | case2 pElement i goesOn child notBelow =>
    rw [heapSink, if_pos goesOn]
    rw [if_neg notBelow, update_of_ne positive.symm]
  | case3 pElement i ends =>
    rw [heapSink, if_neg ends, update_of_ne positive.symm]

theorem heapSink_held (inside : i ∈ Finset.Icc 1 size) :
    held (heapSink size element pElement i) (Finset.Icc 1 size) =
      element ::ₘ held pElement ((Finset.Icc 1 size).erase i) := by
  induction pElement, i using heapSink.induct size element with
  | case1 pElement i goesOn child below ih =>
    have bounds := heapChild_inside pElement goesOn.2
    have childInside : child ∈ Finset.Icc 1 size := Finset.mem_Icc.mpr ⟨by omega, bounds.2⟩
    rw [heapSink, if_pos goesOn]
    rw [if_pos below, ih childInside, held_move inside childInside (by omega)]
  | case2 pElement i goesOn child notBelow =>
    rw [heapSink, if_pos goesOn]
    rw [if_neg notBelow]
    exact held_fill inside element
  | case3 pElement i ends =>
    rw [heapSink, if_neg ends]
    exact held_fill inside element

structure XdBinaryHeap where
  capacity : Nat
  size : Nat
  pElement : Nat → Int
  fits : size ≤ capacity
  lowest : pElement 0 = XD_MINVALUE

namespace XdBinaryHeap

/-- `XD_CreateHeap`, where the cells from 1 on are as `malloc` gives them. -/
def create (size : Nat) (garbage : Nat → Int) : XdBinaryHeap where
  capacity := size
  size := 0
  pElement := update garbage 0 XD_MINVALUE
  fits := Nat.zero_le size
  lowest := update_self 0 XD_MINVALUE garbage

/-- `XD_HeapInsertElement`. -/
def insertElement (heap : XdBinaryHeap) (element : Int) : Bool × XdBinaryHeap :=
  if refused : heap.size = heap.capacity ∨ element ≤ XD_MINVALUE then (false, heap)
  else
    (true,
      { capacity := heap.capacity
        size := heap.size + 1
        pElement := heapRise element heap.pElement (heap.size + 1)
        fits := by
          have fits := heap.fits
          omega
        lowest := by
          have lowest := heap.lowest
          rw [heapRise_zero (Nat.succ_ne_zero _) (by omega), lowest] })

/-- `XD_HeapPopMinElement`. -/
def popMinElement (heap : XdBinaryHeap) : Option (Int × XdBinaryHeap) :=
  if heap.size = 0 then none
  else
    some (heap.pElement 1,
      { capacity := heap.capacity
        size := heap.size - 1
        pElement := heapSink (heap.size - 1) (heap.pElement heap.size) heap.pElement 1
        fits := Nat.le_trans (Nat.sub_le _ _) heap.fits
        lowest := by rw [heapSink_zero Nat.one_ne_zero, heap.lowest] })

def elements (heap : XdBinaryHeap) : Multiset Int := held heap.pElement (Finset.Icc 1 heap.size)

variable {heap after : XdBinaryHeap} {element : Int}

theorem card_elements (heap : XdBinaryHeap) : heap.elements.card = heap.size := by
  rw [elements, held, Multiset.card_map, Finset.card_val, Nat.card_Icc, Nat.add_sub_cancel]

@[simp] theorem elements_create (size : Nat) (garbage : Nat → Int) :
    (create size garbage).elements = 0 := rfl

@[simp] theorem capacity_create (size : Nat) (garbage : Nat → Int) :
    (create size garbage).capacity = size := rfl

@[simp] theorem capacity_insertElement (heap : XdBinaryHeap) (element : Int) :
    (heap.insertElement element).2.capacity = heap.capacity := by
  rw [insertElement]
  split <;> rfl

theorem insertElement_room (room : heap.size < heap.capacity) (natural : 0 ≤ element) :
    (heap.insertElement element).1 = true ∧
      (heap.insertElement element).2.elements = element ::ₘ heap.elements := by
  have lowest := heap.lowest
  have taken : ¬ (heap.size = heap.capacity ∨ element ≤ XD_MINVALUE) := by
    rw [XD_MINVALUE]
    omega
  rw [insertElement, dif_neg taken]
  refine ⟨rfl, ?_⟩
  rw [elements, heapRise_held (Finset.mem_Icc.mpr ⟨by omega, Nat.le_refl _⟩) (by omega)]
  congr 2
  ext i
  simp only [Finset.mem_erase, Finset.mem_Icc]
  omega

theorem popMinElement_none : heap.popMinElement = none ↔ heap.elements = 0 := by
  rw [← Multiset.card_eq_zero, card_elements, popMinElement]
  split
  · next empty => simp [empty]
  · next some_ => simp [some_]

theorem popMinElement_some (popped : heap.popMinElement = some (element, after)) :
    heap.elements = element ::ₘ after.elements ∧ after.capacity = heap.capacity := by
  rw [popMinElement] at popped
  split at popped
  · cases popped
  · next nonempty =>
    obtain ⟨rfl, rfl⟩ := Prod.mk.inj (Option.some.inj popped)
    refine ⟨?_, rfl⟩
    have first : 1 ∈ Finset.Icc 1 heap.size := Finset.mem_Icc.mpr ⟨Nat.le_refl 1, by omega⟩
    have rest : (Finset.Icc 1 heap.size).erase heap.size = Finset.Icc 1 (heap.size - 1) := by
      ext i
      simp only [Finset.mem_erase, Finset.mem_Icc]
      omega
    change held heap.pElement (Finset.Icc 1 heap.size) =
      heap.pElement 1 ::ₘ
        held (heapSink (heap.size - 1) (heap.pElement heap.size) heap.pElement 1)
          (Finset.Icc 1 (heap.size - 1))
    by_cases single : heap.size = 1
    · rw [single]
      rfl
    · have inside : 1 ∈ Finset.Icc 1 (heap.size - 1) := Finset.mem_Icc.mpr ⟨Nat.le_refl 1, by omega⟩
      have last : heap.size ∈ Finset.Icc 1 heap.size := Finset.mem_Icc.mpr ⟨by omega, Nat.le_refl _⟩
      rw [heapSink_held inside, held_take _ last, rest, held_take _ inside, Multiset.cons_swap]

end XdBinaryHeap

end IteSdk.Xd
