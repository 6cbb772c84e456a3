import IteSdk.Lib.Transition
import IteSdk.Xd.BinaryHeapOrder
import IteSdk.Xd.Card
import Mathlib.Algebra.Order.Sub.Basic
import Mathlib.Data.Multiset.AddSub

/-!
# The heap in its array

The loops once more, with a check of every index against the array that
`XD_CreateHeap` has allocated.  They go through as the loops without checks do, and
every run keeps a heap of the blocks that have been inserted and not popped.
-/

namespace IteSdk.Xd

open Lib Function

/-! ## Checked accesses -/

def writeCell (allocated : Nat) (pElement : Nat → Int) (i : Nat) (x : Int) : Option (Nat → Int) :=
  if i < allocated then some (update pElement i x) else none

/-- The loop of `XD_HeapInsertElement`. -/
def heapRiseIn (allocated : Nat) (element : Int) (pElement : Nat → Int) (i : Nat) :
    Option (Nat → Int) :=
  if i / 2 < allocated then
    if i ≠ 0 ∧ element < pElement (i / 2) then
      (writeCell allocated pElement i (pElement (i / 2))).bind fun moved =>
        heapRiseIn allocated element moved (i / 2)
    else writeCell allocated pElement i element
  else none
termination_by i
decreasing_by omega

/-- The loop of `XD_HeapPopMinElement`. -/
def heapSinkIn (allocated size : Nat) (lastElement : Int) (pElement : Nat → Int) (i : Nat) :
    Option (Nat → Int) :=
  if i ≠ 0 ∧ i * 2 ≤ size then
    if i * 2 < allocated ∧ (i * 2 ≠ size → i * 2 + 1 < allocated) then
      let child := heapChild size pElement i
      if pElement child < lastElement then
        (writeCell allocated pElement i (pElement child)).bind fun moved =>
          heapSinkIn allocated size lastElement moved child
      else writeCell allocated pElement i lastElement
    else none
  else writeCell allocated pElement i lastElement
termination_by size + 1 - i
decreasing_by
  have inside : i * 2 ≤ heapChild size pElement i ∧ heapChild size pElement i ≤ size :=
    heapChild_inside pElement (by omega)
  omega

/-- The structure with as many cells as have been allocated. -/
structure XdHeapMemory where
  capacity : Nat
  size : Nat
  allocated : Nat
  pElement : Nat → Int

namespace XdHeapMemory

/-- `XD_CreateHeap`, where both calls of `malloc` succeed. -/
def create (size : Nat) (garbage : Nat → Int) : Option XdHeapMemory :=
  let allocated := (size + 1) * 4 % 2 ^ 32 / 4
  (writeCell allocated garbage 0 XD_MINVALUE).map fun pElement =>
    { capacity := size, size := 0, allocated, pElement }

/-- `XD_HeapInsertElement`. -/
def insertElement (heap : XdHeapMemory) (element : Int) : Option (Bool × XdHeapMemory) :=
  if heap.size = heap.capacity ∨ element ≤ XD_MINVALUE then some (false, heap)
  else
    (heapRiseIn heap.allocated element heap.pElement (heap.size + 1)).map fun pElement =>
      (true, { heap with size := heap.size + 1, pElement })

/-- `XD_HeapPopMinElement`. -/
def popMinElement (heap : XdHeapMemory) : Option (Option Int × XdHeapMemory) :=
  if heap.size = 0 then some (none, heap)
  else if 1 < heap.allocated ∧ heap.size < heap.allocated then
    (heapSinkIn heap.allocated (heap.size - 1) (heap.pElement heap.size) heap.pElement
        1).map fun pElement =>
      (some (heap.pElement 1), { heap with size := heap.size - 1, pElement })
  else none

end XdHeapMemory

variable {allocated size i : Nat} {element : Int} {pElement : Nat → Int}

theorem heapRiseIn_eq (inside : i < allocated) :
    heapRiseIn allocated element pElement i = some (heapRise element pElement i) := by
  induction i using Nat.strong_induction_on generalizing pElement with
  | _ i ih =>
    have parent : i / 2 < allocated := by omega
    rw [heapRiseIn, heapRise, if_pos parent]
    split
    · next rises =>
      rw [writeCell, if_pos inside, Option.bind_some]
      exact ih (i / 2) (by omega) parent
    · rw [writeCell, if_pos inside]

theorem heapSinkIn_eq (inside : i < allocated) (room : size < allocated) :
    heapSinkIn allocated size element pElement i = some (heapSink size element pElement i) := by
  induction pElement, i using heapSink.induct size element with
  | case1 pElement i goesOn child sinks ih =>
    have bounds := heapChild_inside pElement goesOn.2
    have readable : i * 2 < allocated ∧ (i * 2 ≠ size → i * 2 + 1 < allocated) := by omega
    rw [heapSinkIn, heapSink, if_pos goesOn, if_pos goesOn, if_pos readable]
    rw [if_pos sinks, if_pos sinks, writeCell, if_pos inside, Option.bind_some]
    exact ih (Nat.lt_of_le_of_lt bounds.2 room)
  | case2 pElement i goesOn child stays =>
    have readable : i * 2 < allocated ∧ (i * 2 ≠ size → i * 2 + 1 < allocated) := by omega
    rw [heapSinkIn, heapSink, if_pos goesOn, if_pos goesOn, if_pos readable]
    rw [if_neg stays, if_neg stays, writeCell, if_pos inside]
  | case3 pElement i ends =>
    rw [heapSinkIn, heapSink, if_neg ends, if_neg ends, writeCell, if_pos inside]

/-- The heap in an array with a cell for each element and the lowest value. -/
def XdBinaryHeap.memory (heap : XdBinaryHeap) : XdHeapMemory :=
  ⟨heap.capacity, heap.size, heap.capacity + 1, heap.pElement⟩

namespace XdBinaryHeap

theorem create_memory {capacity : Nat} (allocatable : (capacity + 1) * 4 < 2 ^ 32)
    (garbage : Nat → Int) :
    XdHeapMemory.create capacity garbage = some (create capacity garbage).memory := by
  have cells : (capacity + 1) * 4 % 2 ^ 32 / 4 = capacity + 1 := by omega
  rw [XdHeapMemory.create, cells, writeCell, if_pos (Nat.succ_pos capacity)]
  rfl

theorem insertElement_memory (heap : XdBinaryHeap) (element : Int) :
    heap.memory.insertElement element =
      some ((heap.insertElement element).1, (heap.insertElement element).2.memory) := by
  have fits := heap.fits
  rw [XdHeapMemory.insertElement, insertElement]
  by_cases refused : heap.size = heap.capacity ∨ element ≤ XD_MINVALUE
  · rw [dif_pos refused]
    exact if_pos refused
  · have inside : heap.size + 1 < heap.capacity + 1 := by omega
    rw [dif_neg refused]
    refine (if_neg refused).trans ?_
    change (heapRiseIn (heap.capacity + 1) element heap.pElement (heap.size + 1)).map _ = _
    rw [heapRiseIn_eq inside]
    rfl

theorem popMinElement_memory (heap : XdBinaryHeap) :
    heap.memory.popMinElement = match heap.popMinElement with
      | none => some (none, heap.memory)
      | some popped => some (some popped.1, popped.2.memory) := by
  have fits := heap.fits
  rw [XdHeapMemory.popMinElement, popMinElement]
  by_cases empty : heap.size = 0
  · rw [if_pos empty]
    exact if_pos empty
  · have inside : 1 < heap.capacity + 1 ∧ heap.size < heap.capacity + 1 := by omega
    rw [if_neg empty]
    refine (if_neg empty).trans ((if_pos inside).trans ?_)
    change (heapSinkIn (heap.capacity + 1) (heap.size - 1) (heap.pElement heap.size)
      heap.pElement 1).map _ = _
    rw [heapSinkIn_eq inside.1 (by omega)]
    rfl

variable {heap after : XdBinaryHeap} {element : Int}

def Ordered (heap : XdBinaryHeap) : Prop := HeapOrdered heap.size heap.pElement

theorem ordered_create (capacity : Nat) (garbage : Nat → Int) :
    (create capacity garbage).Ordered := by
  intro j second inside
  have none_ : j ≤ 0 := inside
  omega

theorem Ordered.insertElement (ordered : heap.Ordered) (element : Int) :
    (heap.insertElement element).2.Ordered := by
  have lowest := heap.lowest
  rw [XdBinaryHeap.insertElement]
  split
  · exact ordered
  · next taken =>
    exact heapRise_ordered (ordered.rise element) (Nat.succ_ne_zero _) (Nat.le_refl _) (by omega)

theorem Ordered.popMinElement (ordered : heap.Ordered)
    (popped : heap.popMinElement = some (element, after)) :
    after.Ordered ∧ ∀ x ∈ heap.elements, element ≤ x := by
  rw [XdBinaryHeap.popMinElement] at popped
  split at popped
  · cases popped
  · obtain ⟨rfl, rfl⟩ := Prod.mk.inj (Option.some.inj popped)
    refine ⟨heapSink_ordered (ordered.sink _) Nat.one_ne_zero, ?_⟩
    intro x listed
    obtain ⟨i, inside, rfl⟩ := mem_held.mp listed
    have bounds := Finset.mem_Icc.mp inside
    exact ordered.first_le (by omega) bounds.2

theorem insertElement_refused (refused : (heap.insertElement element).1 = false) :
    (heap.insertElement element).2 = heap ∧
      (heap.size = heap.capacity ∨ element ≤ XD_MINVALUE) := by
  rw [insertElement] at refused ⊢
  split
  · next condition => exact ⟨rfl, condition⟩
  · next taken =>
    rw [dif_neg taken] at refused
    cases refused

theorem insertElement_taken (taken : (heap.insertElement element).1 = true) :
    (heap.insertElement element).2.elements = element ::ₘ heap.elements ∧
      heap.size < heap.capacity ∧ 0 ≤ element := by
  have fits := heap.fits
  by_cases refused : heap.size = heap.capacity ∨ element ≤ XD_MINVALUE
  · rw [insertElement, dif_pos refused] at taken
    cases taken
  · rw [XD_MINVALUE] at refused
    have room : heap.size < heap.capacity := by omega
    have natural : 0 ≤ element := by omega
    exact ⟨(insertElement_room room natural).2, room, natural⟩

end XdBinaryHeap

/-! ## Runs -/

inductive HeapEvent
  | insert (element : Int)
  | pop

inductive HeapCall
  | insert (blocks : Multiset Int) (before after : XdHeapMemory) (element : Int) (returned : Bool)
  | pop (blocks : Multiset Int) (before after : XdHeapMemory) (returned : Option Int)

/-- An insert fails exactly if the heap is full, a pop exactly if it is empty; a call
that fails changes nothing, and a pop takes the least block. -/
def HeapCall.Right : HeapCall → Prop
  | .insert blocks before after element returned =>
    (0 ≤ element → (returned = false ↔ blocks.card = before.capacity)) ∧
      (element < 0 → returned = false) ∧
      (returned = false → after = before)
  | .pop blocks before after returned =>
    (returned = none ↔ blocks = 0) ∧ (returned = none → after = before) ∧
      ∀ least, returned = some least → least ∈ blocks ∧ ∀ block ∈ blocks, least ≤ block

structure HeapHistory where
  memory : XdHeapMemory
  blocks : Multiset Int
  calls : List HeapCall

namespace HeapHistory

def step (history : HeapHistory) : HeapEvent → Option HeapHistory
  | .insert element =>
    (history.memory.insertElement element).map fun result =>
      { memory := result.2
        blocks := if result.1 then element ::ₘ history.blocks else history.blocks
        calls :=
          history.calls ++ [.insert history.blocks history.memory result.2 element result.1] }
  | .pop =>
    history.memory.popMinElement.map fun result =>
      { memory := result.2
        blocks := history.blocks - Multiset.ofList result.1.toList
        calls := history.calls ++ [.pop history.blocks history.memory result.2 result.1] }

structure Safe (capacity : Nat) (history : HeapHistory) : Prop where
  capacity_eq : history.memory.capacity = capacity
  ordered : HeapOrdered history.memory.size history.memory.pElement
  contents : held history.memory.pElement (Finset.Icc 1 history.memory.size) = history.blocks
  calls : ∀ call ∈ history.calls, call.Right

structure Inv (capacity : Nat) (history : HeapHistory) : Prop
    extends history.Safe capacity where
  heap : ∃ heap : XdBinaryHeap, history.memory = heap.memory

variable {capacity : Nat} {history : HeapHistory}

theorem step_insert (heap : XdBinaryHeap) (blocks : Multiset Int) (calls : List HeapCall)
    (element : Int) :
    step ⟨heap.memory, blocks, calls⟩ (.insert element) =
      some
        ⟨(heap.insertElement element).2.memory,
          if (heap.insertElement element).1 then element ::ₘ blocks else blocks,
          calls ++
            [.insert blocks heap.memory (heap.insertElement element).2.memory element
              (heap.insertElement element).1]⟩ := by
  rw [step, heap.insertElement_memory]
  rfl

theorem step_pop_none {heap : XdBinaryHeap} (empty : heap.popMinElement = none)
    (blocks : Multiset Int) (calls : List HeapCall) :
    step ⟨heap.memory, blocks, calls⟩ .pop =
      some ⟨heap.memory, blocks, calls ++ [.pop blocks heap.memory heap.memory none]⟩ := by
  rw [step, heap.popMinElement_memory, empty]
  exact congrArg (fun rest => some (HeapHistory.mk heap.memory rest _)) (tsub_zero blocks)

theorem step_pop_some {heap after : XdBinaryHeap} {least : Int}
    (popped : heap.popMinElement = some (least, after))
    (blocks : Multiset Int) (calls : List HeapCall) :
    step ⟨heap.memory, blocks, calls⟩ .pop =
      some
        ⟨after.memory, blocks - {least},
          calls ++ [.pop blocks heap.memory after.memory (some least)]⟩ := by
  rw [step, heap.popMinElement_memory, popped]
  rfl

theorem calls_append {calls : List HeapCall} {last : HeapCall}
    (earlier : ∀ call ∈ calls, call.Right) (right : last.Right) :
    ∀ call ∈ calls ++ [last], call.Right := by
  intro call listed
  rcases List.mem_append.mp listed with before | new
  · exact earlier call before
  · rwa [List.mem_singleton.mp new]

theorem right_insert {heap : XdBinaryHeap} (element : Int) :
    HeapCall.Right
      (.insert heap.elements heap.memory (heap.insertElement element).2.memory element
        (heap.insertElement element).1) := by
  have card := heap.card_elements
  cases returned : (heap.insertElement element).1 with
  | false =>
    obtain ⟨same, condition⟩ := XdBinaryHeap.insertElement_refused returned
    rw [XD_MINVALUE] at condition
    refine ⟨fun natural => ?_, fun _ => rfl, fun _ => by rw [same]⟩
    have full : heap.size = heap.capacity := by omega
    exact iff_of_true rfl (card.trans full)
  | true =>
    obtain ⟨-, room, natural⟩ := XdBinaryHeap.insertElement_taken returned
    refine ⟨fun _ => ?_, fun negative => by omega, fun refused => by cases refused⟩
    refine iff_of_false (by decide) fun full => ?_
    have filled : heap.elements.card = heap.capacity := full
    omega

theorem right_pop {heap after : XdBinaryHeap} {least : Int} (ordered : heap.Ordered)
    (popped : heap.popMinElement = some (least, after)) :
    HeapCall.Right (.pop heap.elements heap.memory after.memory (some least)) := by
  obtain ⟨elements, -⟩ := XdBinaryHeap.popMinElement_some popped
  have nonempty : heap.elements ≠ 0 := by
    rw [elements]
    exact Multiset.cons_ne_zero
  have listed : least ∈ heap.elements := by
    rw [elements]
    exact Multiset.mem_cons_self _ _
  refine ⟨iff_of_false (Option.some_ne_none least) nonempty, ?_, ?_⟩
  · intro refused
    cases refused
  · intro x same
    rw [← Option.some.inj same]
    exact ⟨listed, (ordered.popMinElement popped).2⟩

theorem Inv.step (inv : history.Inv capacity) (event : HeapEvent) :
    ∃ after, history.step event = some after ∧ after.Inv capacity := by
  obtain ⟨⟨capacity_eq, ordered, contents, calls⟩, heap, memory⟩ := inv
  obtain ⟨_, blocks, earlier⟩ := history
  subst memory
  have orderedHeap : heap.Ordered := ordered
  obtain rfl : heap.elements = blocks := contents
  cases event with
  | insert element =>
    refine ⟨_, step_insert heap _ earlier element, ⟨?_, ?_, ?_, ?_⟩, _, rfl⟩
    · rw [← capacity_eq]
      exact heap.capacity_insertElement element
    · exact orderedHeap.insertElement element
    · change (heap.insertElement element).2.elements = _
      cases returned : (heap.insertElement element).1 with
      | false => rw [(XdBinaryHeap.insertElement_refused returned).1]; rfl
      | true => exact (XdBinaryHeap.insertElement_taken returned).1
    · exact calls_append calls (right_insert element)
  | pop =>
    cases popped : heap.popMinElement with
    | none =>
      refine ⟨_, step_pop_none popped _ earlier, ⟨capacity_eq, ordered, rfl, ?_⟩, heap, rfl⟩
      have empty := XdBinaryHeap.popMinElement_none.mp popped
      refine calls_append calls ⟨iff_of_true rfl empty, fun _ => rfl, ?_⟩
      intro least taken
      cases taken
    | some result =>
      obtain ⟨least, after⟩ := result
      obtain ⟨elements, capacityStays⟩ := XdBinaryHeap.popMinElement_some popped
      refine ⟨_, step_pop_some popped _ earlier, ⟨?_, ?_, ?_, ?_⟩, after, rfl⟩
      · exact capacityStays.trans capacity_eq
      · exact (orderedHeap.popMinElement popped).1
      · change after.elements = heap.elements - {least}
        rw [elements, ← Multiset.singleton_add, add_tsub_cancel_left]
      · exact calls_append calls (right_pop orderedHeap popped)

/-- Every run of calls stays inside the array and keeps the heap. -/
theorem xdHeap_run (capacity : Nat) (allocatable : (capacity + 1) * 4 < 2 ^ 32)
    (garbage : Nat → Int) (events : List HeapEvent) :
    ∃ start finish,
      XdHeapMemory.create capacity garbage = some start ∧
        events.foldlM step ⟨start, 0, []⟩ = some finish ∧
        finish.Safe capacity := by
  have initial : Inv capacity ⟨(XdBinaryHeap.create capacity garbage).memory, 0, []⟩ := by
    refine ⟨⟨rfl, XdBinaryHeap.ordered_create capacity garbage, rfl, ?_⟩, _, rfl⟩
    intro call listed
    cases listed
  obtain ⟨finish, ran, inv⟩ :=
    Run.foldlM_invariant (fun _ event inv => Inv.step inv event) initial events
  exact ⟨_, finish, XdBinaryHeap.create_memory allocatable garbage, ran, inv.toSafe⟩

theorem xdHeap_run_zone :
    ∃ start finish,
      XdHeapMemory.create XD_PHYSIC_BLOCK_PER_ZONE (fun _ => 0) = some start ∧
        [HeapEvent.insert 5, .insert 3, .pop].foldlM step ⟨start, 0, []⟩ = some finish ∧
        finish.Safe XD_PHYSIC_BLOCK_PER_ZONE :=
  xdHeap_run XD_PHYSIC_BLOCK_PER_ZONE (by decide) (fun _ => 0) [.insert 5, .insert 3, .pop]

end HeapHistory

end IteSdk.Xd
