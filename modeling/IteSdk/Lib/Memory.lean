import Mathlib.Data.List.Basic
import Mathlib.Tactic.Ring

/-!
# Slices of a flat memory

A memory is the list of its cells.  `slice` reads a window of it and
`overwrite` copies data into one; both are total, and every law below states
the bounds it needs.
-/

namespace IteSdk.Lib

universe u

variable {α : Type u}

/-- The `count` cells from `offset` on. -/
def slice (offset count : Nat) (memory : List α) : List α := (memory.drop offset).take count

/-- The memory after `data` was copied to `offset`. -/
def overwrite (offset : Nat) (data memory : List α) : List α :=
  memory.take offset ++ data ++ memory.drop (offset + data.length)

/-- The number that bytes store with the lowest byte first. -/
def littleEndian (bytes : List UInt8) : Nat :=
  bytes.foldr (fun byte rest => byte.toNat + 256 * rest) 0

@[simp] theorem slice_zero (offset : Nat) (memory : List α) : slice offset 0 memory = [] := by
  simp [slice]

theorem getElem?_concat_cases {elements : List α} {new element : α} {number : Nat}
    (found : (elements ++ [new])[number]? = some element) :
    elements[number]? = some element ∨ number = elements.length ∧ new = element := by
  have bound := (List.getElem?_eq_some_iff.mp found).1
  rw [List.length_append, List.length_singleton] at bound
  by_cases last : number = elements.length
  · subst last
    rw [List.getElem?_concat_length] at found
    exact .inr ⟨rfl, Option.some.inj found⟩
  · rw [List.getElem?_append_left (by omega)] at found
    exact .inl found

theorem length_slice_le (offset count : Nat) (memory : List α) :
    (slice offset count memory).length ≤ count := by
  simp only [slice, List.length_take, List.length_drop]
  omega

theorem length_slice
    {offset count : Nat} {memory : List α} (inside : offset + count ≤ memory.length) :
    (slice offset count memory).length = count := by
  simp only [slice, List.length_take, List.length_drop]
  omega

theorem slice_all (memory : List α) : slice 0 memory.length memory = memory := by
  simp [slice]

theorem slice_add (offset first second : Nat) (memory : List α) :
    slice offset (first + second) memory =
      slice offset first memory ++ slice (offset + first) second memory := by
  simp [slice, List.take_add, List.drop_drop]

theorem take_slice (offset : Nat) {taken count : Nat} (memory : List α) (fewer : taken ≤ count) :
    (slice offset count memory).take taken = slice offset taken memory := by
  simp [slice, List.take_take, Nat.min_eq_left fewer]

theorem drop_slice (offset dropped count : Nat) (memory : List α) :
    (slice offset count memory).drop dropped =
      slice (offset + dropped) (count - dropped) memory := by
  simp [slice, List.drop_take, List.drop_drop]

theorem getElem?_slice (offset count index : Nat) (memory : List α) :
    (slice offset count memory)[index]? =
      if index < count then memory[offset + index]? else none := by
  by_cases inside : index < count
  · simp [slice, inside, List.getElem?_drop]
  · simp [slice, inside]

variable {data memory : List α} {offset : Nat}

theorem length_overwrite (inside : offset + data.length ≤ memory.length) :
    (overwrite offset data memory).length = memory.length := by
  simp only [overwrite, List.length_append, List.length_take, List.length_drop]
  omega

@[simp] theorem overwrite_nil (offset : Nat) (memory : List α) :
    overwrite offset [] memory = memory := by
  simp [overwrite]

theorem getElem?_overwrite (index : Nat) (inside : offset + data.length ≤ memory.length) :
    (overwrite offset data memory)[index]? =
      if offset ≤ index ∧ index < offset + data.length then
        data[index - offset]?
      else
        memory[index]? := by
  have taken : (memory.take offset).length = offset := by
    simp only [List.length_take]
    omega
  by_cases before : index < offset
  · have outside : ¬ (offset ≤ index ∧ index < offset + data.length) := by omega
    rw [if_neg outside, overwrite, List.append_assoc,
      List.getElem?_append_left (by omega), List.getElem?_take_of_lt before]
  · by_cases within : index < offset + data.length
    · rw [if_pos ⟨by omega, within⟩, overwrite,
        List.getElem?_append_left (by simp only [List.length_append]; omega),
        List.getElem?_append_right (by omega), taken]
    · rw [if_neg (by omega), overwrite,
        List.getElem?_append_right (by simp only [List.length_append]; omega),
        List.getElem?_drop]
      congr 1
      simp only [List.length_append]
      omega

theorem slice_overwrite_of_disjoint
    {offset start count : Nat} (inside : offset + data.length ≤ memory.length)
    (apart : start + count ≤ offset ∨ offset + data.length ≤ start) :
    slice start count (overwrite offset data memory) = slice start count memory := by
  apply List.ext_getElem?
  intro index
  rw [getElem?_slice, getElem?_slice]
  split
  · rw [getElem?_overwrite _ inside, if_neg (by omega)]
  · rfl

theorem take_overwrite_zero
    {count : Nat} {data : List α} (memory : List α) (all : data.length = count) :
    (overwrite 0 data memory).take count = data := by
  simp [overwrite, ← all]

theorem overwrite_start (data memory : List α) :
    overwrite 0 data memory = data ++ memory.drop data.length := by
  simp [overwrite]

theorem overwrite_whole (all : data.length = memory.length) : overwrite 0 data memory = data := by
  rw [overwrite, List.take_zero, List.nil_append, Nat.zero_add, all,
    List.drop_length, List.append_nil]

theorem take_overwrite_overwrite {first second : Nat} {front rest : List α} (memory : List α)
    (frontAll : front.length = first) (restAll : rest.length = second) :
    (overwrite first rest (overwrite 0 front memory)).take (first + second) = front ++ rest := by
  rw [overwrite, take_overwrite_zero memory frontAll]
  apply List.take_left'
  rw [List.length_append, frontAll, restAll]

theorem slice_overwrite_self (inside : offset + data.length ≤ memory.length) :
    slice offset data.length (overwrite offset data memory) = data := by
  apply List.ext_getElem?
  intro index
  rw [getElem?_slice]
  split
  · rw [getElem?_overwrite _ inside, if_pos (by omega)]
    congr 1
    omega
  · rw [List.getElem?_eq_none (by omega)]

end IteSdk.Lib
