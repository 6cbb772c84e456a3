import IteSdk.Lib.Memory

/-!
# Cyclic windows of a flat memory

`ringSlice` reads and `ringWrite` writes a window that may run past the end of
the memory and continue at its beginning.  Positions range over `0 .. N`, where
`N` and `0` name the same cell boundary, so that cursors which are only wrapped
lazily can be used as they are.
-/

namespace IteSdk.Lib

section

universe u

variable {α : Type u}

/-- A position that has run past the end at most once, brought back. -/
def wrap (size position : Nat) : Nat := if position < size then position else position - size

/-- `count` cells from `start` on, continuing at the beginning. -/
def ringSlice (start count : Nat) (memory : List α) : List α :=
  slice start count memory ++ slice 0 (start + count - memory.length) memory

/-- Copy `data` to `start`, continuing at the beginning. -/
def ringWrite (start : Nat) (data memory : List α) : List α :=
  overwrite 0 (data.drop (memory.length - start))
    (overwrite start (data.take (memory.length - start)) memory)

variable {start : Nat}

@[simp] theorem ringSlice_zero {memory : List α} (inside : start ≤ memory.length) :
    ringSlice start 0 memory = [] := by
  have none : start - memory.length = 0 := by omega
  simp [ringSlice, none]

variable {memory : List α} {start count : Nat}

theorem ringSlice_of_le (inside : start + count ≤ memory.length) :
    ringSlice start count memory = slice start count memory := by
  have none : start + count - memory.length = 0 := by omega
  simp [ringSlice, none]

theorem ringSlice_of_ge (past : memory.length ≤ start + count) :
    ringSlice start count memory =
      slice start (memory.length - start) memory ++
        slice 0 (start + count - memory.length) memory := by
  unfold ringSlice slice
  congr 1
  rw [List.take_of_length_le (by simp only [List.length_drop]; omega),
    List.take_of_length_le (by simp only [List.length_drop]; omega)]

theorem length_ringSlice (inside : start ≤ memory.length) (fits : count ≤ memory.length) :
    (ringSlice start count memory).length = count := by
  simp only [ringSlice, slice, List.length_append, List.length_take, List.length_drop]
  omega

theorem getElem?_ringSlice
    (index : Nat) (inside : start ≤ memory.length) (fits : count ≤ memory.length) :
    (ringSlice start count memory)[index]? =
      if index < count then
        memory[wrap memory.length (start + index)]?
      else
        none := by
  by_cases within : index < count
  · rw [if_pos within, ringSlice]
    by_cases before : start + index < memory.length
    · have firstLength : index < (slice start count memory).length := by
        simp only [slice, List.length_take, List.length_drop]
        omega
      rw [List.getElem?_append_left firstLength, getElem?_slice, if_pos within, wrap, if_pos before]
    · have firstLength :
          (slice start count memory).length = memory.length - start := by
        simp only [slice, List.length_take, List.length_drop]
        omega
      rw [List.getElem?_append_right (by omega), firstLength, getElem?_slice,
        if_pos (by omega), wrap, if_neg before]
      congr 1
      omega
  · rw [if_neg within, List.getElem?_eq_none]
    rw [length_ringSlice inside fits]
    omega

variable {data memory : List α}

theorem ringWrite_of_le (inside : start + data.length ≤ memory.length) :
    ringWrite start data memory = overwrite start data memory := by
  rw [ringWrite, List.take_of_length_le (by omega),
    List.drop_of_length_le (by omega), overwrite_nil]

theorem length_ringWrite (inside : start ≤ memory.length) (fits : data.length ≤ memory.length) :
    (ringWrite start data memory).length = memory.length := by
  have firstFits :
      start + (data.take (memory.length - start)).length ≤ memory.length := by
    simp only [List.length_take]
    omega
  rw [ringWrite, length_overwrite, length_overwrite firstFits]
  rw [length_overwrite firstFits]
  simp only [List.length_drop]
  omega

theorem getElem?_ringWrite (index : Nat) (inside : start ≤ memory.length)
    (fits : data.length ≤ memory.length) :
    (ringWrite start data memory)[index]? =
      if start ≤ index ∧ index < memory.length ∧ index < start + data.length then
        data[index - start]?
      else if index + memory.length < start + data.length then
        data[index + memory.length - start]?
      else
        memory[index]? := by
  have firstFits :
      start + (data.take (memory.length - start)).length ≤ memory.length := by
    simp only [List.length_take]
    omega
  have secondFits :
      0 + (data.drop (memory.length - start)).length ≤
        (overwrite start (data.take (memory.length - start)) memory).length := by
    rw [length_overwrite firstFits]
    simp only [List.length_drop]
    omega
  rw [ringWrite, getElem?_overwrite index secondFits, getElem?_overwrite index firstFits]
  simp only [List.length_drop, List.length_take]
  by_cases wrapped : index + memory.length < start + data.length
  · rw [if_pos (by omega), if_neg (by omega), if_pos wrapped, List.getElem?_drop]
    congr 1
    omega
  · rw [if_neg (by omega)]
    by_cases first :
        start ≤ index ∧ index < memory.length ∧ index < start + data.length
    · rw [if_pos (by omega), if_pos first, List.getElem?_take_of_lt (by omega)]
    · rw [if_neg (by omega), if_neg first, if_neg wrapped]

/-- A window splits at any point; the second part starts where the first one
ends. -/
theorem ringSlice_add {start first second : Nat} (inside : start ≤ memory.length)
    (fits : first + second ≤ memory.length) :
    ringSlice start (first + second) memory =
      ringSlice start first memory ++
        ringSlice (wrap memory.length (start + first)) second memory := by
  have startAgain : wrap memory.length (start + first) ≤ memory.length := by
    unfold wrap
    split <;> omega
  have firstLength := length_ringSlice inside (by omega : first ≤ memory.length)
  apply List.ext_getElem?
  intro index
  rw [getElem?_ringSlice index inside fits]
  by_cases before : index < first
  · rw [if_pos (by omega), List.getElem?_append_left (by omega),
      getElem?_ringSlice index inside (by omega), if_pos before]
  · rw [List.getElem?_append_right (by omega), firstLength,
      getElem?_ringSlice _ startAgain (by omega)]
    by_cases within : index < first + second
    · rw [if_pos within, if_pos (by omega)]
      congr 1
      unfold wrap
      split <;> split <;> (try split) <;> omega
    · rw [if_neg within, if_neg (by omega)]

theorem ringSlice_length {count : Nat} (fits : count ≤ memory.length) :
    ringSlice memory.length count memory = ringSlice 0 count memory := by
  have empty : slice memory.length count memory = [] := by simp [slice]
  rw [ringSlice_of_le (by omega : 0 + count ≤ memory.length), ringSlice,
    empty, List.nil_append, Nat.add_sub_cancel_left]

theorem ringSlice_wrap {position start count : Nat}
    (inside : start ≤ memory.length) (fits : count ≤ memory.length)
    (same : start = position ∨ start + memory.length = position) :
    ringSlice (wrap memory.length position) count memory = ringSlice start count memory := by
  rcases same with here | wrapped
  · rcases Nat.lt_or_ge position memory.length with before | atEnd
    · rw [wrap, if_pos before, here]
    · have boundary : start = memory.length := by omega
      rw [wrap, if_neg (by omega), boundary, ringSlice_length fits]
      congr 1
      omega
  · rw [wrap, if_neg (by omega)]
    congr 1
    omega

/-- Data written right behind a window extends it, as long as both together
fit into the memory. -/
theorem ringSlice_ringWrite {start count stop : Nat} (startInside : start ≤ memory.length)
    (stopInside : stop ≤ memory.length) (fits : count + data.length ≤ memory.length)
    (behind : start + count = stop ∨ start + count = stop + memory.length) :
    ringSlice start (count + data.length) (ringWrite stop data memory) =
      ringSlice start count memory ++ data := by
  have dataFits : data.length ≤ memory.length := by omega
  have sameLength := length_ringWrite stopInside dataFits
  have oldLength := length_ringSlice startInside (by omega : count ≤ memory.length)
  apply List.ext_getElem?
  intro index
  rw [getElem?_ringSlice index (by omega) (by omega), sameLength]
  by_cases old : index < count
  · rw [if_pos (by omega), List.getElem?_append_left (by omega),
      getElem?_ringSlice index startInside (by omega), if_pos old,
      getElem?_ringWrite _ stopInside dataFits]
    have outside :
        ¬ (stop ≤ wrap memory.length (start + index) ∧
          wrap memory.length (start + index) < memory.length ∧
          wrap memory.length (start + index) < stop + data.length) := by
      unfold wrap
      split <;> omega
    have outsideAgain :
        ¬ (wrap memory.length (start + index) + memory.length < stop + data.length) := by
      unfold wrap
      split <;> omega
    rw [if_neg outside, if_neg outsideAgain]
  · rw [List.getElem?_append_right (by omega), oldLength]
    by_cases new : index < count + data.length
    · rw [if_pos new, getElem?_ringWrite _ stopInside dataFits]
      unfold wrap
      split
      · split
        · congr 1
          omega
        · rw [if_pos (by omega)]
          congr 1
          omega
      · split
        · congr 1
          omega
        · rw [if_pos (by omega)]
          congr 1
          omega
    · rw [if_neg new, List.getElem?_eq_none (by omega)]

theorem ringSlice_overwrite {start count offset : Nat} (startInside : start ≤ memory.length)
    (fits : count ≤ memory.length) (inside : offset + data.length ≤ memory.length)
    (apart :
      ∀ index, index < count →
        wrap memory.length (start + index) < offset ∨
          offset + data.length ≤ wrap memory.length (start + index)) :
    ringSlice start count (overwrite offset data memory) = ringSlice start count memory := by
  have sameLength := length_overwrite inside
  apply List.ext_getElem?
  intro index
  rw [getElem?_ringSlice index (by omega) (by omega),
    getElem?_ringSlice index startInside fits, sameLength]
  split
  · rename_i within
    have outside := apart index within
    rw [getElem?_overwrite _ inside, if_neg (by omega)]
  · rfl

end

/-!
# The entries of a bounded ring

A ring of `size` cells holds a list of entries from its cell `start` on.  What
it means that a cell holds an entry is a parameter, so that the contents of a
cell may be spread over several arrays.
-/

section

universe u

variable {α : Type u}

variable {size start index : Nat}

theorem wrap_lt (inside : start < size) (within : index ≤ size) :
    wrap size (start + index) < size := by
  unfold wrap
  split <;> omega

theorem wrap_ne {size start index count : Nat} (before : index < count) (within : count < size) :
    wrap size (start + index) ≠ wrap size (start + count) := by
  unfold wrap
  split <;> split <;> omega

theorem wrap_wrap (inside : start < size) (within : index + 1 ≤ size) :
    wrap size (wrap size (start + 1) + index) = wrap size (start + (index + 1)) := by
  unfold wrap
  split <;> split <;> split <;> omega

/-- The entries stand in the cells from `start` on, in this order. -/
def RingHolds (holds : Nat → α → Prop) (size start : Nat) (entries : List α) : Prop :=
  ∀ index entry, entries[index]? = some entry → holds (wrap size (start + index)) entry

namespace RingHolds

variable {holds : Nat → α → Prop} {size start : Nat}
  {entry : α} {entries : List α}

theorem nil : RingHolds holds size start [] := by
  intro index entry found
  simp at found

theorem head (inside : start < size) (ring : RingHolds holds size start (entry :: entries)) :
    holds start entry := by
  have first := ring 0 entry rfl
  rwa [Nat.add_zero, wrap, if_pos inside] at first

theorem tail (inside : start < size) (within : (entry :: entries).length ≤ size)
    (ring : RingHolds holds size start (entry :: entries)) :
    RingHolds holds size (wrap size (start + 1)) entries := by
  intro index other found
  have bound : index < entries.length := (List.getElem?_eq_some_iff.mp found).1
  rw [List.length_cons] at within
  rw [wrap_wrap inside (by omega)]
  exact ring (index + 1) other (by rw [List.getElem?_cons_succ, found])

theorem append (ring : RingHolds holds size start entries)
    (next : holds (wrap size (start + entries.length)) entry) :
    RingHolds holds size start (entries ++ [entry]) := by
  intro index other found
  rcases Nat.lt_trichotomy index entries.length with before | here | after
  · rw [List.getElem?_append_left before] at found
    exact ring index other found
  · subst here
    rw [List.getElem?_concat_length] at found
    exact Option.some.inj found ▸ next
  · rw [List.getElem?_eq_none (by simp; omega)] at found
    cases found

theorem frame {holds' : Nat → α → Prop} (ring : RingHolds holds size start entries)
    (inside : start < size) (notFull : entries.length < size)
    (kept :
      ∀ cell other,
        cell < size → cell ≠ wrap size (start + entries.length) →
          holds cell other → holds' cell other) :
    RingHolds holds' size start entries := by
  intro index other found
  have bound : index < entries.length := (List.getElem?_eq_some_iff.mp found).1
  exact kept _ other (wrap_lt inside (by omega)) (wrap_ne bound notFull) (ring index other found)

end RingHolds

end

end IteSdk.Lib
