import Mathlib.Data.Nat.ModEq

/-!
# Counters of a ring

A ring of `size` slots with counters that only grow: the element with number `n`
is in slot `n % size`.
-/

namespace IteSdk.Lib

variable {size first other : Nat}

theorem slot_ne (after : first < other) (within : other < first + size) :
    other % size ≠ first % size := by
  intro same
  have divides : size ∣ other - first := (Nat.modEq_iff_dvd' (Nat.le_of_lt after)).mp same.symm
  have apart := Nat.le_of_dvd (by omega) divides
  omega

theorem slot_succ (positive : 0 < size) :
    (first + 1) % size = if size ≤ first % size + 1 then 0 else first % size + 1 := by
  have inside := Nat.mod_lt first positive
  have division := Nat.div_add_mod first size
  split
  · next wraps =>
    have last : first + 1 = size * (first / size + 1) := by
      rw [Nat.mul_add]
      omega
    rw [last, Nat.mul_mod_right]
  · next stays =>
    rw [← Nat.mod_add_mod]
    exact Nat.mod_eq_of_lt (by omega)

variable {width count : Nat}

theorem slot_offset_succ (positive : 0 < count) :
    (if width * count ≤ first % count * width + width then 0
      else first % count * width + width) =
      (first + 1) % count * width := by
  by_cases empty : width = 0
  · simp [empty]
  · have wide : 0 < width := Nat.pos_of_ne_zero empty
    have wraps :
        width * count ≤ first % count * width + width ↔ count ≤ first % count + 1 := by
      rw [← Nat.succ_mul, Nat.mul_comm width]
      exact Nat.mul_le_mul_right_iff wide
    rw [slot_succ positive]
    by_cases last : count ≤ first % count + 1
    · rw [if_pos (wraps.mpr last), if_pos last, Nat.zero_mul]
    · rw [if_neg (fun full => last (wraps.mp full)), if_neg last, Nat.succ_mul]

theorem slot_offset_inside (positive : 0 < count) :
    first % count * width + width ≤ width * count := by
  rw [← Nat.succ_mul, Nat.mul_comm width]
  exact Nat.mul_le_mul_right width (Nat.mod_lt first positive)

theorem slot_offset_ne (wide : 0 < width) (different : other % count ≠ first % count) :
    other % count * width ≠ first % count * width :=
  fun same => different (Nat.eq_of_mul_eq_mul_right wide same)

theorem slot_offset_apart (different : other % count ≠ first % count) :
    other % count * width + width ≤ first % count * width ∨
      first % count * width + width ≤ other % count * width := by
  rcases Nat.lt_or_gt_of_ne different with before | after
  · refine .inl ?_
    rw [← Nat.succ_mul]
    exact Nat.mul_le_mul_right width before
  · refine .inr ?_
    rw [← Nat.succ_mul]
    exact Nat.mul_le_mul_right width after

end IteSdk.Lib
