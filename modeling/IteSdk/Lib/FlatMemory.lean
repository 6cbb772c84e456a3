import Mathlib.Data.List.Basic

/-!
# Flat memories

A flat memory has a value at every address.  `window` reads consecutive
addresses and `patch` writes them.
-/

namespace IteSdk.Lib

universe u

variable {α : Type u}

/-- The `count` values from `start` on. -/
def window (memory : Nat → α) (start count : Nat) : List α :=
  (List.range count).map fun index => memory (start + index)

/-- The memory after `data` was written from `start` on. -/
def patch (memory : Nat → α) (start : Nat) (data : List α) : Nat → α :=
  fun address =>
    if start ≤ address then
      data[address - start]?.getD (memory address)
    else
      memory address

/-- The data with the addresses at which `patch` writes them. -/
def addressed : Nat → List α → List (Nat × α)
  | _, [] => []
  | start, value :: rest => (start, value) :: addressed (start + 1) rest

theorem addressed_append (start : Nat) (first second : List α) :
    addressed start (first ++ second) =
      addressed start first ++ addressed (start + first.length) second := by
  induction first generalizing start with
  | nil => rfl
  | cons value rest ih =>
    rw [List.cons_append, addressed, ih, addressed,
      List.cons_append, List.length_cons, Nat.add_right_comm start 1,
      Nat.add_assoc]

@[simp] theorem length_window (memory : Nat → α) (start count : Nat) :
    (window memory start count).length = count := by
  simp [window]

variable {start count index : Nat}

theorem getElem?_window (memory : Nat → α) (inside : index < count) :
    (window memory start count)[index]? = some (memory (start + index)) := by
  simp [window, inside]

theorem window_add (memory : Nat → α) (start first second : Nat) :
    window memory start (first + second) =
      window memory start first ++ window memory (start + first) second := by
  simp [window, List.range_add, Nat.add_assoc]

variable {left right : Nat → α}

theorem window_congr {leftStart rightStart count : Nat}
    (agree : ∀ index, index < count → left (leftStart + index) = right (rightStart + index)) :
    window left leftStart count = window right rightStart count := by
  apply List.map_congr_left
  intro index member
  exact agree index (List.mem_range.mp member)

@[simp] theorem patch_nil (memory : Nat → α) (start : Nat) : patch memory start [] = memory := by
  funext address
  simp [patch]

variable {start address : Nat} {data : List α}

theorem patch_of_lt (memory : Nat → α) (data : List α) (before : address < start) :
    patch memory start data address = memory address :=
  if_neg (Nat.not_le.mpr before)

theorem patch_of_ge (memory : Nat → α) (behind : start + data.length ≤ address) :
    patch memory start data address = memory address := by
  have none : data[address - start]? = none := List.getElem?_eq_none (by omega)
  rw [patch, if_pos (by omega), none, Option.getD_none]

theorem patch_outside
    (memory : Nat → α) (outside : ¬ (start ≤ address ∧ address < start + data.length)) :
    patch memory start data address = memory address := by
  rcases Nat.lt_or_ge address start with before | behind
  · exact patch_of_lt memory data before
  · exact patch_of_ge memory (by omega)

theorem patch_add (memory : Nat → α) (start : Nat) {index : Nat} (inside : index < data.length) :
    patch memory start data (start + index) = data[index] := by
  rw [patch, if_pos (Nat.le_add_right _ _), Nat.add_sub_cancel_left,
    List.getElem?_eq_getElem inside, Option.getD_some]

theorem patch_congr {leftStart rightStart leftAddress rightAddress : Nat} (data : List α)
    (agree : left leftAddress = right rightAddress)
    (sameSide : leftStart ≤ leftAddress ↔ rightStart ≤ rightAddress)
    (sameDistance : leftAddress - leftStart = rightAddress - rightStart) :
    patch left leftStart data leftAddress = patch right rightStart data rightAddress := by
  simp only [patch, agree, sameSide, sameDistance]

theorem patch_append (memory : Nat → α) (start : Nat) (first second : List α) :
    patch memory start (first ++ second) =
      patch (patch memory start first) (start + first.length) second := by
  funext address
  rcases Nat.lt_or_ge address start with before | behind
  · rw [patch_of_lt _ _ before, patch_of_lt _ _ (by omega), patch_of_lt _ _ before]
  · obtain ⟨index, rfl⟩ := Nat.exists_eq_add_of_le behind
    rcases Nat.lt_or_ge index first.length with inFirst | afterFirst
    · have inBoth : index < (first ++ second).length := by
        rw [List.length_append]
        omega
      rw [patch_add _ _ inBoth, List.getElem_append_left inFirst,
        patch_of_lt _ _ (by omega), patch_add _ _ inFirst]
    · obtain ⟨rest, rfl⟩ := Nat.exists_eq_add_of_le afterFirst
      rcases Nat.lt_or_ge rest second.length with inSecond | afterSecond
      · have inBoth : first.length + rest < (first ++ second).length := by
          rw [List.length_append]
          omega
        rw [patch_add _ _ inBoth,
          List.getElem_append_right (Nat.le_add_right _ _), ← Nat.add_assoc,
          patch_add _ _ inSecond]
        simp only [Nat.add_sub_cancel_left]
      · rw [patch_of_ge _ (by rw [List.length_append]; omega),
          patch_of_ge _ (by omega), patch_of_ge _ (by omega)]

theorem patch_window (memory source : Nat → α) (sourceStart : Nat) (inside : index < count) :
    patch memory start (window source sourceStart count) (start + index) =
      source (sourceStart + index) := by
  have within : index < (window source sourceStart count).length := by
    rw [length_window]
    exact inside
  rw [patch_add memory start within]
  exact Option.some.inj
    ((List.getElem?_eq_getElem within).symm.trans (getElem?_window source inside))

end IteSdk.Lib
