import Mathlib.Data.List.Sort
import Mathlib.Data.List.Perm.Basic

/-!
# Lists with at most one element for each key

A list that is strictly sorted by a key; an element that is put in replaces the one
with its key.
-/

namespace IteSdk.Lib

variable {α : Type} {key : α → Nat}

/-- Put an element in where its key belongs; the element that it replaces. -/
def insertKeyed (key : α → Nat) (new : α) : List α → List α × Option α
  | [] => ([new], none)
  | current :: rest =>
    if key current < key new then
      (current :: (insertKeyed key new rest).1, (insertKeyed key new rest).2)
    else if key new < key current then
      (new :: current :: rest, none)
    else
      (new :: rest, some current)

theorem insertKeyed_perm (key : α → Nat) (new : α) (list : List α) :
    ((insertKeyed key new list).1 ++ (insertKeyed key new list).2.toList).Perm (new :: list) := by
  induction list with
  | nil =>
    exact List.Perm.refl _
  | cons current rest ih =>
    rw [insertKeyed]
    split
    · exact (ih.cons current).trans (List.Perm.swap new current rest)
    · split
      · rw [Option.toList_none, List.append_nil]
      · rw [Option.toList_some, List.cons_append]
        exact (List.perm_append_singleton current rest).cons new

theorem length_insertKeyed (key : α → Nat) (new : α) (list : List α) :
    (insertKeyed key new list).1.length =
      if (insertKeyed key new list).2 = none then
        list.length + 1
      else
        list.length := by
  have lengths := (insertKeyed_perm key new list).length_eq
  rw [List.length_append, List.length_cons] at lengths
  cases replaced : (insertKeyed key new list).2 with
  | none =>
    rw [replaced, Option.toList_none, List.length_nil] at lengths
    rw [if_pos rfl]
    exact lengths
  | some old =>
    rw [replaced, Option.toList_some, List.length_singleton] at lengths
    rw [if_neg (Option.some_ne_none old)]
    omega

variable {list : List α}

theorem mem_of_mem_insertKeyed {new other : α} (member : other ∈ (insertKeyed key new list).1) :
    other = new ∨ other ∈ list := by
  have inside : other ∈ new :: list :=
    (insertKeyed_perm key new list).mem_iff.mp (List.mem_append_left _ member)
  exact List.mem_cons.mp inside

def KeySorted (key : α → Nat) (list : List α) : Prop :=
  list.Pairwise fun first second => key first < key second

theorem KeySorted.insertKeyed {new : α} (sorted : KeySorted key list) :
    KeySorted key (insertKeyed key new list).1 := by
  induction list with
  | nil =>
    exact List.pairwise_singleton _ _
  | cons current rest ih =>
    obtain ⟨least, sortedRest⟩ := List.pairwise_cons.mp sorted
    rw [Lib.insertKeyed]
    split
    · rename_i before
      refine List.pairwise_cons.mpr ⟨fun other member => ?_, ih sortedRest⟩
      rcases mem_of_mem_insertKeyed member with rfl | member
      · exact before
      · exact least other member
    · split
      · rename_i after
        refine List.pairwise_cons.mpr ⟨fun other member => ?_, sorted⟩
        rcases List.mem_cons.mp member with rfl | member
        · exact after
        · exact Nat.lt_trans after (least other member)
      · rename_i notBefore notAfter
        refine List.pairwise_cons.mpr ⟨fun other member => ?_, sortedRest⟩
        have same : key new = key current := by omega
        rw [same]
        exact least other member

theorem KeySorted.map_eq_range {count : Nat} (sorted : KeySorted key list)
    (bounded : ∀ element ∈ list, key element < count)
    (full : list.length = count) : list.map key = List.range count := by
  have sortedKeys : (list.map key).Pairwise (· < ·) := List.pairwise_map.mpr sorted
  have nodup : (list.map key).Nodup := sortedKeys.imp fun less => Nat.ne_of_lt less
  have inside : list.map key ⊆ List.range count := by
    intro value member
    obtain ⟨element, here, rfl⟩ := List.mem_map.mp member
    exact List.mem_range.mpr (bounded element here)
  have perm : (list.map key).Perm (List.range count) := by
    refine (List.subperm_of_subset nodup inside).perm_of_length_le ?_
    rw [List.length_range, List.length_map, full]
  exact perm.eq_of_pairwise (fun _ _ _ _ first second =>
    absurd first (Nat.lt_asymm second)) sortedKeys List.pairwise_lt_range

end IteSdk.Lib
