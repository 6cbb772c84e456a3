import Mathlib.Data.Finset.Basic
import Mathlib.Data.Multiset.MapFold

/-!
# Values in cells

A value moves along an array through a hole: the cell that the next value is written
to. What the cells of a set hold is a multiset, so that it does not matter where in
the array a value is.
-/

namespace IteSdk.Lib

open Function

variable {ι α : Type*}

/-- What the cells of `places` hold. -/
def held (cells : ι → α) (places : Finset ι) : Multiset α := places.val.map cells

variable {cells : ι → α} {places : Finset ι}

theorem mem_held {x : α} : x ∈ held cells places ↔ ∃ i ∈ places, cells i = x :=
  Multiset.mem_map

theorem held_congr {cells others : ι → α} (same : ∀ i ∈ places, cells i = others i) :
    held cells places = held others places :=
  Multiset.map_congr rfl same

variable [DecidableEq ι]

theorem held_take (cells : ι → α) {i : ι} (inside : i ∈ places) :
    held cells places = cells i ::ₘ held cells (places.erase i) := by
  rw [held, held, Finset.erase_val, ← Multiset.map_cons,
    Multiset.cons_erase (Finset.mem_def.mp inside)]

theorem held_update_of_notMem {i : ι} {x : α} (outside : i ∉ places) :
    held (update cells i x) places = held cells places :=
  held_congr fun _ inside => update_of_ne (ne_of_mem_of_not_mem inside outside) x cells

theorem held_fill {i : ι} (inside : i ∈ places) (x : α) :
    held (update cells i x) places = x ::ₘ held cells (places.erase i) := by
  rw [held_take _ inside, update_self, held_update_of_notMem (Finset.notMem_erase i places)]

theorem held_move {i j : ι} (hole : i ∈ places) (source : j ∈ places) (apart : i ≠ j) :
    held (update cells i (cells j)) (places.erase j) = held cells (places.erase i) := by
  rw [held_fill (Finset.mem_erase.mpr ⟨apart, hole⟩), Finset.erase_right_comm,
    ← held_take _ (Finset.mem_erase.mpr ⟨apart.symm, source⟩)]

end IteSdk.Lib
