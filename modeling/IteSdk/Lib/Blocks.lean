import IteSdk.Lib.Memory

/-!
# Blocks of one size

Data that is kept in blocks of one size is the concatenation of the blocks; a
window of one block is a window of the whole.
-/

namespace IteSdk.Lib

universe u

variable {α : Type u}

def Uniform (size : Nat) (blocks : List (List α)) : Prop := ∀ block ∈ blocks, block.length = size

theorem uniform_cons {size : Nat} {head : List α} {tail : List (List α)}
    (uniform : Uniform size (head :: tail)) :
    head.length = size ∧ Uniform size tail :=
  ⟨uniform head List.mem_cons_self,
    fun block member => uniform block (List.mem_cons_of_mem head member)⟩

theorem slice_append_left {offset count : Nat} (left right : List α)
    (inside : offset + count ≤ left.length) :
    slice offset count (left ++ right) = slice offset count left := by
  rw [slice, slice, List.drop_append_of_le_length (by omega),
    List.take_append_of_le_length (by rw [List.length_drop]; omega)]

theorem slice_append_right (offset count : Nat) (left right : List α) :
    slice (left.length + offset) count (left ++ right) = slice offset count right := by
  rw [slice, slice, ← List.drop_drop, List.drop_left]

theorem overwrite_append_left {offset : Nat} {data : List α}
    (left right : List α) (inside : offset + data.length ≤ left.length) :
    overwrite offset data (left ++ right) = overwrite offset data left ++ right := by
  simp only [overwrite, List.append_assoc]
  rw [List.take_append_of_le_length (by omega), List.drop_append_of_le_length inside]

theorem overwrite_append_right (offset : Nat) (data left right : List α) :
    overwrite (left.length + offset) data (left ++ right) =
      left ++ overwrite offset data right := by
  simp only [overwrite, List.append_assoc]
  rw [List.take_length_add_append, Nat.add_assoc, ← List.drop_drop,
    List.drop_left, List.append_assoc]

theorem slice_middle {offset count : Nat} (front middle rest : List α)
    (start : front.length = offset) (size : middle.length = count) :
    slice offset count (front ++ middle ++ rest) = middle := by
  subst start size
  rw [slice, List.append_assoc, List.drop_left, List.take_left]

theorem overwrite_middle {offset : Nat} (front old data rest : List α)
    (start : front.length = offset) (same : data.length = old.length) :
    overwrite offset data (front ++ old ++ rest) = front ++ data ++ rest := by
  subst start
  rw [overwrite, List.append_assoc front, List.take_left, same,
    List.drop_length_add_append, List.drop_left]

variable {blocks : List (List α)} {block : List α}

theorem length_flatten_uniform {size : Nat} (uniform : Uniform size blocks) :
    blocks.flatten.length = blocks.length * size := by
  induction blocks with
  | nil => simp
  | cons head tail ih =>
    obtain ⟨headLength, tailUniform⟩ := uniform_cons uniform
    rw [List.flatten_cons, List.length_append, headLength, ih tailUniform,
      List.length_cons, Nat.succ_mul, Nat.add_comm]

theorem flatten_uniform_inj {size : Nat} {first second : List (List α)}
    (firstUniform : Uniform size first) (secondUniform : Uniform size second)
    (count : first.length = second.length)
    (same : first.flatten = second.flatten) : first = second := by
  have lengths {blocks : List (List α)} (uniform : Uniform size blocks) :
      blocks.map List.length = List.replicate blocks.length size := by
    refine List.eq_replicate_iff.mpr ⟨List.length_map .., ?_⟩
    intro length member
    obtain ⟨block, inside, rfl⟩ := List.mem_map.mp member
    exact uniform block inside
  refine List.eq_iff_flatten_eq.mpr ⟨same, ?_⟩
  rw [lengths firstUniform, lengths secondUniform, count]

theorem slice_flatten {size index offset count : Nat}
    (uniform : Uniform size blocks) (found : blocks[index]? = some block)
    (inside : offset + count ≤ size) :
    slice (index * size + offset) count blocks.flatten = slice offset count block := by
  induction blocks generalizing index with
  | nil => simp at found
  | cons head tail ih =>
    obtain ⟨headLength, tailUniform⟩ := uniform_cons uniform
    cases index with
    | zero =>
      rw [List.getElem?_cons_zero, Option.some.injEq] at found
      subst found
      rw [Nat.zero_mul, Nat.zero_add, List.flatten_cons, slice_append_left _ _ (by omega)]
    | succ index =>
      rw [List.getElem?_cons_succ] at found
      rw [← ih tailUniform found, List.flatten_cons, Nat.succ_mul,
        Nat.add_comm _ size, Nat.add_assoc, ← headLength,
        slice_append_right]

theorem flatten_set {size index offset : Nat} {data : List α}
    (uniform : Uniform size blocks) (found : blocks[index]? = some block)
    (inside : offset + data.length ≤ size) :
    (blocks.set index (overwrite offset data block)).flatten =
      overwrite (index * size + offset) data blocks.flatten := by
  induction blocks generalizing index with
  | nil => simp at found
  | cons head tail ih =>
    obtain ⟨headLength, tailUniform⟩ := uniform_cons uniform
    cases index with
    | zero =>
      rw [List.getElem?_cons_zero, Option.some.injEq] at found
      subst found
      rw [List.set_cons_zero, Nat.zero_mul, Nat.zero_add, List.flatten_cons, List.flatten_cons,
        overwrite_append_left _ _ (by omega)]
    | succ index =>
      rw [List.getElem?_cons_succ] at found
      rw [List.set_cons_succ, List.flatten_cons, ih tailUniform found,
        List.flatten_cons, Nat.succ_mul, Nat.add_comm _ size,
        Nat.add_assoc, ← headLength, overwrite_append_right]

theorem uniform_set {size index : Nat} (uniform : Uniform size blocks)
    (length : block.length = size) : Uniform size (blocks.set index block) := by
  intro other member
  rcases List.mem_or_eq_of_mem_set member with old | new
  · exact uniform other old
  · rw [new, length]

end IteSdk.Lib
