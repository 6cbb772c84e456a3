import Mathlib.Data.List.Basic
import Mathlib.Logic.Function.Basic

/-!
# Linear feedback registers

A register absorbs a word by exclusive or and then moves on.  When the move is
linear and injective, two messages that agree outside a window leave the same
register only if their difference inside the window is in the kernel of the
window map.
-/

namespace IteSdk.Lib

variable {w : Nat}

def register (next : BitVec w → BitVec w) (state : BitVec w) (words : List (BitVec w)) : BitVec w :=
  words.foldl (fun state word => next (state ^^^ word)) state

/-- `next` is linear over the two-element field. -/
def XorLinear (next : BitVec w → BitVec w) : Prop :=
  ∀ left right, next (left ^^^ right) = next left ^^^ next right

@[simp] theorem register_nil (next : BitVec w → BitVec w) (state : BitVec w) :
    register next state [] = state :=
  rfl

@[simp] theorem register_cons (next : BitVec w → BitVec w) (state word : BitVec w)
    (words : List (BitVec w)) :
    register next state (word :: words) = register next (next (state ^^^ word)) words :=
  rfl

theorem register_append
    (next : BitVec w → BitVec w) (state : BitVec w) (first second : List (BitVec w)) :
    register next state (first ++ second) = register next (register next state first) second :=
  List.foldl_append

variable {next : BitVec w → BitVec w} {left right : List (BitVec w)} {start width : Nat}

theorem XorLinear.zero (linear : XorLinear next) : next 0#w = 0#w := by
  have twice := linear 0#w 0#w
  rw [BitVec.xor_self, BitVec.xor_self] at twice
  exact twice

theorem XorLinear.injective
    (linear : XorLinear next) (kernel : ∀ state, next state = 0#w → state = 0#w) :
    Function.Injective next := by
  intro left right same
  have difference : next (left ^^^ right) = 0#w := by rw [linear, same, BitVec.xor_self]
  exact BitVec.xor_eq_zero_iff.mp (kernel _ difference)

theorem XorLinear.register (linear : XorLinear next)
    (sameLength : left.length = right.length) (first second : BitVec w) :
    Lib.register next (first ^^^ second) (List.zipWith (· ^^^ ·) left right) =
      Lib.register next first left ^^^ Lib.register next second right := by
  induction left generalizing right first second with
  | nil =>
    obtain rfl := List.length_eq_zero_iff.mp sameLength.symm
    rfl
  | cons word words ih =>
    cases right with
    | nil => simp at sameLength
    | cons other others =>
      have exchanged :
          first ^^^ second ^^^ (word ^^^ other) = first ^^^ word ^^^ (second ^^^ other) := by
        ac_rfl
      rw [List.zipWith_cons_cons, register_cons, register_cons, register_cons, exchanged, linear]
      exact ih (by simpa using sameLength) _ _

theorem XorLinear.register_zeros (linear : XorLinear next) (count : Nat) :
    Lib.register next 0#w (List.replicate count 0#w) = 0#w := by
  induction count with
  | zero => rfl
  | succ count ih =>
    rw [List.replicate_succ, register_cons, BitVec.xor_self, linear.zero]
    exact ih

theorem register_injective (injective : Function.Injective next) (words : List (BitVec w)) :
    Function.Injective fun state => register next state words := by
  induction words with
  | nil => exact fun _ _ same => same
  | cons word words ih =>
    intro left right same
    have absorbed : left ^^^ word = right ^^^ word := injective (ih same)
    exact (BitVec.xor_left_inj word).mp absorbed

/-- Two lists agree outside the `width` positions from `start` on. -/
def SameOutside {α : Type} (start width : Nat) (left right : List α) : Prop :=
  ∀ index, index < start ∨ start + width ≤ index → left[index]? = right[index]?

variable {α : Type}

section

variable {left right : List α} (same : SameOutside start width left right)

include same

theorem SameOutside.take : left.take start = right.take start := by
  apply List.ext_getElem?
  intro index
  rw [List.getElem?_take, List.getElem?_take]
  split
  · rename_i before
    exact same index (Or.inl before)
  · rfl

theorem SameOutside.drop : left.drop (start + width) = right.drop (start + width) := by
  apply List.ext_getElem?
  intro index
  rw [List.getElem?_drop, List.getElem?_drop]
  exact same _ (Or.inr (Nat.le_add_right _ _))

theorem SameOutside.map {β : Type} (f : α → β) :
    SameOutside start width (left.map f) (right.map f) := by
  intro index outside
  rw [List.getElem?_map, List.getElem?_map, same index outside]

end

theorem split_window (start width : Nat) (list : List α) :
    list = list.take start ++ ((list.drop start).take width ++ list.drop (start + width)) := by
  rw [← List.drop_drop, List.take_append_drop, List.take_append_drop]

theorem eq_of_zipWith_xor (sameLength : left.length = right.length)
    (zero : ∀ word ∈ List.zipWith (· ^^^ ·) left right, word = 0#w) :
    left = right := by
  induction left generalizing right with
  | nil => exact (List.length_eq_zero_iff.mp sameLength.symm).symm
  | cons word words ih =>
    cases right with
    | nil => simp at sameLength
    | cons other others =>
      rw [List.zipWith_cons_cons] at zero
      have head : word ^^^ other = 0#w := zero _ List.mem_cons_self
      have tail : words = others :=
        ih (by simpa using sameLength)
          fun difference member => zero difference (List.mem_cons_of_mem _ member)
      rw [BitVec.xor_eq_zero_iff.mp head, tail]

variable {symbol : BitVec w → Prop}

theorem symbols_zipWith_xor
    (symbolXor : ∀ left right, symbol left → symbol right → symbol (left ^^^ right))
    (leftSymbols : ∀ word ∈ left, symbol word) (rightSymbols : ∀ word ∈ right, symbol word) :
    ∀ word ∈ List.zipWith (· ^^^ ·) left right, symbol word := by
  induction left generalizing right with
  | nil => simp
  | cons word words ih =>
    cases right with
    | nil => simp
    | cons other others =>
      rw [List.zipWith_cons_cons]
      rw [List.forall_mem_cons] at leftSymbols rightSymbols ⊢
      exact ⟨symbolXor _ _ leftSymbols.1 rightSymbols.1, ih leftSymbols.2 rightSymbols.2⟩

/-- No difference of `width` symbols but zero goes unnoticed by the register. -/
structure NoKernel (next : BitVec w → BitVec w) (symbol : BitVec w → Prop)
    (width : Nat) : Prop where
  symbolZero : symbol 0#w
  symbolXor : ∀ left right, symbol left → symbol right → symbol (left ^^^ right)
  zero : ∀ words : List (BitVec w), words.length = width →
    (∀ word ∈ words, symbol word) → register next 0#w words = 0#w →
    ∀ word ∈ words, word = 0#w

theorem NoKernel.window {width : Nat} (noKernel : NoKernel next symbol width)
    (linear : XorLinear next) (leftSymbols : ∀ word ∈ left, symbol word)
    (rightSymbols : ∀ word ∈ right, symbol word) (sameLength : left.length = right.length)
    (short : left.length ≤ width) {state : BitVec w}
    (collides : register next state left = register next state right) :
    left = right := by
  have vanishes :
      register next 0#w (List.zipWith (· ^^^ ·) left right) = 0#w := by
    have linearly := linear.register sameLength state state
    rw [BitVec.xor_self, collides, BitVec.xor_self] at linearly
    exact linearly
  have lengthDifferences :
      (List.zipWith (· ^^^ ·) left right).length = left.length := by
    rw [List.length_zipWith, ← sameLength, Nat.min_self]
  -- A shorter window is a whole one that ends in zeros.
  have padded :
      ∀ word ∈ List.zipWith (· ^^^ ·) left right ++ List.replicate (width - left.length) 0#w,
        word = 0#w := by
    apply noKernel.zero
    · rw [List.length_append, List.length_replicate, lengthDifferences]
      omega
    · rw [List.forall_mem_append]
      refine ⟨symbols_zipWith_xor noKernel.symbolXor leftSymbols rightSymbols,
        fun word member => ?_⟩
      rw [List.eq_of_mem_replicate member]
      exact noKernel.symbolZero
    · rw [register_append, vanishes]
      exact linear.register_zeros _
  exact eq_of_zipWith_xor sameLength fun word member => padded word (List.mem_append_left _ member)

/-- Messages of symbols that differ only in a window of `width` symbols lead to
different registers. -/
theorem NoKernel.detects {width : Nat} (noKernel : NoKernel next symbol width)
    (linear : XorLinear next) (injective : Function.Injective next) {start : Nat}
    (leftSymbols : ∀ word ∈ left, symbol word) (rightSymbols : ∀ word ∈ right, symbol word)
    (sameLength : left.length = right.length) (outside : SameOutside start width left right)
    {state : BitVec w} (collides : register next state left = register next state right) :
    left = right := by
  have leftSplit := split_window start width left
  have rightSplit := split_window start width right
  rw [← outside.take, ← outside.drop] at rightSplit
  have windowsCollide :
      register next (register next state (left.take start)) ((left.drop start).take width) =
        register next (register next state (left.take start)) ((right.drop start).take width) := by
    apply register_injective injective (left.drop (start + width))
    show register next _ _ = register next _ _
    rw [← register_append, ← register_append, ← register_append,
      ← register_append, ← leftSplit, ← rightSplit]
    exact collides
  have windowsSame :
      (left.drop start).take width = (right.drop start).take width := by
    refine noKernel.window linear ?_ ?_ ?_ ?_ windowsCollide
    · exact fun word member =>
        leftSymbols word (List.mem_of_mem_drop (List.mem_of_mem_take member))
    · exact fun word member =>
        rightSymbols word (List.mem_of_mem_drop (List.mem_of_mem_take member))
    · rw [List.length_take, List.length_take, List.length_drop, List.length_drop, sameLength]
    · exact List.length_take_le _ _
  rw [leftSplit, windowsSame, ← rightSplit]

end IteSdk.Lib
