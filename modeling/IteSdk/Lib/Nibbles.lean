import Mathlib.Data.BitVec
import Mathlib.Tactic.IntervalCases

/-!
# Hexadecimal digits of a sum

The carries of an addition of words show whether a digit overflows.
-/

namespace IteSdk.Lib

def nibble (x : BitVec 32) (i : Nat) : Nat := x.toNat / 16 ^ i % 16

theorem carry_nibbles (x y : BitVec 32) (n : Nat) :
    (∀ i < n, BitVec.carry (4 * (i + 1)) x y false = false) ↔
      ∀ i < n, nibble x i + nibble y i < 16 := by
  have clear_iff (i : Nat) :
      BitVec.carry (4 * (i + 1)) x y false = false ↔
        x.toNat % 16 ^ (i + 1) + y.toNat % 16 ^ (i + 1) < 16 ^ (i + 1) := by
    rw [BitVec.carry, Nat.pow_mul, decide_eq_false_iff_not, Bool.toNat_false, Nat.add_zero, not_le]
  have split (z : BitVec 32) (i : Nat) :
      z.toNat % 16 ^ (i + 1) = z.toNat % 16 ^ i + 16 ^ i * nibble z i :=
    Nat.mod_pow_succ
  simp only [clear_iff]
  constructor
  · intro clear i inside
    have sum := clear i inside
    by_contra overflow
    have large := Nat.mul_le_mul_left (16 ^ i) (not_lt.mp overflow)
    rw [split, split, Nat.pow_succ] at sum
    rw [Nat.mul_add] at large
    omega
  · intro small i inside
    -- A digit overflows first where no carry comes from below.
    induction i with
    | zero =>
      have sum := small 0 inside
      simp [nibble] at sum ⊢
      exact sum
    | succ i ih =>
      have below := ih (by omega)
      have sum := Nat.mul_le_mul_left (16 ^ (i + 1)) (Nat.le_of_lt_succ (small (i + 1) inside))
      rw [split _ (i + 1), split _ (i + 1), Nat.pow_succ _ (i + 1)]
      rw [Nat.mul_add] at sum
      omega

theorem carries_eq_zero_iff (x y : BitVec 32) :
    ((x + y) ^^^ x ^^^ y) &&& 0x11111110#32 = 0#32 ↔ ∀ i < 7, nibble x i + nibble y i < 16 := by
  rw [← carry_nibbles]
  have bit (j : Nat) (inside : j < 32) :
      ((x + y) ^^^ x ^^^ y).getLsbD j = BitVec.carry j x y false := by
    rw [BitVec.getLsbD_xor, BitVec.getLsbD_xor, BitVec.getLsbD_add inside]
    cases x.getLsbD j <;> cases y.getLsbD j <;> simp
  have mask : ∀ j < 32, (0x11111110#32).getLsbD j = decide (4 ≤ j ∧ j % 4 = 0) := by decide
  constructor
  · intro zero i inside
    have clear := congrArg (fun word => word.getLsbD (4 * (i + 1))) zero
    rwa [BitVec.getLsbD_and, bit _ (by omega), mask _ (by omega),
      decide_eq_true (by omega), Bool.and_true, BitVec.getLsbD_zero] at clear
  · intro clear
    apply BitVec.eq_of_getLsbD_eq
    intro j inside
    rw [BitVec.getLsbD_and, bit j inside, mask j inside]
    by_cases masked : 4 ≤ j ∧ j % 4 = 0
    · obtain ⟨i, rfl⟩ : ∃ i, j = 4 * (i + 1) := ⟨j / 4 - 1, by omega⟩
      rw [clear i (by omega)]
      simp
    · simp [masked]

end IteSdk.Lib
