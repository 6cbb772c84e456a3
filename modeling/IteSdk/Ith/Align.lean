import Mathlib.Algebra.Group.Nat.Defs
import Mathlib.Data.Nat.Bitwise

/-!
# Arithmetic on 32 bits

Sums, differences and the macro `ITH_ALIGN_UP` as `uint32_t` computes them.
-/

namespace IteSdk.Ith

def add32 (left right : Nat) : Nat := (left + right) % 2 ^ 32

def sub32 (left right : Nat) : Nat := (left + (2 ^ 32 - right)) % 2 ^ 32

/-- The macro `ITH_ALIGN_UP` on 32 bits. -/
def ithAlignUp (value align : Nat) : Nat :=
  add32 value (sub32 align 1) &&& (2 ^ 32 - 1 - sub32 align 1)

theorem sub32_of_le {left right : Nat} (fits : left < 2 ^ 32)
    (le : right ≤ left) : sub32 left right = left - right := by
  unfold sub32
  omega

theorem add32_of_lt {left right : Nat} (fits : left + right < 2 ^ 32) :
    add32 left right = left + right :=
  Nat.mod_eq_of_lt fits

theorem land_mask_bounds {value mask : Nat} (fits : value < 2 ^ 32) (maskFits : mask < 2 ^ 32) :
    value &&& (2 ^ 32 - 1 - mask) ≤ value ∧ value ≤ (value &&& (2 ^ 32 - 1 - mask)) + mask := by
  refine ⟨Nat.and_le_left, ?_⟩
  have parts (a b : BitVec 32) : (a &&& ~~~b) + (a &&& b) = a := by
    rw [BitVec.add_eq_or_of_and_eq_zero]
    · ext i
      simp
      grind
    · ext i
      simp
      grind
  have whole := congrArg BitVec.toNat (parts (BitVec.ofNat 32 value) (BitVec.ofNat 32 mask))
  rw [BitVec.toNat_add, BitVec.toNat_and, BitVec.toNat_and, BitVec.toNat_not,
    BitVec.toNat_ofNat, BitVec.toNat_ofNat, Nat.mod_eq_of_lt fits,
    Nat.mod_eq_of_lt maskFits] at whole
  have cleared : value &&& mask ≤ mask := Nat.and_le_right
  have wrapped := Nat.mod_le ((value &&& (2 ^ 32 - 1 - mask)) + (value &&& mask)) (2 ^ 32)
  omega

variable {bits value : Nat}

theorem land_alignMask (few : bits < 32) (fits : value < 2 ^ 32) :
    value &&& (2 ^ 32 - 1 - (2 ^ bits - 1)) = value / 2 ^ bits * 2 ^ bits := by
  have less : 2 ^ bits < 2 ^ 32 := Nat.pow_lt_pow_right (by decide) few
  have positive : 0 < 2 ^ bits := Nat.two_pow_pos bits
  have mask : 2 ^ 32 - 1 - (2 ^ bits - 1) = 2 ^ 32 - (2 ^ bits - 1 + 1) := by omega
  apply Nat.eq_of_testBit_eq
  intro index
  rw [mask, Nat.testBit_and, Nat.testBit_two_pow_sub_succ (by omega),
    Nat.testBit_mul_two_pow, Nat.testBit_div_two_pow,
    Nat.testBit_two_pow_sub_one]
  by_cases high : index < 32
  · by_cases low : index < bits
    · simp [high, low]
    · simp [high, low, Nat.le_of_not_lt low]
  · have zero : value.testBit index = false :=
      Nat.testBit_lt_two_pow (lt_of_lt_of_le fits (Nat.pow_le_pow_right (by decide) (by omega)))
    simp [zero, high, show bits ≤ index by omega]

theorem ithAlignUp_eq (few : bits < 32) :
    ithAlignUp value (2 ^ bits) = (value + (2 ^ bits - 1)) % 2 ^ 32 / 2 ^ bits * 2 ^ bits := by
  have less : 2 ^ bits < 2 ^ 32 := Nat.pow_lt_pow_right (by decide) few
  have positive : 0 < 2 ^ bits := Nat.two_pow_pos bits
  rw [ithAlignUp, sub32_of_le less positive, add32, land_alignMask few (Nat.mod_lt _ (by decide))]

theorem ithAlignUp_spec (few : bits < 32) (fits : value + (2 ^ bits - 1) < 2 ^ 32) :
    value ≤ ithAlignUp value (2 ^ bits) ∧
      ithAlignUp value (2 ^ bits) < value + 2 ^ bits ∧ 2 ^ bits ∣ ithAlignUp value (2 ^ bits) := by
  have positive : 0 < 2 ^ bits := Nat.two_pow_pos bits
  have below := Nat.div_mul_le_self (value + (2 ^ bits - 1)) (2 ^ bits)
  have above := Nat.lt_div_mul_add (a := value + (2 ^ bits - 1)) positive
  rw [ithAlignUp_eq few, Nat.mod_eq_of_lt fits]
  exact ⟨by omega, by omega, Nat.dvd_mul_left ..⟩

theorem le_ithAlignUp {size : Nat} (roundable : size ≤ 2 ^ 32 - 32) :
    size ≤ ithAlignUp size 32 := by
  have power : (32 : Nat) = 2 ^ 5 := by decide
  rw [power]
  exact (ithAlignUp_spec (by decide) (by omega)).1

theorem ithAlignUp_overflow (few : bits < 32) (fits : value < 2 ^ 32)
    (overflow : 2 ^ 32 ≤ value + (2 ^ bits - 1)) :
    ithAlignUp value (2 ^ bits) = 0 := by
  have less : 2 ^ bits < 2 ^ 32 := Nat.pow_lt_pow_right (by decide) few
  have positive : 0 < 2 ^ bits := Nat.two_pow_pos bits
  have wrapped : (value + (2 ^ bits - 1)) % 2 ^ 32 < 2 ^ bits := by omega
  rw [ithAlignUp_eq few, Nat.div_eq_of_lt wrapped, Nat.zero_mul]

end IteSdk.Ith
