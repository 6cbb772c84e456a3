import Mathlib.Logic.Function.Basic

/-!
# Bytes as a row of bits

Bit `n` of a row of bytes is bit `n % 8` of byte `n / 8`, the least significant
bit of a byte first.
-/

namespace IteSdk.Lib

theorem and_seven (n : Nat) : n &&& 0x7 = n % 8 := Nat.and_two_pow_sub_one_eq_mod n 3

theorem shiftRight_three (n : Nat) : n >>> 3 = n / 8 := Nat.shiftRight_eq_div_pow n 3

def bitAt (bytes : Nat → BitVec 8) (n : Nat) : Bool := (bytes (n / 8)).getLsbD (n % 8)

/-- The byte `index` with the bits of `value` set in it. -/
def orByte (bytes : Nat → BitVec 8) (index : Nat) (value : BitVec 8) : Nat → BitVec 8 :=
  Function.update bytes index (bytes index ||| value)

theorem getLsbD_eq_bitAt (bytes : Nat → BitVec 8) {index n : Nat} (inside : n < 8) :
    (bytes index).getLsbD n = bitAt bytes (8 * index + n) := by
  have byte : (8 * index + n) / 8 = index := by omega
  have offset : (8 * index + n) % 8 = n := by omega
  rw [bitAt, byte, offset]

theorem eq_of_bitAt {left right : Nat → BitVec 8} {index : Nat}
    (same : ∀ n, 8 * index ≤ n → n < 8 * index + 8 → bitAt left n = bitAt right n) :
    left index = right index := by
  apply BitVec.eq_of_getLsbD_eq
  intro n inside
  rw [getLsbD_eq_bitAt left inside, getLsbD_eq_bitAt right inside]
  exact same _ (by omega) (by omega)

theorem bitAt_orByte (bytes : Nat → BitVec 8) (index : Nat) (value : BitVec 8) (n : Nat) :
    bitAt (orByte bytes index value) n =
      (bitAt bytes n || (decide (n / 8 = index) && value.getLsbD (n % 8))) := by
  by_cases here : n / 8 = index
  · simp [bitAt, orByte, here]
  · simp [bitAt, orByte, here]

theorem orByte_zero (bytes : Nat → BitVec 8) (index : Nat) : orByte bytes index 0 = bytes := by
  have same : bytes index ||| 0 = bytes index := BitVec.or_zero
  rw [orByte, same]
  exact Function.update_eq_self index bytes

theorem orByte_of_ne (bytes : Nat → BitVec 8) {index other : Nat} (value : BitVec 8)
    (different : other ≠ index) :
    orByte bytes index value other = bytes other :=
  Function.update_of_ne different _ _

variable (bytes : Nat → BitVec 8) (index : Nat) {offset : Nat}

theorem getLsbD_shiftRight_byte {k : Nat} (inside : offset + k < 8) :
    (bytes index >>> offset).getLsbD k = bitAt bytes (8 * index + offset + k) := by
  rw [BitVec.getLsbD_ushiftRight, getLsbD_eq_bitAt bytes inside, Nat.add_assoc]

theorem getLsbD_window {k : Nat} (within : offset < 8) (inside : k < 8) :
    (bytes index >>> offset ||| bytes (index + 1) <<< (8 - offset)).getLsbD k =
      bitAt bytes (8 * index + offset + k) := by
  rw [BitVec.getLsbD_or, BitVec.getLsbD_shiftLeft]
  by_cases first : offset + k < 8
  · have low : k < 8 - offset := by omega
    simp [getLsbD_shiftRight_byte bytes index first, low]
  · have high : ¬ k < 8 - offset := by omega
    have second : k - (8 - offset) < 8 := by omega
    have place : 8 * (index + 1) + (k - (8 - offset)) = 8 * index + offset + k := by omega
    rw [BitVec.getLsbD_ushiftRight, BitVec.getLsbD_of_ge _ _ (by omega),
      getLsbD_eq_bitAt bytes second, place]
    simp [inside, high]

theorem bitAt_orByte_shiftLeft (value : BitVec 8) (n : Nat) :
    bitAt (orByte bytes index (value <<< offset)) n =
      (bitAt bytes n ||
        (decide (8 * index + offset ≤ n ∧ n < 8 * index + 8) &&
          value.getLsbD (n - (8 * index + offset)))) := by
  rw [bitAt_orByte, BitVec.getLsbD_shiftLeft]
  congr 1
  by_cases inside : 8 * index + offset ≤ n ∧ n < 8 * index + 8
  · have here : n / 8 = index := by omega
    have notLow : ¬ n % 8 < offset := by omega
    have place : n % 8 - offset = n - (8 * index + offset) := by omega
    simp [here, notLow, place, inside, Nat.mod_lt]
  · rw [decide_eq_false inside, Bool.false_and]
    by_cases here : n / 8 = index
    · have low : n % 8 < offset := by omega
      simp [low]
    · simp [here]

theorem bitAt_orByte_window (value : BitVec 8) (within : offset < 8) (n : Nat) :
    bitAt
        (orByte (orByte bytes index (value <<< offset)) (index + 1) (value >>> (8 - offset))) n =
      (bitAt bytes n ||
        (decide (8 * index + offset ≤ n) && value.getLsbD (n - (8 * index + offset)))) := by
  rw [bitAt_orByte, bitAt_orByte_shiftLeft, BitVec.getLsbD_ushiftRight, Bool.or_assoc]
  congr 1
  by_cases second : n / 8 = index + 1
  · have from_ : 8 * index + offset ≤ n := by omega
    have notFirst : ¬ (8 * index + offset ≤ n ∧ n < 8 * index + 8) := by omega
    have place : 8 - offset + n % 8 = n - (8 * index + offset) := by omega
    rw [decide_eq_false notFirst, decide_eq_true second, decide_eq_true from_, place,
      Bool.false_and, Bool.false_or]
  · rw [decide_eq_false second, Bool.false_and, Bool.or_false]
    by_cases from_ : 8 * index + offset ≤ n
    · by_cases first : n < 8 * index + 8
      · simp [from_, first]
      · have beyond : value.getLsbD (n - (8 * index + offset)) = false :=
          BitVec.getLsbD_of_ge _ _ (by omega)
        simp [first, beyond]
    · simp [from_]

end IteSdk.Lib
