import Mathlib.Data.BitVec
import Mathlib.Data.Nat.Bits

/-!
# Words tested and built bit by bit

A loop moves a mask along a word and sets a bit of another word where it finds one.  The
masks are powers of two, so that each turn says which bit is looked at and which is set.
-/

namespace IteSdk.Lib

variable {v w : Nat}

theorem and_twoPow_ne_zero (x : BitVec w) {i : Nat} (inside : i < w) :
    x &&& BitVec.twoPow w i ≠ 0#w ↔ x.getLsbD i = true := by
  rw [BitVec.and_twoPow]
  split
  · next set =>
    refine iff_of_true ?_ set
    intro zero
    have bit := congrArg (fun y => y.getLsbD i) zero
    simp [inside] at bit
  · next clear => exact iff_of_false (not_not.mpr rfl) clear

theorem twoPow_ushiftRight {i k : Nat} (below : k ≤ i) (inside : i < w) :
    BitVec.twoPow w i >>> k = BitVec.twoPow w (i - k) := by
  apply BitVec.eq_of_getLsbD_eq
  intro n _
  have smaller : i - k < w := by omega
  rw [BitVec.getLsbD_ushiftRight, BitVec.getLsbD_twoPow, BitVec.getLsbD_twoPow,
    decide_eq_true inside, decide_eq_true smaller]
  congr 1
  exact decide_eq_decide.mpr (by omega)

theorem getLsbD_orIf (x : BitVec v) (found : BitVec w) {i j : Nat} (tested : i < v)
    (set : j < w) (n : Nat) :
    (if x &&& BitVec.twoPow v i ≠ 0#v then found ||| BitVec.twoPow w j else found).getLsbD n =
      (found.getLsbD n || (decide (j = n) && x.getLsbD i)) := by
  split
  · next hit =>
    rw [(and_twoPow_ne_zero x tested).mp hit, BitVec.getLsbD_or, BitVec.getLsbD_twoPow,
      decide_eq_true set, Bool.true_and, Bool.and_true]
  · next missed =>
    have clear : x.getLsbD i = false := by
      rw [← Bool.not_eq_true, ← and_twoPow_ne_zero x tested]
      exact missed
    rw [clear, Bool.and_false, Bool.or_false]

@[grind =]
def bitCount (n : Nat) : Nat := if n = 0 then 0 else n % 2 + bitCount (n / 2)

theorem bitCount_half (n : Nat) : bitCount n = n % 2 + bitCount (n / 2) := by
  by_cases zero : n = 0
  · subst zero
    rw [bitCount, if_pos rfl]
  · rw [bitCount, if_neg zero]

theorem bitCount_two_pow (k : Nat) : bitCount (2 ^ k) = 1 := by
  induction k with
  | zero =>
    rw [bitCount_half, bitCount, if_pos (by decide)]
    rfl
  | succ k ih =>
    have even : 2 ^ (k + 1) % 2 = 0 := by omega
    have half : 2 ^ (k + 1) / 2 = 2 ^ k := by omega
    rw [bitCount_half, even, half, ih]

theorem bitCount_even {n : Nat} (pairs : ∀ j, n.testBit (2 * j) = n.testBit (2 * j + 1)) :
    bitCount n % 2 = 0 := by
  induction n using Nat.strong_induction_on with
  | _ n ih =>
    by_cases zero : n = 0
    · rw [bitCount, if_pos zero]
    · have rest : bitCount (n / 4) % 2 = 0 := by
        refine ih (n / 4) (by omega) fun j => ?_
        have four : n / 4 = n / 2 ^ 2 := rfl
        have next := pairs (j + 1)
        have place : 2 * (j + 1) = 2 * j + 2 := by omega
        have second : 2 * j + 2 + 1 = 2 * j + 1 + 2 := by omega
        rw [place, second] at next
        rw [four, Nat.testBit_div_two_pow, Nat.testBit_div_two_pow]
        exact next
      have first : n % 2 = n / 2 % 2 := by
        have bits := pairs 0
        rw [Nat.mul_zero, Nat.testBit_add_one, Nat.testBit_zero, Nat.testBit_zero] at bits
        have same := decide_eq_decide.mp bits
        omega
      have quarter : n / 2 / 2 = n / 4 := by omega
      rw [bitCount_half, bitCount_half (n / 2), quarter]
      omega

end IteSdk.Lib
