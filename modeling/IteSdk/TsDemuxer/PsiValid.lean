import IteSdk.Lib.Nibbles
import IteSdk.TsDemuxer.PsiTime

/-!
# Valid times

`psiTime_IsValidUtcTime` and the two tests of `bcd.h` that it uses.
-/

namespace IteSdk.TsDemuxer.PsiTime

open Lib

def bcdIsBcd (bcd : BitVec 32) : Bool :=
  let bcd := bcd &&& 0x0FFFFFFF#32
  ((bcd + 0x06666666#32) ^^^ bcd ^^^ 0x06666666#32) &&& 0x11111110#32 = 0#32

def bcdIsGreater (bcd maximum : BitVec 32) : Bool :=
  let maximum := maximum ^^^ 0xFFFFFFFF#32
  ((bcd + maximum) ^^^ bcd ^^^ maximum) &&& 0x11111110#32 ≠ 0#32

def psiTimeIsValidUtcTime (tTime : MjdBcdTime) : Bool :=
  0x3AE7#32 ≤ tTime.high16 ∧ tTime.high16 ≤ 0xFFFF#32 ∧
    bcdIsBcd tTime.low24 ∧ ¬ bcdIsGreater tTime.low24 0x295959#32

/-- The digit above the seven is not tested. -/
theorem bcdIsBcd_iff (bcd : BitVec 32) : bcdIsBcd bcd = true ↔ ∀ i < 7, nibble bcd i ≤ 9 := by
  rw [bcdIsBcd, decide_eq_true_iff, carries_eq_zero_iff]
  refine forall₂_congr fun i inside => ?_
  have six : nibble 0x06666666#32 i = 6 := by
    interval_cases i <;> rfl
  have low : (0x0FFFFFFF#32).toNat = 2 ^ 28 - 1 := rfl
  have same : nibble (bcd &&& 0x0FFFFFFF#32) i = nibble bcd i := by
    rw [nibble, nibble, BitVec.toNat_and, low, Nat.and_two_pow_sub_one_eq_mod]
    interval_cases i <;> omega
  omega

theorem bcdIsGreater_eq_false_iff (bcd maximum : BitVec 32) :
    bcdIsGreater bcd maximum = false ↔ ∀ i < 7, nibble bcd i ≤ nibble maximum i := by
  rw [bcdIsGreater, decide_eq_false_iff_not, not_not, carries_eq_zero_iff]
  refine forall₂_congr fun i inside => ?_
  have complement : nibble (maximum ^^^ 0xFFFFFFFF#32) i = 15 - nibble maximum i := by
    have word := maximum.isLt
    have flipped : maximum ^^^ 0xFFFFFFFF#32 = ~~~maximum := BitVec.xor_allOnes
    rw [nibble, nibble, flipped, BitVec.toNat_not]
    interval_cases i <;> omega
  have digit : nibble maximum i < 16 := Nat.mod_lt _ (by decide)
  omega

/-- The day is in range and the lower seven digits are a time of day before 30:00:00. -/
theorem psiTimeIsValidUtcTime_iff (tTime : MjdBcdTime) :
    psiTimeIsValidUtcTime tTime = true ↔
      (15079 ≤ tTime.high16.toNat ∧ tTime.high16.toNat < 65536) ∧
        ∃ clock : Clock 30, tTime.low24.toNat % 2 ^ 28 = clock.bcd.toNat := by
  have bcd (clock : Clock 30) : clock.bcd.toNat = bcdOf clock.hour clock.minute clock.second :=
    toNat_ofNat_bcdOf (clock.hour_lt.trans (by decide)) (clock.minute_lt.trans (by decide))
      (clock.second_lt.trans (by decide))
  rw [psiTimeIsValidUtcTime, decide_eq_true_iff, BitVec.le_def, BitVec.le_def, bcdIsBcd_iff,
    Bool.not_eq_true, bcdIsGreater_eq_false_iff, ← and_assoc]
  refine and_congr (and_congr_right fun _ => Nat.lt_succ_iff.symm) ?_
  simp only [nibble, Nat.forall_lt_succ_right, bcd, bcdOf, bcdByte, BitVec.toNat_ofNat, pow_zero,
    pow_one, Nat.div_one, Nat.reducePow, Nat.reduceMod, Nat.reduceDiv, Nat.not_lt_zero,
    IsEmpty.forall_iff, implies_true, true_and]
  constructor
  · intro small
    let n := tTime.low24.toNat
    have digits (high : Nat) {low : Nat} (digit : low ≤ 9) :
        (high * 10 + low) / 10 * 16 + (high * 10 + low) % 10 = high * 16 + low := by
      omega
    refine ⟨⟨n / 1048576 % 16 * 10 + n / 65536 % 16, n / 4096 % 16 * 10 + n / 256 % 16,
      n / 16 % 16 * 10 + n % 16, by omega, by omega, by omega⟩, ?_⟩
    dsimp only
    rw [digits _ (by omega), digits _ (by omega), digits _ (by omega)]
    omega
  · rintro ⟨clock, digits⟩
    have hour : clock.hour / 10 < 3 := Nat.div_lt_of_lt_mul clock.hour_lt
    have minute : clock.minute / 10 < 6 := Nat.div_lt_of_lt_mul clock.minute_lt
    have second : clock.second / 10 < 6 := Nat.div_lt_of_lt_mul clock.second_lt
    have units (number : Nat) : number % 10 < 10 := Nat.mod_lt number (by decide)
    have hourUnits := units clock.hour
    have minuteUnits := units clock.minute
    have secondUnits := units clock.second
    generalize clock.hour / 10 = h at *
    generalize clock.hour % 10 = h' at *
    generalize clock.minute / 10 = m at *
    generalize clock.minute % 10 = m' at *
    generalize clock.second / 10 = s at *
    generalize clock.second % 10 = s' at *
    omega

end IteSdk.TsDemuxer.PsiTime
