import Mathlib.Algebra.Order.Group.Nat
import Mathlib.Data.List.Basic

/-!
# Numbers in decimal

`decimal` is a number in ASCII digits without a leading zero, and `readDigits` reads
digits of any base up to 36 for as long as there are some.
-/

namespace IteSdk.Lib

def digitByte (digit : Nat) : UInt8 := UInt8.ofNat (48 + digit)

def decimal (n : Nat) : List UInt8 :=
  if n < 10 then [digitByte n] else decimal (n / 10) ++ [digitByte (n % 10)]

/-- The value of a digit or letter; 36 for other characters. -/
def digitValue (c : UInt8) : Nat :=
  if 48 ≤ c.toNat ∧ c.toNat ≤ 57 then c.toNat - 48
  else if 97 ≤ c.toNat ∧ c.toNat ≤ 122 then c.toNat - 87
  else if 65 ≤ c.toNat ∧ c.toNat ≤ 90 then c.toNat - 55
  else 36

def readDigits (base : Nat) : Nat → List UInt8 → Nat
  | value, [] => value
  | value, c :: rest =>
    if digitValue c < base then readDigits base (value * base + digitValue c) rest
    else value

variable {n digit base : Nat}

theorem toNat_digitByte (small : digit < 10) : (digitByte digit).toNat = 48 + digit := by
  rw [digitByte, UInt8.toNat_ofNat_of_lt' (by change _ < 256; omega)]

theorem digitValue_digitByte (small : digit < 10) : digitValue (digitByte digit) = digit := by
  have inside : 48 ≤ 48 + digit ∧ 48 + digit ≤ 57 := by omega
  rw [digitValue, toNat_digitByte small, if_pos inside, Nat.add_sub_cancel_left]

theorem readDigits_append {first : List UInt8} (digits : ∀ c ∈ first, digitValue c < base)
    (value : Nat) (second : List UInt8) :
    readDigits base value (first ++ second) =
      readDigits base (readDigits base value first) second := by
  induction first generalizing value with
  | nil => rfl
  | cons c first ih =>
    obtain ⟨digit, others⟩ := List.forall_mem_cons.mp digits
    rw [List.cons_append, readDigits, readDigits, if_pos digit, if_pos digit, ih others]

theorem decimal_digits (n : Nat) : ∀ c ∈ decimal n, digitValue c < 10 := by
  induction n using Nat.strong_induction_on with
  | _ n ih =>
    rw [decimal]
    split
    · next small =>
      intro c listed
      rw [List.mem_singleton.mp listed, digitValue_digitByte small]
      exact small
    · next large =>
      have last : n % 10 < 10 := by omega
      intro c listed
      rcases List.mem_append.mp listed with before | here
      · exact ih (n / 10) (by omega) c before
      · rw [List.mem_singleton.mp here, digitValue_digitByte last]
        exact last

theorem readDigits_decimal (n : Nat) : readDigits 10 0 (decimal n) = n := by
  induction n using Nat.strong_induction_on with
  | _ n ih =>
    rw [decimal]
    split
    · next small =>
      rw [readDigits, readDigits, digitValue_digitByte small, if_pos small]
      omega
    · next large =>
      have last : n % 10 < 10 := by omega
      rw [readDigits_append (decimal_digits (n / 10)),
        ih (n / 10) (by omega), readDigits, readDigits,
        digitValue_digitByte last, if_pos last]
      omega

theorem decimal_head (n : Nat) :
    ∃ digit rest,
      decimal n = digitByte digit :: rest ∧ digit < 10 ∧ (digit = 0 → n = 0 ∧ rest = []) := by
  induction n using Nat.strong_induction_on with
  | _ n ih =>
    rw [decimal]
    split
    · next small => exact ⟨n, [], rfl, small, fun zero => ⟨zero, rfl⟩⟩
    · next large =>
      obtain ⟨digit, rest, head, small, zero⟩ := ih (n / 10) (by omega)
      refine ⟨digit, rest ++ [digitByte (n % 10)], ?_, small, ?_⟩
      · rw [head, List.cons_append]
      · intro leading
        have nothing := (zero leading).1
        omega

theorem length_decimal_pos (n : Nat) : 0 < (decimal n).length := by
  obtain ⟨digit, rest, head, -⟩ := decimal_head n
  rw [head]
  exact Nat.succ_pos _

theorem length_decimal_le_iff (n k : Nat) : (decimal n).length ≤ k + 1 ↔ n < 10 ^ (k + 1) := by
  induction k generalizing n with
  | zero =>
    rw [decimal]
    split
    · next small => exact iff_of_true (Nat.le_refl _) small
    · next large =>
      have rest := length_decimal_pos (n / 10)
      rw [List.length_append, List.length_singleton]
      omega
  | succ k ih =>
    have powers : 10 ≤ 10 ^ (k + 1) := Nat.le_self_pow (Nat.succ_ne_zero k) 10
    rw [decimal]
    split
    · next small =>
      rw [List.length_singleton, Nat.pow_succ]
      omega
    · next large =>
      rw [List.length_append, List.length_singleton, Nat.add_le_add_iff_right,
        ih, Nat.div_lt_iff_lt_mul (by decide), ← Nat.pow_succ]

end IteSdk.Lib
