import IteSdk.Xd.Ecc
import Mathlib.Data.List.Nodup

/-!
# The bits of the code

Which bit of the table, of the code and of an address comes from where.  Everything
before the correction is linear, so the code of a buffer with a bit flipped differs by
what this bit contributes.
-/

namespace IteSdk.Xd

open Function Lib

/-! ## The table -/

def odd (counters : Nat → BitVec 8) (counter : Nat) : Bool := (counters counter).getLsbD 0

def rowsOdd (value : BitVec 8) (rows : List (Nat × List Nat)) (counter : Nat) : Bool :=
  rows.foldr (fun row rest => (value.getLsbD row.1 && decide (counter ∈ row.2)) ^^ rest) false

theorem getLsbD_increment (x : BitVec 8) : (x + 1#8).getLsbD 0 = !x.getLsbD 0 := by
  rw [BitVec.getLsbD_add (by decide)]
  simp

theorem odd_eccRow (value : BitVec 8) (counters : Nat → BitVec 8) {row : Nat × List Nat}
    (inside : row.1 < 8) (counter : Nat) :
    odd (eccRow value counters row) counter =
      (odd counters counter ^^ (value.getLsbD row.1 && decide (counter ∈ row.2))) := by
  rw [eccRow]
  split
  · next hit =>
    rw [(and_twoPow_ne_zero value inside).mp hit, Bool.true_and]
    by_cases listed : counter ∈ row.2
    · rw [odd, if_pos listed, getLsbD_increment, decide_eq_true listed, Bool.xor_true, odd]
    · rw [odd, if_neg listed, decide_eq_false listed, Bool.xor_false, odd]
  · next missed =>
    have clear : value.getLsbD row.1 = false := by
      rw [← Bool.not_eq_true, ← and_twoPow_ne_zero value inside]
      exact missed
    rw [clear, Bool.false_and, Bool.xor_false]

theorem odd_rows (value : BitVec 8) (counter : Nat) {rows : List (Nat × List Nat)}
    (inside : ∀ row ∈ rows, row.1 < 8) (counters : Nat → BitVec 8) :
    odd (rows.foldl (eccRow value) counters) counter =
      (odd counters counter ^^ rowsOdd value rows counter) := by
  induction rows generalizing counters with
  | nil => exact (Bool.xor_false _).symm
  | cons row rows ih =>
    obtain ⟨first, others⟩ := List.forall_mem_cons.mp inside
    rw [List.foldl_cons, ih others, odd_eccRow value counters first, Bool.xor_assoc]
    rfl

theorem odd_eccCounters (value : BitVec 8) (counter : Nat) :
    odd (eccCounters value) counter = rowsOdd value eccRows counter := by
  have once (counters : Nat → BitVec 8) :
      odd (eccRows.foldl (eccRow value) counters) counter =
        (odd counters counter ^^ rowsOdd value eccRows counter) :=
    odd_rows value counter (by decide) counters
  have start : odd (fun _ => 0#8) counter = false := BitVec.getLsbD_zero
  have seven : List.range 7 = [0, 1, 2, 3, 4, 5, 6] := rfl
  rw [eccCounters, seven]
  simp only [List.foldl_cons, List.foldl_nil, once, start]
  cases rowsOdd value eccRows counter <;> rfl

theorem getLsbD_entry (value : BitVec 8) {counters : List Nat}
    (inside : ∀ counter ∈ counters, counter < 8) (entry : BitVec 8) (n : Nat) :
    (counters.foldl
        (fun entry counter =>
          if eccCounters value counter &&& ECC_BIT 0 ≠ 0#8 then entry ||| ECC_BIT counter
          else entry)
        entry).getLsbD n =
      (entry.getLsbD n || (decide (n ∈ counters) && rowsOdd value eccRows n)) := by
  induction counters generalizing entry with
  | nil => simp
  | cons counter counters ih =>
    obtain ⟨first, others⟩ := List.forall_mem_cons.mp inside
    have parity : (eccCounters value counter).getLsbD 0 = rowsOdd value eccRows counter :=
      odd_eccCounters value counter
    rw [List.foldl_cons, ih others, getLsbD_orIf _ _ (by decide) first, parity, Bool.or_assoc]
    congr 1
    by_cases here : counter = n
    · subst here
      simp
    · have notHere : n ≠ counter := fun same => here same.symm
      simp [here, notHere]

theorem getLsbD_eccTable (value : BitVec 8) (n : Nat) :
    (eccTable value).getLsbD n = (decide (n < 7) && rowsOdd value eccRows n) := by
  have columns : (n ∈ [6, 5, 4, 3, 2, 1, 0]) ↔ n < 7 := by
    simp only [List.mem_cons, List.not_mem_nil, or_false]
    omega
  rw [eccTable, getLsbD_entry value (by decide), BitVec.getLsbD_zero, Bool.false_or]
  congr 1
  exact decide_eq_decide.mpr columns

theorem rowsOdd_xor (first second : BitVec 8) (rows : List (Nat × List Nat)) (counter : Nat) :
    rowsOdd (first ^^^ second) rows counter =
      (rowsOdd first rows counter ^^ rowsOdd second rows counter) := by
  induction rows with
  | nil => rfl
  | cons row rows ih =>
    have step (value : BitVec 8) :
        rowsOdd value (row :: rows) counter =
          ((value.getLsbD row.1 && decide (counter ∈ row.2)) ^^ rowsOdd value rows counter) := rfl
    rw [step, step, step, ih, BitVec.getLsbD_xor, Bool.and_xor_distrib_right]
    simp only [Bool.xor_assoc, Bool.xor_left_comm]

theorem eccTable_xor (first second : BitVec 8) :
    eccTable (first ^^^ second) = eccTable first ^^^ eccTable second := by
  apply BitVec.eq_of_getLsbD_eq
  intro n _
  rw [BitVec.getLsbD_xor, getLsbD_eccTable, getLsbD_eccTable, getLsbD_eccTable, rowsOdd_xor,
    Bool.and_xor_distrib_left]

theorem eccTable_bit :
    ∀ bit < 8, ∀ n < 7,
      (eccTable (ECC_BIT bit)).getLsbD n = if n = 6 then true
        else if n % 2 = 1 then bit.testBit (n / 2) else !bit.testBit (n / 2) := by
  intro bit bitInside n inside
  rw [getLsbD_eccTable, decide_eq_true inside, Bool.true_and]
  revert n bit
  decide

theorem transStep_bits (reg2 reg3 ecc : BitVec 8) {i j : Nat} (inside : i < 8)
    (odd_ : 2 * j + 1 < 8) (n : Nat) :
    ((EccTrans.mk (ECC_BIT i) (ECC_BIT (2 * j + 1)) ecc).step reg2 reg3).ecc.getLsbD n =
      (ecc.getLsbD n || (decide (2 * j + 1 = n) && reg3.getLsbD i) ||
        (decide (2 * j = n) && reg2.getLsbD i)) := by
  rw [EccTrans.step]
  dsimp only
  rw [twoPow_ushiftRight (by omega) odd_, Nat.add_sub_cancel,
    getLsbD_orIf _ _ inside (by omega), getLsbD_orIf _ _ inside odd_]

theorem transLoop_bits (reg2 reg3 : BitVec 8) {shift count : Nat} (small : shift ≤ 4)
    (inside : count ≤ 4) {trans : EccTrans}
    (masks :
      count ≠ 0 → trans.a = ECC_BIT (count - 1 + shift) ∧ trans.b = ECC_BIT (2 * (count - 1) + 1))
    (n : Nat) :
    (EccTrans.loop reg2 reg3 count trans).ecc.getLsbD n =
      (trans.ecc.getLsbD n ||
        (decide (n < 2 * count) &&
          if n % 2 = 1 then reg3.getLsbD (n / 2 + shift)
          else reg2.getLsbD (n / 2 + shift))) := by
  induction count generalizing trans with
  | zero => simp [EccTrans.loop]
  | succ count ih =>
    obtain ⟨a, b, ecc⟩ := trans
    obtain ⟨first, second⟩ := masks (Nat.succ_ne_zero count)
    rw [Nat.add_sub_cancel] at first second
    dsimp only at first second
    subst first second
    have next (more : count ≠ 0) :
        ((EccTrans.mk (ECC_BIT (count + shift)) (ECC_BIT (2 * count + 1)) ecc).step reg2 reg3).a =
            ECC_BIT (count - 1 + shift) ∧
          ((EccTrans.mk (ECC_BIT (count + shift)) (ECC_BIT (2 * count + 1)) ecc).step
              reg2 reg3).b =
            ECC_BIT (2 * (count - 1) + 1) := by
      have address : count + shift - 1 = count - 1 + shift := by omega
      have place : 2 * count + 1 - 1 - 1 = 2 * (count - 1) + 1 := by omega
      rw [EccTrans.step]
      dsimp only
      rw [twoPow_ushiftRight (by omega) (by omega), address,
        twoPow_ushiftRight (by omega) (by omega),
        twoPow_ushiftRight (by omega) (by omega), place]
      exact ⟨rfl, rfl⟩
    rw [EccTrans.loop, ih (by omega) next,
      transStep_bits reg2 reg3 ecc (by omega) (by omega), Bool.or_assoc, Bool.or_assoc]
    congr 1
    by_cases upper : n = 2 * count + 1
    · have half : n / 2 = count := by omega
      have oddPlace : n % 2 = 1 := by omega
      have notBefore : ¬ n < 2 * count := by omega
      have within : n < 2 * (count + 1) := by omega
      have notLower : ¬ 2 * count = n := by omega
      rw [decide_eq_true upper.symm, decide_eq_false notLower, decide_eq_false notBefore,
        decide_eq_true within, if_pos oddPlace, half]
      simp
    · by_cases lower : n = 2 * count
      · have half : n / 2 = count := by omega
        have evenPlace : ¬ n % 2 = 1 := by omega
        have notBefore : ¬ n < 2 * count := by omega
        have within : n < 2 * (count + 1) := by omega
        have notUpper : ¬ 2 * count + 1 = n := by omega
        rw [decide_eq_true lower.symm, decide_eq_false notUpper,
          decide_eq_false notBefore, decide_eq_true within, if_neg evenPlace, half]
        simp
      · have notUpper : ¬ 2 * count + 1 = n := by omega
        have notLower : ¬ 2 * count = n := by omega
        have same : n < 2 * count ↔ n < 2 * (count + 1) := by omega
        rw [decide_eq_false notUpper, decide_eq_false notLower,
          decide_eq_decide.mpr same, Bool.false_and, Bool.false_and, Bool.false_or,
          Bool.false_or]

theorem transResult_bits (reg2 reg3 : BitVec 8) {n : Nat} (inside : n < 8) :
    (transResult reg2 reg3).1.getLsbD n =
        (if n % 2 = 1 then reg3.getLsbD (n / 2 + 4) else reg2.getLsbD (n / 2 + 4)) ∧
      (transResult reg2 reg3).2.getLsbD n =
        (if n % 2 = 1 then reg3.getLsbD (n / 2) else reg2.getLsbD (n / 2)) := by
  have within : n < 2 * 4 := inside
  have upper :=
    transLoop_bits reg2 reg3 (Nat.le_refl 4) (Nat.le_refl 4)
      (fun _ => ⟨rfl, rfl⟩ : 4 ≠ 0 →
        (EccTrans.mk (ECC_BIT 7) (ECC_BIT 7) 0#8).a = ECC_BIT (4 - 1 + 4) ∧ _) n
  have lower :=
    transLoop_bits reg2 reg3 (Nat.zero_le 4) (Nat.le_refl 4)
      (fun _ => ⟨rfl, rfl⟩ : 4 ≠ 0 →
        (EccTrans.mk (ECC_BIT 3) (ECC_BIT 7) 0#8).a = ECC_BIT (4 - 1 + 0) ∧ _) n
  have mask :
      (EccTrans.loop reg2 reg3 4 ⟨ECC_BIT 7, ECC_BIT 7, 0#8⟩).a = ECC_BIT 3 := by
    change ECC_BIT 7 >>> 1 >>> 1 >>> 1 >>> 1 = ECC_BIT 3
    decide
  rw [decide_eq_true within, Bool.true_and, BitVec.getLsbD_zero, Bool.false_or] at upper
  rw [decide_eq_true within, Bool.true_and, BitVec.getLsbD_zero, Bool.false_or] at lower
  refine ⟨upper, ?_⟩
  rw [transResult]
  dsimp only
  rw [mask]
  exact lower

end IteSdk.Xd
