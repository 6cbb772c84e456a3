import IteSdk.Xd.EccBits

/-!
# The code corrects one bit

The difference of two codes tells, for each bit of an address, the parity of the flips
where it is set and of those where it is not.  One flip leaves exactly one of the two
odd, and two flips leave both alike.
-/

namespace IteSdk.Xd

open Function Lib

theorem scanLoop_bits (d : BitVec 32) {shift count : Nat} (small : shift ≤ 9)
    (inside : count ≤ 8) {scan : EccScan}
    (masks :
      count ≠ 0 →
        scan.l = BitVec.twoPow 32 (2 * (count - 1) + shift) ∧ scan.mask = ECC_BIT (count - 1))
    (n : Nat) :
    (EccScan.loop d count scan).found.getLsbD n =
      (scan.found.getLsbD n || (decide (n < count) && d.getLsbD (2 * n + shift))) := by
  induction count generalizing scan with
  | zero => simp [EccScan.loop]
  | succ count ih =>
    obtain ⟨l, mask, found⟩ := scan
    obtain ⟨place, bit⟩ := masks (Nat.succ_ne_zero count)
    rw [Nat.add_sub_cancel] at place bit
    dsimp only at place bit
    subst place bit
    have next (more : count ≠ 0) :
        ((EccScan.mk (BitVec.twoPow 32 (2 * count + shift)) (ECC_BIT count) found).step d).l =
            BitVec.twoPow 32 (2 * (count - 1) + shift) ∧
          ((EccScan.mk (BitVec.twoPow 32 (2 * count + shift)) (ECC_BIT count) found).step
              d).mask =
            ECC_BIT (count - 1) := by
      have lower : 2 * count + shift - 2 = 2 * (count - 1) + shift := by omega
      rw [EccScan.step]
      dsimp only
      rw [twoPow_ushiftRight (by omega) (by omega), lower, twoPow_ushiftRight (by omega) (by omega)]
      exact ⟨rfl, rfl⟩
    rw [EccScan.loop, ih (by omega) next, EccScan.step]
    dsimp only
    rw [getLsbD_orIf _ _ (by omega) (by omega), Bool.or_assoc]
    congr 1
    by_cases here : n = count
    · subst here
      simp
    · have notHere : ¬ count = n := fun same => here same.symm
      have same : n < count ↔ n < count + 1 := by omega
      rw [decide_eq_false notHere, Bool.false_and, Bool.false_or, decide_eq_decide.mpr same]

theorem scan_bits (d : BitVec 32) :
    (∀ n < 8,
        (EccScan.loop d 8 ⟨ECC_BIT23, ECC_BIT 7, 0#8⟩).found.getLsbD n = d.getLsbD (2 * n + 9)) ∧
      ∀ n < 8,
        (EccScan.loop d 3
            ⟨(EccScan.loop d 8 ⟨ECC_BIT23, ECC_BIT 7, 0#8⟩).l, ECC_BIT 2, 0#8⟩).found.getLsbD n =
          (decide (n < 3) && d.getLsbD (2 * n + 3)) := by
  have place :
      (EccScan.loop d 8 ⟨ECC_BIT23, ECC_BIT 7, 0#8⟩).l = BitVec.twoPow 32 7 := by
    change ECC_BIT23 >>> 2 >>> 2 >>> 2 >>> 2 >>> 2 >>> 2 >>> 2 >>> 2 = BitVec.twoPow 32 7
    decide
  constructor
  · intro n inside
    have bits :=
      scanLoop_bits d (Nat.le_refl 9) (Nat.le_refl 8)
        (fun _ => ⟨rfl, rfl⟩ : 8 ≠ 0 →
          (EccScan.mk ECC_BIT23 (ECC_BIT 7) 0#8).l = BitVec.twoPow 32 (2 * (8 - 1) + 9) ∧ _)
        n
    rw [bits, BitVec.getLsbD_zero, Bool.false_or, decide_eq_true inside, Bool.true_and]
  · intro n _
    have bits :=
      scanLoop_bits d (by decide : 3 ≤ 9) (by decide : 3 ≤ 8)
        (fun _ => ⟨rfl, rfl⟩ : 3 ≠ 0 →
          (EccScan.mk (BitVec.twoPow 32 7) (ECC_BIT 2) 0#8).l =
            BitVec.twoPow 32 (2 * (3 - 1) + 3) ∧ _)
        n
    rw [place, bits, BitVec.getLsbD_zero, Bool.false_or]

theorem eccCount_eq (d : BitVec 32) (i : Nat) : eccCount d i = i + bitCount d.toNat := by
  induction d, i using eccCount.induct with
  | case1 d i more ih =>
    have half : (d >>> 1).toNat = d.toNat / 2 := by
      rw [BitVec.toNat_ushiftRight, Nat.shiftRight_eq_div_pow]
    have low : d &&& 1#32 ≠ 0#32 ↔ d.toNat % 2 = 1 := by
      have one : 1#32 = BitVec.twoPow 32 0 := rfl
      rw [one, and_twoPow_ne_zero d (by decide), BitVec.getLsbD, Nat.testBit_zero,
        decide_eq_true_eq]
    rw [dite_eq_ite] at ih
    rw [eccCount, if_pos more, ih, bitCount_half d.toNat, half]
    split
    · next set => rw [low.mp set, Nat.add_assoc]
    · next clear =>
      have even : d.toNat % 2 = 0 := by
        have notOne : ¬ d.toNat % 2 = 1 := fun one => clear (low.mpr one)
        omega
      rw [even, Nat.zero_add]
  | case2 d i zero =>
    rw [eccCount, if_neg zero, not_not.mp zero, BitVec.toNat_zero, bitCount, if_pos rfl]
    rfl

/-! ## The registers -/

namespace EccRegisters

def xor (first second : EccRegisters) : EccRegisters :=
  ⟨first.reg1 ^^^ second.reg1, first.reg2 ^^^ second.reg2, first.reg3 ^^^ second.reg3⟩

theorem xor_right_comm (first second third : EccRegisters) :
    (first.xor second).xor third = (first.xor third).xor second := by
  have swapped (x y z : BitVec 8) : x ^^^ y ^^^ z = x ^^^ z ^^^ y := by
    rw [BitVec.xor_assoc, BitVec.xor_comm y, BitVec.xor_assoc]
  ext1 <;> exact swapped _ _ _

end EccRegisters

/-- What the difference `e` of a byte adds to the registers. -/
def contribution (i e : BitVec 8) : EccRegisters :=
  if eccTable e &&& ECC_BIT 6 ≠ 0#8 then ⟨eccTable e &&& ECC_MASK_CPS, ~~~i, i⟩
  else ⟨eccTable e &&& ECC_MASK_CPS, 0#8, 0#8⟩

theorem eccRegister_eq (pBuffer : EccBuffer) (registers : EccRegisters) (i : BitVec 8) :
    eccRegister pBuffer registers i = registers.xor (contribution i (pBuffer i)) := by
  rw [eccRegister, contribution]
  split
  · rfl
  · ext1 <;> dsimp only [EccRegisters.xor]
    · rw [BitVec.xor_zero]
    · rw [BitVec.xor_zero]

theorem contribution_of_hit (i : BitVec 8) {e : BitVec 8} (hit : (eccTable e).getLsbD 6 = true) :
    contribution i e = ⟨eccTable e &&& ECC_MASK_CPS, ~~~i, i⟩ :=
  if_pos ((and_twoPow_ne_zero _ (by decide)).mpr hit)

theorem contribution_of_miss (i : BitVec 8) {e : BitVec 8}
    (missed : (eccTable e).getLsbD 6 = false) :
    contribution i e = ⟨eccTable e &&& ECC_MASK_CPS, 0#8, 0#8⟩ := by
  refine if_neg fun hit => ?_
  rw [and_twoPow_ne_zero _ (by decide), missed] at hit
  cases hit

theorem contribution_xor (i first second : BitVec 8) :
    contribution i (first ^^^ second) = (contribution i first).xor (contribution i second) := by
  have mask :
      eccTable (first ^^^ second) &&& ECC_MASK_CPS =
        eccTable first &&& ECC_MASK_CPS ^^^ eccTable second &&& ECC_MASK_CPS := by
    apply BitVec.eq_of_getLsbD_eq
    intro n _
    rw [eccTable_xor, BitVec.getLsbD_and, BitVec.getLsbD_xor, BitVec.getLsbD_xor,
      BitVec.getLsbD_and, BitVec.getLsbD_and, Bool.and_xor_distrib_right]
  have both : (eccTable (first ^^^ second)).getLsbD 6 =
      ((eccTable first).getLsbD 6 ^^ (eccTable second).getLsbD 6) := by
    rw [eccTable_xor, BitVec.getLsbD_xor]
  cases one : (eccTable first).getLsbD 6 with
  | false =>
    rw [one, Bool.false_xor] at both
    cases other : (eccTable second).getLsbD 6 with
    | false =>
      rw [contribution_of_miss i (both.trans other), contribution_of_miss i one,
        contribution_of_miss i other, mask, EccRegisters.xor, BitVec.xor_zero]
    | true =>
      rw [contribution_of_hit i (both.trans other), contribution_of_miss i one,
        contribution_of_hit i other, mask, EccRegisters.xor, BitVec.zero_xor,
        BitVec.zero_xor]
  | true =>
    rw [one, Bool.true_xor] at both
    cases other : (eccTable second).getLsbD 6 with
    | false =>
      rw [other] at both
      rw [contribution_of_hit i both, contribution_of_hit i one,
        contribution_of_miss i other, mask, EccRegisters.xor, BitVec.xor_zero,
        BitVec.xor_zero]
    | true =>
      rw [other] at both
      rw [contribution_of_miss i both, contribution_of_hit i one,
        contribution_of_hit i other, mask, EccRegisters.xor, BitVec.xor_self,
        BitVec.xor_self]

variable {pBuffer : EccBuffer} {places : List (BitVec 8)}

theorem registers_of_notMem {i value : BitVec 8} (outside : i ∉ places) (registers : EccRegisters) :
    places.foldl (eccRegister (update pBuffer i value)) registers =
      places.foldl (eccRegister pBuffer) registers := by
  induction places generalizing registers with
  | nil => rw [List.foldl_nil, List.foldl_nil]
  | cons place places ih =>
    rw [List.mem_cons, not_or] at outside
    have same : eccRegister (update pBuffer i value) registers place =
        eccRegister pBuffer registers place := by
      rw [eccRegister_eq, eccRegister_eq, update_of_ne (Ne.symm outside.1)]
    rw [List.foldl_cons, List.foldl_cons, same, ih outside.2]

theorem registers_xor (registers change : EccRegisters) :
    places.foldl (eccRegister pBuffer) (registers.xor change) =
      (places.foldl (eccRegister pBuffer) registers).xor change := by
  induction places generalizing registers with
  | nil => rfl
  | cons place places ih =>
    rw [List.foldl_cons, List.foldl_cons, ← ih, eccRegister_eq,
      eccRegister_eq, EccRegisters.xor_right_comm]

theorem registers_change (distinct : places.Nodup)
    {i : BitVec 8} (listed : i ∈ places) (e : BitVec 8) (registers : EccRegisters) :
    places.foldl (eccRegister (update pBuffer i (pBuffer i ^^^ e))) registers =
      (places.foldl (eccRegister pBuffer) registers).xor (contribution i e) := by
  induction places generalizing registers with
  | nil => cases listed
  | cons place places ih =>
    obtain ⟨notAgain, others⟩ := List.nodup_cons.mp distinct
    rw [List.foldl_cons, List.foldl_cons]
    by_cases here : i = place
    · subst here
      have first : eccRegister (update pBuffer i (pBuffer i ^^^ e)) registers i =
          (eccRegister pBuffer registers i).xor (contribution i e) := by
        rw [eccRegister_eq, update_self, contribution_xor, eccRegister_eq]
        ext1 <;> exact (BitVec.xor_assoc _ _ _).symm
      rw [registers_of_notMem notAgain, first, registers_xor]
    · have later : i ∈ places := (List.mem_cons.mp listed).resolve_left here
      have same : eccRegister (update pBuffer i (pBuffer i ^^^ e)) registers place =
          eccRegister pBuffer registers place := by
        rw [eccRegister_eq, eccRegister_eq, update_of_ne (Ne.symm here)]
      rw [same, ih others later]

def flip (pBuffer : EccBuffer) (i : BitVec 8) (bit : Fin 8) : EccBuffer :=
  update pBuffer i (pBuffer i ^^^ ECC_BIT bit)

theorem eccRegisters_flip (pBuffer : EccBuffer) (i : BitVec 8) (bit : Fin 8) :
    eccRegisters (flip pBuffer i bit) =
      (eccRegisters pBuffer).xor (contribution i (ECC_BIT bit)) := by
  have distinct : ((List.range 256).map (BitVec.ofNat 8)).Nodup := by
    refine List.Nodup.map_on ?_ List.nodup_range
    intro first firstInside second secondInside same
    have firstSmall := List.mem_range.mp firstInside
    have secondSmall := List.mem_range.mp secondInside
    have values := congrArg BitVec.toNat same
    rwa [BitVec.toNat_ofNat, BitVec.toNat_ofNat, Nat.mod_eq_of_lt firstSmall,
      Nat.mod_eq_of_lt secondSmall] at values
  have listed : i ∈ (List.range 256).map (BitVec.ofNat 8) := by
    refine List.mem_map.mpr ⟨i.toNat, List.mem_range.mpr i.isLt, ?_⟩
    rw [BitVec.ofNat_toNat, BitVec.setWidth_eq]
  exact registers_change distinct listed _ _

theorem eccDifference_eq (first second : EccBytes) :
    eccDifference first second =
      0#8 ++ (first.ecc1 ^^^ second.ecc1) ++ (first.ecc2 ^^^ second.ecc2) ++
        (first.ecc3 ^^^ second.ecc3) := by
  have highest := (first.ecc1 ^^^ second.ecc1).isLt
  have middle := (first.ecc2 ^^^ second.ecc2).isLt
  have lowest := (first.ecc3 ^^^ second.ecc3).isLt
  apply BitVec.eq_of_toNat_eq
  rw [eccDifference, BitVec.toNat_append, BitVec.toNat_append, BitVec.toNat_append,
    ← Nat.shiftLeft_add_eq_or_of_lt lowest, ← Nat.shiftLeft_add_eq_or_of_lt middle,
    ← Nat.shiftLeft_add_eq_or_of_lt highest]
  simp only [BitVec.toNat_add, BitVec.toNat_shiftLeft, BitVec.toNat_setWidth,
    Nat.shiftLeft_eq, BitVec.toNat_ofNat]
  omega

theorem getLsbD_eccDifference (first second : EccBytes) (n : Nat) :
    (eccDifference first second).getLsbD n = if n < 8 then (first.ecc3 ^^^ second.ecc3).getLsbD n
      else if n < 16 then (first.ecc2 ^^^ second.ecc2).getLsbD (n - 8)
      else (first.ecc1 ^^^ second.ecc1).getLsbD (n - 16) := by
  rw [eccDifference_eq, BitVec.getLsbD_append, BitVec.getLsbD_append, BitVec.getLsbD_append]
  by_cases lowest : n < 8
  · rw [if_pos lowest, if_pos lowest]
  · by_cases middle : n < 16
    · have inside : n - 8 < 8 := by omega
      rw [if_neg lowest, if_neg lowest, if_pos middle, if_pos inside]
    · have outside : ¬ n - 8 < 8 := by omega
      have rest : n - 8 - 8 = n - 16 := by omega
      rw [if_neg lowest, if_neg lowest, if_neg middle, if_neg outside, rest]
      split
      · rfl
      · rw [BitVec.getLsbD_of_ge _ _ (by omega : 8 ≤ n - 16)]
        exact BitVec.getLsbD_zero

section Bits

variable (pBuffer : EccBuffer) {n : Nat}

theorem getLsbD_ecc1 (inside : n < 8) :
    (xdEccCalculate pBuffer).ecc1.getLsbD n =
      !(if n % 2 = 1 then (eccRegisters pBuffer).reg3.getLsbD (n / 2 + 4)
        else (eccRegisters pBuffer).reg2.getLsbD (n / 2 + 4)) := by
  rw [← (transResult_bits _ _ inside).1, xdEccCalculate, BitVec.getLsbD_not,
    decide_eq_true inside, Bool.true_and]

theorem getLsbD_ecc2 (inside : n < 8) :
    (xdEccCalculate pBuffer).ecc2.getLsbD n =
      !(if n % 2 = 1 then (eccRegisters pBuffer).reg3.getLsbD (n / 2)
        else (eccRegisters pBuffer).reg2.getLsbD (n / 2)) := by
  rw [← (transResult_bits _ _ inside).2, xdEccCalculate, BitVec.getLsbD_not,
    decide_eq_true inside, Bool.true_and]

theorem getLsbD_ecc3 (inside : n < 8) :
    (xdEccCalculate pBuffer).ecc3.getLsbD n =
      (decide (n < 2) || !(eccRegisters pBuffer).reg1.getLsbD (n - 2)) := by
  have lowest : (0x03#8).getLsbD n = decide (n < 2) := by
    have three : 3 = 2 ^ 2 - 1 := rfl
    rw [BitVec.getLsbD_ofNat, decide_eq_true inside, Bool.true_and, three,
      Nat.testBit_two_pow_sub_one]
  rw [xdEccCalculate, BitVec.getLsbD_or, BitVec.getLsbD_shiftLeft, BitVec.getLsbD_not,
    lowest, decide_eq_true inside, decide_eq_true (by omega : n - 2 < 8)]
  cases decide (n < 2) <;> simp

end Bits

def EccRegisters.difference (change : EccRegisters) (n : Nat) : Bool :=
  if n < 2 then false
  else if n < 8 then change.reg1.getLsbD (n - 2)
  else if n < 24 then
    if n % 2 = 1 then change.reg3.getLsbD (n / 2 - 4)
    else change.reg2.getLsbD (n / 2 - 4)
  else false

theorem getLsbD_calculate {first second : EccBuffer} {change : EccRegisters}
    (changed : eccRegisters second = (eccRegisters first).xor change) (n : Nat) :
    (eccDifference (xdEccCalculate first) (xdEccCalculate second)).getLsbD n =
      change.difference n := by
  have cancel (x y : Bool) : ((!x) ^^ !(x ^^ y)) = y := by cases x <;> cases y <;> rfl
  rw [getLsbD_eccDifference, EccRegisters.difference]
  by_cases lowest : n < 8
  · rw [if_pos lowest, if_pos lowest, BitVec.getLsbD_xor, getLsbD_ecc3 _ lowest,
      getLsbD_ecc3 _ lowest, changed]
    by_cases fixed : n < 2
    · rw [if_pos fixed, decide_eq_true fixed]
      rfl
    · rw [if_neg fixed, decide_eq_false fixed, Bool.false_or, Bool.false_or,
        EccRegisters.xor, BitVec.getLsbD_xor, cancel]
  · have notFixed : ¬ n < 2 := by omega
    rw [if_neg lowest, if_neg notFixed, if_neg lowest, BitVec.getLsbD_xor, BitVec.getLsbD_xor]
    by_cases middle : n < 16
    · have within : n < 24 := by omega
      have inside : n - 8 < 8 := by omega
      have parity : (n - 8) % 2 = n % 2 := by omega
      have half : (n - 8) / 2 = n / 2 - 4 := by omega
      rw [if_pos middle, if_pos within, getLsbD_ecc2 _ inside, getLsbD_ecc2 _ inside,
        changed, parity, half, EccRegisters.xor]
      dsimp only
      rw [BitVec.getLsbD_xor, BitVec.getLsbD_xor]
      split <;> exact cancel _ _
    · rw [if_neg middle]
      by_cases within : n < 24
      · have inside : n - 16 < 8 := by omega
        have parity : (n - 16) % 2 = n % 2 := by omega
        have half : (n - 16) / 2 + 4 = n / 2 - 4 := by omega
        rw [if_pos within, getLsbD_ecc1 _ inside, getLsbD_ecc1 _ inside, changed, parity,
          half, EccRegisters.xor]
        dsimp only
        rw [BitVec.getLsbD_xor, BitVec.getLsbD_xor]
        split <;> exact cancel _ _
      · have outside : 8 ≤ n - 16 := by omega
        rw [if_neg within, BitVec.getLsbD_of_ge _ _ outside, BitVec.getLsbD_of_ge _ _ outside]
        rfl

/-- The address of a bit: of the bit in its byte and of the byte. -/
def addressBit (i : BitVec 8) (bit : Fin 8) (m : Nat) : Bool :=
  if m < 3 then bit.val.testBit m else i.getLsbD (m - 3)

variable {first second : BitVec 8} {firstBit secondBit : Fin 8}

theorem addressBit_injective
    (same : ∀ m < 11, addressBit first firstBit m = addressBit second secondBit m) :
    first = second ∧ firstBit = secondBit := by
  constructor
  · apply BitVec.eq_of_getLsbD_eq
    intro n inside
    have bits := same (n + 3) (by omega)
    have high : ¬ n + 3 < 3 := by omega
    rwa [addressBit, addressBit, if_neg high, if_neg high, Nat.add_sub_cancel] at bits
  · apply Fin.ext
    apply Nat.eq_of_testBit_eq
    intro m
    by_cases low : m < 3
    · have bits := same m (by omega)
      rwa [addressBit, addressBit, if_pos low, if_pos low] at bits
    · have room : 2 ^ 3 ≤ 2 ^ m := Nat.pow_le_pow_right (by decide) (by omega)
      rw [Nat.testBit_lt_two_pow (by omega), Nat.testBit_lt_two_pow (by omega)]

theorem difference_xor (first second : EccRegisters) (n : Nat) :
    (first.xor second).difference n = (first.difference n ^^ second.difference n) := by
  rw [EccRegisters.difference, EccRegisters.difference, EccRegisters.difference, EccRegisters.xor]
  split_ifs
  · rfl
  · exact BitVec.getLsbD_xor
  · exact BitVec.getLsbD_xor
  · exact BitVec.getLsbD_xor
  · rfl

variable {n : Nat}

theorem difference_outside (change : EccRegisters) (outside : n < 2 ∨ 24 ≤ n) :
    change.difference n = false := by
  rw [EccRegisters.difference]
  split_ifs <;> first | rfl | omega

theorem difference_column (change : EccRegisters) (inside : 2 ≤ n ∧ n < 8) :
    change.difference n = change.reg1.getLsbD (n - 2) := by
  have notFixed : ¬ n < 2 := by omega
  rw [EccRegisters.difference, if_neg notFixed, if_pos inside.2]

theorem difference_line (change : EccRegisters) (inside : 8 ≤ n ∧ n < 24) :
    change.difference n = if n % 2 = 1 then change.reg3.getLsbD (n / 2 - 4)
      else change.reg2.getLsbD (n / 2 - 4) := by
  have notFixed : ¬ n < 2 := by omega
  have notColumn : ¬ n < 8 := by omega
  rw [EccRegisters.difference, if_neg notFixed, if_neg notColumn, if_pos inside.2]

theorem difference_contribution (i : BitVec 8) (bit : Fin 8) {m : Nat} (inside : m < 11) :
    (contribution i (ECC_BIT bit)).difference (2 * m + 3) = addressBit i bit m ∧
      (contribution i (ECC_BIT bit)).difference (2 * m + 2) = !addressBit i bit m := by
  have column (n : Nat) (small : n < 6) :
      (eccTable (ECC_BIT bit) &&& ECC_MASK_CPS).getLsbD n =
        if n % 2 = 1 then bit.val.testBit (n / 2) else !bit.val.testBit (n / 2) := by
    have mask : ECC_MASK_CPS.getLsbD n = true := by
      have ones : 0x3F = 2 ^ 6 - 1 := rfl
      rw [ECC_MASK_CPS, BitVec.getLsbD_ofNat, ones, Nat.testBit_two_pow_sub_one,
        decide_eq_true small, decide_eq_true (by omega : n < 8)]
      rfl
    rw [BitVec.getLsbD_and, mask, Bool.and_true, eccTable_bit bit bit.isLt n (by omega),
      if_neg (by omega)]
  have counted : eccTable (ECC_BIT bit) &&& ECC_BIT 6 ≠ 0#8 := by
    rw [and_twoPow_ne_zero _ (by decide), eccTable_bit bit bit.isLt 6 (by decide), if_pos rfl]
  have registers : contribution i (ECC_BIT bit) =
      ⟨eccTable (ECC_BIT bit) &&& ECC_MASK_CPS, ~~~i, i⟩ := by
    exact if_pos counted
  rw [registers, addressBit]
  by_cases low : m < 3
  · have upper : 2 * m + 3 - 2 = 2 * m + 1 := by omega
    have lower : 2 * m + 2 - 2 = 2 * m := by omega
    have oddPlace : (2 * m + 1) % 2 = 1 := by omega
    have evenPlace : ¬ 2 * m % 2 = 1 := by omega
    have half : (2 * m + 1) / 2 = m := by omega
    have whole : 2 * m / 2 = m := by omega
    rw [if_pos low, difference_column _ (by omega), difference_column _ (by omega), upper,
      lower, column _ (by omega), column _ (by omega), if_pos oddPlace, if_neg evenPlace,
      half, whole]
    exact ⟨rfl, rfl⟩
  · have oddPlace : (2 * m + 3) % 2 = 1 := by omega
    have evenPlace : ¬ (2 * m + 2) % 2 = 1 := by omega
    have upper : (2 * m + 3) / 2 - 4 = m - 3 := by omega
    have lower : (2 * m + 2) / 2 - 4 = m - 3 := by omega
    have byte : m - 3 < 8 := by omega
    rw [if_neg low, difference_line _ (by omega), difference_line _ (by omega),
      if_pos oddPlace, if_neg evenPlace, upper, lower, BitVec.getLsbD_not,
      decide_eq_true byte]
    exact ⟨rfl, rfl⟩

/-! ## The results -/

theorem correctable_iff (d : BitVec 32) :
    (d ^^^ d >>> 1) &&& ECC_CORRECTABLE = ECC_CORRECTABLE ↔
      ∀ m < 11, d.getLsbD (2 * m + 2) ≠ d.getLsbD (2 * m + 3) := by
  have mask : ∀ n < 32, ECC_CORRECTABLE.getLsbD n = decide (2 ≤ n ∧ n ≤ 22 ∧ n % 2 = 0) := by decide
  have bits (n : Nat) :
      ((d ^^^ d >>> 1) &&& ECC_CORRECTABLE).getLsbD n =
        ((d.getLsbD n ^^ d.getLsbD (n + 1)) && ECC_CORRECTABLE.getLsbD n) := by
    rw [BitVec.getLsbD_and, BitVec.getLsbD_xor, BitVec.getLsbD_ushiftRight, Nat.add_comm 1]
  constructor
  · intro same m inside alike
    have bit := bits (2 * m + 2)
    have place : 2 ≤ 2 * m + 2 ∧ 2 * m + 2 ≤ 22 ∧ (2 * m + 2) % 2 = 0 := by omega
    rw [same, alike, Bool.xor_self, mask _ (by omega), decide_eq_true place] at bit
    cases bit
  · intro apart
    apply BitVec.eq_of_getLsbD_eq
    intro n inside
    rw [bits, mask n inside]
    by_cases place : 2 ≤ n ∧ n ≤ 22 ∧ n % 2 = 0
    · have pair := apart (n / 2 - 1) (by omega)
      have lower : 2 * (n / 2 - 1) + 2 = n := by omega
      have upper : 2 * (n / 2 - 1) + 3 = n + 1 := by omega
      rw [lower, upper] at pair
      rw [decide_eq_true place, Bool.and_true]
      exact bne_iff_ne.mpr pair
    · rw [decide_eq_false place, Bool.and_false]

theorem xdEccCorrectData_flip (pBuffer : EccBuffer) (i : BitVec 8) (bit : Fin 8) :
    xdEccCorrectData (flip pBuffer i bit) (xdEccCalculate pBuffer) = (pBuffer, .corrected) := by
  have bits := getLsbD_calculate (eccRegisters_flip pBuffer i bit)
  have rails (m : Nat) (inside : m < 11) := difference_contribution i bit inside
  rw [xdEccCorrectData]
  generalize eccDifference (xdEccCalculate pBuffer)
    (xdEccCalculate (flip pBuffer i bit)) = d at bits ⊢
  have pair (m : Nat) (inside : m < 11) : d.getLsbD (2 * m + 2) ≠ d.getLsbD (2 * m + 3) := by
    rw [bits, bits, (rails m inside).1, (rails m inside).2]
    cases addressBit i bit m <;> decide
  have differs : d ≠ 0#32 := by
    rintro rfl
    exact pair 0 (by decide) (BitVec.getLsbD_zero.trans BitVec.getLsbD_zero.symm)
  have add : (EccScan.loop d 8 ⟨ECC_BIT23, ECC_BIT 7, 0#8⟩).found = i := by
    apply BitVec.eq_of_getLsbD_eq
    intro n inside
    have place : 2 * n + 9 = 2 * (n + 3) + 3 := by omega
    have high : ¬ n + 3 < 3 := by omega
    rw [(scan_bits d).1 n inside, place, bits, (rails _ (by omega)).1, addressBit,
      if_neg high, Nat.add_sub_cancel]
  have position :
      (EccScan.loop d 3
          ⟨(EccScan.loop d 8 ⟨ECC_BIT23, ECC_BIT 7, 0#8⟩).l, ECC_BIT 2, 0#8⟩).found =
        BitVec.ofNat 8 bit := by
    apply BitVec.eq_of_getLsbD_eq
    intro n inside
    rw [(scan_bits d).2 n inside, BitVec.getLsbD_ofNat, decide_eq_true inside, Bool.true_and]
    by_cases low : n < 3
    · rw [decide_eq_true low, Bool.true_and, bits, (rails n (by omega)).1, addressBit, if_pos low]
    · have room : 2 ^ 3 ≤ 2 ^ n := Nat.pow_le_pow_right (by decide) (by omega)
      rw [decide_eq_false low, Bool.false_and, Nat.testBit_lt_two_pow (by omega)]
  have shifted : ∀ b : Fin 8, ECC_BIT 0 <<< BitVec.ofNat 8 b.val = ECC_BIT b := by decide
  have restored :
      update (flip pBuffer i bit) i (flip pBuffer i bit i ^^^ ECC_BIT bit) = pBuffer := by
    rw [flip, update_idem, update_self, BitVec.xor_assoc, BitVec.xor_self, BitVec.xor_zero,
      update_eq_self]
  dsimp only
  rw [if_neg differs, if_pos ((correctable_iff d).mpr pair), add, position, shifted, restored]

theorem xdEccCorrectData_code (pBuffer : EccBuffer) {ecc : EccBytes} (inside : n < 24)
    (single : eccDifference ecc (xdEccCalculate pBuffer) = BitVec.twoPow 32 n) :
    xdEccCorrectData pBuffer ecc = (pBuffer, .errorEcc) := by
  have alone :
      ∀ k < 24,
        BitVec.twoPow 32 k ≠ 0#32 ∧
          (BitVec.twoPow 32 k ^^^ BitVec.twoPow 32 k >>> 1) &&& ECC_CORRECTABLE ≠
            ECC_CORRECTABLE ∧
          BitVec.twoPow 32 k &&& 0x00FFFFFF#32 = BitVec.twoPow 32 k := by
    decide
  obtain ⟨differs, notCorrectable, masked⟩ := alone n inside
  have one : eccCount (BitVec.twoPow 32 n) 0 = 1 := by
    rw [eccCount_eq, BitVec.toNat_twoPow_of_lt (by omega), bitCount_two_pow]
  rw [xdEccCorrectData, single]
  dsimp only
  rw [if_neg differs, if_neg notCorrectable, masked, if_pos one]

/-- A bit of the code; the two lowest bits of the third byte are not part of it. -/
inductive CodeBit
  | ecc1 (bit : Fin 8)
  | ecc2 (bit : Fin 8)
  | ecc3 (bit : Fin 6)

def flipCode (ecc : EccBytes) : CodeBit → EccBytes
  | .ecc1 bit => { ecc with ecc1 := ecc.ecc1 ^^^ ECC_BIT bit }
  | .ecc2 bit => { ecc with ecc2 := ecc.ecc2 ^^^ ECC_BIT bit }
  | .ecc3 bit => { ecc with ecc3 := ecc.ecc3 ^^^ ECC_BIT (bit + 2) }

def CodeBit.place : CodeBit → Nat
  | .ecc1 bit => bit + 16
  | .ecc2 bit => bit + 8
  | .ecc3 bit => bit + 2

theorem CodeBit.place_lt (codeBit : CodeBit) : codeBit.place < 24 := by
  cases codeBit with
  | ecc1 bit => exact Nat.add_lt_add_right bit.isLt 16
  | ecc2 bit | ecc3 bit =>
    have inside := bit.isLt
    rw [CodeBit.place]
    omega

theorem eccDifference_flipCode (ecc : EccBytes) (codeBit : CodeBit) :
    eccDifference (flipCode ecc codeBit) ecc = BitVec.twoPow 32 codeBit.place := by
  have cancel (x y : BitVec 8) : x ^^^ y ^^^ x = y := by
    rw [BitVec.xor_comm, ← BitVec.xor_assoc, BitVec.xor_self, BitVec.zero_xor]
  have highest : ∀ bit : Fin 8,
      ((ECC_BIT bit).setWidth 32 <<< 16) + ((0#8).setWidth 32 <<< 8) + (0#8).setWidth 32 =
        BitVec.twoPow 32 (bit + 16) := by decide
  have middle : ∀ bit : Fin 8,
      ((0#8).setWidth 32 <<< 16) + ((ECC_BIT bit).setWidth 32 <<< 8) + (0#8).setWidth 32 =
        BitVec.twoPow 32 (bit + 8) := by decide
  have lowest : ∀ bit : Fin 6,
      ((0#8).setWidth 32 <<< 16) + ((0#8).setWidth 32 <<< 8) + (ECC_BIT (bit + 2)).setWidth 32 =
        BitVec.twoPow 32 (bit + 2) := by decide
  cases codeBit with
  | ecc1 bit =>
    rw [flipCode, eccDifference, cancel, BitVec.xor_self, BitVec.xor_self]
    exact highest bit
  | ecc2 bit =>
    rw [flipCode, eccDifference, cancel, BitVec.xor_self, BitVec.xor_self]
    exact middle bit
  | ecc3 bit =>
    rw [flipCode, eccDifference, cancel, BitVec.xor_self, BitVec.xor_self]
    exact lowest bit

theorem xdEccCorrectData_two (pBuffer : EccBuffer)
    (apart : (first, firstBit) ≠ (second, secondBit)) :
    xdEccCorrectData (flip (flip pBuffer first firstBit) second secondBit)
        (xdEccCalculate pBuffer) =
      (flip (flip pBuffer first firstBit) second secondBit, .uncorrectable) := by
  have changed :
      eccRegisters (flip (flip pBuffer first firstBit) second secondBit) =
        (eccRegisters pBuffer).xor
          ((contribution first (ECC_BIT firstBit)).xor
            (contribution second (ECC_BIT secondBit))) := by
    rw [eccRegisters_flip, eccRegisters_flip]
    ext1 <;> exact BitVec.xor_assoc _ _ _
  have bits := getLsbD_calculate changed
  rw [xdEccCorrectData]
  generalize eccDifference (xdEccCalculate pBuffer)
    (xdEccCalculate (flip (flip pBuffer first firstBit) second secondBit)) = d at bits ⊢
  have upper (m : Nat) (inside : m < 11) :
      d.getLsbD (2 * m + 3) = (addressBit first firstBit m ^^ addressBit second secondBit m) := by
    rw [bits, difference_xor, (difference_contribution first firstBit inside).1,
      (difference_contribution second secondBit inside).1]
  have lower (m : Nat) (inside : m < 11) : d.getLsbD (2 * m + 2) = d.getLsbD (2 * m + 3) := by
    rw [upper m inside, bits, difference_xor, (difference_contribution first firstBit inside).2,
      (difference_contribution second secondBit inside).2]
    cases addressBit first firstBit m <;> cases addressBit second secondBit m <;> rfl
  have outside (n : Nat) (beyond : n < 2 ∨ 24 ≤ n) : d.getLsbD n = false := by
    rw [bits, difference_outside _ beyond]
  have differs : d ≠ 0#32 := by
    rintro rfl
    have same : first = second ∧ firstBit = secondBit := by
      refine addressBit_injective fun m inside => ?_
      have clear := upper m inside
      rw [BitVec.getLsbD_zero] at clear
      exact bne_eq_false_iff_eq.mp clear.symm
    exact apart (Prod.ext same.1 same.2)
  have notCorrectable : ¬ (d ^^^ d >>> 1) &&& ECC_CORRECTABLE = ECC_CORRECTABLE := by
    intro correctable
    exact (correctable_iff d).mp correctable 0 (by decide) (lower 0 (by decide))
  have masked : d &&& 0x00FFFFFF#32 = d := by
    apply BitVec.eq_of_getLsbD_eq
    intro n inside
    have ones : 0x00FFFFFF = 2 ^ 24 - 1 := rfl
    rw [BitVec.getLsbD_and, BitVec.getLsbD_ofNat, ones, Nat.testBit_two_pow_sub_one,
      decide_eq_true inside, Bool.true_and]
    by_cases within : n < 24
    · rw [decide_eq_true within, Bool.and_true]
    · rw [outside n (Or.inr (by omega)), Bool.false_and]
  have even : bitCount d.toNat % 2 = 0 := by
    refine bitCount_even fun j => ?_
    change d.getLsbD (2 * j) = d.getLsbD (2 * j + 1)
    by_cases lowest : j = 0
    · subst lowest
      exact (outside _ (Or.inl (by omega))).trans (outside _ (Or.inl (by omega))).symm
    · by_cases within : j < 12
      · have pair := lower (j - 1) (by omega)
        have first_ : 2 * (j - 1) + 2 = 2 * j := by omega
        have second_ : 2 * (j - 1) + 3 = 2 * j + 1 := by omega
        rwa [first_, second_] at pair
      · rw [outside _ (Or.inr (by omega)), outside _ (Or.inr (by omega))]
  have notOne : ¬ eccCount (d &&& 0x00FFFFFF#32) 0 = 1 := by
    rw [masked, eccCount_eq]
    omega
  dsimp only
  rw [if_neg differs, if_neg notCorrectable, if_neg notOne]

/-- One flipped bit of the data is corrected, one of the code is told, and two of the
data are told apart from both. -/
theorem xdEcc_corrects (pBuffer : EccBuffer) :
    (∀ i bit,
        xdEccCorrectData (flip pBuffer i bit) (xdEccCalculate pBuffer) = (pBuffer, .corrected)) ∧
      (∀ codeBit,
        xdEccCorrectData pBuffer (flipCode (xdEccCalculate pBuffer) codeBit) =
          (pBuffer, .errorEcc)) ∧
      ∀ first firstBit second secondBit,
        (first, firstBit) ≠ (second, secondBit) →
          xdEccCorrectData (flip (flip pBuffer first firstBit) second secondBit)
              (xdEccCalculate pBuffer) =
            (flip (flip pBuffer first firstBit) second secondBit, .uncorrectable) := by
  refine ⟨xdEccCorrectData_flip pBuffer, fun codeBit => ?_, ?_⟩
  · exact xdEccCorrectData_code pBuffer codeBit.place_lt (eccDifference_flipCode _ codeBit)
  · intro first firstBit second secondBit apart
    exact xdEccCorrectData_two pBuffer apart

/-- Two bits of the first byte. -/
theorem xdEcc_corrects_zeros :
    xdEccCorrectData (flip (flip (fun _ => 0#8) 0#8 ⟨0, by decide⟩) 0#8 ⟨1, by decide⟩)
        (xdEccCalculate fun _ => 0#8) =
      (flip (flip (fun _ => 0#8) 0#8 ⟨0, by decide⟩) 0#8 ⟨1, by decide⟩, .uncorrectable) :=
  (xdEcc_corrects fun _ => 0#8).2.2 0#8 ⟨0, by decide⟩ 0#8 ⟨1, by decide⟩ (by decide)

end IteSdk.Xd
