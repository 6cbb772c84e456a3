import IteSdk.Lib.Memory

/-!
# The NOR block device

`_NorRead` and `_NorWrite` of `itp_nor.c`, over `NorRead` and `NorWrite` of the
drivers of the IT970 and the IT9850.  Memory is always available.
-/

namespace IteSdk.Itp

section

open Lib

inductive NorFault
  | outside
  deriving DecidableEq

inductive NorErrno
  | eio
  | ebadf
  deriving DecidableEq

/-- The chip, and the block size that `NorInit` has found. -/
structure NorDevice where
  chip : List UInt8
  small : chip.length < 2 ^ 31
  norBlockSizeInBytes : BitVec 32
  positive : 0 < norBlockSizeInBytes.toNat

structure ITPNor where
  seekPos : BitVec 32
  deriving DecidableEq

/-- What a call returns, and what it has moved: the bytes read, or the chip after the
write. -/
structure NorDone where
  returned : BitVec 32
  errno : Option NorErrno
  nor : Option ITPNor
  moved : Option (List UInt8)

namespace NorDevice

variable (device : NorDevice)

def norGetCapacity : BitVec 32 := BitVec.ofNat 32 device.chip.length

/-- `NorRead`, which has no value when it fails; `works` tells whether the chip
answers. -/
def norRead (works : Bool) (address outDataSize : BitVec 32) :
    Except NorFault (Option (List UInt8)) :=
  if device.norGetCapacity < address + outDataSize then .ok none
  else if device.chip.length < address.toNat + outDataSize.toNat ∧ outDataSize ≠ 0 then
    .error .outside
  else if works then .ok (some (slice address.toNat outDataSize.toNat device.chip))
  else .ok none

/-- `NorWrite` of the first bytes of `inData`. -/
def norWrite (works : Bool) (inData : List UInt8) (address inDataSize : BitVec 32) :
    Except NorFault (Option (List UInt8)) :=
  if inDataSize = 0 then .ok none
  else if device.norGetCapacity < address + inDataSize then .ok none
  else if device.chip.length < address.toNat + inDataSize.toNat then .error .outside
  else if works then
    .ok (some (overwrite address.toNat (slice 0 inDataSize.toNat inData) device.chip))
  else .ok none

/-- The body that `_NorRead` and `_NorWrite` share, with `transfer` for the call of the
driver. -/
def norAccess (transfer : BitVec 32 → BitVec 32 → Except NorFault (Option (List UInt8)))
    (len : BitVec 32) (info : Option ITPNor) : Except NorFault NorDone :=
  match info with
  | none => .ok ⟨-1, some .ebadf, none, none⟩
  | some norObj =>
    let norSize := device.norGetCapacity
    let requested := len * device.norBlockSizeInBytes
    if norSize.sle norObj.seekPos then .ok ⟨0, none, some norObj, none⟩
    else
      let length :=
        if norSize ≤ norObj.seekPos + requested then
          norObj.seekPos + requested - norSize
        else requested
      match transfer norObj.seekPos length with
      | .error fault => .error fault
      | .ok (some moved) =>
        .ok ⟨length / device.norBlockSizeInBytes, none, some ⟨norObj.seekPos + length⟩, some moved⟩
      | .ok none => .ok ⟨-1, some .eio, some norObj, none⟩

/-- `_NorRead`. -/
def itpNorRead (works : Bool) (len : BitVec 32) (info : Option ITPNor) : Except NorFault NorDone :=
  device.norAccess (device.norRead works) len info

/-- `_NorWrite`. -/
def itpNorWrite (works : Bool) (ptr : List UInt8) (len : BitVec 32)
    (info : Option ITPNor) : Except NorFault NorDone :=
  device.norAccess (device.norWrite works ptr) len info

end NorDevice

end

/-!
# Transfers at the end of the chip

What a transfer has to move, and the requests for which the clamp of the length gives
just that.
-/

section

open Lib

namespace NorDevice

variable (device : NorDevice) (seekPos len : BitVec 32)

def asked : Int := len.toInt * device.norBlockSizeInBytes.toNat

/-- The bytes that are to be moved: what is asked for, as far as the chip goes. -/
def count : Int := max 0 (min (device.asked len) (device.chip.length - seekPos.toInt))

/-- The call moves the bytes up to the end of the chip, and returns and advances by
their number. -/
def Moves (run : Except NorFault NorDone) (unmoved moved : List UInt8) : Prop :=
  ∃ done : NorDone,
    run = .ok done ∧
      done.returned.toInt = device.count seekPos len / device.norBlockSizeInBytes.toNat ∧
      done.nor.map (fun nor => nor.seekPos.toInt) =
        some (seekPos.toInt + device.count seekPos len) ∧
      done.moved.getD unmoved = moved

def ReadsRight : Prop :=
  device.Moves seekPos len (device.itpNorRead true len (some ⟨seekPos⟩)) []
    (slice seekPos.toNat (device.count seekPos len).toNat device.chip)

def WritesRight (ptr : List UInt8) : Prop :=
  device.Moves seekPos len (device.itpNorWrite true ptr len (some ⟨seekPos⟩)) device.chip
    (overwrite seekPos.toNat (slice 0 (device.count seekPos len).toNat ptr) device.chip)

/-- The request ends in front of the end of the chip, or the difference that is taken
for the length is by chance what is left of the chip. -/
def Fits : Prop :=
  seekPos.toInt + device.asked len < device.chip.length ∨
    (seekPos.toInt + device.asked len) % 2 ^ 32 = 2 * device.chip.length - seekPos.toInt
deriving Decidable

/-- The requests that are read right; the last case is that of negative lengths. -/
def ReadFits : Prop :=
  (device.chip.length : Int) ≤ seekPos.toInt ∨
    0 ≤ seekPos.toInt ∧
      (0 ≤ device.asked len ∧ device.Fits seekPos len ∨
        device.asked len < 0 ∧
          ((seekPos.toInt + device.asked len) % 2 ^ 32 = device.chip.length ∨
            device.asked len % 2 ^ 32 = 0))

/-- The requests that are written right: an empty one is an error for the driver. -/
def WriteFits : Prop :=
  (device.chip.length : Int) ≤ seekPos.toInt ∨
    0 ≤ seekPos.toInt ∧ 0 < device.asked len ∧ device.Fits seekPos len
deriving Decidable

def clamped : BitVec 32 :=
  if device.norGetCapacity ≤ seekPos + len * device.norBlockSizeInBytes then
    seekPos + len * device.norBlockSizeInBytes - device.norGetCapacity
  else len * device.norBlockSizeInBytes

theorem toNat_norGetCapacity : device.norGetCapacity.toNat = device.chip.length := by
  have small := device.small
  exact Nat.mod_eq_of_lt (by omega)

theorem toInt_emod (x : BitVec 32) : x.toInt % 2 ^ 32 = x.toNat := by
  have word := x.isLt
  rw [BitVec.toInt_eq_toNat_cond]
  split <;> omega

theorem toNat_asked :
    ((len * device.norBlockSizeInBytes).toNat : Int) = device.asked len % 2 ^ 32 := by
  rw [asked, Int.mul_emod, toInt_emod, BitVec.toNat_mul]
  push_cast
  rw [Int.mul_emod, Int.emod_eq_of_lt (Int.natCast_nonneg _) (by exact_mod_cast len.isLt)]

theorem count_nonneg : 0 ≤ device.count seekPos len := Int.le_max_left 0 _

variable {device seekPos len}

theorem toNat_clamped :
    ((device.clamped seekPos len).toNat : Int) =
      if (device.chip.length : Int) ≤ (seekPos.toInt + device.asked len) % 2 ^ 32 then
        (seekPos.toInt + device.asked len) % 2 ^ 32 - device.chip.length
      else device.asked len % 2 ^ 32 := by
  have capacity := device.toNat_norGetCapacity
  have requested := device.toNat_asked len
  have here := toInt_emod seekPos
  have ends :
      ((seekPos + len * device.norBlockSizeInBytes).toNat : Int) =
        (seekPos.toInt + device.asked len) % 2 ^ 32 := by
    rw [BitVec.toNat_add, Int.add_emod, here, ← requested]
    push_cast
    rfl
  rw [← ends, ← requested, clamped]
  have reaches :
      device.norGetCapacity ≤ seekPos + len * device.norBlockSizeInBytes ↔
        (device.chip.length : Int) ≤
          ((seekPos + len * device.norBlockSizeInBytes).toNat : Int) := by
    rw [BitVec.le_def, capacity, Int.ofNat_le]
  by_cases behind : device.norGetCapacity ≤ seekPos + len * device.norBlockSizeInBytes
  · rw [if_pos behind, if_pos (reaches.mp behind), BitVec.toNat_sub_of_le behind, capacity]
    exact Int.ofNat_sub (Int.ofNat_le.mp (reaches.mp behind))
  · rw [if_neg behind, if_neg (fun wrong => behind (reaches.mpr wrong))]

theorem clamped_eq_count (inside : 0 ≤ seekPos.toInt)
    (before : seekPos.toInt < device.chip.length) :
    ((device.clamped seekPos len).toNat : Int) = device.count seekPos len ↔
      0 ≤ device.asked len ∧ device.Fits seekPos len ∨
        device.asked len < 0 ∧
          ((seekPos.toInt + device.asked len) % 2 ^ 32 = device.chip.length ∨
            device.asked len % 2 ^ 32 = 0) := by
  have small := device.small
  rw [toNat_clamped, count, Fits]
  generalize device.asked len = request
  split <;> omega

variable {transfer : BitVec 32 → BitVec 32 → Except NorFault (Option (List UInt8))}
  {unmoved right moved : List UInt8}

theorem sle_seekPos :
    device.norGetCapacity.sle seekPos = true ↔ (device.chip.length : Int) ≤ seekPos.toInt := by
  have small := device.small
  have capacity : device.norGetCapacity.toInt = device.chip.length := by
    rw [BitVec.toInt_eq_toNat_of_lt (by rw [toNat_norGetCapacity]; omega), toNat_norGetCapacity]
  rw [BitVec.sle_iff_toInt_le, capacity]

theorem count_behind (len : BitVec 32) (behind : (device.chip.length : Int) ≤ seekPos.toInt) :
    device.count seekPos len = 0 := by
  rw [count]
  omega

theorem moves_behind (behind : (device.chip.length : Int) ≤ seekPos.toInt) :
    device.Moves seekPos len (device.norAccess transfer len (some ⟨seekPos⟩)) unmoved unmoved := by
  have nothing := count_behind len behind
  refine ⟨⟨0, none, some ⟨seekPos⟩, none⟩, ?_, ?_, ?_, rfl⟩
  · exact if_pos (sle_seekPos.mpr behind)
  · rw [nothing, Int.zero_ediv]
    rfl
  · rw [nothing, Int.add_zero]
    rfl

theorem norAccess_eq (before : seekPos.toInt < device.chip.length) :
    device.norAccess transfer len (some ⟨seekPos⟩) =
      match transfer seekPos (device.clamped seekPos len) with
      | .error fault => .error fault
      | .ok (some moved) =>
        .ok
          ⟨device.clamped seekPos len / device.norBlockSizeInBytes, none,
            some ⟨seekPos + device.clamped seekPos len⟩, some moved⟩
      | .ok none => .ok ⟨-1, some .eio, some ⟨seekPos⟩, none⟩ := by
  have notBehind : ¬ device.norGetCapacity.sle seekPos = true := by
    rw [sle_seekPos]
    omega
  exact if_neg notBehind

theorem Moves.transferred (before : seekPos.toInt < device.chip.length)
    (moves :
      device.Moves seekPos len (device.norAccess transfer len (some ⟨seekPos⟩)) unmoved right) :
    ∃ moved,
      transfer seekPos (device.clamped seekPos len) = .ok (some moved) ∧
        (seekPos + device.clamped seekPos len).toInt =
          seekPos.toInt + device.count seekPos len := by
  obtain ⟨done, runs, returned, advanced, -⟩ := moves
  rw [norAccess_eq before] at runs
  split at runs
  · cases runs
  · next moved transferred =>
      rw [Except.ok.injEq] at runs
      subst runs
      exact ⟨moved, transferred, Option.some.inj advanced⟩
  · rw [Except.ok.injEq] at runs
    subst runs
    have negative : (-1 : BitVec 32).toInt = -1 := by decide
    have positive :
        0 ≤ device.count seekPos len / (device.norBlockSizeInBytes.toNat : Int) :=
      Int.ediv_nonneg (device.count_nonneg seekPos len) (Int.natCast_nonneg _)
    rw [negative] at returned
    omega

/-- The length that was asked for is the right one, when the position is one inside the
chip. -/
theorem clamped_of_advanced (inside : 0 ≤ seekPos.toInt)
    (before : seekPos.toInt < device.chip.length)
    (advanced :
      (seekPos + device.clamped seekPos len).toInt = seekPos.toInt + device.count seekPos len) :
    ((device.clamped seekPos len).toNat : Int) = device.count seekPos len := by
  have small := device.small
  have here := toInt_emod seekPos
  have there := toInt_emod (seekPos + device.clamped seekPos len)
  have word := (device.clamped seekPos len).isLt
  have less : device.count seekPos len ≤ device.chip.length - seekPos.toInt := by
    rw [count]
    omega
  have positive := device.count_nonneg seekPos len
  rw [advanced, BitVec.toNat_add] at there
  push_cast at there
  omega

theorem moves_of_transfer (inside : 0 ≤ seekPos.toInt) (before : seekPos.toInt < device.chip.length)
    (length : ((device.clamped seekPos len).toNat : Int) = device.count seekPos len)
    (transferred : transfer seekPos (device.clamped seekPos len) = .ok (some moved)) :
    device.Moves seekPos len (device.norAccess transfer len (some ⟨seekPos⟩)) unmoved moved := by
  have small := device.small
  have here := toInt_emod seekPos
  have less : device.count seekPos len ≤ device.chip.length - seekPos.toInt := by
    rw [count]
    omega
  rw [norAccess_eq before, transferred]
  refine ⟨_, rfl, ?_, ?_, rfl⟩
  · have quotient :
        (device.clamped seekPos len / device.norBlockSizeInBytes).toNat =
          (device.clamped seekPos len).toNat / device.norBlockSizeInBytes.toNat :=
      BitVec.toNat_udiv
    have fewer :=
      Nat.div_le_self (device.clamped seekPos len).toNat device.norBlockSizeInBytes.toNat
    change (device.clamped seekPos len / device.norBlockSizeInBytes).toInt = _
    rw [BitVec.toInt_eq_toNat_of_lt (by omega), quotient, ← length]
    exact Int.natCast_ediv _ _
  · have sum :
        (seekPos + device.clamped seekPos len).toNat =
          seekPos.toNat + (device.clamped seekPos len).toNat := by
      rw [BitVec.toNat_add]
      omega
    change some (seekPos + device.clamped seekPos len).toInt = _
    rw [BitVec.toInt_eq_toNat_of_lt (by omega), sum, Option.some.injEq]
    push_cast
    omega

variable {address size : BitVec 32}

theorem norRead_inside {works : Bool}
    (runs : device.norRead works address size = .ok (some moved)) :
    address.toNat ≤ device.chip.length ∧ moved = slice address.toNat size.toNat device.chip := by
  have capacity := device.toNat_norGetCapacity
  unfold norRead at runs
  split at runs
  · cases runs
  · next inside =>
      rw [BitVec.lt_def, capacity, BitVec.toNat_add] at inside
      split at runs
      · cases runs
      · next reaches =>
          have atEnd : size = 0 → address.toNat ≤ device.chip.length := by
            rintro rfl
            have word := address.isLt
            simp at inside
            omega
          split at runs
          · rw [Except.ok.injEq, Option.some.injEq] at runs
            refine ⟨?_, runs.symm⟩
            by_cases empty : size = 0
            · exact atEnd empty
            · have within : ¬ device.chip.length < address.toNat + size.toNat :=
                fun wrong => reaches ⟨wrong, empty⟩
              omega
          · cases runs

theorem norRead_ok (inside : address.toNat + size.toNat ≤ device.chip.length) :
    device.norRead true address size =
      .ok (some (slice address.toNat size.toNat device.chip)) := by
  have small := device.small
  have capacity := device.toNat_norGetCapacity
  have fits : ¬ device.norGetCapacity < address + size := by
    rw [BitVec.lt_def, capacity, BitVec.toNat_add]
    omega
  rw [norRead, if_neg fits, if_neg (by omega), if_pos rfl]

theorem norWrite_inside {works : Bool} {inData : List UInt8}
    (runs : device.norWrite works inData address size = .ok (some moved)) :
    address.toNat ≤ device.chip.length ∧ size ≠ 0 := by
  unfold norWrite at runs
  split at runs
  · cases runs
  · next notEmpty =>
      split at runs
      · cases runs
      · split at runs
        · cases runs
        · exact ⟨by omega, notEmpty⟩

theorem norWrite_ok (inData : List UInt8) (notEmpty : size ≠ 0)
    (inside : address.toNat + size.toNat ≤ device.chip.length) :
    device.norWrite true inData address size =
      .ok (some (overwrite address.toNat (slice 0 size.toNat inData) device.chip)) := by
  have small := device.small
  have capacity := device.toNat_norGetCapacity
  have fits : ¬ device.norGetCapacity < address + size := by
    rw [BitVec.lt_def, capacity, BitVec.toNat_add]
    omega
  rw [norWrite, if_neg notEmpty, if_neg fits, if_neg (by omega), if_pos rfl]

theorem inside_of_word (inside : seekPos.toNat ≤ device.chip.length) : 0 ≤ seekPos.toInt := by
  have small := device.small
  rw [BitVec.toInt_eq_toNat_of_lt (by omega)]
  exact Int.natCast_nonneg _

theorem inside_of_length (inside : 0 ≤ seekPos.toInt) (before : seekPos.toInt < device.chip.length)
    (length : ((device.clamped seekPos len).toNat : Int) = device.count seekPos len) :
    seekPos.toNat + (device.clamped seekPos len).toNat ≤ device.chip.length := by
  have small := device.small
  have here := toInt_emod seekPos
  have less : device.count seekPos len ≤ device.chip.length - seekPos.toInt := by
    rw [count]
    omega
  omega

theorem readsRight_iff : device.ReadsRight seekPos len ↔ device.ReadFits seekPos len := by
  by_cases behind : (device.chip.length : Int) ≤ seekPos.toInt
  · refine iff_of_true ?_ (Or.inl behind)
    rw [ReadsRight, count_behind len behind, Int.toNat_zero, slice_zero]
    exact moves_behind behind
  · have before : seekPos.toInt < device.chip.length := Int.not_le.mp behind
    constructor
    · intro moves
      obtain ⟨moved, transferred, advanced⟩ := Moves.transferred before moves
      have inside := inside_of_word (norRead_inside transferred).1
      have length := clamped_of_advanced inside before advanced
      exact Or.inr ⟨inside, (clamped_eq_count inside before).mp length⟩
    · rintro (wrong | ⟨inside, fits⟩)
      · exact absurd wrong behind
      · have length := (clamped_eq_count inside before).mpr fits
        have transferred := norRead_ok (inside_of_length inside before length)
        have sized :
            (device.count seekPos len).toNat = (device.clamped seekPos len).toNat := by
          omega
        rw [ReadsRight, sized]
        exact moves_of_transfer inside before length transferred

theorem writesRight_iff (ptr : List UInt8) :
    device.WritesRight seekPos len ptr ↔ device.WriteFits seekPos len := by
  by_cases behind : (device.chip.length : Int) ≤ seekPos.toInt
  · refine iff_of_true ?_ (Or.inl behind)
    rw [WritesRight, count_behind len behind, Int.toNat_zero, slice_zero, overwrite_nil]
    exact moves_behind behind
  · have before : seekPos.toInt < device.chip.length := Int.not_le.mp behind
    have some_asked : 0 < device.asked len ↔ 0 < device.count seekPos len := by
      rw [count]
      omega
    constructor
    · intro moves
      obtain ⟨moved, transferred, advanced⟩ := Moves.transferred before moves
      obtain ⟨word, notEmpty⟩ := norWrite_inside transferred
      have inside := inside_of_word word
      have length := clamped_of_advanced inside before advanced
      have positive : 0 < device.asked len := by
        rw [some_asked]
        have notZero : (device.clamped seekPos len).toNat ≠ 0 :=
          fun zero => notEmpty (BitVec.eq_of_toNat_eq zero)
        omega
      obtain ⟨-, fits⟩ | ⟨negative, -⟩ := (clamped_eq_count inside before).mp length
      · exact Or.inr ⟨inside, positive, fits⟩
      · omega
    · rintro (wrong | ⟨inside, positive, fits⟩)
      · exact absurd wrong behind
      · have length := (clamped_eq_count inside before).mpr (Or.inl ⟨Int.le_of_lt positive, fits⟩)
        have notEmpty : device.clamped seekPos len ≠ 0 := by
          intro empty
          rw [some_asked, ← length, empty] at positive
          exact absurd positive (by decide)
        have transferred := norWrite_ok ptr notEmpty (inside_of_length inside before length)
        have sized :
            (device.count seekPos len).toNat = (device.clamped seekPos len).toNat := by
          omega
        rw [WritesRight, sized]
        exact moves_of_transfer inside before length transferred

def erasedM25P20 : NorDevice where
  chip := List.replicate (4 * 65536) 0xff
  small := by
    rw [List.length_replicate]
    decide
  norBlockSizeInBytes := 65536
  positive := by decide

theorem length_erasedM25P20 : erasedM25P20.chip.length = 4 * 65536 := List.length_replicate

end NorDevice

end

end IteSdk.Itp
