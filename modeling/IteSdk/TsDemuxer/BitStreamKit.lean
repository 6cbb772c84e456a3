import IteSdk.Lib.Bits

/-!
# Bits of a ring buffer

`BitStreamKit_GetBits`, `BitStreamKit_ShowBits` and `BitStreamKit_SkipBits` of
`bitstream_kit.h`.  Four bytes are fetched behind the current one, whatever the number
of bits that are asked for.
-/

namespace IteSdk.TsDemuxer

open Lib

/-- `BITSTREAM`; the addresses are below 2^32. -/
structure BitStream where
  bitPosition : Nat
  pStartAddress : Nat
  remainByte : Int
  pBufferStartAddr : Nat
  pBufferEndAddr : Nat
  deriving DecidableEq

/-- What a call returns, the stream after it, and the addresses that it has read. -/
structure BitsRead where
  result : BitVec 32
  stream : BitStream
  touched : List Nat
  deriving DecidableEq

namespace BitStream

variable (memory : Nat → BitVec 8) (stream : BitStream)

/-- The loops that make `next4ByteValue`; `j` is the place of the next byte. -/
def orBytes : List Nat → Nat → BitVec 32 → BitVec 32
  | [], _, value => value
  | address :: rest, j, value =>
    orBytes rest (j - 8) (value ||| (memory address).zeroExtend 32 <<< j)

def nextAddresses (start : Nat) : List Nat :=
  let remainByte := min (stream.pBufferEndAddr - start) 4
  (List.range' 1 remainByte).map (start + ·) ++
    (List.range (4 - remainByte)).map (stream.pBufferStartAddr + ·)

/-- The 32 bits from `position` on. -/
def window (start position : Nat) : BitVec 32 :=
  let next4ByteValue := orBytes memory (stream.nextAddresses start) 24 0#32
  (memory start).zeroExtend 32 <<< (24 + position) ||| next4ByteValue >>> (8 - position)

def shiftRight (value : BitVec 32) (count : Nat) : Option (BitVec 32) :=
  if count < 32 then some (value >>> count) else none

def skipBits (bitLength : Nat) : BitStream :=
  let oldPosition := stream.bitPosition
  let pStartAddress := stream.pStartAddress + (bitLength + oldPosition) >>> 3
  { stream with
    bitPosition := (bitLength + oldPosition) &&& 0x7
    pStartAddress :=
      if stream.pBufferEndAddr ≤ pStartAddress then
        stream.pBufferStartAddr + (pStartAddress - stream.pBufferEndAddr)
      else pStartAddress
    remainByte := stream.remainByte - ((bitLength + oldPosition) >>> 3 : Nat) }

def getBits (bitLength : Nat) : Option BitsRead :=
  if 32 < bitLength then some ⟨0, stream, []⟩
  else
    let start := stream.pStartAddress
    (shiftRight (stream.window memory start stream.bitPosition) (32 - bitLength)).map
      fun result => ⟨result, stream.skipBits bitLength, start :: stream.nextAddresses start⟩

def showBits (startBitOffset bitLength : Nat) : Option BitsRead :=
  if 32 < bitLength then some ⟨0, stream, []⟩
  else
    let showStartPos := (stream.bitPosition + startBitOffset) &&& 0x7
    let shiftStartAddress := stream.pStartAddress + (startBitOffset + stream.bitPosition) >>> 3
    (shiftRight (stream.window memory shiftStartAddress showStartPos) (32 - bitLength)).map
      fun result => ⟨result, stream, shiftStartAddress :: stream.nextAddresses shiftStartAddress⟩

def ringSize : Nat := stream.pBufferEndAddr - stream.pBufferStartAddr

/-- Bit `n` of the ring, the most significant bit of a byte first. -/
def ringBit (n : Nat) : Bool :=
  (memory (stream.pBufferStartAddr + n / 8 % stream.ringSize)).getLsbD (7 - n % 8)

def position : Nat := 8 * (stream.pStartAddress - stream.pBufferStartAddr) + stream.bitPosition

structure InRing : Prop where
  start : stream.pBufferStartAddr ≤ stream.pStartAddress
  end_ : stream.pStartAddress < stream.pBufferEndAddr
  position : stream.bitPosition < 8

/-- The last `bitLength` bits of `value` are these, and no other bits are set. -/
def Spells (value : BitVec 32) (bitLength : Nat) (bits : Nat → Bool) : Prop :=
  ∀ i < 32, value.getLsbD i = (decide (i < bitLength) && bits (bitLength - 1 - i))

structure ReadsBits (bitLength : Nat) (read : BitsRead) : Prop where
  result : Spells read.result bitLength fun i => stream.ringBit memory (stream.position + i)
  inRing : read.stream.InRing
  ring :
    read.stream.pBufferStartAddr = stream.pBufferStartAddr ∧
      read.stream.pBufferEndAddr = stream.pBufferEndAddr
  position : read.stream.position = (stream.position + bitLength) % (8 * stream.ringSize)
  left :
    8 * read.stream.remainByte - read.stream.bitPosition =
      8 * stream.remainByte - stream.bitPosition - bitLength
  touched : ∀ address ∈ read.touched,
    stream.pBufferStartAddr ≤ address ∧ address < stream.pBufferEndAddr
  shown : ∃ shown, stream.showBits memory 0 bitLength = some shown ∧
    shown.result = read.result ∧ shown.stream = stream ∧
      stream.skipBits bitLength = read.stream ∧
        ∀ address ∈ shown.touched,
          stream.pBufferStartAddr ≤ address ∧ address < stream.pBufferEndAddr

/-! ## Four more bytes before the end -/

theorem getLsbD_byte (byte : BitVec 8) {j m : Nat} (inside : m < 32) :
    (byte.zeroExtend 32 <<< j).getLsbD m =
      (decide (j ≤ m ∧ m < j + 8) && byte.getLsbD (m - j)) := by
  rw [BitVec.getLsbD_shiftLeft, BitVec.zeroExtend, BitVec.getLsbD_setWidth]
  by_cases below : m < j
  · have not_ : ¬ (j ≤ m ∧ m < j + 8) := by omega
    simp [below, not_]
  · by_cases high : m < j + 8
    · have both : j ≤ m ∧ m < j + 8 := by omega
      have small : m - j < 32 := by omega
      simp [below, both, inside, small]
    · have beyond : byte.getLsbD (m - j) = false := BitVec.getLsbD_of_ge _ _ (by omega)
      simp [beyond]

variable {memory stream}

theorem nextAddresses_of_wide {start : Nat} (wide : start + 5 ≤ stream.pBufferEndAddr) :
    stream.nextAddresses start = [start + 1, start + 2, start + 3, start + 4] := by
  have four : min (stream.pBufferEndAddr - start) 4 = 4 := by omega
  rw [nextAddresses, four]
  rfl

theorem getLsbD_orBytes (start : Nat) {m : Nat} (inside : m < 32) :
    (orBytes memory [start + 1, start + 2, start + 3, start + 4] 24 0#32).getLsbD m =
      (memory (start + 1 + (31 - m) / 8)).getLsbD (m % 8) := by
  simp only [orBytes, BitVec.getLsbD_or, getLsbD_byte _ inside, BitVec.getLsbD_zero, Bool.false_or]
  have places : m / 8 = 3 ∨ m / 8 = 2 ∨ m / 8 = 1 ∨ m / 8 = 0 := by omega
  rcases places with place | place | place | place
  · have offset : (31 - m) / 8 = 0 := by omega
    have bit : m - 24 = m % 8 := by omega
    have first : 24 ≤ m ∧ m < 24 + 8 := by omega
    have second : ¬ m < 24 := by omega
    have third : ¬ m < 16 := by omega
    have fourth : ¬ m < 8 := by omega
    simp [offset, bit, first, second, third, fourth]
  · have offset : (31 - m) / 8 = 1 := by omega
    have bit : m - 16 = m % 8 := by omega
    have first : ¬ 24 ≤ m := by omega
    have second : 16 ≤ m ∧ m < 24 := by omega
    have third : ¬ m < 16 := by omega
    have fourth : ¬ m < 8 := by omega
    simp [offset, bit, first, second, third, fourth]
  · have offset : (31 - m) / 8 = 2 := by omega
    have bit : m - 8 = m % 8 := by omega
    have first : ¬ 24 ≤ m := by omega
    have second : ¬ 16 ≤ m := by omega
    have third : 8 ≤ m ∧ m < 16 := by omega
    have fourth : ¬ m < 8 := by omega
    simp [offset, bit, first, second, third, fourth]
  · have offset : (31 - m) / 8 = 3 := by omega
    have bit : m = m % 8 := by omega
    have first : ¬ 24 ≤ m := by omega
    have second : ¬ 16 ≤ m := by omega
    have third : ¬ 8 ≤ m := by omega
    have fourth : m < 8 := by omega
    rw [← bit]
    simp [offset, first, second, third, fourth]

theorem getLsbD_window {start position m : Nat} (wide : start + 5 ≤ stream.pBufferEndAddr)
    (within : position < 8) (inside : m < 32) :
    (stream.window memory start position).getLsbD m =
      (memory (start + (position + 31 - m) / 8)).getLsbD (7 - (position + 31 - m) % 8) := by
  rw [window, nextAddresses_of_wide wide]
  rw [BitVec.getLsbD_or, getLsbD_byte _ inside, BitVec.getLsbD_ushiftRight]
  by_cases first : 24 + position ≤ m
  · have byte : (position + 31 - m) / 8 = 0 := by omega
    have bit : 7 - (position + 31 - m) % 8 = m - (24 + position) := by omega
    have high : m < 24 + position + 8 := by omega
    have beyond :
        (orBytes memory [start + 1, start + 2, start + 3, start + 4] 24 0#32).getLsbD
          (8 - position + m) = false := BitVec.getLsbD_of_ge _ _ (by omega)
    simp [first, high, beyond, byte, bit]
  · have later : 8 - position + m < 32 := by omega
    have byte :
        start + 1 + (31 - (8 - position + m)) / 8 = start + (position + 31 - m) / 8 := by omega
    have bit : (8 - position + m) % 8 = 7 - (position + 31 - m) % 8 := by omega
    have low : ¬ 24 + position ≤ m := first
    rw [getLsbD_orBytes start later, byte, bit]
    simp [low]

variable {bitLength : Nat}

theorem getBits_of_pos (memory : Nat → BitVec 8) (stream : BitStream)
    (positive : 1 ≤ bitLength) (short : bitLength ≤ 32) :
    stream.getBits memory bitLength =
      some
        ⟨stream.window memory stream.pStartAddress stream.bitPosition >>> (32 - bitLength),
          stream.skipBits bitLength,
          stream.pStartAddress :: stream.nextAddresses stream.pStartAddress⟩ := by
  have within : 32 - bitLength < 32 := by omega
  rw [getBits, if_neg (Nat.not_lt.mpr short)]
  simp only [shiftRight, if_pos within, Option.map_some]

theorem showBits_of_pos (memory : Nat → BitVec 8) (within : stream.bitPosition < 8)
    (positive : 1 ≤ bitLength) (short : bitLength ≤ 32) :
    stream.showBits memory 0 bitLength =
      some
        ⟨stream.window memory stream.pStartAddress stream.bitPosition >>> (32 - bitLength),
          stream,
          stream.pStartAddress :: stream.nextAddresses stream.pStartAddress⟩ := by
  have small : 32 - bitLength < 32 := by omega
  have place : (stream.bitPosition + 0) &&& 0x7 = stream.bitPosition := by
    rw [and_seven]
    omega
  have address :
      stream.pStartAddress + (0 + stream.bitPosition) >>> 3 = stream.pStartAddress := by
    rw [shiftRight_three]
    omega
  rw [showBits, if_neg (Nat.not_lt.mpr short)]
  simp only [place, address, shiftRight, if_pos small, Option.map_some]

theorem spells_window {start position : Nat} (wide : start + 5 ≤ stream.pBufferEndAddr)
    (within : position < 8) (short : bitLength ≤ 32) :
    Spells (stream.window memory start position >>> (32 - bitLength)) bitLength fun i =>
      (memory (start + (position + i) / 8)).getLsbD (7 - (position + i) % 8) := by
  intro i inside
  rw [BitVec.getLsbD_ushiftRight]
  by_cases low : i < bitLength
  · have place : position + 31 - (32 - bitLength + i) = position + (bitLength - 1 - i) := by omega
    rw [getLsbD_window wide within (by omega), place, decide_eq_true low, Bool.true_and]
  · have beyond : 32 ≤ 32 - bitLength + i := by omega
    rw [BitVec.getLsbD_of_ge _ _ beyond, decide_eq_false low, Bool.false_and]

theorem Spells.unique {left right : BitVec 32} {bits : Nat → Bool}
    (first : Spells left bitLength bits) (second : Spells right bitLength bits) :
    left = right :=
  BitVec.eq_of_getLsbD_eq fun i inside => (first i inside).trans (second i inside).symm

theorem getBits_eq {value : BitVec 32} {start position : Nat}
    (starts : stream.pStartAddress = start) (stands : stream.bitPosition = position)
    (within : position < 8) (positive : 1 ≤ bitLength) (short : bitLength ≤ 32)
    (wide : start + 5 ≤ stream.pBufferEndAddr)
    (spells : Spells value bitLength fun i =>
      (memory (start + (position + i) / 8)).getLsbD (7 - (position + i) % 8)) :
    stream.getBits memory bitLength =
      some ⟨value, stream.skipBits bitLength, start :: stream.nextAddresses start⟩ := by
  rw [getBits_of_pos memory stream positive short, starts, stands,
    (spells_window wide within short).unique spells]

theorem touched_of_wide {address : Nat} (inRing : stream.InRing)
    (wide : stream.pStartAddress + 5 ≤ stream.pBufferEndAddr)
    (read : address ∈ stream.pStartAddress :: stream.nextAddresses stream.pStartAddress) :
    stream.pBufferStartAddr ≤ address ∧ address < stream.pBufferEndAddr := by
  have start := inRing.start
  rw [nextAddresses_of_wide wide] at read
  simp only [List.mem_cons, List.not_mem_nil, or_false] at read
  omega

theorem skipBits_of_wide (short : bitLength ≤ 32) (position : stream.bitPosition < 8)
    (wide : stream.pStartAddress + 5 ≤ stream.pBufferEndAddr) :
    stream.skipBits bitLength =
      { stream with
        bitPosition := (bitLength + stream.bitPosition) % 8
        pStartAddress := stream.pStartAddress + (bitLength + stream.bitPosition) / 8
        remainByte := stream.remainByte - ((bitLength + stream.bitPosition) / 8 : Nat) } := by
  have before :
      ¬ stream.pBufferEndAddr ≤ stream.pStartAddress + (bitLength + stream.bitPosition) / 8 := by
    omega
  rw [skipBits]
  simp only [and_seven, shiftRight_three]
  rw [if_neg before]

theorem readsBits_of_wide (inRing : stream.InRing) (short : bitLength ≤ 32)
    (wide : stream.pStartAddress + 5 ≤ stream.pBufferEndAddr) (positive : 1 ≤ bitLength) :
    stream.ReadsBits memory bitLength
      ⟨stream.window memory stream.pStartAddress stream.bitPosition >>> (32 - bitLength),
        stream.skipBits bitLength,
        stream.pStartAddress :: stream.nextAddresses stream.pStartAddress⟩ := by
  have start := inRing.start
  have position := inRing.position
  refine
    { result := ?_
      inRing := ?_
      ring := ⟨rfl, rfl⟩
      position := ?_
      left := ?_
      touched := fun address => touched_of_wide inRing wide
      shown :=
        ⟨_, showBits_of_pos memory position positive short, rfl, rfl, rfl,
          fun address => touched_of_wide inRing wide⟩ }
  · intro i inside
    rw [spells_window wide position short i inside]
    by_cases low : i < bitLength
    · have byte :
          (stream.position + (bitLength - 1 - i)) / 8 % stream.ringSize =
            stream.pStartAddress - stream.pBufferStartAddr +
              (stream.bitPosition + (bitLength - 1 - i)) / 8 := by
        rw [BitStream.position, ringSize, Nat.mod_eq_of_lt (by omega)]
        omega
      have bit :
          (stream.position + (bitLength - 1 - i)) % 8 =
            (stream.bitPosition + (bitLength - 1 - i)) % 8 := by
        rw [BitStream.position]
        omega
      have address :
          stream.pBufferStartAddr +
              (stream.pStartAddress - stream.pBufferStartAddr +
                (stream.bitPosition + (bitLength - 1 - i)) / 8) =
            stream.pStartAddress + (stream.bitPosition + (bitLength - 1 - i)) / 8 := by
        omega
      simp only [ringBit, byte, bit, address]
    · rw [decide_eq_false low, Bool.false_and, Bool.false_and]
  · rw [skipBits_of_wide short position wide]
    exact
      { start := Nat.le_trans start (Nat.le_add_right _ _)
        end_ := by
          show stream.pStartAddress + (bitLength + stream.bitPosition) / 8 < stream.pBufferEndAddr
          omega
        position := Nat.mod_lt _ (by omega) }
  · have within :
        stream.position + bitLength < 8 * (stream.pBufferEndAddr - stream.pBufferStartAddr) := by
      rw [BitStream.position]
      omega
    rw [skipBits_of_wide short position wide, ringSize, Nat.mod_eq_of_lt within,
      BitStream.position, BitStream.position]
    dsimp only
    omega
  · rw [skipBits_of_wide short position wide]
    dsimp only
    omega

/-- The bits are read as they should be if and only if at least one bit is asked for and
four bytes follow the current one before the end of the ring. -/
theorem getBits_iff (memory : Nat → BitVec 8) (inRing : stream.InRing)
    (short : bitLength ≤ 32) :
    (∃ read, stream.getBits memory bitLength = some read ∧
        stream.ReadsBits memory bitLength read) ↔
      1 ≤ bitLength ∧ stream.pStartAddress + 5 ≤ stream.pBufferEndAddr := by
  constructor
  · rintro ⟨read, got, right⟩
    have positive : 1 ≤ bitLength := by
      by_contra none_
      obtain rfl : bitLength = 0 := by omega
      cases got
    rw [getBits_of_pos memory stream positive short] at got
    obtain rfl := Option.some.inj got
    refine ⟨positive, ?_⟩
    by_contra narrow
    have inside := inRing.end_
    have behind :
        stream.pBufferEndAddr ∈
          stream.pStartAddress :: stream.nextAddresses stream.pStartAddress := by
      apply List.mem_cons_of_mem
      apply List.mem_append_left
      refine List.mem_map.mpr
        ⟨stream.pBufferEndAddr - stream.pStartAddress, List.mem_range'_1.mpr ?_, ?_⟩
      · omega
      · omega
    exact Nat.lt_irrefl _ (right.touched _ behind).2
  · rintro ⟨positive, wide⟩
    exact ⟨_, getBits_of_pos memory stream positive short,
      readsBits_of_wide inRing short wide positive⟩

theorem getBits_iff_eight :
    (∃ read,
        getBits (fun _ => 0x5A#8) ⟨3, 1002, 6, 1000, 1008⟩ 8 = some read ∧
          ReadsBits (fun _ => 0x5A#8) ⟨3, 1002, 6, 1000, 1008⟩ 8 read) ↔
      1 ≤ 8 ∧ 1002 + 5 ≤ 1008 :=
  getBits_iff (fun _ => 0x5A#8) ⟨by decide, by decide, by decide⟩ (by decide)

/-- Three bytes before the end of the ring, the byte behind the ring is read. -/
theorem getBits_behind :
    ¬ ∃ read,
      getBits (fun _ => 0x5A#8) ⟨0, 1005, 8, 1000, 1008⟩ 32 = some read ∧
        ReadsBits (fun _ => 0x5A#8) ⟨0, 1005, 8, 1000, 1008⟩ 32 read := by
  rintro ⟨read, got, right⟩
  obtain rfl := Option.some.inj got
  have behind := (right.touched 1008 (by decide)).2
  exact absurd behind (by decide)

end BitStream

end IteSdk.TsDemuxer
