import IteSdk.TsDemuxer.BitStreamKit
import Mathlib.Data.List.Basic

/-!
# The local time offset descriptor

`psiDescriptor_DecodeLocalTimeOffsetDescriptor` of `psi_descriptor_0x58.c`, and the
entries that EN 300 468 has in such a descriptor.
-/

namespace IteSdk.TsDemuxer

open BitStream

def LOCAL_TIME_OFFSET_DESCRIPTOR_TAG : Nat := 0x58
def MAX_LOCAL_TIME_OFFSET_COUNT : Nat := 5
def BYTES_OF_LOCAL_TIME_OFFSET : Nat := 13

/-- The end of a buffer that `BitStreamKit_Init` assumes, above all memory. -/
def LAST_ADDRESS : Nat := 0x7FFFFFFF

/-- `PSI_DESCRIPTOR`, with its payload in memory. -/
structure LocalTimeDescriptor where
  descriptorTag : Nat
  descriptorLength : Nat
  pPayload : Nat
  inMemory : pPayload + descriptorLength ≤ LAST_ADDRESS

structure PsiLocalTimeOffset where
  countryCode : BitVec 8 × BitVec 8 × BitVec 8
  localTimeOffsetPolarity : BitVec 32
  localTimeOffset : BitVec 32
  deriving DecidableEq

variable (memory : Nat → BitVec 8)

def decodeEntry (stream : BitStream) : Option (PsiLocalTimeOffset × BitStream) := do
  let first ← stream.getBits memory 8
  let second ← first.stream.getBits memory 8
  let third ← second.stream.getBits memory 8
  let polarity ← (third.stream.skipBits 7).getBits memory 1
  let offset ← polarity.stream.getBits memory 16
  some
    (⟨(first.result.setWidth 8, second.result.setWidth 8, third.result.setWidth 8),
        polarity.result, offset.result⟩,
      offset.stream)

/-- The loop, with room for `room` more entries. -/
def decodeEntries (pEnd : Nat) : Nat → BitStream → Option (List PsiLocalTimeOffset)
  | 0, _ => some []
  | room + 1, stream =>
    if stream.pStartAddress + BYTES_OF_LOCAL_TIME_OFFSET ≤ pEnd then do
      let (entry, after) ← decodeEntry memory stream
      let rest ← decodeEntries pEnd room after
      some (entry :: rest)
    else some []

/-- The decoded entries; `granted` tells whether there is memory for them. -/
def decodeLocalTimeOffsetDescriptor (granted : Bool) (descriptor : LocalTimeDescriptor) :
    Option (List PsiLocalTimeOffset) :=
  if descriptor.descriptorTag ≠ LOCAL_TIME_OFFSET_DESCRIPTOR_TAG then none
  else if granted then
    decodeEntries memory (descriptor.pPayload + descriptor.descriptorLength)
      MAX_LOCAL_TIME_OFFSET_COUNT ⟨0, descriptor.pPayload, 0, 0, LAST_ADDRESS⟩
  else none

structure LocalTimeEntry where
  countryCode : BitVec 8 × BitVec 8 × BitVec 8
  countryRegionId : BitVec 6
  reserved : BitVec 1
  localTimeOffsetPolarity : BitVec 1
  localTimeOffset : BitVec 16
  timeOfChange : BitVec 40
  nextTimeOffset : BitVec 16

namespace LocalTimeEntry

variable (entry : LocalTimeEntry)

def encode : List (BitVec 8) :=
  [entry.countryCode.1, entry.countryCode.2.1, entry.countryCode.2.2,
    entry.countryRegionId ++ entry.reserved ++ entry.localTimeOffsetPolarity,
    entry.localTimeOffset.extractLsb' 8 8, entry.localTimeOffset.extractLsb' 0 8,
    entry.timeOfChange.extractLsb' 32 8, entry.timeOfChange.extractLsb' 24 8,
    entry.timeOfChange.extractLsb' 16 8, entry.timeOfChange.extractLsb' 8 8,
    entry.timeOfChange.extractLsb' 0 8,
    entry.nextTimeOffset.extractLsb' 8 8, entry.nextTimeOffset.extractLsb' 0 8]

def decoded : PsiLocalTimeOffset :=
  ⟨entry.countryCode, entry.localTimeOffsetPolarity.setWidth 32, entry.localTimeOffset.setWidth 32⟩

end LocalTimeEntry

structure HoldsEntries (descriptor : LocalTimeDescriptor) (entries : List LocalTimeEntry) :
    Prop where
  tag : descriptor.descriptorTag = LOCAL_TIME_OFFSET_DESCRIPTOR_TAG
  length : descriptor.descriptorLength = BYTES_OF_LOCAL_TIME_OFFSET * entries.length
  bytes : ∀ k (inside : k < entries.length) (i : Nat),
    i < BYTES_OF_LOCAL_TIME_OFFSET →
      memory (descriptor.pPayload + BYTES_OF_LOCAL_TIME_OFFSET * k + i) =
        (entries[k].encode).getD i 0

/-! ## Whole bytes -/

def fieldsAt (address : Nat) : PsiLocalTimeOffset :=
  ⟨(memory address, memory (address + 1), memory (address + 2)),
    (BitVec.ofBool ((memory (address + 3)).getLsbD 0)).setWidth 32,
    (memory (address + 4) ++ memory (address + 5)).setWidth 32⟩

variable {memory} {stream : BitStream}

theorem spells_byte (address : Nat) :
    Spells ((memory address).setWidth 32) 8 fun i =>
      (memory (address + (0 + i) / 8)).getLsbD (7 - (0 + i) % 8) := by
  intro i inside
  rw [BitVec.getLsbD_setWidth, decide_eq_true inside, Bool.true_and]
  by_cases low : i < 8
  · have same : (0 + (8 - 1 - i)) / 8 = 0 := by omega
    have bit : 7 - (0 + (8 - 1 - i)) % 8 = i := by omega
    simp only [same, bit, low, decide_true, Bool.true_and, Nat.add_zero]
  · rw [BitVec.getLsbD_of_ge _ _ (by omega), decide_eq_false low, Bool.false_and]

theorem spells_last_bit (address : Nat) :
    Spells ((BitVec.ofBool ((memory address).getLsbD 0)).setWidth 32) 1 fun i =>
      (memory (address + (7 + i) / 8)).getLsbD (7 - (7 + i) % 8) := by
  intro i inside
  rw [BitVec.getLsbD_setWidth, decide_eq_true inside, Bool.true_and]
  by_cases low : i < 1
  · obtain rfl : i = 0 := by omega
    simp
  · rw [BitVec.getLsbD_of_ge _ _ (by omega), decide_eq_false low, Bool.false_and]

theorem spells_two_bytes (address : Nat) :
    Spells ((memory address ++ memory (address + 1)).setWidth 32) 16 fun i =>
      (memory (address + (0 + i) / 8)).getLsbD (7 - (0 + i) % 8) := by
  intro i inside
  rw [BitVec.getLsbD_setWidth, decide_eq_true inside, Bool.true_and, BitVec.getLsbD_append]
  by_cases low : i < 8
  · have byte : (0 + (16 - 1 - i)) / 8 = 1 := by omega
    have bit : 7 - (0 + (16 - 1 - i)) % 8 = i := by omega
    have within : i < 16 := by omega
    simp only [byte, bit, low, within, decide_true, Bool.true_and, if_true]
  · by_cases high : i < 16
    · have byte : (0 + (16 - 1 - i)) / 8 = 0 := by omega
      have bit : 7 - (0 + (16 - 1 - i)) % 8 = i - 8 := by omega
      simp only [byte, bit, low, high, decide_true, Bool.true_and, if_false, Nat.add_zero]
    · rw [if_neg low, BitVec.getLsbD_of_ge _ _ (by omega), decide_eq_false high, Bool.false_and]

variable {start : Nat}

section

variable (starts : stream.pStartAddress = start)

include starts

theorem getBits_byte (stands : stream.bitPosition = 0) (wide : start + 5 ≤ stream.pBufferEndAddr) :
    stream.getBits memory 8 =
      some
        ⟨(memory start).setWidth 32,
          { stream with
            bitPosition := 0
            pStartAddress := start + 1
            remainByte := stream.remainByte - 1 },
          start :: stream.nextAddresses start⟩ := by
  rw [getBits_eq starts stands (by decide) (by decide) (by decide) wide
      (spells_byte start),
    skipBits_of_wide (by decide) (by omega) (by omega), starts, stands]
  rfl

theorem getBits_last_bit (stands : stream.bitPosition = 7)
    (wide : start + 5 ≤ stream.pBufferEndAddr) :
    stream.getBits memory 1 =
      some
        ⟨(BitVec.ofBool ((memory start).getLsbD 0)).setWidth 32,
          { stream with
            bitPosition := 0
            pStartAddress := start + 1
            remainByte := stream.remainByte - 1 },
          start :: stream.nextAddresses start⟩ := by
  rw [getBits_eq starts stands (by decide) (by decide) (by decide) wide
      (spells_last_bit start),
    skipBits_of_wide (by decide) (by omega) (by omega), starts, stands]
  rfl

theorem getBits_two_bytes (stands : stream.bitPosition = 0)
    (wide : start + 5 ≤ stream.pBufferEndAddr) :
    stream.getBits memory 16 =
      some
        ⟨(memory start ++ memory (start + 1)).setWidth 32,
          { stream with
            bitPosition := 0
            pStartAddress := start + 2
            remainByte := stream.remainByte - 2 },
          start :: stream.nextAddresses start⟩ := by
  rw [getBits_eq starts stands (by decide) (by decide) (by decide) wide
      (spells_two_bytes start),
    skipBits_of_wide (by decide) (by omega) (by omega), starts, stands]
  rfl

theorem skipBits_seven (stands : stream.bitPosition = 0)
    (wide : start + 5 ≤ stream.pBufferEndAddr) :
    stream.skipBits 7 = { stream with bitPosition := 7 } := by
  rw [skipBits_of_wide (by decide) (by omega) (by omega), stands]
  simp

/-- An entry that begins with a byte takes the fields of six bytes, and the stream
goes on after these. -/
theorem decodeEntry_whole (whole : stream.bitPosition = 0)
    (wide : start + 10 ≤ stream.pBufferEndAddr) :
    ∃ after,
      decodeEntry memory stream = some (fieldsAt memory start, after) ∧
        after.bitPosition = 0 ∧ after.pStartAddress = start + 6 ∧
          after.pBufferEndAddr = stream.pBufferEndAddr := by
  rw [decodeEntry, getBits_byte starts whole (by omega)]
  simp only [Option.bind_eq_bind, Option.bind_some]
  rw [getBits_byte rfl rfl (by dsimp only; omega)]
  simp only [Option.bind_some]
  rw [getBits_byte rfl rfl (by dsimp only; omega)]
  simp only [Option.bind_some]
  rw [skipBits_seven rfl rfl (by dsimp only; omega),
    getBits_last_bit rfl rfl (by dsimp only; omega)]
  simp only [Option.bind_some]
  rw [getBits_two_bytes rfl rfl (by dsimp only; omega)]
  refine
    ⟨{ stream with
        bitPosition := 0
        pStartAddress := start + 6
        remainByte := stream.remainByte - 1 - 1 - 1 - 1 - 2 }, ?_, rfl, rfl, rfl⟩
  simp [fieldsAt, Nat.add_assoc]

end

theorem decodeEntries_whole {pEnd : Nat} (room : Nat) :
    ∀ {stream : BitStream} {start : Nat}, stream.pStartAddress = start →
      stream.bitPosition = 0 → pEnd ≤ stream.pBufferEndAddr →
        decodeEntries memory pEnd room stream =
          some
            ((List.range (min room ((pEnd - start - 7) / 6))).map fun k =>
              fieldsAt memory (start + 6 * k)) := by
  induction room with
  | zero =>
    intro stream start starts whole inMemory
    rw [decodeEntries, Nat.zero_min]
    rfl
  | succ room ih =>
    intro stream start starts whole inMemory
    rw [decodeEntries, starts, BYTES_OF_LOCAL_TIME_OFFSET]
    by_cases long : start + 13 ≤ pEnd
    · obtain ⟨after, decoded, afterWhole, afterStarts, afterEnd⟩ :=
        @decodeEntry_whole memory _ _ starts whole (by omega)
      have count :
          min (room + 1) ((pEnd - start - 7) / 6) =
            min room ((pEnd - (start + 6) - 7) / 6) + 1 := by
        omega
      have rest := ih afterStarts afterWhole (afterEnd ▸ inMemory)
      rw [if_pos long, decoded]
      simp only [Option.bind_eq_bind, Option.bind_some, rest]
      rw [count, List.range_succ_eq_map, List.map_cons, List.map_map]
      simp only [Function.comp_def, Nat.mul_zero, Nat.add_zero, Nat.mul_succ,
        Nat.add_assoc, Nat.add_comm 6]
    · have none_ : (pEnd - start - 7) / 6 = 0 := by omega
      rw [if_neg long, none_, Nat.min_zero]
      rfl

theorem append_extract (value : BitVec 16) :
    value.extractLsb' 8 8 ++ value.extractLsb' 0 8 = value :=
  (BitVec.extractLsb'_append_extractLsb'_eq_extractLsb' rfl).trans BitVec.extractLsb'_eq_self

theorem ofBool_last_bit {w : Nat} (high : BitVec w) (last : BitVec 1) :
    BitVec.ofBool ((high ++ last).getLsbD 0) = last := by
  rw [BitVec.getLsbD_append, if_pos (by decide)]
  apply BitVec.eq_of_getLsbD_eq
  intro i inside
  obtain rfl : i = 0 := by omega
  simp

variable {descriptor : LocalTimeDescriptor} {entries : List LocalTimeEntry}

theorem HoldsEntries.fieldsAt (holds : HoldsEntries memory descriptor entries) {k : Nat}
    (inside : k < entries.length) :
    fieldsAt memory (descriptor.pPayload + BYTES_OF_LOCAL_TIME_OFFSET * k) =
      entries[k].decoded := by
  have byte (i : Nat) (within : i < BYTES_OF_LOCAL_TIME_OFFSET) := holds.bytes k inside i within
  have first := byte 0 (by decide)
  rw [Nat.add_zero] at first
  rw [TsDemuxer.fieldsAt, first, byte 1 (by decide), byte 2 (by decide),
    byte 3 (by decide), byte 4 (by decide), byte 5 (by decide)]
  simp only [LocalTimeEntry.encode, LocalTimeEntry.decoded, List.getD_cons_zero,
    List.getD_cons_succ, append_extract, ofBool_last_bit]

theorem decodeLocalTimeOffsetDescriptor_eq (holds : HoldsEntries memory descriptor entries) :
    decodeLocalTimeOffsetDescriptor memory true descriptor =
      some
        ((List.range (min 5 ((13 * entries.length - 7) / 6))).map fun k =>
          fieldsAt memory (descriptor.pPayload + 6 * k)) := by
  have length := holds.length
  have count :
      descriptor.pPayload + descriptor.descriptorLength - descriptor.pPayload - 7 =
        13 * entries.length - 7 := by
    rw [length, BYTES_OF_LOCAL_TIME_OFFSET]
    omega
  have tag : ¬ descriptor.descriptorTag ≠ LOCAL_TIME_OFFSET_DESCRIPTOR_TAG := not_not.mpr holds.tag
  rw [decodeLocalTimeOffsetDescriptor, if_neg tag, if_pos rfl,
    decodeEntries_whole _ rfl rfl descriptor.inMemory, count, MAX_LOCAL_TIME_OFFSET_COUNT]

/-- The entries are decoded as they were encoded if and only if there is at most one, or
there are five and every six bytes from the start on carry the fields of the entry with
the same number. -/
theorem decodeLocalTimeOffsetDescriptor_iff
    (holds : HoldsEntries memory descriptor entries)
    (few : entries.length ≤ MAX_LOCAL_TIME_OFFSET_COUNT) :
    decodeLocalTimeOffsetDescriptor memory true descriptor =
        some (entries.map LocalTimeEntry.decoded) ↔
      entries.length ≤ 1 ∨
        entries.length = MAX_LOCAL_TIME_OFFSET_COUNT ∧
          ∀ k < MAX_LOCAL_TIME_OFFSET_COUNT,
            fieldsAt memory (descriptor.pPayload + 6 * k) =
              fieldsAt memory (descriptor.pPayload + BYTES_OF_LOCAL_TIME_OFFSET * k) := by
  have wanted :
      entries.map LocalTimeEntry.decoded =
        (List.range entries.length).map fun k =>
          fieldsAt memory (descriptor.pPayload + BYTES_OF_LOCAL_TIME_OFFSET * k) := by
    apply List.ext_getElem
    · rw [List.length_map, List.length_map, List.length_range]
    · intro k here there
      rw [List.length_map] at here
      rw [List.getElem_map, List.getElem_map, List.getElem_range, holds.fieldsAt here]
  rw [decodeLocalTimeOffsetDescriptor_eq holds, wanted]
  rw [MAX_LOCAL_TIME_OFFSET_COUNT] at few ⊢
  constructor
  · intro same
    have lists := Option.some.inj same
    have lengths := congrArg List.length lists
    rw [List.length_map, List.length_map, List.length_range, List.length_range] at lengths
    by_cases single : entries.length ≤ 1
    · exact Or.inl single
    · have five : entries.length = 5 := by omega
      refine Or.inr ⟨five, fun k inside => ?_⟩
      rw [five] at lists
      exact List.map_inj_left.mp lists k (List.mem_range.mpr inside)
  · rintro (single | ⟨five, same⟩)
    · have counts : entries.length = 0 ∨ entries.length = 1 := by omega
      rcases counts with none_ | one
      · rw [none_]
        rfl
      · rw [one]
        rfl
    · rw [five]
      congr 1
      exact List.map_inj_left.mpr fun k inside => same k (List.mem_range.mp inside)

def offsetEntry (localTimeOffset : BitVec 16) : LocalTimeEntry :=
  ⟨(0x47#8, 0x42#8, 0x52#8), 0, 1, 0, localTimeOffset, 0xC07912BA00#40, 0x0200#16⟩

def offsetBytes (entries : List LocalTimeEntry) (address : Nat) : BitVec 8 :=
  (entries.flatMap LocalTimeEntry.encode).getD (address - 4096) 0

def offsetDescriptor (length : Fin 256) : LocalTimeDescriptor :=
  ⟨LOCAL_TIME_OFFSET_DESCRIPTOR_TAG, length, 4096, by
    rw [LAST_ADDRESS]
    omega⟩

theorem decodeLocalTimeOffsetDescriptor_iff_one :
    decodeLocalTimeOffsetDescriptor (offsetBytes [offsetEntry 0x0100#16]) true
        (offsetDescriptor 13) =
        some ([offsetEntry 0x0100#16].map LocalTimeEntry.decoded) ↔
      [offsetEntry 0x0100#16].length ≤ 1 ∨
        [offsetEntry 0x0100#16].length = MAX_LOCAL_TIME_OFFSET_COUNT ∧
          ∀ k < MAX_LOCAL_TIME_OFFSET_COUNT,
            fieldsAt (offsetBytes [offsetEntry 0x0100#16])
                ((offsetDescriptor 13).pPayload + 6 * k) =
              fieldsAt (offsetBytes [offsetEntry 0x0100#16])
                ((offsetDescriptor 13).pPayload + BYTES_OF_LOCAL_TIME_OFFSET * k) := by
  have holds :
      HoldsEntries (offsetBytes [offsetEntry 0x0100#16]) (offsetDescriptor 13)
        [offsetEntry 0x0100#16] :=
    ⟨rfl, rfl, by decide⟩
  exact decodeLocalTimeOffsetDescriptor_iff holds (by decide)

/-- Two entries come out as three. -/
theorem decodeLocalTimeOffsetDescriptor_two :
    HoldsEntries (offsetBytes [offsetEntry 0x0100#16, offsetEntry 0x0200#16])
        (offsetDescriptor 26) [offsetEntry 0x0100#16, offsetEntry 0x0200#16] ∧
      decodeLocalTimeOffsetDescriptor
          (offsetBytes [offsetEntry 0x0100#16, offsetEntry 0x0200#16]) true
          (offsetDescriptor 26) ≠
        some ([offsetEntry 0x0100#16, offsetEntry 0x0200#16].map LocalTimeEntry.decoded) := by
  have holds :
      HoldsEntries (offsetBytes [offsetEntry 0x0100#16, offsetEntry 0x0200#16])
        (offsetDescriptor 26) [offsetEntry 0x0100#16, offsetEntry 0x0200#16] :=
    ⟨rfl, rfl, by decide⟩
  refine ⟨holds, ?_⟩
  rw [decodeLocalTimeOffsetDescriptor_eq holds]
  intro same
  have lengths := congrArg List.length (Option.some.inj same)
  rw [List.length_map, List.length_map, List.length_range] at lengths
  exact absurd lengths (by decide)

end IteSdk.TsDemuxer
