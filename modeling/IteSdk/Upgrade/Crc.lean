import IteSdk.Itc.Stream
import IteSdk.Lib.XorRegister

/-!
# The checksum of an upgrade package

`ug_crc.c`.  The checksum is shifted as a signed integer, so the step is not
that of the textbook CRC-32 with the same table.
-/

namespace IteSdk.Upgrade

section

open Itc
open Lib

def crc32Tab : List (BitVec 32) :=
  [0x00000000, 0x77073096, 0xee0e612c, 0x990951ba, 0x076dc419, 0x706af48f,
    0xe963a535, 0x9e6495a3, 0x0edb8832, 0x79dcb8a4, 0xe0d5e91e, 0x97d2d988,
    0x09b64c2b, 0x7eb17cbd, 0xe7b82d07, 0x90bf1d91, 0x1db71064, 0x6ab020f2,
    0xf3b97148, 0x84be41de, 0x1adad47d, 0x6ddde4eb, 0xf4d4b551, 0x83d385c7,
    0x136c9856, 0x646ba8c0, 0xfd62f97a, 0x8a65c9ec, 0x14015c4f, 0x63066cd9,
    0xfa0f3d63, 0x8d080df5, 0x3b6e20c8, 0x4c69105e, 0xd56041e4, 0xa2677172,
    0x3c03e4d1, 0x4b04d447, 0xd20d85fd, 0xa50ab56b, 0x35b5a8fa, 0x42b2986c,
    0xdbbbc9d6, 0xacbcf940, 0x32d86ce3, 0x45df5c75, 0xdcd60dcf, 0xabd13d59,
    0x26d930ac, 0x51de003a, 0xc8d75180, 0xbfd06116, 0x21b4f4b5, 0x56b3c423,
    0xcfba9599, 0xb8bda50f, 0x2802b89e, 0x5f058808, 0xc60cd9b2, 0xb10be924,
    0x2f6f7c87, 0x58684c11, 0xc1611dab, 0xb6662d3d, 0x76dc4190, 0x01db7106,
    0x98d220bc, 0xefd5102a, 0x71b18589, 0x06b6b51f, 0x9fbfe4a5, 0xe8b8d433,
    0x7807c9a2, 0x0f00f934, 0x9609a88e, 0xe10e9818, 0x7f6a0dbb, 0x086d3d2d,
    0x91646c97, 0xe6635c01, 0x6b6b51f4, 0x1c6c6162, 0x856530d8, 0xf262004e,
    0x6c0695ed, 0x1b01a57b, 0x8208f4c1, 0xf50fc457, 0x65b0d9c6, 0x12b7e950,
    0x8bbeb8ea, 0xfcb9887c, 0x62dd1ddf, 0x15da2d49, 0x8cd37cf3, 0xfbd44c65,
    0x4db26158, 0x3ab551ce, 0xa3bc0074, 0xd4bb30e2, 0x4adfa541, 0x3dd895d7,
    0xa4d1c46d, 0xd3d6f4fb, 0x4369e96a, 0x346ed9fc, 0xad678846, 0xda60b8d0,
    0x44042d73, 0x33031de5, 0xaa0a4c5f, 0xdd0d7cc9, 0x5005713c, 0x270241aa,
    0xbe0b1010, 0xc90c2086, 0x5768b525, 0x206f85b3, 0xb966d409, 0xce61e49f,
    0x5edef90e, 0x29d9c998, 0xb0d09822, 0xc7d7a8b4, 0x59b33d17, 0x2eb40d81,
    0xb7bd5c3b, 0xc0ba6cad, 0xedb88320, 0x9abfb3b6, 0x03b6e20c, 0x74b1d29a,
    0xead54739, 0x9dd277af, 0x04db2615, 0x73dc1683, 0xe3630b12, 0x94643b84,
    0x0d6d6a3e, 0x7a6a5aa8, 0xe40ecf0b, 0x9309ff9d, 0x0a00ae27, 0x7d079eb1,
    0xf00f9344, 0x8708a3d2, 0x1e01f268, 0x6906c2fe, 0xf762575d, 0x806567cb,
    0x196c3671, 0x6e6b06e7, 0xfed41b76, 0x89d32be0, 0x10da7a5a, 0x67dd4acc,
    0xf9b9df6f, 0x8ebeeff9, 0x17b7be43, 0x60b08ed5, 0xd6d6a3e8, 0xa1d1937e,
    0x38d8c2c4, 0x4fdff252, 0xd1bb67f1, 0xa6bc5767, 0x3fb506dd, 0x48b2364b,
    0xd80d2bda, 0xaf0a1b4c, 0x36034af6, 0x41047a60, 0xdf60efc3, 0xa867df55,
    0x316e8eef, 0x4669be79, 0xcb61b38c, 0xbc66831a, 0x256fd2a0, 0x5268e236,
    0xcc0c7795, 0xbb0b4703, 0x220216b9, 0x5505262f, 0xc5ba3bbe, 0xb2bd0b28,
    0x2bb45a92, 0x5cb36a04, 0xc2d7ffa7, 0xb5d0cf31, 0x2cd99e8b, 0x5bdeae1d,
    0x9b64c2b0, 0xec63f226, 0x756aa39c, 0x026d930a, 0x9c0906a9, 0xeb0e363f,
    0x72076785, 0x05005713, 0x95bf4a82, 0xe2b87a14, 0x7bb12bae, 0x0cb61b38,
    0x92d28e9b, 0xe5d5be0d, 0x7cdcefb7, 0x0bdbdf21, 0x86d3d2d4, 0xf1d4e242,
    0x68ddb3f8, 0x1fda836e, 0x81be16cd, 0xf6b9265b, 0x6fb077e1, 0x18b74777,
    0x88085ae6, 0xff0f6a70, 0x66063bca, 0x11010b5c, 0x8f659eff, 0xf862ae69,
    0x616bffd3, 0x166ccf45, 0xa00ae278, 0xd70dd2ee, 0x4e048354, 0x3903b3c2,
    0xa7672661, 0xd06016f7, 0x4969474d, 0x3e6e77db, 0xaed16a4a, 0xd9d65adc,
    0x40df0b66, 0x37d83bf0, 0xa9bcae53, 0xdebb9ec5, 0x47b2cf7f, 0x30b5ffe9,
    0xbdbdf21c, 0xcabac28a, 0x53b39330, 0x24b4a3a6, 0xbad03605, 0xcdd70693,
    0x54de5729, 0x23d967bf, 0xb3667a2e, 0xc4614ab8, 0x5d681b02, 0x2a6f2b94,
    0xb40bbe37, 0xc30c8ea1, 0x5a05df1b, 0x2d02ef8d
  ]

/-- `crc32_tab[(crc32val ^ byte) & 0xff] ^ ((signed)crc32val >> 8)`. -/
def crcStep (crc32val : BitVec 32) (byte : UInt8) : BitVec 32 :=
  crc32Tab.getD ((crc32val ^^^ byte.toBitVec.setWidth 32) &&& 0xff#32).toNat 0 ^^^
    crc32val.sshiftRight 8

/-- `ugCalcBufferCrc` on the first `size` bytes of `buffer`. -/
def ugCalcBufferCrc (buffer : List UInt8) (size : Nat) : BitVec 32 :=
  let crc32val := (buffer.take size).foldl crcStep 0
  (List.replicate (size % 4) 0).foldl crcStep crc32val

/-- `CFG_UG_BUF_SIZE`, as the build files default it. -/
def cfgUgBufSize : Nat := 0x20000

def ugOutOfMem : Nat := 3

/-- What the reading loop of `ugCheckCrc` leaves behind. -/
structure CrcScan where
  ret : Nat
  readsize : Nat
  crc32val : BitVec 32
  f : ITCStream

/-- The `do`/`while` loop of `ugCheckCrc`; `none` when the turns run out. -/
def ugCheckCrcLoop (bufsize : Nat) : Nat → ITCStream → Nat → BitVec 32 → Option CrcScan
  | 0, _, _, _ => none
  | fuel + 1, f, filesize, crc32val =>
    let readsize := if filesize < bufsize then filesize else bufsize
    let read := itcStreamRead f readsize
    if read.1.length ≠ readsize then
      some ⟨125, readsize, crc32val, read.2⟩
    else
      let crc32val := read.1.foldl crcStep crc32val
      if 0 < filesize - readsize then
        ugCheckCrcLoop bufsize fuel read.2 (filesize - readsize) crc32val
      else
        some ⟨0, readsize, crc32val, read.2⟩

/-- `ugCheckCrc` with chunks of `chunkSize`: its result, a line number of `ug_crc.c` or
an error code, or `none` if the loop does not end.  `buffer` says whether the caller
provides the memory, `mallocSucceeds` whether it is there otherwise. -/
def ugCheckCrcBy (chunkSize : Nat) (mallocSucceeds : Bool) (f : ITCStream)
    (buffer : Bool) : Option Nat :=
  match itcStreamSeek f (-4) .seekEnd with
  | none => some 75
  | some f =>
    let read := itcStreamRead f 4
    if read.1.length ≠ 4 then
      some 83
    else
      let crc := BitVec.ofNat 32 (littleEndian read.1)
      let filesize := itcStreamTell read.2 - 4
      let bufsize :=
        if buffer then filesize
        else if chunkSize < filesize then chunkSize
        else filesize
      if buffer = false ∧ mallocSucceeds = false then
        some ugOutOfMem
      else
        match itcStreamSeek read.2 0 .seekSet with
        | none => some 114
        | some f =>
          match ugCheckCrcLoop bufsize (filesize + 1) f filesize 0 with
          | none => none
          | some scan =>
            if scan.ret ≠ 0 then
              some scan.ret
            else
              let crc32val := (List.replicate (scan.readsize % 4) 0).foldl crcStep scan.crc32val
              if crc ≠ crc32val then
                some 143
              else
                match itcStreamSeek scan.f 0 .seekSet with
                | none => some 150
                | some _ => some 0

def ugCheckCrc (mallocSucceeds : Bool) (f : ITCStream) (buffer : Bool) : Option Nat :=
  ugCheckCrcBy cfgUgBufSize mallocSucceeds f buffer

end

/-!
# A corrupted package is rejected

The checksum step is a linear feedback register whose move is `crcNext`.  A
difference of four bytes can be fed in as one word below `2 ^ 24` and a last
byte; neither the table nor the sign extension can cancel it.
-/

section

open Itc
open Lib

/-! ## The move of the register -/

def crcEntry (byte : BitVec 8) : BitVec 32 := crc32Tab.getD byte.toNat 0

def crcNext (state : BitVec 32) : BitVec 32 := crcEntry (state.setWidth 8) ^^^ state.sshiftRight 8

/-- `pick bit value` is the product of a bit and a value. -/
def pick (bit : Bool) (value : BitVec 32) : BitVec 32 := if bit then value else 0#32

theorem pick_xor (left right : Bool) (value : BitVec 32) :
    pick (left ^^ right) value = pick left value ^^^ pick right value := by
  cases left <;> cases right <;> simp [pick]

def bitEntries (byte : BitVec 8) : BitVec 32 :=
  pick (byte.getLsbD 0) 0x77073096#32 ^^^ pick (byte.getLsbD 1) 0xee0e612c#32 ^^^
    pick (byte.getLsbD 2) 0x076dc419#32 ^^^
    pick (byte.getLsbD 3) 0x0edb8832#32 ^^^
    pick (byte.getLsbD 4) 0x1db71064#32 ^^^
    pick (byte.getLsbD 5) 0x3b6e20c8#32 ^^^
    pick (byte.getLsbD 6) 0x76dc4190#32 ^^^
    pick (byte.getLsbD 7) 0xedb88320#32

theorem crc32Tab_bits :
    crc32Tab = (List.range 256).map fun index => bitEntries (BitVec.ofNat 8 index) := by
  decide +kernel

theorem crcEntry_bits (byte : BitVec 8) : crcEntry byte = bitEntries byte := by
  have inside : byte.toNat < 256 := byte.isLt
  rw [crcEntry, crc32Tab_bits, List.getD_eq_getElem?_getD, List.getElem?_map,
    List.getElem?_range inside, Option.map_some, Option.getD_some, BitVec.ofNat_toNat,
    BitVec.setWidth_eq]

theorem crcEntry_xor (left right : BitVec 8) :
    crcEntry (left ^^^ right) = crcEntry left ^^^ crcEntry right := by
  rw [crcEntry_bits, crcEntry_bits left, crcEntry_bits right]
  simp only [bitEntries, BitVec.getLsbD_xor, pick_xor]
  ac_rfl

theorem bitEntries_high :
    ∀ byte : BitVec 8,
      (bitEntries byte >>> 23 = 0#32 ∨ bitEntries byte >>> 23 = 511#32) ∨
          bitEntries byte >>> 24 = 0#32 →
        byte = 0#8 := by
  decide +kernel

theorem crcEntry_high (byte : BitVec 8) (sign : Bool)
    (equal : ∀ bit : Fin 9, (crcEntry byte).getLsbD (23 + bit) = sign) :
    byte = 0#8 := by
  rw [crcEntry_bits] at equal
  have bits (bit : Nat) :
      (bitEntries byte >>> 23).getLsbD bit = (decide (bit < 9) && sign) := by
    rw [BitVec.getLsbD_ushiftRight]
    by_cases inside : bit < 9
    · rw [equal ⟨bit, inside⟩, decide_eq_true inside, Bool.true_and]
    · rw [BitVec.getLsbD_of_ge _ _ (by omega), decide_eq_false inside, Bool.false_and]
  refine bitEntries_high byte (Or.inl ?_)
  cases sign with
  | false =>
    left
    apply BitVec.eq_of_getLsbD_eq
    intro bit _
    rw [bits, Bool.and_false, BitVec.getLsbD_zero]
  | true =>
    right
    apply BitVec.eq_of_getLsbD_eq
    intro bit inside
    have nine : 511 = 2 ^ 9 - 1 := rfl
    rw [bits, Bool.and_true, BitVec.getLsbD_ofNat, decide_eq_true inside, Bool.true_and,
      nine, Nat.testBit_two_pow_sub_one]

theorem crcEntry_top (byte : BitVec 8)
    (clear : ∀ bit : Fin 8, (crcEntry byte).getLsbD (24 + bit) = false) :
    byte = 0#8 := by
  rw [crcEntry_bits] at clear
  refine bitEntries_high byte (Or.inr ?_)
  apply BitVec.eq_of_getLsbD_eq
  intro bit _
  rw [BitVec.getLsbD_ushiftRight, BitVec.getLsbD_zero]
  by_cases inside : bit < 8
  · exact clear ⟨bit, inside⟩
  · exact BitVec.getLsbD_of_ge _ _ (by omega)

theorem crcNext_linear : XorLinear crcNext := by
  intro left right
  unfold crcNext
  rw [BitVec.setWidth_xor, crcEntry_xor, BitVec.sshiftRight_xor_distrib]
  ac_rfl

theorem crcEntry_zero : crcEntry 0#8 = 0#32 := crcEntry_bits 0#8

/-- The move has no kernel: the sign extension would need an entry with nine
equal highest bits. -/
theorem crcNext_kernel (state : BitVec 32) (zero : crcNext state = 0#32) : state = 0#32 := by
  have entry : crcEntry (state.setWidth 8) = state.sshiftRight 8 := BitVec.xor_eq_zero_iff.mp zero
  have low : state.setWidth 8 = 0#8 := by
    apply crcEntry_high _ state.msb
    rintro ⟨bit, bitInside⟩
    have inside : ¬ 32 ≤ 23 + bit := by omega
    rw [entry, BitVec.getLsbD_sshiftRight]
    simp only [inside, decide_false, Bool.not_false, Bool.true_and]
    rcases Nat.eq_zero_or_pos bit with lowest | beyond
    · subst lowest
      exact (BitVec.msb_eq_getLsbD_last state).symm
    · rw [if_neg (by omega)]
  have shifted : state.sshiftRight 8 = 0#32 := by rw [← entry, low, crcEntry_zero]
  apply BitVec.eq_of_getLsbD_eq
  intro index below
  rw [BitVec.getLsbD_zero]
  rcases Nat.lt_or_ge index 8 with lowBit | highBit
  · have bit := congrArg (BitVec.getLsbD · index) low
    simp only [BitVec.getLsbD_setWidth, BitVec.getLsbD_zero, lowBit,
      decide_true, Bool.true_and] at bit
    exact bit
  · have bit := congrArg (BitVec.getLsbD · (index - 8)) shifted
    have back : 8 + (index - 8) = index := by omega
    have inside : ¬ 32 ≤ index - 8 := by omega
    simp only [BitVec.getLsbD_sshiftRight, BitVec.getLsbD_zero, back, below,
      inside, if_true, decide_false, Bool.not_false, Bool.true_and] at bit
    exact bit

theorem crcNext_injective : Function.Injective crcNext := crcNext_linear.injective crcNext_kernel

/-- Only the `count` lowest bits of a word may be set. -/
def Below (count : Nat) (word : BitVec 32) : Prop :=
  ∀ index, count ≤ index → word.getLsbD index = false

variable {word : BitVec 32}

theorem Below.mono {small large : Nat}
    (below : Below small word) (le : small ≤ large) : Below large word :=
  fun index above => below index (Nat.le_trans le above)

variable {count : Nat}

theorem Below.xor {left right : BitVec 32} (leftBelow : Below count left)
    (rightBelow : Below count right) :
    Below count (left ^^^ right) := by
  intro index above
  rw [BitVec.getLsbD_xor, leftBelow index above, rightBelow index above]
  rfl

theorem Below.shiftLeft (below : Below count word) (distance : Nat) :
    Below (count + distance) (word <<< distance) := by
  intro index above
  rw [BitVec.getLsbD_shiftLeft, below (index - distance) (by omega), Bool.and_false]

theorem Below.eq_zero (below : Below count word)
    (clear : ∀ index, index < count → word.getLsbD index = false) :
    word = 0#32 := by
  apply BitVec.eq_of_getLsbD_eq
  intro index _
  rw [BitVec.getLsbD_zero]
  rcases Nat.lt_or_ge index count with inside | above
  · exact clear index inside
  · exact below index above

theorem Below.digits_zero {low high : BitVec 32}
    (lowBelow : Below 8 low) (highBelow : Below 24 high)
    (cancel : low ^^^ high <<< 8 = 0#32) : low = 0#32 ∧ high = 0#32 := by
  have same : low = high <<< 8 := BitVec.xor_eq_zero_iff.mp cancel
  constructor
  · apply lowBelow.eq_zero
    intro index inside
    rw [same, BitVec.getLsbD_shiftLeft]
    simp [inside]
  · apply highBelow.eq_zero
    intro index inside
    have bit := lowBelow (index + 8) (Nat.le_add_left _ _)
    rw [same, BitVec.getLsbD_shiftLeft, Nat.add_sub_cancel] at bit
    have within : index + 8 < 32 := by omega
    simpa [within] using bit

/-- Feeding a word below `2 ^ 23` is feeding it one byte higher before the
move. -/
theorem crcNext_shiftLeft (below : Below 23 word) : crcNext (word <<< 8) = word := by
  have entry : (word <<< 8).setWidth 8 = 0#8 := by
    apply BitVec.eq_of_getLsbD_eq
    intro index inside
    simp [inside]
  have positive : (word <<< 8).msb = false := by
    rw [BitVec.msb_eq_getLsbD_last, BitVec.getLsbD_shiftLeft,
      below 23 (Nat.le_refl 23), Bool.and_false]
  have shifted : (word <<< 8).sshiftRight 8 = word := by
    rw [BitVec.sshiftRight_eq_of_msb_false positive]
    apply BitVec.eq_of_getLsbD_eq
    intro index inside
    rw [BitVec.getLsbD_ushiftRight, BitVec.getLsbD_shiftLeft, Nat.add_sub_cancel_left]
    rcases Nat.lt_or_ge index 23 with low | high
    · have within : 8 + index < 32 := by omega
      simp [within]
    · rw [below index high, Bool.and_false]
  rw [crcNext, entry, crcEntry_zero, shifted, BitVec.zero_xor]

theorem crcNext_eq_shiftLeft {word last : BitVec 32}
    (wordBelow : Below 24 word) (lastBelow : Below 8 last) (same : crcNext word = last <<< 16) :
    word = 0#32 ∧ last = 0#32 := by
  have positive : word.msb = false := by
    rw [BitVec.msb_eq_getLsbD_last]
    exact wordBelow 31 (by decide)
  have moved : crcEntry (word.setWidth 8) ^^^ word >>> 8 = last <<< 16 := by
    rw [← same, crcNext, BitVec.sshiftRight_eq_of_msb_false positive]
  have low : word.setWidth 8 = 0#8 := by
    apply crcEntry_top
    intro bit
    have sum := congrArg (BitVec.getLsbD · (24 + bit.val)) moved
    have shifted := lastBelow.shiftLeft 16 (24 + bit.val) (by omega)
    have dropped := wordBelow (8 + (24 + bit.val)) (by omega)
    simp only [BitVec.getLsbD_xor, BitVec.getLsbD_ushiftRight, dropped,
      shifted, Bool.bne_false] at sum
    exact sum
  rw [low, crcEntry_zero, BitVec.zero_xor] at moved
  have lastZero : last = 0#32 := by
    apply lastBelow.eq_zero
    intro index inside
    have bit := congrArg (BitVec.getLsbD · (16 + index)) moved
    have dropped := wordBelow (8 + (16 + index)) (by omega)
    have within : 16 + index < 32 := by omega
    simp only [BitVec.getLsbD_ushiftRight, dropped, BitVec.getLsbD_shiftLeft,
      Nat.add_sub_cancel_left, within, decide_true, Bool.true_and] at bit
    simpa using bit.symm
  refine ⟨crcNext_kernel word ?_, lastZero⟩
  rw [same, lastZero]
  rfl

theorem crcNext_noKernel : NoKernel crcNext (Below 8) 4 where
  symbolZero := fun _ _ => BitVec.getLsbD_zero
  symbolXor := fun _ _ => Below.xor
  zero := by
    intro words length bytes vanishes
    match words, length with
    | [first, second, third, last], _ =>
    simp only [List.forall_mem_cons] at bytes ⊢
    obtain ⟨firstByte, secondByte, thirdByte, lastByte, _⟩ := bytes
    simp only [register_cons, register_nil, BitVec.zero_xor] at vanishes
    have lastFed :
        crcNext (crcNext (crcNext first ^^^ second) ^^^ third) = last :=
      BitVec.xor_eq_zero_iff.mp (crcNext_kernel _ vanishes)
    have highBelow : Below 16 (second ^^^ third <<< 8) :=
      (secondByte.mono (by decide)).xor (thirdByte.shiftLeft 8)
    -- The first three bytes are fed at once, the last one as a moved word.
    have together :
        crcNext (crcNext (crcNext (first ^^^ (second ^^^ third <<< 8) <<< 8))) =
          crcNext (crcNext (last <<< 8 <<< 8)) := by
      calc
        _ = crcNext (crcNext (crcNext first ^^^ second ^^^ third <<< 8)) := by
          rw [crcNext_linear first, crcNext_shiftLeft (highBelow.mono (by decide)),
            ← BitVec.xor_assoc]
        _ = crcNext (crcNext (crcNext first ^^^ second) ^^^ third) := by
          rw [crcNext_linear (crcNext first ^^^ second),
            crcNext_shiftLeft (thirdByte.mono (by decide))]
        _ = last := lastFed
        _ = _ := by
          rw [crcNext_shiftLeft ((lastByte.shiftLeft 8).mono (by decide)),
            crcNext_shiftLeft (lastByte.mono (by decide))]
    have moved := crcNext_injective (crcNext_injective together)
    rw [← BitVec.shiftLeft_add] at moved
    have wordBelow :
        Below 24 (first ^^^ (second ^^^ third <<< 8) <<< 8) :=
      (firstByte.mono (by decide)).xor (highBelow.shiftLeft 8)
    obtain ⟨wordZero, lastZero⟩ := crcNext_eq_shiftLeft wordBelow lastByte moved
    obtain ⟨firstZero, highZero⟩ := firstByte.digits_zero (highBelow.mono (by decide)) wordZero
    obtain ⟨secondZero, thirdZero⟩ := secondByte.digits_zero (thirdByte.mono (by decide)) highZero
    exact ⟨firstZero, secondZero, thirdZero, lastZero, by simp⟩

/-! ## Buffers -/

def crcWord (byte : UInt8) : BitVec 32 := byte.toBitVec.setWidth 32

theorem crcWord_below (byte : UInt8) : Below 8 (crcWord byte) := by
  intro index above
  rw [crcWord, BitVec.getLsbD_setWidth,
    BitVec.getLsbD_of_ge byte.toBitVec index above, Bool.and_false]

theorem crcWord_injective : Function.Injective crcWord := by
  intro left right same
  have back := congrArg (BitVec.setWidth 8) same
  simpa [crcWord, UInt8.toBitVec_inj] using back

theorem crcStep_eq_crcNext (crc32val : BitVec 32) (byte : UInt8) :
    crcStep crc32val byte = crcNext (crc32val ^^^ crcWord byte) := by
  have shifted : (crcWord byte).sshiftRight 8 = 0#32 := by
    have positive : (crcWord byte).msb = false := by
      rw [BitVec.msb_eq_getLsbD_last]
      exact crcWord_below byte 31 (by decide)
    rw [BitVec.sshiftRight_eq_of_msb_false positive]
    apply BitVec.eq_of_getLsbD_eq
    intro index _
    rw [BitVec.getLsbD_ushiftRight, crcWord_below byte _ (by omega), BitVec.getLsbD_zero]
  have masked :
      ((crc32val ^^^ crcWord byte) &&& 0xff#32).toNat =
        ((crc32val ^^^ crcWord byte).setWidth 8).toNat := by
    rw [BitVec.toNat_setWidth, BitVec.toNat_and]
    exact Nat.and_two_pow_sub_one_eq_mod _ 8
  rw [crcNext, BitVec.sshiftRight_xor_distrib, shifted, BitVec.xor_zero, crcEntry, ← masked]
  rfl

theorem foldl_crcStep (bytes : List UInt8) (crc32val : BitVec 32) :
    bytes.foldl crcStep crc32val = register crcNext crc32val (bytes.map crcWord) := by
  induction bytes generalizing crc32val with
  | nil => rfl
  | cons byte rest ih =>
    rw [List.foldl_cons, List.map_cons, register_cons, crcStep_eq_crcNext, ih]

/-- Two payloads that differ only inside a window of four bytes. -/
structure Burst (start : Nat) (payload corrupted : List UInt8) : Prop where
  sameLength : payload.length = corrupted.length
  outside : SameOutside start 4 payload corrupted
  differs : payload ≠ corrupted

variable {payload corrupted : List UInt8}

theorem Burst.foldl_crcStep_ne {start : Nat} (burst : Burst start payload corrupted)
    (crc32val : BitVec 32) :
    payload.foldl crcStep crc32val ≠ corrupted.foldl crcStep crc32val := by
  intro collides
  rw [foldl_crcStep, foldl_crcStep] at collides
  have words :=
    crcNext_noKernel.detects crcNext_linear crcNext_injective
      (by simpa using fun byte _ => crcWord_below byte)
      (by simpa using fun byte _ => crcWord_below byte)
      (by simpa using burst.sameLength)
      (burst.outside.map crcWord) collides
  exact burst.differs (List.map_injective_iff.mpr crcWord_injective words)

theorem foldl_crcStep_zeros_injective (count : Nat) :
    Function.Injective fun crc32val => (List.replicate count 0).foldl crcStep crc32val := by
  intro left right same
  simp only [foldl_crcStep] at same
  exact register_injective crcNext_injective _ same

theorem ugCalcBufferCrc_whole (buffer : List UInt8) :
    ugCalcBufferCrc buffer buffer.length =
      (List.replicate (buffer.length % 4) 0).foldl crcStep (buffer.foldl crcStep 0) := by
  rw [ugCalcBufferCrc, List.take_length]

theorem Burst.ugCalcBufferCrc_ne {start : Nat} (burst : Burst start payload corrupted) :
    ugCalcBufferCrc payload payload.length ≠ ugCalcBufferCrc corrupted corrupted.length := by
  rw [ugCalcBufferCrc_whole, ugCalcBufferCrc_whole, ← burst.sameLength]
  intro collides
  exact burst.foldl_crcStep_ne 0 (foldl_crcStep_zeros_injective _ collides)

/-- The loop reads the next `filesize` bytes, whatever the chunks are; the last
chunk ends at the same place of a word as the whole. -/
theorem ugCheckCrcLoop_reads (bufsize fuel : Nat) :
    ∀ (f : ITCStream) (filesize : Nat) (crc32val : BitVec 32), filesize < fuel →
      0 < bufsize ∨ filesize = 0 →
      filesize ≤ bufsize ∨ 4 ∣ bufsize →
      f.pos + filesize ≤ f.size →
      ∃ readsize, readsize % 4 = filesize % 4 ∧
        ugCheckCrcLoop bufsize fuel f filesize crc32val =
          some ⟨0, readsize, (slice f.pos filesize f.data).foldl crcStep crc32val,
            { f with pos := f.pos + filesize }⟩ := by
  induction fuel with
  | zero =>
    intro _ _ _ enough
    omega
  | succ fuel ih =>
    intro f filesize crc32val enough progress aligned within
    rcases Nat.lt_or_ge bufsize filesize with chunk | last
    · have readsize :
          (if filesize < bufsize then filesize else bufsize) = bufsize :=
        if_neg (by omega)
      have chunkWithin : f.pos + bufsize ≤ f.size := by omega
      have more : 0 < filesize - bufsize := by omega
      obtain ⟨lastSize, sameRest, reads⟩ :=
        ih { f with pos := f.pos + bufsize } (filesize - bufsize)
          ((slice f.pos bufsize f.data).foldl crcStep crc32val)
          (by omega) (by omega) (by omega)
          (show f.pos + bufsize + (filesize - bufsize) ≤ f.size by omega)
      refine ⟨lastSize, by omega, ?_⟩
      have whole : bufsize + (filesize - bufsize) = filesize := by omega
      simp only [ugCheckCrcLoop, readsize, itcStreamRead_within chunkWithin,
        length_slice chunkWithin, ne_eq, not_true_eq_false, if_false,
        if_pos more, reads]
      rw [← List.foldl_append, ← slice_add, whole, Nat.add_assoc, whole]
    · have readsize :
          (if filesize < bufsize then filesize else bufsize) = filesize := by
        split <;> omega
      refine ⟨filesize, rfl, ?_⟩
      simp only [ugCheckCrcLoop, readsize, itcStreamRead_within within,
        length_slice within, ne_eq, not_true_eq_false, if_false,
        Nat.sub_self, lt_irrefl]

variable {content stored : List UInt8}

/-- A stream that ends in four bytes is accepted exactly if the memory is there
and the bytes are the checksum of what is before them, whatever the chunks are. -/
theorem ugCheckCrcBy_package {chunkSize : Nat} (positive : 0 < chunkSize)
    (aligned : 4 ∣ chunkSize) {f : ITCStream} (package : f.data = content ++ stored)
    (trailer : stored.length = 4) (mallocSucceeds buffer : Bool) :
    ugCheckCrcBy chunkSize mallocSucceeds f buffer =
      if buffer = false ∧ mallocSucceeds = false then
        some ugOutOfMem
      else if BitVec.ofNat 32 (littleEndian stored) ≠ ugCalcBufferCrc content content.length then
        some 143
      else
        some 0 := by
  have size : f.size = content.length + 4 := by
    rw [ITCStream.size, package, List.length_append, trailer]
  have seekEnd :
      itcStreamSeek f (-4) .seekEnd = some { f with pos := content.length } :=
    itcStreamSeek_within (by simp only [size]; omega) (by omega)
  have readWithin :
      ({ f with pos := content.length } : ITCStream).pos + 4 ≤
        ({ f with pos := content.length } : ITCStream).size :=
    Nat.le_of_eq size.symm
  have readStored : slice content.length 4 f.data = stored := by
    rw [slice, package, List.drop_left, ← trailer, List.take_length]
  have filesize : content.length + 4 - 4 = content.length := by omega
  have rewind :
      ∀ pos : Nat, itcStreamSeek { f with pos := pos } 0 .seekSet = some { f with pos := 0 } :=
    fun _ => itcStreamSeek_within (by rfl) (show 0 < f.size by omega)
  obtain ⟨bufsize, bufsizeEq⟩ :
      ∃ bufsize, bufsize =
        (if buffer then content.length
          else if chunkSize < content.length then chunkSize
          else content.length) := ⟨_, rfl⟩
  obtain ⟨readsize, sameRest, reads⟩ :=
    ugCheckCrcLoop_reads bufsize (content.length + 1)
      { f with pos := 0 } content.length 0 (by omega)
      (by rw [bufsizeEq]; split <;> grind)
      (by rw [bufsizeEq]; split <;> grind)
      (show 0 + content.length ≤ f.size by omega)
  have readContent : slice 0 content.length f.data = content := by
    rw [slice, package, List.drop_zero, List.take_left]
  unfold ugCheckCrcBy
  simp only [seekEnd, itcStreamRead_within readWithin, readStored, trailer,
    itcStreamTell, filesize, ← bufsizeEq, rewind, reads, readContent,
    sameRest, ← ugCalcBufferCrc_whole]
  simp

theorem ugCheckCrc_package {f : ITCStream} (package : f.data = content ++ stored)
    (trailer : stored.length = 4) (mallocSucceeds buffer : Bool) :
    ugCheckCrc mallocSucceeds f buffer =
      if buffer = false ∧ mallocSucceeds = false then
        some ugOutOfMem
      else if BitVec.ofNat 32 (littleEndian stored) ≠ ugCalcBufferCrc content content.length then
        some 143
      else
        some 0 :=
  ugCheckCrcBy_package (by decide) (by decide) package trailer mallocSucceeds buffer

/-- A burst in a payload changes its checksum, and in an accepted package it is
found. -/
theorem ugCheckCrc_rejects_burst
    {start : Nat} {content corrupted : List UInt8} (burst : Burst start content corrupted) :
    ugCalcBufferCrc content content.length ≠ ugCalcBufferCrc corrupted corrupted.length ∧
      ∀ (stored : List UInt8) (package received : ITCStream)
        (mallocSucceeds mallocSucceeds' buffer buffer' : Bool),
        stored.length = 4 →
        package.data = content ++ stored →
        received.data = corrupted ++ stored →
        ugCheckCrc mallocSucceeds package buffer = some 0 →
        ∃ ret, ret ≠ 0 ∧ ugCheckCrc mallocSucceeds' received buffer' = some ret := by
  refine ⟨burst.ugCalcBufferCrc_ne, ?_⟩
  intro stored package received mallocSucceeds mallocSucceeds' buffer buffer'
    trailer packageData receivedData accepted
  rw [ugCheckCrc_package packageData trailer] at accepted
  rw [ugCheckCrc_package receivedData trailer]
  by_cases noMemory : buffer' = false ∧ mallocSucceeds' = false
  · exact ⟨ugOutOfMem, by decide, if_pos noMemory⟩
  · have checksum :
        BitVec.ofNat 32 (littleEndian stored) = ugCalcBufferCrc content content.length := by
      by_contra differs
      rw [if_pos differs] at accepted
      split at accepted <;> simp [ugOutOfMem] at accepted
    refine ⟨143, by decide, ?_⟩
    rw [if_neg noMemory, checksum, if_pos burst.ugCalcBufferCrc_ne]

/-- One flipped bit in a two-byte payload. -/
theorem ugCheckCrc_rejects_burst_flip :
    ugCalcBufferCrc [0x12, 0x34] 2 ≠ ugCalcBufferCrc [0x12, 0x35] 2 := by
  have outside : SameOutside 1 4 [(0x12 : UInt8), 0x34] [0x12, 0x35] := by
    rintro (_ | index) (before | behind)
    · rfl
    · rfl
    · omega
    · rw [List.getElem?_eq_none (by simp; omega), List.getElem?_eq_none (by simp; omega)]
  have burst : Burst 1 [0x12, 0x34] [0x12, 0x35] := ⟨rfl, outside, by decide⟩
  exact (ugCheckCrc_rejects_burst burst).1

end

end IteSdk.Upgrade
