import IteSdk.Lib.Bits

/-!
# The payload of the RSL master

`masterProcessWriteDataCmd` regroups the 40 bytes of a command into 64 symbols of
five bits, and `masterProcessReadDataCmd` puts received symbols together again.
-/

namespace IteSdk.AltCpu

section

open Lib

/-- `cmdDataBuffer` are the bytes from `CMD_DATA_BUFFER_OFFSET` on, where
`pReadBuffer` and `pWriteBuffer` have 40 bytes; `accessed` are the indices into
them that the commands have read or written. -/
structure RslMaster where
  cmdDataBuffer : Nat → BitVec 8
  gRawWriteData : Nat → BitVec 8
  gRawReadData : Nat → BitVec 8
  accessed : List Nat

/-- The locals of the loop of `masterProcessWriteDataCmd`. -/
structure RslWriteLoop where
  rawWriteIndex : Nat
  writeBufferIndex : Nat
  master : RslMaster

/-- The body of the loop of `masterProcessWriteDataCmd`. -/
def rslWriteSymbol (loop : RslWriteLoop) (i : Nat) : RslWriteLoop :=
  let pWriteBuffer := loop.master.cmdDataBuffer
  let index := loop.writeBufferIndex
  let bitOffset := loop.rawWriteIndex &&& 0x7
  let straddles := bitOffset + 5 > 7
  let rawWriteData :=
    if straddles then
      pWriteBuffer index >>> bitOffset ||| pWriteBuffer (index + 1) <<< (8 - bitOffset)
    else
      pWriteBuffer index >>> bitOffset
  { rawWriteIndex := loop.rawWriteIndex + 5
    writeBufferIndex := (loop.rawWriteIndex + 5) >>> 3
    master :=
      { loop.master with
        gRawWriteData :=
          Function.update loop.master.gRawWriteData i ((rawWriteData <<< 2) &&& 0x7C)
        accessed :=
          loop.master.accessed ++ if straddles then [index, index + 1] else [index] } }

def masterProcessWriteDataCmd (master : RslMaster) : RslMaster :=
  ((List.range 64).foldl rslWriteSymbol
    { rawWriteIndex := 0, writeBufferIndex := 0, master := master }).master

/-- `pReadBuffer[i] = 0`. -/
def rslClearByte (master : RslMaster) (i : Nat) : RslMaster :=
  { master with
    cmdDataBuffer := Function.update master.cmdDataBuffer i 0
    accessed := master.accessed ++ [i] }

/-- `pReadBuffer[index] |= value`. -/
def rslOrByte (master : RslMaster) (index : Nat) (value : BitVec 8) : RslMaster :=
  { master with
    cmdDataBuffer := orByte master.cmdDataBuffer index value
    accessed := master.accessed ++ [index] }

/-- The locals of the loop of `masterProcessReadDataCmd`. -/
structure RslReadLoop where
  readIndex : Nat
  master : RslMaster

/-- The body of the loop of `masterProcessReadDataCmd`. -/
def rslReadSymbol (loop : RslReadLoop) (i : Nat) : RslReadLoop :=
  let rawReadData := (loop.master.gRawReadData i >>> 2) &&& 0x1F
  let bitOffset := loop.readIndex &&& 0x7
  let readBufferIndex := loop.readIndex >>> 3
  let first := rslOrByte loop.master readBufferIndex (rawReadData <<< bitOffset)
  { readIndex := loop.readIndex + 5
    master :=
      if bitOffset + 5 > 7 then
        rslOrByte first (readBufferIndex + 1) (rawReadData >>> (8 - bitOffset))
      else
        first }

def masterProcessReadDataCmd (master : RslMaster) : RslMaster :=
  ((List.range 64).foldl rslReadSymbol
    { readIndex := 0, master := (List.range 40).foldl rslClearByte master }).master

end

/-!
# What the payload commands of the RSL master do

Symbol `i` holds the bits `5 * i` to `5 * i + 4` of the payload.  Both loops take
the byte after it as soon as a symbol ends at the last bit of a byte, so the last
symbol makes them access the byte after the buffer.
-/

section

open Lib

theorem symbolMask_getLsbD (k : Nat) : (0x7C : BitVec 8).getLsbD k = decide (2 ≤ k ∧ k ≤ 6) := by
  have shifted := Nat.testBit_shiftLeft (2 ^ 5 - 1) (i := 2) (j := k)
  rw [Nat.testBit_two_pow_sub_one, ← Bool.decide_and] at shifted
  exact shifted.trans (decide_eq_decide.mpr (by omega))

theorem groupMask_getLsbD (k : Nat) : (0x1F : BitVec 8).getLsbD k = decide (k < 5) :=
  Nat.testBit_two_pow_sub_one 5 k

def rslSymbolBytes (i : Nat) : List Nat :=
  if 5 * i % 8 + 5 > 7 then [5 * i / 8, 5 * i / 8 + 1] else [5 * i / 8]

theorem rslSymbolBytes_outside :
    ((List.range 64).flatMap rslSymbolBytes).filter (40 ≤ ·) = [40] := by
  decide

/-- The bits of the payload from `5 * i` on, in the bits 2 to 6. -/
def IsSymbol (buffer : Nat → BitVec 8) (i : Nat) (symbol : BitVec 8) : Prop :=
  ∀ k, symbol.getLsbD k = (decide (2 ≤ k ∧ k ≤ 6) && bitAt buffer (5 * i + (k - 2)))

theorem isSymbol_mask {buffer : Nat → BitVec 8} {i : Nat} {group : BitVec 8}
    (bits : ∀ k < 5, group.getLsbD k = bitAt buffer (5 * i + k)) :
    IsSymbol buffer i ((group <<< 2) &&& 0x7C) := by
  intro k
  rw [BitVec.getLsbD_and, symbolMask_getLsbD, Bool.and_comm]
  by_cases inside : 2 ≤ k ∧ k ≤ 6
  · have below : k < 8 := by omega
    have notLow : ¬ k < 2 := by omega
    have bit := bits (k - 2) (by omega)
    rw [BitVec.getLsbD_shiftLeft, bit]
    simp [below, notLow]
  · rw [decide_eq_false inside, Bool.false_and, Bool.false_and]

/-- What the loop of `masterProcessWriteDataCmd` has done after `n` symbols. -/
structure RslWritten (master : RslMaster) (n : Nat) (loop : RslWriteLoop) :
    Prop where
  rawWriteIndex : loop.rawWriteIndex = 5 * n
  writeBufferIndex : loop.writeBufferIndex = 5 * n / 8
  buffer : loop.master.cmdDataBuffer = master.cmdDataBuffer
  symbols : ∀ i < n, IsSymbol master.cmdDataBuffer i (loop.master.gRawWriteData i)
  accessed : loop.master.accessed = master.accessed ++ (List.range n).flatMap rslSymbolBytes

theorem RslWritten.step {master : RslMaster} {n : Nat} {loop : RslWriteLoop}
    (written : RslWritten master n loop) :
    RslWritten master (n + 1) (rslWriteSymbol loop n) where
  rawWriteIndex := by
    simp only [rslWriteSymbol, written.rawWriteIndex]
    omega
  writeBufferIndex := by
    simp only [rslWriteSymbol, written.rawWriteIndex, shiftRight_three]
    congr 1
  buffer := written.buffer
  symbols := by
    intro i inside
    simp only [rslWriteSymbol, written.rawWriteIndex, written.writeBufferIndex,
      written.buffer, and_seven]
    by_cases last : i = n
    · subst last
      rw [Function.update_self]
      apply isSymbol_mask
      intro k five
      have within : 5 * i % 8 < 8 := Nat.mod_lt _ (by decide)
      have place : 8 * (5 * i / 8) + 5 * i % 8 + k = 5 * i + k := by omega
      split
      · rw [getLsbD_window _ _ within (by omega), place]
      · rw [getLsbD_shiftRight_byte _ _ (by omega), place]
    · rw [Function.update_of_ne last]
      exact written.symbols i (by omega)
  accessed := by
    simp only [rslWriteSymbol, written.rawWriteIndex, written.writeBufferIndex,
      written.accessed, and_seven, List.range_succ, List.flatMap_append,
      List.append_assoc]
    simp [rslSymbolBytes]

theorem masterProcessWriteDataCmd_spec (master : RslMaster) :
    ∃ loop, RslWritten master 64 loop ∧ masterProcessWriteDataCmd master = loop.master := by
  have all :
      ∀ n, RslWritten master n
        ((List.range n).foldl rslWriteSymbol
          { rawWriteIndex := 0, writeBufferIndex := 0, master := master }) := by
    intro n
    induction n with
    | zero => exact ⟨rfl, rfl, rfl, by simp, by simp⟩
    | succ n ih =>
      rw [List.range_succ, List.foldl_append]
      exact ih.step
  exact ⟨_, all 64, rfl⟩

theorem group_getLsbD (symbol : BitVec 8) (k : Nat) :
    ((symbol >>> 2) &&& 0x1F).getLsbD k = (decide (k < 5) && symbol.getLsbD (2 + k)) := by
  rw [BitVec.getLsbD_and, groupMask_getLsbD, BitVec.getLsbD_ushiftRight, Bool.and_comm]

/-- `cleared` is the state after the first loop; after `n` symbols of the second
the buffer has their bits, and only them. -/
structure RslRead (cleared : RslMaster) (n : Nat) (loop : RslReadLoop) : Prop where
  readIndex : loop.readIndex = 5 * n
  symbols : loop.master.gRawReadData = cleared.gRawReadData
  bits :
    ∀ m, bitAt loop.master.cmdDataBuffer m =
      (bitAt cleared.cmdDataBuffer m ||
        (decide (m < 5 * n) && (cleared.gRawReadData (m / 5)).getLsbD (2 + m % 5)))
  accessed : loop.master.accessed = cleared.accessed ++ (List.range n).flatMap rslSymbolBytes

theorem rslReadSymbol_bits {cleared : RslMaster} {n : Nat} {loop : RslReadLoop}
    (read : RslRead cleared n loop) (m : Nat) :
    bitAt (rslReadSymbol loop n).master.cmdDataBuffer m =
      (bitAt loop.master.cmdDataBuffer m ||
        (decide (5 * n ≤ m ∧ m < 5 * n + 5) &&
          (cleared.gRawReadData n).getLsbD (2 + (m - 5 * n)))) := by
  have within : 5 * n % 8 < 8 := Nat.mod_lt _ (by decide)
  have start : 8 * (5 * n / 8) + 5 * n % 8 = 5 * n := Nat.div_add_mod _ _
  simp only [rslReadSymbol, read.readIndex, read.symbols, and_seven, shiftRight_three]
  split
  · simp only [rslOrByte]
    rw [bitAt_orByte_window _ _ _ within, start, group_getLsbD]
    by_cases from_ : 5 * n ≤ m
    · have group : (m - 5 * n < 5) = (m < 5 * n + 5) := by
        apply propext
        omega
      simp [from_, group]
    · simp [from_]
  · next single =>
    simp only [rslOrByte]
    rw [bitAt_orByte_shiftLeft, start, group_getLsbD]
    by_cases inside : 5 * n ≤ m ∧ m < 5 * n + 5
    · have inByte : 5 * n ≤ m ∧ m < 8 * (5 * n / 8) + 8 := by omega
      have group : m - 5 * n < 5 := by omega
      simp [inside, inByte, group]
    · rw [decide_eq_false inside, Bool.false_and]
      by_cases inByte : 5 * n ≤ m ∧ m < 8 * (5 * n / 8) + 8
      · have notGroup : ¬ m - 5 * n < 5 := by omega
        simp [notGroup]
      · rw [decide_eq_false inByte, Bool.false_and]

theorem RslRead.step {cleared : RslMaster} {n : Nat} {loop : RslReadLoop}
    (read : RslRead cleared n loop) :
    RslRead cleared (n + 1) (rslReadSymbol loop n) where
  readIndex := by
    simp only [rslReadSymbol, read.readIndex]
    omega
  symbols := by
    simp only [rslReadSymbol, rslOrByte]
    split <;> exact read.symbols
  bits := by
    intro m
    rw [rslReadSymbol_bits read, read.bits, Bool.or_assoc]
    congr 1
    by_cases before : m < 5 * n
    · have notHere : ¬ (5 * n ≤ m ∧ m < 5 * n + 5) := by omega
      have after : m < 5 * (n + 1) := by omega
      simp [before, notHere, after]
    · by_cases here : m < 5 * n + 5
      · have from_ : 5 * n ≤ m := by omega
        have after : m < 5 * (n + 1) := by omega
        have symbol : m / 5 = n := by omega
        have place : m - 5 * n = m % 5 := by omega
        simp [before, here, from_, after, symbol, place]
      · have after : ¬ m < 5 * (n + 1) := by omega
        simp [before, here, after]
  accessed := by
    simp only [rslReadSymbol, rslOrByte, read.readIndex, and_seven, shiftRight_three,
      List.range_succ, List.flatMap_append, ← List.append_assoc, ← read.accessed]
    split <;> simp_all [rslSymbolBytes]

structure RslCleared (master : RslMaster) (n : Nat) (cleared : RslMaster) :
    Prop where
  symbols : cleared.gRawReadData = master.gRawReadData
  bytes : ∀ i < n, cleared.cmdDataBuffer i = 0
  accessed : cleared.accessed = master.accessed ++ List.range n

theorem rslClearByte_all (master : RslMaster) (n : Nat) :
    RslCleared master n ((List.range n).foldl rslClearByte master) := by
  induction n with
  | zero => exact ⟨rfl, by simp, by simp⟩
  | succ n ih =>
    rw [List.range_succ, List.foldl_append]
    refine ⟨ih.symbols, ?_, ?_⟩
    · intro i inside
      by_cases last : i = n
      · simp [rslClearByte, last]
      · simpa [rslClearByte, Function.update_of_ne last] using ih.bytes i (by omega)
    · simp [rslClearByte, ih.accessed, List.range_succ]

theorem masterProcessReadDataCmd_spec (master : RslMaster) :
    ∃ cleared loop,
      RslCleared master 40 cleared ∧ RslRead cleared 64 loop ∧
        masterProcessReadDataCmd master = loop.master := by
  have all :
      ∀ (cleared : RslMaster) (n : Nat),
        RslRead cleared n
          ((List.range n).foldl rslReadSymbol { readIndex := 0, master := cleared }) := by
    intro cleared n
    induction n with
    | zero => exact ⟨rfl, rfl, by simp, by simp⟩
    | succ n ih =>
      rw [List.range_succ, List.foldl_append]
      exact ih.step
  exact ⟨_, _, rslClearByte_all master 40, all _ 64, rfl⟩

/-! ## Both together -/

/-- `masterProcessWriteDataCmd` on the payload of the sender. -/
def RslMaster.written (sender : RslMaster) : RslMaster :=
  masterProcessWriteDataCmd { sender with accessed := [] }

/-- `masterProcessReadDataCmd` on the raw bytes of the sender. -/
def RslMaster.readBack (sender receiver : RslMaster) : RslMaster :=
  masterProcessReadDataCmd
    { receiver with
      gRawReadData := sender.written.gRawWriteData
      accessed := [] }

/-- Each raw byte holds the five bits of its place, and the raw bytes give the
payload back. -/
structure RslPayloadPacked (sender receiver : RslMaster) : Prop where
  symbols : ∀ i < 64, IsSymbol sender.cmdDataBuffer i (sender.written.gRawWriteData i)
  restored : ∀ i < 40, (sender.readBack receiver).cmdDataBuffer i = sender.cmdDataBuffer i

structure RslPayloadSafe (sender receiver : RslMaster) : Prop
    extends RslPayloadPacked sender receiver where
  writeInside : ∀ index ∈ sender.written.accessed, index < 40
  readInside : ∀ index ∈ (sender.readBack receiver).accessed, index < 40

theorem RslMaster.written_symbols (sender : RslMaster) :
    ∀ i < 64, IsSymbol sender.cmdDataBuffer i (sender.written.gRawWriteData i) := by
  obtain ⟨loop, written, result⟩ := masterProcessWriteDataCmd_spec { sender with accessed := [] }
  rw [RslMaster.written, result]
  exact written.symbols

theorem RslMaster.written_accessed (sender : RslMaster) :
    sender.written.accessed = (List.range 64).flatMap rslSymbolBytes := by
  obtain ⟨loop, written, result⟩ := masterProcessWriteDataCmd_spec { sender with accessed := [] }
  rw [RslMaster.written, result, written.accessed, List.nil_append]

theorem RslMaster.readBack_accessed (sender receiver : RslMaster) :
    (sender.readBack receiver).accessed =
      List.range 40 ++ (List.range 64).flatMap rslSymbolBytes := by
  obtain ⟨cleared, loop, clear, read, result⟩ :=
    masterProcessReadDataCmd_spec
      { receiver with
        gRawReadData := sender.written.gRawWriteData
        accessed := [] }
  rw [RslMaster.readBack, result, read.accessed, clear.accessed, List.nil_append]

theorem RslMaster.readBack_bytes (sender receiver : RslMaster) :
    ∀ i < 40, (sender.readBack receiver).cmdDataBuffer i = sender.cmdDataBuffer i := by
  obtain ⟨cleared, loop, clear, read, result⟩ :=
    masterProcessReadDataCmd_spec
      { receiver with
        gRawReadData := sender.written.gRawWriteData
        accessed := [] }
  intro i inside
  rw [RslMaster.readBack, result]
  apply eq_of_bitAt
  intro m first last
  have clearBit : bitAt cleared.cmdDataBuffer m = false := by
    have byte : m / 8 = i := by omega
    rw [bitAt, byte, clear.bytes i inside]
    exact BitVec.getLsbD_zero
  have covered : m < 5 * 64 := by omega
  have symbol := sender.written_symbols (m / 5) (by omega) (2 + m % 5)
  have inSymbol : 2 ≤ 2 + m % 5 ∧ 2 + m % 5 ≤ 6 := by omega
  have place : 5 * (m / 5) + (2 + m % 5 - 2) = m := by omega
  rw [place, decide_eq_true inSymbol, Bool.true_and] at symbol
  rw [read.bits, clearBit, clear.symbols, decide_eq_true covered, Bool.false_or, Bool.true_and]
  exact symbol

theorem RslPayloadPacked.always (sender receiver : RslMaster) : RslPayloadPacked sender receiver :=
  ⟨sender.written_symbols, sender.readBack_bytes receiver⟩

theorem RslMaster.written_outside (sender : RslMaster) : 40 ∈ sender.written.accessed := by
  have outside : 40 ∈ (sender.written.accessed).filter (40 ≤ ·) := by
    rw [sender.written_accessed, rslSymbolBytes_outside]
    exact List.mem_cons_self
  exact (List.mem_filter.mp outside).1

/-- For every payload: the symbols and the way back are right, and each command
accesses one byte outside the buffer, the one after it. -/
theorem rslPayload_outside (sender receiver : RslMaster) :
    RslPayloadPacked sender receiver ∧ ¬ RslPayloadSafe sender receiver ∧
      sender.written.accessed.filter (40 ≤ ·) = [40] ∧
      (sender.readBack receiver).accessed.filter (40 ≤ ·) = [40] := by
  refine ⟨.always sender receiver, ?_, ?_, ?_⟩
  · intro safe
    exact absurd (safe.writeInside 40 sender.written_outside) (by decide)
  · rw [sender.written_accessed]
    exact rslSymbolBytes_outside
  · have cleared : (List.range 40).filter (40 ≤ ·) = [] := by decide
    rw [sender.readBack_accessed, List.filter_append, cleared,
      rslSymbolBytes_outside, List.nil_append]

def zeroPayload : RslMaster :=
  { cmdDataBuffer := fun _ => 0
    gRawWriteData := fun _ => 0
    gRawReadData := fun _ => 0
    accessed := [] }

theorem rslPayload_zero_outside : ¬ RslPayloadSafe zeroPayload zeroPayload := by
  intro safe
  exact absurd (safe.writeInside 40 zeroPayload.written_outside) (by decide)

end

end IteSdk.AltCpu
