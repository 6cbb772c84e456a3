import IteSdk.Lib.Bits
import IteSdk.Lib.Transition
import Mathlib.Data.List.GetD

/-!
# Reception in the RSL slave

`slaveMonitorMasterInput` gives each handle one pass of its state machine.  The
pins and the timer are inputs of a pass.  `frame`, `accessed` and `completed` are
what the passes have done so far, for the statements about them.
-/

namespace IteSdk.AltCpu

section

open Lib

inductive MonitorState
  | nullState
  | readWaitingClk
  | readDelay
  | readData
  | writeWaitingClk
  | writeDelay
  | writeData
  deriving DecidableEq

/-- `frame` are the bits sampled since the machine left its first state,
`accessed` the indices used into the buffers of 64 bytes, and `completed` has the
frame and `saveRawReadData` of each call of `slaveRawReadDataToSaveData`. -/
structure RslSlaveHandle where
  state : MonitorState
  bInit : Bool
  firstReadDelayTickCount : BitVec 32
  readPeriodTickCount : BitVec 32
  firstWriteDelayTickCount : BitVec 32
  writePeriodTickCount : BitVec 32
  checkTime : BitVec 32
  delayTicks : BitVec 32
  rawReadIndex : Nat
  rawWriteIndex : Nat
  writeRepeatCounter : BitVec 32
  bValidData : Bool
  prevClkPinVal : Bool
  rawWriteData : Nat → BitVec 8
  rawReadData : Nat → BitVec 8
  saveRawReadData : Nat → BitVec 8
  writeDataGpioDir : Bool
  writeDataGpioValue : Bool
  frame : List Bool
  accessed : List Nat
  completed : List (List Bool × (Nat → BitVec 8))

/-- What a pass reads: the two pins, `getCurTimer` at its last call, and
`getDuration` in the states that wait for the clock and in those that delay. -/
structure RslSlaveInput where
  clkGpio : Bool
  readDataGpio : Bool
  curTimer : BitVec 32
  waited : BitVec 32
  delayed : BitVec 32

/-- A pin as an `int`. -/
def gpioByte (value : Bool) : BitVec 8 := if value then 1 else 0

/-- Element `i` of the loop of `slaveRawReadDataToSaveData`. -/
def slaveSaveByte (handle : RslSlaveHandle) (i : Nat) : RslSlaveHandle :=
  { handle with
    saveRawReadData := Function.update handle.saveRawReadData i (handle.rawReadData i)
    rawReadData := Function.update handle.rawReadData i 0 }

def slaveRawReadDataToSaveData (handle : RslSlaveHandle) : RslSlaveHandle :=
  let saved := (List.range 64).foldl slaveSaveByte handle
  { saved with
    bValidData := true
    completed := saved.completed ++ [(saved.frame, saved.saveRawReadData)] }

/-- `clockValue != prevClkPinVal && clockValue`. -/
def risingClk (handle : RslSlaveHandle) (input : RslSlaveInput) : Bool :=
  input.clkGpio != handle.prevClkPinVal && input.clkGpio

def monitorNullState (handle : RslSlaveHandle) (input : RslSlaveInput) : RslSlaveHandle :=
  { handle with
    rawReadIndex := 0
    rawWriteIndex := 0
    prevClkPinVal := false
    checkTime := input.curTimer
    state := .readWaitingClk
    frame := [] }

def monitorReadData (handle : RslSlaveHandle) (input : RslSlaveInput) : RslSlaveHandle :=
  let bitOffset := handle.rawReadIndex &&& 0x7
  let bufferIndex := handle.rawReadIndex >>> 3
  let sampled :=
    { handle with
      rawReadData :=
        orByte handle.rawReadData bufferIndex (gpioByte input.readDataGpio <<< bitOffset)
      checkTime := input.curTimer
      frame := handle.frame ++ [input.readDataGpio]
      accessed := handle.accessed ++ [bufferIndex] }
  if bitOffset = 4 then
    { sampled with
      state := if bufferIndex = 63 then .writeWaitingClk else .readWaitingClk
      rawReadIndex := handle.rawReadIndex + 4 }
  else
    { sampled with
      delayTicks := handle.readPeriodTickCount
      state := .readDelay
      rawReadIndex := handle.rawReadIndex + 1 }

def monitorReadDelay (handle : RslSlaveHandle) (input : RslSlaveInput) : RslSlaveHandle :=
  if handle.delayTicks ≤ input.delayed then
    monitorReadData { handle with state := .readData } input
  else
    handle

def monitorReadWaitingClk (gTickPerUs : BitVec 32) (handle : RslSlaveHandle)
    (input : RslSlaveInput) : RslSlaveHandle :=
  if risingClk handle input then
    monitorReadDelay
      { handle with
        state := .readDelay
        prevClkPinVal := false
        delayTicks := handle.firstReadDelayTickCount
        checkTime := input.curTimer }
      input
  else if 1000 * gTickPerUs ≤ input.waited then
    { handle with state := .nullState }
  else
    handle

/-- The end of `MONITOR_STATE_WRITE_DATA` at the last bit. -/
def monitorFrameEnd (handle : RslSlaveHandle) : RslSlaveHandle :=
  let saved := slaveRawReadDataToSaveData handle
  if saved.writeRepeatCounter ≠ 0 then
    let writeRepeatCounter :=
      if saved.writeRepeatCounter ≠ 0xFFFFFFFF then saved.writeRepeatCounter - 1
      else saved.writeRepeatCounter
    { saved with
      writeRepeatCounter := writeRepeatCounter
      rawWriteData :=
        if writeRepeatCounter = 0 then
          fun i => if i < 64 then 0 else saved.rawWriteData i
        else saved.rawWriteData
      writeDataGpioDir := true
      state := .nullState }
  else
    { saved with state := .nullState }

/-- `MONITOR_STATE_WRITE_DATA` up to the choice of the next state. -/
def monitorDriveData (handle : RslSlaveHandle) (input : RslSlaveInput) : RslSlaveHandle :=
  let bitOffset := handle.rawWriteIndex &&& 0x7
  let bufferIndex := handle.rawWriteIndex >>> 3
  let writes := handle.writeRepeatCounter ≠ 0
  let dataValue :=
    if bitOffset = 5 then false
    else (handle.rawWriteData bufferIndex).getLsbD bitOffset
  { handle with
    writeDataGpioDir :=
      if handle.rawWriteIndex = 0 ∧ writes then false
      else handle.writeDataGpioDir
    checkTime := input.curTimer
    accessed :=
      if bitOffset = 5 then handle.accessed
      else handle.accessed ++ [bufferIndex]
    writeDataGpioValue := if writes then dataValue else handle.writeDataGpioValue
    delayTicks := if writes then handle.writePeriodTickCount else handle.delayTicks }

def monitorWriteData (handle : RslSlaveHandle) (input : RslSlaveInput) : RslSlaveHandle :=
  let bitOffset := handle.rawWriteIndex &&& 0x7
  let bufferIndex := handle.rawWriteIndex >>> 3
  let driven := monitorDriveData handle input
  if bitOffset < 5 then
    { driven with
      delayTicks := driven.writePeriodTickCount
      rawWriteIndex := driven.rawWriteIndex + 1
      state := .writeDelay }
  else
    let ended :=
      if bufferIndex = 63 then monitorFrameEnd driven
      else { driven with state := .writeWaitingClk }
    { ended with rawWriteIndex := ended.rawWriteIndex + 3 }

def monitorWriteDelay (handle : RslSlaveHandle) (input : RslSlaveInput) : RslSlaveHandle :=
  if handle.delayTicks ≤ input.delayed then
    monitorWriteData { handle with state := .writeData } input
  else
    handle

def monitorWriteWaitingClk (gTickPerUs : BitVec 32) (handle : RslSlaveHandle)
    (input : RslSlaveInput) : RslSlaveHandle :=
  if risingClk handle input then
    monitorWriteDelay
      { handle with
        state := .writeDelay
        prevClkPinVal := false
        delayTicks := handle.firstWriteDelayTickCount
        checkTime := input.curTimer }
      input
  else if 1000 * gTickPerUs ≤ input.waited then
    { handle with state := .nullState, writeDataGpioDir := true }
  else
    handle

/-- The `switch` of `slaveMonitorMasterInput`; a case that falls through calls the
next one. -/
def monitorHandle (gTickPerUs : BitVec 32) (handle : RslSlaveHandle)
    (input : RslSlaveInput) : RslSlaveHandle :=
  if handle.bInit then
    match handle.state with
    | .nullState => monitorNullState handle input
    | .readWaitingClk => monitorReadWaitingClk gTickPerUs handle input
    | .readDelay => monitorReadDelay handle input
    | .readData => monitorReadData handle input
    | .writeWaitingClk => monitorWriteWaitingClk gTickPerUs handle input
    | .writeDelay => monitorWriteDelay handle input
    | .writeData => monitorWriteData handle input
  else
    handle

/-- One call; `inputs` has what the pass of each handle reads. -/
def slaveMonitorMasterInput (gTickPerUs : BitVec 32)
    (gptSlaveHandle : List RslSlaveHandle) (inputs : Nat → RslSlaveInput) :
    List RslSlaveHandle :=
  gptSlaveHandle.mapIdx fun slaveId handle => monitorHandle gTickPerUs handle (inputs slaveId)

/-- What `slaveProcessReadRawDataCmd` gives the host. -/
def slaveReadRawData (handle : RslSlaveHandle) : Bool × (Nat → BitVec 8) :=
  if handle.bValidData then (true, handle.saveRawReadData) else (false, fun _ => 0)

def slaveProcessReadRawDataCmd (gptSlaveHandle : List RslSlaveHandle) (slaveId : Nat) :
    List RslSlaveHandle × Option (Bool × (Nat → BitVec 8)) :=
  (gptSlaveHandle.modify slaveId fun handle => { handle with bValidData := false },
    gptSlaveHandle[slaveId]?.map slaveReadRawData)

def slaveProcessWriteRawDataCmd (gptSlaveHandle : List RslSlaveHandle)
    (slaveId : Nat) (writeRepeatCount : BitVec 32) (pWriteBuffer : Nat → BitVec 8) :
    List RslSlaveHandle :=
  gptSlaveHandle.modify slaveId fun handle =>
    { handle with
      writeRepeatCounter := writeRepeatCount
      rawWriteData := fun i => if i < 64 then pWriteBuffer i else handle.rawWriteData i }

end

/-!
# Runs of the RSL slave

Only `slaveRawReadDataToSaveData` clears the buffer that the bits are or-ed into.
A frame that a timeout abandons leaves its bits there for the next one.
-/

section

open Lib

/-- Byte `i` is the `i`-th group of five bits of the frame. -/
def HoldsGroups (bytes : Nat → BitVec 8) (frame : List Bool) : Prop :=
  ∀ i k, (bytes i).getLsbD k = (decide (k < 5) && frame.getD (5 * i + k) false)

/-- A completed frame has 64 groups, and they are what was saved. -/
structure FrameSaved (frame : List Bool) (saved : Nat → BitVec 8) : Prop where
  length : frame.length = 320
  groups : ∀ i < 64, ∀ k, (saved i).getLsbD k = (decide (k < 5) && frame.getD (5 * i + k) false)

structure RslSlaveHandle.Safe (handle : RslSlaveHandle) : Prop where
  saved : ∀ done ∈ handle.completed, FrameSaved done.1 done.2
  inside : ∀ index ∈ handle.accessed, index < 64

def RslSlaveHandle.TimesOut (gTickPerUs : BitVec 32) (handle : RslSlaveHandle)
    (input : RslSlaveInput) : Prop :=
  handle.bInit = true ∧ (handle.state = .readWaitingClk ∨ handle.state = .writeWaitingClk) ∧
    risingClk handle input = false ∧ 1000 * gTickPerUs ≤ input.waited

instance (gTickPerUs : BitVec 32) (handle : RslSlaveHandle) (input : RslSlaveInput) :
    Decidable (handle.TimesOut gTickPerUs input) :=
  inferInstanceAs (Decidable (_ ∧ _))

/-- No bit that was sampled since the buffer was last cleared is 1. -/
def RslSlaveHandle.ReadClear (handle : RslSlaveHandle) : Prop :=
  ∀ i < 64, handle.rawReadData i = 0

instance (handle : RslSlaveHandle) : Decidable handle.ReadClear :=
  inferInstanceAs (Decidable (∀ i < 64, _))

theorem gpioByte_getLsbD (value : Bool) (n : Nat) :
    (gpioByte value).getLsbD n = (decide (n = 0) && value) := by
  cases value with
  | false => simp [gpioByte]
  | true => simp [gpioByte, BitVec.getLsbD_one]

theorem getD_append_singleton (frame : List Bool) (bit : Bool) (n : Nat) :
    (frame ++ [bit]).getD n false = (frame.getD n false || (decide (n = frame.length) && bit)) := by
  by_cases before : n < frame.length
  · have other : n ≠ frame.length := by omega
    rw [List.getD_append _ _ _ _ before, decide_eq_false other]
    simp
  · have after : frame.length ≤ n := by omega
    rw [List.getD_append_right _ _ _ _ after, List.getD_eq_default _ _ after, Bool.false_or]
    by_cases last : n = frame.length
    · simp [last]
    · have beyond : [bit].length ≤ n - frame.length := by
        rw [List.length_singleton]
        omega
      rw [List.getD_eq_default _ _ beyond, decide_eq_false last, Bool.false_and]

variable {bytes : Nat → BitVec 8}

theorem HoldsGroups.nil (clear : ∀ i, bytes i = 0) : HoldsGroups bytes [] := by
  intro i k
  simp [clear i]

theorem HoldsGroups.clear_beyond {frame : List Bool}
    (holds : HoldsGroups bytes frame) (short : frame.length ≤ 320) {i : Nat}
    (beyond : 64 ≤ i) : bytes i = 0 := by
  apply BitVec.eq_of_getLsbD_eq
  intro k _
  have noBit : frame[5 * i + k]? = none := List.getElem?_eq_none (by omega)
  rw [holds i k]
  simp [noBit]

theorem HoldsGroups.append {frame : List Bool} (holds : HoldsGroups bytes frame) (bit : Bool) :
    HoldsGroups (orByte bytes (frame.length / 5) (gpioByte bit <<< (frame.length % 5)))
      (frame ++ [bit]) := by
  intro i k
  have within : frame.length % 5 < 5 := Nat.mod_lt _ (by decide)
  rw [getD_append_singleton]
  by_cases byte : i = frame.length / 5
  · subst byte
    rw [orByte, Function.update_self, BitVec.getLsbD_or, holds,
      BitVec.getLsbD_shiftLeft, gpioByte_getLsbD]
    by_cases place : k = frame.length % 5
    · have last : 5 * (frame.length / 5) + k = frame.length := by omega
      have inGroup : k < 5 := by omega
      have inByte : k < 8 := by omega
      simp [last, inGroup, inByte, ← place]
    · have notLast : 5 * (frame.length / 5) + k ≠ frame.length := by omega
      have notHere : k < frame.length % 5 ∨ k - frame.length % 5 ≠ 0 := by omega
      rcases notHere with low | high
      · simp [low, notLast]
      · simp [high, notLast]
  · rw [orByte_of_ne _ _ byte, holds]
    by_cases inGroup : k < 5
    · have notLast : 5 * i + k ≠ frame.length := by omega
      simp [notLast]
    · simp [inGroup]

/-! ## What is so of a handle between two passes -/

inductive MonitorPhase
  | null
  | read
  | write
  deriving DecidableEq

def MonitorState.phase : MonitorState → MonitorPhase
  | .nullState => .null
  | .readWaitingClk | .readDelay | .readData => .read
  | .writeWaitingClk | .writeDelay | .writeData => .write

namespace RslSlaveHandle

/-- The bits that the buffer is to have: none once a frame is over. -/
def pending (handle : RslSlaveHandle) : List Bool :=
  if handle.state.phase = .null then [] else handle.frame

structure Inv (handle : RslSlaveHandle) : Prop where
  bits : HoldsGroups handle.rawReadData handle.pending
  reading :
    handle.state.phase = .read →
      handle.frame.length < 320 ∧ handle.rawWriteIndex = 0 ∧
        handle.rawReadIndex = 8 * (handle.frame.length / 5) + handle.frame.length % 5
  writing :
    handle.state.phase = .write →
      handle.frame.length = 320 ∧ handle.rawWriteIndex < 512 ∧ handle.rawWriteIndex % 8 ≤ 5
  safe : handle.Safe

structure SameFrame (before after : RslSlaveHandle) : Prop where
  phase : after.state.phase = before.state.phase
  rawReadData : after.rawReadData = before.rawReadData
  frame : after.frame = before.frame
  rawReadIndex : after.rawReadIndex = before.rawReadIndex
  rawWriteIndex : after.rawWriteIndex = before.rawWriteIndex
  accessed : after.accessed = before.accessed
  completed : after.completed = before.completed

variable {handle after : RslSlaveHandle} {input : RslSlaveInput}
  {gTickPerUs : BitVec 32}

theorem Inv.congr (inv : handle.Inv) (same : SameFrame handle after) : after.Inv where
  bits := by
    rw [pending, same.phase, same.frame, same.rawReadData]
    exact inv.bits
  reading := by
    rw [same.phase, same.frame, same.rawReadIndex, same.rawWriteIndex]
    exact inv.reading
  writing := by
    rw [same.phase, same.frame, same.rawWriteIndex]
    exact inv.writing
  safe :=
    { saved := same.completed ▸ inv.safe.saved, inside := same.accessed ▸ inv.safe.inside }

theorem Inv.bits_frame (inv : handle.Inv) (busy : handle.state.phase ≠ .null) :
    HoldsGroups handle.rawReadData handle.frame := by
  have bits := inv.bits
  rwa [pending, if_neg busy] at bits

theorem Inv.frame_le (inv : handle.Inv) (busy : handle.state.phase ≠ .null) :
    handle.frame.length ≤ 320 := by
  cases phase : handle.state.phase with
  | null => exact absurd phase busy
  | read => exact Nat.le_of_lt (inv.reading phase).1
  | write => exact Nat.le_of_eq (inv.writing phase).1

theorem Inv.abandon (inv : handle.Inv) (clear : ∀ i, after.rawReadData i = 0)
    (state : after.state = .nullState) (accessed : after.accessed = handle.accessed)
    (completed : after.completed = handle.completed) : after.Inv where
  bits := by simpa [pending, state, MonitorState.phase] using HoldsGroups.nil clear
  reading := by simp [state, MonitorState.phase]
  writing := by simp [state, MonitorState.phase]
  safe :=
    { saved := completed ▸ inv.safe.saved, inside := accessed ▸ inv.safe.inside }

/-! ### `slaveRawReadDataToSaveData` -/

/-- The buffer has been moved up to byte `n`, and nothing else has changed. -/
structure Saved (before : RslSlaveHandle) (n : Nat) (after : RslSlaveHandle) :
    Prop where
  saved : ∀ i < n, after.saveRawReadData i = before.rawReadData i
  cleared : ∀ i < n, after.rawReadData i = 0
  rest : ∀ i, n ≤ i → after.rawReadData i = before.rawReadData i
  frame : after.frame = before.frame
  accessed : after.accessed = before.accessed
  completed : after.completed = before.completed

theorem saved_foldl (handle : RslSlaveHandle) (n : Nat) :
    Saved handle n ((List.range n).foldl slaveSaveByte handle) := by
  induction n with
  | zero => exact ⟨by simp, by simp, fun _ _ => rfl, rfl, rfl, rfl⟩
  | succ n ih =>
    rw [List.range_succ, List.foldl_append]
    obtain ⟨saved, cleared, rest, frame, accessed, completed⟩ := ih
    refine ⟨?_, ?_, ?_, frame, accessed, completed⟩
    · intro i inside
      by_cases last : i = n
      · simpa [slaveSaveByte, last] using rest n (Nat.le_refl n)
      · simpa [slaveSaveByte, Function.update_of_ne last] using saved i (by omega)
    · intro i inside
      by_cases last : i = n
      · simp [slaveSaveByte, last]
      · simpa [slaveSaveByte, Function.update_of_ne last] using cleared i (by omega)
    · intro i beyond
      have other : i ≠ n := by omega
      simpa [slaveSaveByte, Function.update_of_ne other] using rest i (by omega)

theorem monitorFrameEnd_spec (handle : RslSlaveHandle) :
    ∃ saved, Saved handle 64 saved ∧ (monitorFrameEnd handle).state = .nullState ∧
      (monitorFrameEnd handle).rawReadData = saved.rawReadData ∧
      (monitorFrameEnd handle).accessed = saved.accessed ∧
      (monitorFrameEnd handle).completed =
        saved.completed ++ [(saved.frame, saved.saveRawReadData)] := by
  refine ⟨_, saved_foldl handle 64, ?_⟩
  by_cases repeats : (slaveRawReadDataToSaveData handle).writeRepeatCounter ≠ 0
  · simp only [monitorFrameEnd, if_pos repeats]
    exact ⟨trivial, rfl, rfl, rfl⟩
  · simp only [monitorFrameEnd, if_neg repeats]
    exact ⟨trivial, rfl, rfl, rfl⟩

section

variable (inv : handle.Inv)

include inv

theorem Inv.frameEnd (phase : handle.state.phase = .write) (index : Nat) :
    ({ monitorFrameEnd handle with rawWriteIndex := index } : RslSlaveHandle).Inv := by
  obtain ⟨saved, moved, state, buffer, accessed, completed⟩ := monitorFrameEnd_spec handle
  have busy : handle.state.phase ≠ .null := by simp [phase]
  have bits := inv.bits_frame busy
  have clear : ∀ i, saved.rawReadData i = 0 := by
    intro i
    by_cases inside : i < 64
    · exact moved.cleared i inside
    · rw [moved.rest i (by omega)]
      exact bits.clear_beyond (inv.frame_le busy) (by omega)
  have frameSaved : FrameSaved saved.frame saved.saveRawReadData := by
    refine ⟨moved.frame ▸ (inv.writing phase).1, ?_⟩
    intro i inside k
    rw [moved.saved i inside, moved.frame]
    exact bits i k
  exact
    { bits := by simpa [pending, state, MonitorState.phase, buffer] using HoldsGroups.nil clear
      reading := by simp [state, MonitorState.phase]
      writing := by simp [state, MonitorState.phase]
      safe :=
        { saved := by
            intro done member
            dsimp only at member
            rw [completed, moved.completed] at member
            rcases List.mem_append.mp member with old | new
            · exact inv.safe.saved done old
            · rw [List.mem_singleton.mp new]
              exact frameSaved
          inside := by
            dsimp only
            rw [accessed, moved.accessed]
            exact inv.safe.inside } }

/-! ### The cases of the `switch` -/

theorem Inv.nullState (null : handle.state = .nullState) : (monitorNullState handle input).Inv where
  bits := by
    have bits := inv.bits
    simpa [pending, null, MonitorState.phase, monitorNullState] using bits
  reading := by simp [monitorNullState]
  writing := by simp [monitorNullState, MonitorState.phase]
  safe := ⟨inv.safe.saved, inv.safe.inside⟩

theorem Inv.readData (phase : handle.state.phase = .read) : (monitorReadData handle input).Inv := by
  obtain ⟨short, noWrite, index⟩ := inv.reading phase
  have within : handle.frame.length % 5 < 5 := Nat.mod_lt _ (by decide)
  have bitOffset : handle.rawReadIndex &&& 0x7 = handle.frame.length % 5 := by
    rw [and_seven, index]
    omega
  have bufferIndex : handle.rawReadIndex >>> 3 = handle.frame.length / 5 := by
    rw [shiftRight_three, index]
    omega
  have bits := (inv.bits_frame (by simp [phase])).append input.readDataGpio
  have inside :
      ∀ index ∈ handle.accessed ++ [handle.frame.length / 5], index < 64 := by
    intro index member
    rcases List.mem_append.mp member with old | new
    · exact inv.safe.inside index old
    · rw [List.mem_singleton.mp new]
      omega
  have length :
      (handle.frame ++ [input.readDataGpio]).length = handle.frame.length + 1 := by
    simp
  simp only [monitorReadData, bitOffset, bufferIndex]
  by_cases groupEnds : handle.frame.length % 5 = 4
  · rw [if_pos groupEnds]
    by_cases frameEnds : handle.frame.length / 5 = 63
    · rw [if_pos frameEnds]
      exact
        { bits := bits
          reading := by simp [MonitorState.phase]
          writing := fun _ => by
            dsimp only
            rw [length, noWrite]
            omega
          safe := ⟨inv.safe.saved, inside⟩ }
    · rw [if_neg frameEnds]
      exact
        { bits := bits
          reading := fun _ => by
            dsimp only
            rw [length, noWrite, index]
            omega
          writing := by simp [MonitorState.phase]
          safe := ⟨inv.safe.saved, inside⟩ }
  · rw [if_neg groupEnds]
    exact
      { bits := bits
        reading := fun _ => by
          dsimp only
          rw [length, noWrite, index]
          omega
        writing := by simp [MonitorState.phase]
        safe := ⟨inv.safe.saved, inside⟩ }

theorem Inv.readDelay (phase : handle.state.phase = .read) :
    (monitorReadDelay handle input).Inv := by
  unfold monitorReadDelay
  split
  · have same : SameFrame handle { handle with state := .readData } :=
      ⟨phase.symm, rfl, rfl, rfl, rfl, rfl, rfl⟩
    exact (inv.congr same).readData rfl
  · exact inv

theorem Inv.driveData (phase : handle.state.phase = .write) :
    (monitorDriveData handle input).Inv where
  bits := inv.bits
  reading := inv.reading
  writing := inv.writing
  safe :=
    { saved := inv.safe.saved
      inside := by
        intro index member
        simp only [monitorDriveData, shiftRight_three] at member
        split at member
        · exact inv.safe.inside index member
        · rcases List.mem_append.mp member with old | new
          · exact inv.safe.inside index old
          · have inRange := (inv.writing phase).2.1
            rw [List.mem_singleton.mp new]
            omega }

theorem Inv.writeData (phase : handle.state.phase = .write) :
    (monitorWriteData handle input).Inv := by
  have driven : (monitorDriveData handle input).Inv := inv.driveData phase
  obtain ⟨length, inRange, offset⟩ := inv.writing phase
  simp only [monitorWriteData, and_seven, shiftRight_three]
  by_cases more : handle.rawWriteIndex % 8 < 5
  · rw [if_pos more]
    exact
      { bits := driven.bits_frame (by simp [monitorDriveData, phase])
        reading := by simp [MonitorState.phase]
        writing := fun _ => by
          refine ⟨length, ?_, ?_⟩
          · change handle.rawWriteIndex + 1 < 512
            omega
          · change (handle.rawWriteIndex + 1) % 8 ≤ 5
            omega
        safe := ⟨driven.safe.saved, driven.safe.inside⟩ }
  · rw [if_neg more]
    by_cases frameEnds : handle.rawWriteIndex / 8 = 63
    · rw [if_pos frameEnds]
      exact driven.frameEnd phase _
    · rw [if_neg frameEnds]
      exact
        { bits := driven.bits_frame (by simp [monitorDriveData, phase])
          reading := by simp [MonitorState.phase]
          writing := fun _ => by
            refine ⟨length, ?_, ?_⟩
            · change handle.rawWriteIndex + 3 < 512
              omega
            · change (handle.rawWriteIndex + 3) % 8 ≤ 5
              omega
          safe := ⟨driven.safe.saved, driven.safe.inside⟩ }

theorem Inv.writeDelay (phase : handle.state.phase = .write) :
    (monitorWriteDelay handle input).Inv := by
  unfold monitorWriteDelay
  split
  · have same : SameFrame handle { handle with state := .writeData } :=
      ⟨phase.symm, rfl, rfl, rfl, rfl, rfl, rfl⟩
    exact (inv.congr same).writeData rfl
  · exact inv

/-- A timeout abandons a frame, which the condition requires to have no bit in
the buffer. -/
theorem Inv.timeout (busy : handle.state.phase ≠ .null) (clear : handle.ReadClear)
    (state : after.state = .nullState) (buffer : after.rawReadData = handle.rawReadData)
    (accessed : after.accessed = handle.accessed) (completed : after.completed = handle.completed) :
    after.Inv := by
  refine inv.abandon ?_ state accessed completed
  intro i
  rw [buffer]
  by_cases inside : i < 64
  · exact clear i inside
  · exact (inv.bits_frame busy).clear_beyond (inv.frame_le busy) (by omega)

theorem Inv.readWaitingClk (init : handle.bInit = true) (state : handle.state = .readWaitingClk)
    (allowed : handle.TimesOut gTickPerUs input → handle.ReadClear) :
    (monitorReadWaitingClk gTickPerUs handle input).Inv := by
  have phase : handle.state.phase = .read := by simp [state, MonitorState.phase]
  unfold monitorReadWaitingClk
  split
  · refine Inv.readDelay (inv.congr ?_) rfl
    exact ⟨phase.symm, rfl, rfl, rfl, rfl, rfl, rfl⟩
  · next steady =>
    split
    · next late =>
      have clear := allowed ⟨init, .inl state, by simpa using steady, late⟩
      exact inv.timeout (by simp [phase]) clear rfl rfl rfl rfl
    · exact inv

theorem Inv.writeWaitingClk (init : handle.bInit = true) (state : handle.state = .writeWaitingClk)
    (allowed : handle.TimesOut gTickPerUs input → handle.ReadClear) :
    (monitorWriteWaitingClk gTickPerUs handle input).Inv := by
  have phase : handle.state.phase = .write := by simp [state, MonitorState.phase]
  unfold monitorWriteWaitingClk
  split
  · refine Inv.writeDelay (inv.congr ?_) rfl
    exact ⟨phase.symm, rfl, rfl, rfl, rfl, rfl, rfl⟩
  · next steady =>
    split
    · next late =>
      have clear := allowed ⟨init, .inr state, by simpa using steady, late⟩
      exact inv.timeout (by simp [phase]) clear rfl rfl rfl rfl
    · exact inv

theorem Inv.monitor (allowed : handle.TimesOut gTickPerUs input → handle.ReadClear) :
    (monitorHandle gTickPerUs handle input).Inv := by
  unfold monitorHandle
  split
  · next init =>
    split
    · next state => exact inv.nullState state
    · next state => exact inv.readWaitingClk init state allowed
    · next state => exact inv.readDelay (by simp [state, MonitorState.phase])
    · next state => exact inv.readData (by simp [state, MonitorState.phase])
    · next state => exact inv.writeWaitingClk init state allowed
    · next state => exact inv.writeDelay (by simp [state, MonitorState.phase])
    · next state => exact inv.writeData (by simp [state, MonitorState.phase])
  · exact inv

end

/-- A handle as it is before its first pass, initialised or not. -/
structure Fresh (handle : RslSlaveHandle) : Prop where
  state : handle.state = .nullState
  rawReadData : ∀ i, handle.rawReadData i = 0
  accessed : handle.accessed = []
  completed : handle.completed = []

theorem Fresh.inv (fresh : handle.Fresh) : handle.Inv where
  bits := by
    simpa [pending, fresh.state, MonitorState.phase] using HoldsGroups.nil fresh.rawReadData
  reading := by simp [fresh.state, MonitorState.phase]
  writing := by simp [fresh.state, MonitorState.phase]
  safe :=
    { saved := by simp [fresh.completed]
      inside := by simp [fresh.accessed] }

end RslSlaveHandle

/-! ## Runs -/

/-- A call of `slaveMonitorMasterInput`, or a command of the host between two
calls. -/
inductive RslSlaveEvent
  | monitor (inputs : Nat → RslSlaveInput)
  | readRawData (slaveId : Nat)
  | writeRawData (slaveId : Nat) (writeRepeatCount : BitVec 32) (pWriteBuffer : Nat → BitVec 8)

def rslSlaveStep (gTickPerUs : BitVec 32) (gptSlaveHandle : List RslSlaveHandle) :
    RslSlaveEvent → List RslSlaveHandle
  | .monitor inputs => slaveMonitorMasterInput gTickPerUs gptSlaveHandle inputs
  | .readRawData slaveId => (slaveProcessReadRawDataCmd gptSlaveHandle slaveId).1
  | .writeRawData slaveId writeRepeatCount pWriteBuffer =>
    slaveProcessWriteRawDataCmd gptSlaveHandle slaveId writeRepeatCount pWriteBuffer

def RslSlaveAllowed (gTickPerUs : BitVec 32) (gptSlaveHandle : List RslSlaveHandle) :
    RslSlaveEvent → Prop
  | .monitor inputs =>
    ∀ (slaveId : Nat) (inRange : slaveId < gptSlaveHandle.length),
      gptSlaveHandle[slaveId].TimesOut gTickPerUs (inputs slaveId) →
        gptSlaveHandle[slaveId].ReadClear
  | _ => True

instance RslSlaveAllowed.decidable (gTickPerUs : BitVec 32) (gptSlaveHandle : List RslSlaveHandle) :
    ∀ event : RslSlaveEvent, Decidable (RslSlaveAllowed gTickPerUs gptSlaveHandle event)
  | .monitor inputs =>
    inferInstanceAs
      (Decidable
        (∀ (slaveId : Nat) (inRange : slaveId < gptSlaveHandle.length),
          gptSlaveHandle[slaveId].TimesOut gTickPerUs (inputs slaveId) →
            gptSlaveHandle[slaveId].ReadClear))
  | .readRawData _ | .writeRawData _ _ _ => inferInstanceAs (Decidable True)

def RslSlavesInv (gptSlaveHandle : List RslSlaveHandle) : Prop :=
  ∀ handle ∈ gptSlaveHandle, handle.Inv

variable {gptSlaveHandle : List RslSlaveHandle}

theorem mem_modify_sameFrame {slaveId : Nat} {change : RslSlaveHandle → RslSlaveHandle}
    {handle : RslSlaveHandle} (member : handle ∈ gptSlaveHandle.modify slaveId change)
    (same : ∀ before, RslSlaveHandle.SameFrame before (change before)) :
    ∃ before ∈ gptSlaveHandle, RslSlaveHandle.SameFrame before handle := by
  obtain ⟨index, inRange, rfl⟩ := List.mem_iff_getElem.mp member
  rw [List.length_modify] at inRange
  refine ⟨gptSlaveHandle[index], List.getElem_mem inRange, ?_⟩
  rw [List.getElem_modify]
  split
  · exact same _
  · exact ⟨rfl, rfl, rfl, rfl, rfl, rfl, rfl⟩

theorem rslSlaveStep_inv {gTickPerUs : BitVec 32} {event : RslSlaveEvent}
    (inv : RslSlavesInv gptSlaveHandle)
    (allowed : RslSlaveAllowed gTickPerUs gptSlaveHandle event) :
    RslSlavesInv (rslSlaveStep gTickPerUs gptSlaveHandle event) := by
  intro handle member
  cases event with
  | monitor inputs =>
    obtain ⟨slaveId, inRange, rfl⟩ := List.mem_mapIdx.mp member
    have here := inv _ (List.getElem_mem inRange)
    exact here.monitor (allowed slaveId inRange)
  | readRawData slaveId | writeRawData slaveId writeRepeatCount pWriteBuffer =>
    obtain ⟨before, old, same⟩ := mem_modify_sameFrame member fun _ =>
      ⟨rfl, rfl, rfl, rfl, rfl, rfl, rfl⟩
    exact (inv before old).congr same

def quickHandle : RslSlaveHandle :=
  { state := .nullState
    bInit := true
    firstReadDelayTickCount := 0
    readPeriodTickCount := 0
    firstWriteDelayTickCount := 0
    writePeriodTickCount := 0
    checkTime := 0
    delayTicks := 0
    rawReadIndex := 0
    rawWriteIndex := 0
    writeRepeatCounter := 0
    bValidData := false
    prevClkPinVal := false
    rawWriteData := fun _ => 0
    rawReadData := fun _ => 0
    saveRawReadData := fun _ => 0
    writeDataGpioDir := true
    writeDataGpioValue := false
    frame := []
    accessed := []
    completed := [] }

theorem quickHandle_fresh : quickHandle.Fresh := ⟨rfl, fun _ => rfl, rfl, rfl⟩

def bitEvent (bit : Bool) : RslSlaveEvent :=
  .monitor fun _ =>
    { clkGpio := true
      readDataGpio := bit
      curTimer := 0
      waited := 0
      delayed := 0 }

def timeoutEvent : RslSlaveEvent :=
  .monitor fun _ =>
    { clkGpio := false
      readDataGpio := false
      curTimer := 1000
      waited := 1000
      delayed := 1000 }

def abandonedEvents (first : Bool) : List RslSlaveEvent :=
  bitEvent false :: bitEvent first :: List.replicate 4 (bitEvent false) ++ [timeoutEvent]

end

end IteSdk.AltCpu
