import IteSdk.AltCpu.RslSlave
import Mathlib.Logic.Function.Iterate

/-!
# A frame after an abandoned one

Whatever bits a timeout has left in the buffer, a frame of zeros after it is saved
with these bits.
-/

namespace IteSdk.AltCpu

open Lib

namespace RslSlaveHandle

structure Quick (handle : RslSlaveHandle) : Prop where
  bInit : handle.bInit = true
  firstReadDelayTickCount : handle.firstReadDelayTickCount = 0
  readPeriodTickCount : handle.readPeriodTickCount = 0
  firstWriteDelayTickCount : handle.firstWriteDelayTickCount = 0
  writePeriodTickCount : handle.writePeriodTickCount = 0
  delayTicks : handle.delayTicks = 0
  prevClkPinVal : handle.prevClkPinVal = false

variable {handle : RslSlaveHandle} {buffer : Nat → BitVec 8} {n : Nat}
  {input : RslSlaveInput}
  (gTickPerUs : BitVec 32)

theorem Quick.monitor_read (quick : handle.Quick) (phase : handle.state.phase = .read)
    (high : input.clkGpio = true) :
    ∃ sampling, SameFrame handle sampling ∧ sampling.Quick ∧
      monitorHandle gTickPerUs handle input = monitorReadData sampling input := by
  have rising : risingClk handle input = true := by simp [risingClk, high, quick.prevClkPinVal]
  cases state : handle.state with
  | readWaitingClk =>
    let sampling : RslSlaveHandle :=
      { handle with
        state := .readData
        prevClkPinVal := false
        delayTicks := handle.firstReadDelayTickCount
        checkTime := input.curTimer }
    refine ⟨sampling, ⟨phase.symm, rfl, rfl, rfl, rfl, rfl, rfl⟩, ?_, ?_⟩
    · exact
        { quick with
          delayTicks := quick.firstReadDelayTickCount
          prevClkPinVal := rfl }
    · simp [monitorHandle, quick.bInit, state, monitorReadWaitingClk, rising,
        monitorReadDelay, quick.firstReadDelayTickCount, sampling]
  | readDelay =>
    let sampling : RslSlaveHandle := { handle with state := .readData }
    refine ⟨sampling, ⟨phase.symm, rfl, rfl, rfl, rfl, rfl, rfl⟩, ?_, ?_⟩
    · exact { quick with }
    · simp [monitorHandle, quick.bInit, state, monitorReadDelay, quick.delayTicks, sampling]
  | readData =>
    refine ⟨handle, ⟨rfl, rfl, rfl, rfl, rfl, rfl, rfl⟩, quick, ?_⟩
    simp [monitorHandle, quick.bInit, state]
  | nullState | writeWaitingClk | writeDelay | writeData =>
    simp [state, MonitorState.phase] at phase

theorem Quick.monitor_write (quick : handle.Quick)
    (phase : handle.state.phase = .write) (high : input.clkGpio = true) :
    ∃ driving, SameFrame handle driving ∧ driving.Quick ∧
      monitorHandle gTickPerUs handle input = monitorWriteData driving input := by
  have rising : risingClk handle input = true := by simp [risingClk, high, quick.prevClkPinVal]
  cases state : handle.state with
  | writeWaitingClk =>
    let driving : RslSlaveHandle :=
      { handle with
        state := .writeData
        prevClkPinVal := false
        delayTicks := handle.firstWriteDelayTickCount
        checkTime := input.curTimer }
    refine ⟨driving, ⟨phase.symm, rfl, rfl, rfl, rfl, rfl, rfl⟩, ?_, ?_⟩
    · exact
        { quick with
          delayTicks := quick.firstWriteDelayTickCount
          prevClkPinVal := rfl }
    · simp [monitorHandle, quick.bInit, state, monitorWriteWaitingClk, rising,
        monitorWriteDelay, quick.firstWriteDelayTickCount, driving]
  | writeDelay =>
    let driving : RslSlaveHandle := { handle with state := .writeData }
    refine ⟨driving, ⟨phase.symm, rfl, rfl, rfl, rfl, rfl, rfl⟩, ?_, ?_⟩
    · exact { quick with }
    · simp [monitorHandle, quick.bInit, state, monitorWriteDelay, quick.delayTicks, driving]
  | writeData =>
    refine ⟨handle, ⟨rfl, rfl, rfl, rfl, rfl, rfl, rfl⟩, quick, ?_⟩
    simp [monitorHandle, quick.bInit, state]
  | nullState | readWaitingClk | readDelay | readData => simp [state, MonitorState.phase] at phase

/-- After `n` bits of a frame of zeros that began with `buffer`. -/
structure ZeroRead (buffer : Nat → BitVec 8) (n : Nat) (handle : RslSlaveHandle) :
    Prop where
  quick : handle.Quick
  rawReadData : handle.rawReadData = buffer
  frame : handle.frame = List.replicate n false
  completed : handle.completed = []
  phase : handle.state.phase = if n < 320 then .read else .write
  rawReadIndex : n < 320 → handle.rawReadIndex = 8 * (n / 5) + n % 5
  rawWriteIndex : handle.rawWriteIndex = 0

theorem ZeroRead.step (zeros : ZeroRead buffer n handle) (short : n < 320)
    (high : input.clkGpio = true) (low : input.readDataGpio = false) :
    ZeroRead buffer (n + 1) (monitorHandle gTickPerUs handle input) := by
  have phase : handle.state.phase = .read := by rw [zeros.phase, if_pos short]
  obtain ⟨sampling, same, quick, pass⟩ := zeros.quick.monitor_read gTickPerUs phase high
  have within : n % 5 < 5 := Nat.mod_lt _ (by decide)
  have index : sampling.rawReadIndex = 8 * (n / 5) + n % 5 := by
    rw [same.rawReadIndex, zeros.rawReadIndex short]
  have bitOffset : sampling.rawReadIndex &&& 0x7 = n % 5 := by
    rw [and_seven, index]
    omega
  have bufferIndex : sampling.rawReadIndex >>> 3 = n / 5 := by
    rw [shiftRight_three, index]
    omega
  have noBit : gpioByte false <<< (n % 5) = 0 := by simp [gpioByte]
  have buffer_ : orByte sampling.rawReadData (n / 5) 0 = buffer := by
    rw [orByte_zero, same.rawReadData, zeros.rawReadData]
  have frame : sampling.frame ++ [false] = List.replicate (n + 1) false := by
    rw [same.frame, zeros.frame, List.replicate_succ']
  rw [pass]
  simp only [monitorReadData, bitOffset, bufferIndex, low, noBit, buffer_, frame]
  by_cases groupEnds : n % 5 = 4
  · rw [if_pos groupEnds]
    exact
      { quick := { quick with }
        rawReadData := rfl
        frame := rfl
        completed := same.completed.trans zeros.completed
        phase := by
          by_cases frameEnds : n / 5 = 63
          · have full : ¬ n + 1 < 320 := by omega
            rw [if_neg full]
            simp [frameEnds, MonitorState.phase]
          · have more : n + 1 < 320 := by omega
            rw [if_pos more]
            simp [frameEnds, MonitorState.phase]
        rawReadIndex := by
          intro _
          change sampling.rawReadIndex + 4 = 8 * ((n + 1) / 5) + (n + 1) % 5
          omega
        rawWriteIndex := same.rawWriteIndex.trans zeros.rawWriteIndex }
  · rw [if_neg groupEnds]
    have more : n + 1 < 320 := by omega
    exact
      { quick := { quick with delayTicks := quick.readPeriodTickCount }
        rawReadData := rfl
        frame := rfl
        completed := same.completed.trans zeros.completed
        phase := (if_pos more).symm
        rawReadIndex := by
          intro _
          change sampling.rawReadIndex + 1 = 8 * ((n + 1) / 5) + (n + 1) % 5
          omega
        rawWriteIndex := same.rawWriteIndex.trans zeros.rawWriteIndex }

/-- After a frame of zeros and `n` steps of the answer. -/
structure ZeroWrite (buffer : Nat → BitVec 8) (n : Nat) (handle : RslSlaveHandle) :
    Prop where
  quick : handle.Quick
  rawReadData : handle.rawReadData = buffer
  frame : handle.frame = List.replicate 320 false
  completed : handle.completed = []
  phase : handle.state.phase = .write
  rawWriteIndex : handle.rawWriteIndex = 8 * (n / 6) + n % 6

theorem ZeroRead.answers (zeros : ZeroRead buffer 320 handle) : ZeroWrite buffer 0 handle where
  quick := zeros.quick
  rawReadData := zeros.rawReadData
  frame := zeros.frame
  completed := zeros.completed
  phase := zeros.phase
  rawWriteIndex := zeros.rawWriteIndex

theorem ZeroWrite.step (zeros : ZeroWrite buffer n handle) (short : n < 383)
    (high : input.clkGpio = true) :
    ZeroWrite buffer (n + 1) (monitorHandle gTickPerUs handle input) := by
  obtain ⟨driving, same, quick, pass⟩ := zeros.quick.monitor_write gTickPerUs zeros.phase high
  have index : driving.rawWriteIndex = 8 * (n / 6) + n % 6 := by
    rw [same.rawWriteIndex, zeros.rawWriteIndex]
  rw [pass]
  simp only [monitorWriteData, and_seven, shiftRight_three]
  have driven : (monitorDriveData driving input).Quick :=
    { quick with
      delayTicks := by simp [monitorDriveData, quick.writePeriodTickCount, quick.delayTicks] }
  by_cases more : driving.rawWriteIndex % 8 < 5
  · rw [if_pos more]
    exact
      { quick := { driven with delayTicks := driven.writePeriodTickCount }
        rawReadData := same.rawReadData.trans zeros.rawReadData
        frame := same.frame.trans zeros.frame
        completed := same.completed.trans zeros.completed
        phase := rfl
        rawWriteIndex := by
          change driving.rawWriteIndex + 1 = 8 * ((n + 1) / 6) + (n + 1) % 6
          omega }
  · have notLast : driving.rawWriteIndex / 8 ≠ 63 := by omega
    rw [if_neg more, if_neg notLast]
    exact
      { quick := { driven with }
        rawReadData := same.rawReadData.trans zeros.rawReadData
        frame := same.frame.trans zeros.frame
        completed := same.completed.trans zeros.completed
        phase := rfl
        rawWriteIndex := by
          change driving.rawWriteIndex + 3 = 8 * ((n + 1) / 6) + (n + 1) % 6
          omega }

theorem ZeroWrite.last (zeros : ZeroWrite buffer 383 handle) (high : input.clkGpio = true) :
    ∃ saved,
      (monitorHandle gTickPerUs handle input).completed = [(List.replicate 320 false, saved)] ∧
        ∀ i < 64, saved i = buffer i := by
  obtain ⟨driving, same, quick, pass⟩ := zeros.quick.monitor_write gTickPerUs zeros.phase high
  have index : driving.rawWriteIndex = 509 := by rw [same.rawWriteIndex, zeros.rawWriteIndex]
  obtain ⟨saved, moved, -, -, -, completed⟩ := monitorFrameEnd_spec (monitorDriveData driving input)
  refine ⟨saved.saveRawReadData, ?_, ?_⟩
  · rw [pass]
    simp only [monitorWriteData, and_seven, shiftRight_three, index]
    change (monitorFrameEnd (monitorDriveData driving input)).completed = _
    have frame : (monitorDriveData driving input).frame = driving.frame := rfl
    have none_ : (monitorDriveData driving input).completed = driving.completed := rfl
    rw [completed, moved.completed, moved.frame, frame, none_, same.frame,
      same.completed, zeros.frame, zeros.completed, List.nil_append]
  · intro i inside
    have buffer_ : (monitorDriveData driving input).rawReadData = buffer :=
      same.rawReadData.trans zeros.rawReadData
    rw [moved.saved i inside, buffer_]

theorem Quick.zero_frame (quick : handle.Quick) (input : RslSlaveInput)
    (null : handle.state = .nullState)
    (completed : handle.completed = []) (high : input.clkGpio = true)
    (low : input.readDataGpio = false) :
    ∃ saved,
      ((monitorHandle gTickPerUs · input)^[705] handle).completed =
          [(List.replicate 320 false, saved)] ∧
        ∀ i < 64, saved i = handle.rawReadData i := by
  let pass : RslSlaveHandle → RslSlaveHandle := (monitorHandle gTickPerUs · input)
  have start : ZeroRead handle.rawReadData 0 (pass^[1] handle) := by
    have first : pass^[1] handle = monitorNullState handle input := by
      simp [pass, monitorHandle, quick.bInit, null]
    rw [first]
    exact
      { quick := { quick with prevClkPinVal := rfl }
        rawReadData := rfl
        frame := rfl
        completed := completed
        phase := rfl
        rawReadIndex := fun _ => rfl
        rawWriteIndex := rfl }
  have reads :
      ∀ n ≤ 320, ZeroRead handle.rawReadData n (pass^[n] (pass^[1] handle)) := by
    intro n
    induction n with
    | zero => exact fun _ => start
    | succ n ih =>
      intro inFrame
      rw [Function.iterate_succ_apply']
      exact (ih (by omega)).step gTickPerUs inFrame high low
  have full := reads 320 (Nat.le_refl 320)
  have writes :
      ∀ n ≤ 383, ZeroWrite handle.rawReadData n (pass^[n] (pass^[320] (pass^[1] handle))) := by
    intro n
    induction n with
    | zero =>
      intro _
      rw [Function.iterate_zero_apply]
      exact full.answers
    | succ n ih =>
      intro inAnswer
      rw [Function.iterate_succ_apply']
      exact (ih (by omega)).step gTickPerUs inAnswer high
  have split :
      pass^[705] handle = pass (pass^[383] (pass^[320] (pass^[1] handle))) := by
    rw [← Function.iterate_add_apply, ← Function.iterate_add_apply,
      ← Function.iterate_succ_apply' pass]
  obtain ⟨saved, ends, same⟩ := (writes 383 (Nat.le_refl 383)).last gTickPerUs high
  exact ⟨saved, (congrArg RslSlaveHandle.completed split).trans ends, same⟩

end RslSlaveHandle

/-- What `bitEvent` gives each handle to read. -/
def bitInput (bit : Bool) : RslSlaveInput :=
  { clkGpio := true
    readDataGpio := bit
    curTimer := 0
    waited := 0
    delayed := 0 }

theorem bitEvent_foldl (gTickPerUs : BitVec 32) (bit : Bool) (n : Nat) (handle : RslSlaveHandle) :
    (List.replicate n (bitEvent bit)).foldl (rslSlaveStep gTickPerUs) [handle] =
      [(monitorHandle gTickPerUs · (bitInput bit))^[n] handle] := by
  induction n generalizing handle with
  | zero => rfl
  | succ n ih =>
    rw [List.replicate_succ, List.foldl_cons, Function.iterate_succ_apply]
    exact ih _

end IteSdk.AltCpu
