import Mathlib.Logic.Function.Basic

/-!
# The pattern generator

Commands of the host, already in the byte order of the ALT CPU, and the passes of
`patternGenGeneratePattern`, with the timer as their input.  `log` is what a handle
has accepted and done so far.
-/

namespace IteSdk.AltCpu

inductive PatternGenState
  | null
  | write
  | writeDelay
  deriving DecidableEq

structure PatternWriteData where
  value : BitVec 16
  period : BitVec 16
  deriving DecidableEq

structure Pattern where
  entries : List PatternWriteData
  sendCount : BitVec 32
  deriving DecidableEq

inductive PatternGenLog
  | accept (pattern : Pattern)
  | stop
  | update (sendCount : BitVec 32)
  | begin
  | output (entry : PatternWriteData)
  | finish
  deriving DecidableEq

/-- The values of `DEFAULT_GPIO_VALUE`. -/
def gpioKeepLastValue : BitVec 32 := 2
def gpioInputMode : BitVec 32 := 3

def infiniteSendCount : BitVec 32 := 0xFFFFFFFF

def maxWriteDataCount : Nat := 128

structure PatternGenHandle where
  bValid : Bool
  bRun : Bool
  curTime : BitVec 32
  checkTickCount : BitVec 32
  defaultGpioValue : BitVec 32
  timeUnitInUs : BitVec 32
  tWriteData : Nat → PatternWriteData
  validDataCount : Nat
  sendCount : BitVec 32
  writeIndex : Nat
  tTmpWriteData : Nat → PatternWriteData
  tmpValidDataCount : Nat
  tmpSendCount : BitVec 32
  bInputMode : Bool
  state : PatternGenState
  gpioDir : Bool
  gpioValue : BitVec 32
  log : List PatternGenLog

/-- `PATTERN_GEN_WRITE_CMD_DATA` without the id. -/
structure PatternGenWriteCmd where
  validDataCount : Nat
  sendCount : BitVec 32
  tWriteData : Nat → PatternWriteData

def patternEntries (tWriteData : Nat → PatternWriteData) (count : Nat) : List PatternWriteData :=
  (List.range count).map tWriteData

/-- The copy loops: the first `count` elements of `source` over `target`. -/
def copyEntries (source target : Nat → PatternWriteData) (count : Nat) : Nat → PatternWriteData :=
  (List.range count).foldl (fun copied i => Function.update copied i (source i)) target

def PatternGenWriteCmd.pattern (command : PatternGenWriteCmd) : Pattern where
  entries := patternEntries command.tWriteData command.validDataCount
  sendCount := command.sendCount

/-- The test of `patternGenProcessWriteCmd`. -/
def PatternGenHandle.Accepts (handle : PatternGenHandle) (command : PatternGenWriteCmd) : Prop :=
  handle.bValid = true ∧ command.sendCount ≠ 0 ∧ command.validDataCount ≠ 0 ∧
    command.validDataCount < maxWriteDataCount
deriving Decidable

def patternGenProcessWriteCmd (handle : PatternGenHandle)
    (command : PatternGenWriteCmd) : PatternGenHandle :=
  if handle.Accepts command then
    let log := handle.log ++ [.accept command.pattern]
    if handle.bRun = false ∨ handle.sendCount = 0 then
      { handle with
        sendCount := command.sendCount
        validDataCount := command.validDataCount
        tWriteData := copyEntries command.tWriteData handle.tWriteData command.validDataCount
        bRun := true
        log := log }
    else
      { handle with
        tmpSendCount := command.sendCount
        tmpValidDataCount := command.validDataCount
        tTmpWriteData := copyEntries command.tWriteData handle.tTmpWriteData handle.validDataCount
        bRun := true
        log := log }
  else
    handle

def patternGenProcessStopCmd (handle : PatternGenHandle) : PatternGenHandle :=
  if handle.bValid ∧ handle.bRun then
    { handle with
      bRun := false
      state := .null
      curTime := 0
      writeIndex := 0
      log := handle.log ++ [.stop] }
  else
    handle

def patternGenProcessUpdateSendCountCmd (handle : PatternGenHandle)
    (sendCount : BitVec 32) : PatternGenHandle :=
  if handle.bValid then
    { handle with
      bRun := true
      state := .null
      curTime := 0
      writeIndex := 0
      sendCount := sendCount
      log := handle.log ++ [.update sendCount] }
  else
    handle

/-- What a pass reads of the timer: `getCurTimer`, and `getDuration` since
`curTime`. -/
structure PatternGenTimer where
  curTimer : BitVec 32
  duration : BitVec 32
  deriving DecidableEq

/-- The pending write, if there is one, becomes the current one. -/
def patternGenLoad (handle : PatternGenHandle) : PatternGenHandle :=
  if handle.tmpSendCount ≠ 0 ∧ handle.tmpValidDataCount ≠ 0 then
    { handle with
      tWriteData := copyEntries handle.tTmpWriteData handle.tWriteData handle.tmpValidDataCount
      sendCount := handle.tmpSendCount
      validDataCount := handle.tmpValidDataCount
      tmpSendCount := 0
      tmpValidDataCount := 0 }
  else
    handle

def patternGenNull (handle : PatternGenHandle) : PatternGenHandle :=
  let loaded := patternGenLoad handle
  { loaded with
    writeIndex := 0
    state := .write
    gpioDir := if loaded.bInputMode then false else loaded.gpioDir
    bInputMode := false
    log := loaded.log ++ [.begin] }

def patternGenWrite (gTickPerUs : BitVec 32) (handle : PatternGenHandle)
    (timer : PatternGenTimer) : PatternGenHandle :=
  let entry := handle.tWriteData handle.writeIndex
  { handle with
    curTime := timer.curTimer
    gpioValue := entry.value.setWidth 32
    checkTickCount := entry.period.setWidth 32 * handle.timeUnitInUs * gTickPerUs
    state := .writeDelay
    log := handle.log ++ [.output entry] }

def patternGenDefault (handle : PatternGenHandle) : PatternGenHandle :=
  if handle.defaultGpioValue = gpioInputMode then
    { handle with gpioDir := true, bInputMode := true }
  else if handle.defaultGpioValue ≠ gpioKeepLastValue then
    { handle with gpioValue := handle.defaultGpioValue }
  else
    handle

/-- `sendCount--`, unless it is infinite. -/
def lessSendCount (sendCount : BitVec 32) : BitVec 32 :=
  if sendCount ≠ infiniteSendCount then sendCount - 1 else sendCount

def patternGenFinish (handle : PatternGenHandle) : PatternGenHandle :=
  let ended := { handle with sendCount := lessSendCount handle.sendCount }
  { (if ended.sendCount = 0 then patternGenDefault ended else ended) with
    state := .null
    log := handle.log ++ [.finish] }

def patternGenWriteDelay (handle : PatternGenHandle) (timer : PatternGenTimer) : PatternGenHandle :=
  if handle.checkTickCount ≤ timer.duration then
    let next := { handle with writeIndex := handle.writeIndex + 1 }
    if next.validDataCount ≤ next.writeIndex then patternGenFinish next
    else { next with state := .write }
  else
    handle

/-- The body of the loop of `patternGenGeneratePattern`. -/
def patternGenPass (gTickPerUs : BitVec 32) (handle : PatternGenHandle)
    (timer : PatternGenTimer) : PatternGenHandle :=
  if handle.bRun ∧ handle.sendCount ≠ 0 then
    match handle.state with
    | .null => patternGenNull handle
    | .write => patternGenWrite gTickPerUs handle timer
    | .writeDelay => patternGenWriteDelay handle timer
  else
    handle

/-- A command for one handle, or a call of `patternGenGeneratePattern` with what
the pass of each handle reads. -/
inductive PatternGenEvent
  | write (patternGenId : Nat) (command : PatternGenWriteCmd)
  | stop (patternGenId : Nat)
  | updateSendCount (patternGenId : Nat) (sendCount : BitVec 32)
  | generate (timers : Nat → PatternGenTimer)

/-- A command with an id that is out of range changes nothing. -/
def patternGenStep (gTickPerUs : BitVec 32) (gptPatternGenHandle : List PatternGenHandle) :
    PatternGenEvent → List PatternGenHandle
  | .write patternGenId command =>
    gptPatternGenHandle.modify patternGenId (patternGenProcessWriteCmd · command)
  | .stop patternGenId =>
    gptPatternGenHandle.modify patternGenId patternGenProcessStopCmd
  | .updateSendCount patternGenId sendCount =>
    gptPatternGenHandle.modify patternGenId (patternGenProcessUpdateSendCountCmd · sendCount)
  | .generate timers =>
    gptPatternGenHandle.mapIdx fun patternGenId handle =>
      patternGenPass gTickPerUs handle (timers patternGenId)

end IteSdk.AltCpu
