import IteSdk.Lib.Transition
import Mathlib.Data.BitVec

/-!
# The infrared decoder

`IrProbe` of `itp_ir.c` with `CFG_IR_REPEAT`, for types of 32 bits that begin with the
lowest one.  `irRecvCodeH` is never read then.
-/

namespace IteSdk.Itp

open Lib

/-- A row of `irThresholds`; `IrCalcThresholds` makes it begin at one or later. -/
structure IrRange where
  min : Int
  max : Int
  positive : 1 ≤ min

def IrRange.Has (range : IrRange) (signal : Int) : Prop :=
  range.min ≤ signal ∧ signal ≤ range.max
deriving Decidable

/-- `irThresholds`, which are pairwise disjoint.  The last maximum is `MAX_VAL`. -/
structure IrThresholds where
  waitStart : IrRange
  waitStartRepeatKey : IrRange
  waitBit : IrRange
  waitBitOne : IrRange
  apart :
    [waitStart, waitStartRepeatKey, waitBit, waitBitOne].Pairwise fun one other =>
      one.max < other.min ∨ other.max < one.min

def maxVal : Int := 2 ^ 10 - 1

def repeatThresholdBegin : Nat := 5
def repeatThresholdSpdup : Nat := 2
def repeatThresholdHold1 : Nat := 5
def repeatThresholdHold2 : Nat := 1

/-- `irTypeTable[5]`. -/
def irBits : Nat := 32

inductive RCState
  | waitStart
  | waitBit
  | waitEnd
  deriving DecidableEq

structure IrDecoder where
  currState : RCState
  recvCode : BitVec 32
  recvBitCount : Nat
  repeatKeyPress : Nat
  repeatKeyHold : Nat
  repeatKeyFast : Nat
  repeatKeyCnt : Nat

namespace IrDecoder

/-- After `IrInit`. -/
def init : IrDecoder := ⟨.waitStart, 0, 0, 0, 0, 0, 0⟩

/-- A repeated key sends the code again. -/
def RepeatDue (decoder : IrDecoder) : Prop :=
  decoder.repeatKeyPress ≥ repeatThresholdBegin ∧
    ((decoder.repeatKeyFast = 0 ∧ decoder.repeatKeyHold ≥ repeatThresholdHold1) ∨
      (decoder.repeatKeyFast = 1 ∧ decoder.repeatKeyHold ≥ repeatThresholdHold2))
deriving Decidable

/-- The counters at a repeated key. -/
def repeatKey (decoder : IrDecoder) : IrDecoder :=
  if decoder.RepeatDue then
    if decoder.repeatKeyCnt ≥ repeatThresholdSpdup then
      { decoder with repeatKeyHold := 0, repeatKeyFast := 1 }
    else { decoder with repeatKeyHold := 0, repeatKeyCnt := decoder.repeatKeyCnt + 1 }
  else if decoder.repeatKeyPress ≥ repeatThresholdBegin then
    { decoder with repeatKeyHold := decoder.repeatKeyHold + 1 }
  else { decoder with repeatKeyPress := decoder.repeatKeyPress + 1 }

def resetKeys (decoder : IrDecoder) : IrDecoder :=
  { decoder with repeatKeyPress := 0, repeatKeyHold := 0, repeatKeyFast := 0, repeatKeyCnt := 0 }

/-- A bit is shifted in from above. -/
def shiftIn (recvCode : BitVec 32) (bit : Bool) : BitVec 32 :=
  recvCode >>> 1 ||| if bit then BitVec.twoPow 32 31 else 0

def receive (decoder : IrDecoder) (bit : Bool) : IrDecoder :=
  { decoder with
    recvCode := shiftIn decoder.recvCode bit
    recvBitCount := decoder.recvBitCount + 1
    currState := if decoder.recvBitCount + 1 < irBits then .waitBit else .waitEnd }

end IrDecoder

/-- `IrProbe` with the code that it returns, if one is complete; else that is -1. -/
def irProbe (irThresholds : IrThresholds) (decoder : IrDecoder) (signal : Int) :
    Option (BitVec 32) × IrDecoder :=
  if signal = -1 then (none, decoder)
  else
    match decoder.currState with
    | .waitStart =>
      if irThresholds.waitStart.Has signal then (none, { decoder with currState := .waitBit })
      else if irThresholds.waitStartRepeatKey.Has signal then
        (if decoder.RepeatDue then some decoder.recvCode else none,
          { decoder.repeatKey with currState := .waitEnd })
      else (none, decoder)
    | .waitBit =>
      let decoder := decoder.resetKeys
      if irThresholds.waitBit.Has signal then (none, decoder.receive false)
      else if irThresholds.waitBitOne.Has signal then (none, decoder.receive true)
      else (none, { decoder with recvCode := 0, recvBitCount := 0, currState := .waitStart })
    | .waitEnd =>
      if signal ≥ maxVal then
        (if decoder.recvBitCount ≥ irBits then some decoder.recvCode else none,
          { decoder with recvBitCount := 0, currState := .waitStart })
      else (none, { decoder.resetKeys with recvBitCount := 0, currState := .waitStart })

/-- What is returned at each signal, and the decoder behind them. -/
def irProbes (irThresholds : IrThresholds) :
    IrDecoder → List Int → List (Option (BitVec 32)) × IrDecoder
  | decoder, [] => ([], decoder)
  | decoder, signal :: rest =>
    let probed := irProbe irThresholds decoder signal
    let later := irProbes irThresholds probed.2 rest
    (probed.1 :: later.1, later.2)

/-! ## Frames -/

variable {irThresholds : IrThresholds} {decoder : IrDecoder} {signal : Int} {bit : Bool}

/-- A signal of a bit. -/
def IrThresholds.Codes (irThresholds : IrThresholds) (signal : Int) (bit : Bool) : Prop :=
  (if bit then irThresholds.waitBitOne else irThresholds.waitBit).Has signal

/-- A start pulse, the signals of 32 bits and an end gap. -/
structure IrFrame (irThresholds : IrThresholds) where
  start : Int
  starts : irThresholds.waitStart.Has start
  bits : List Bool
  signals : List Int
  codes : List.Forall₂ irThresholds.Codes signals bits
  length : bits.length = irBits
  gap : Int
  ends : gap ≥ maxVal

def IrFrame.all (frame : IrFrame irThresholds) : List Int :=
  frame.start :: (frame.signals ++ [frame.gap])

theorem IrRange.Has.ne_neg_one {range : IrRange} (has : range.Has signal) : signal ≠ -1 := by
  have positive := range.positive
  have least := has.1
  omega

theorem irProbe_bit (codes : irThresholds.Codes signal bit) (waits : decoder.currState = .waitBit) :
    irProbe irThresholds decoder signal = (none, decoder.resetKeys.receive bit) := by
  rw [irProbe, if_neg codes.ne_neg_one, waits]
  cases bit with
  | false => exact if_pos codes
  | true =>
    have isOne : irThresholds.waitBitOne.Has signal := codes
    have isZero : ¬ irThresholds.waitBit.Has signal := by
      intro zero
      have apart := irThresholds.apart
      simp only [List.pairwise_cons, List.mem_singleton, forall_eq] at apart
      obtain ⟨-, -, apart, -⟩ := apart
      have both := And.intro isOne zero
      simp only [IrRange.Has] at both
      omega
    simp only [if_neg isZero, if_pos isOne]

theorem irProbes_append (decoder : IrDecoder) (first later : List Int) :
    irProbes irThresholds decoder (first ++ later) =
      let probed := irProbes irThresholds decoder first
      let rest := irProbes irThresholds probed.2 later
      (probed.1 ++ rest.1, rest.2) := by
  induction first generalizing decoder with
  | nil => rfl
  | cons signal first ih =>
    rw [List.cons_append, irProbes, ih]
    rfl

theorem irProbes_bits {signals : List Int} {bits : List Bool}
    (codes : List.Forall₂ irThresholds.Codes signals bits)
    (fits : decoder.recvBitCount + bits.length ≤ irBits)
    (waits : decoder.currState = if decoder.recvBitCount < irBits then .waitBit else .waitEnd) :
    ∃ after,
      irProbes irThresholds decoder signals = (List.replicate bits.length none, after) ∧
      after.recvCode = bits.foldl IrDecoder.shiftIn decoder.recvCode ∧
      after.recvBitCount = decoder.recvBitCount + bits.length ∧
      after.currState = if after.recvBitCount < irBits then .waitBit else .waitEnd := by
  induction codes generalizing decoder with
  | nil => exact ⟨decoder, rfl, rfl, rfl, waits⟩
  | @cons signal bit signals bits here _ ih =>
    rw [List.length_cons] at fits
    rw [if_pos (by omega)] at waits
    obtain ⟨after, probed, code, count, state⟩ :=
      @ih (decoder.resetKeys.receive bit) (by show decoder.recvBitCount + 1 + _ ≤ _; omega) rfl
    refine ⟨after, ?_, code, ?_, state⟩
    · rw [irProbes, irProbe_bit here waits, probed]
      rfl
    · rw [count, List.length_cons]
      show decoder.recvBitCount + 1 + _ = _
      omega

theorem getLsbD_shiftIn (code : BitVec 32) (bit : Bool) {i : Nat} (inside : i < 32) :
    (IrDecoder.shiftIn code bit).getLsbD i = if i = 31 then bit else code.getLsbD (i + 1) := by
  rw [IrDecoder.shiftIn, BitVec.getLsbD_or, BitVec.getLsbD_ushiftRight, Nat.add_comm 1]
  by_cases last : i = 31
  · subst last
    cases bit <;> simp
  · have apart : ¬ 31 = i := Ne.symm last
    cases bit <;> simp [BitVec.getLsbD_twoPow, last, apart]

theorem getLsbD_foldl_shiftIn (bits : List Bool) (code : BitVec 32) {i : Nat} (inside : i < 32) :
    (bits.foldl IrDecoder.shiftIn code).getLsbD i =
      if i + bits.length < 32 then code.getLsbD (i + bits.length)
      else bits.getD (i + bits.length - 32) false := by
  induction bits generalizing code with
  | nil => simp [inside]
  | cons bit bits ih =>
    rw [List.foldl_cons, ih, List.length_cons]
    by_cases below : i + bits.length < 32
    · rw [if_pos below, getLsbD_shiftIn _ _ below]
      by_cases last : i + bits.length = 31
      · rw [if_pos last, if_neg (by omega), ← Nat.add_assoc, last]
        rfl
      · rw [if_neg last, if_pos (by omega), Nat.add_assoc]
    · rw [if_neg below, if_neg (by omega),
        show i + (bits.length + 1) - 32 = i + bits.length - 32 + 1 by omega, List.getD_cons_succ]

/-- A frame gives its code, and nothing before. -/
theorem irProbes_frame (waits : decoder.currState = .waitStart) (none_ : decoder.recvBitCount = 0)
    (frame : IrFrame irThresholds) :
    ∃ code : BitVec 32,
      (irProbes irThresholds decoder frame.all).1 = List.replicate 33 none ++ [some code] ∧
        ∀ i < 32, code.getLsbD i = frame.bits.getD i false := by
  have length := frame.length
  have first :
      irProbe irThresholds decoder frame.start =
        (none, { decoder with currState := .waitBit }) := by
    rw [irProbe, if_neg frame.starts.ne_neg_one, waits]
    exact if_pos frame.starts
  obtain ⟨after, probed, code, count, state⟩ :=
    @irProbes_bits _ { decoder with currState := .waitBit } _ _ frame.codes
      (by dsimp only; omega) (by rw [none_]; rfl)
  dsimp only at count code
  rw [none_, length, Nat.zero_add] at count
  rw [count] at state
  have gap := frame.ends
  have last :
      irProbe irThresholds after frame.gap =
        (some after.recvCode, { after with recvBitCount := 0, currState := .waitStart }) := by
    rw [irProbe, if_neg (by rw [maxVal] at gap; omega), state]
    simp [gap, count, irBits]
  refine ⟨after.recvCode, ?_, fun i inside => ?_⟩
  · rw [IrFrame.all, irProbes, first, irProbes_append, probed, length]
    simp only [irProbes, last]
    rfl
  · rw [code, getLsbD_foldl_shiftIn _ _ inside, length, if_neg (by rw [irBits]; omega), irBits,
      Nat.add_sub_cancel]

/-! ## Runs -/

/-- The decoder with the code of the last complete frame, whether that was the last one
begun, and the codes returned on a repeat start, each with the former. -/
structure IrHistory where
  decoder : IrDecoder
  lastCode : Option (BitVec 32)
  whole : Bool
  repeats : List (BitVec 32 × Option (BitVec 32))

def IrHistory.init : IrHistory := ⟨.init, none, false, []⟩

def irStep (irThresholds : IrThresholds) (history : IrHistory) (signal : Int) : IrHistory :=
  let probed := irProbe irThresholds history.decoder signal
  match history.decoder.currState, probed.1 with
  | .waitStart, none =>
    { history with
      decoder := probed.2
      whole := history.whole && probed.2.currState ≠ .waitBit }
  | .waitStart, some code =>
    { history with
      decoder := probed.2
      repeats := history.repeats ++ [(code, history.lastCode)] }
  | .waitEnd, some code =>
    { history with decoder := probed.2, lastCode := some code, whole := true }
  | _, _ => { history with decoder := probed.2 }

/-- No repeated key sends a code unless the last frame begun is complete. -/
def IrAllowed (irThresholds : IrThresholds) (history : IrHistory) (signal : Int) : Prop :=
  history.decoder.currState = .waitStart → irThresholds.waitStartRepeatKey.Has signal →
    history.decoder.RepeatDue → history.whole = true
deriving Decidable

/-- Each code returned on a repeat start is that of the last complete frame. -/
def RepeatsRight (history : IrHistory) : Prop :=
  ∀ sent ∈ history.repeats, sent.2 = some sent.1

-- Not by way of all codes there are.
instance : DecidablePred RepeatsRight := fun history =>
  List.decidableBAll (fun sent : BitVec 32 × Option (BitVec 32) => sent.2 = some sent.1)
    history.repeats

structure IrCounted (history : IrHistory) : Prop where
  idle : history.decoder.currState = .waitStart → history.decoder.recvBitCount = 0
  bits : history.decoder.currState = .waitBit → history.whole = false
  held : history.whole = true → history.lastCode = some history.decoder.recvCode

variable {history : IrHistory}

theorem recvBitCount_repeatKey (decoder : IrDecoder) :
    decoder.repeatKey.recvBitCount = decoder.recvBitCount ∧
      decoder.repeatKey.recvCode = decoder.recvCode := by
  rw [IrDecoder.repeatKey]
  split
  · split <;> exact ⟨rfl, rfl⟩
  · split <;> exact ⟨rfl, rfl⟩

theorem IrCounted.step (counted : IrCounted history) (signal : Int) :
    IrCounted (irStep irThresholds history signal) ∧
      (IrAllowed irThresholds history signal → RepeatsRight history →
        RepeatsRight (irStep irThresholds history signal)) := by
  have kept := recvBitCount_repeatKey history.decoder
  by_cases nothing : signal = -1
  · have same : irStep irThresholds history signal = history := by
      rw [irStep, irProbe, if_pos nothing]
      obtain ⟨decoder, lastCode, whole, repeats⟩ := history
      cases state : decoder.currState <;> simp
    rw [same]
    exact ⟨counted, fun _ right => right⟩
  rw [irStep, irProbe, if_neg nothing]
  cases state : history.decoder.currState with
  | waitStart =>
    have idle := counted.idle state
    by_cases starts : irThresholds.waitStart.Has signal
    · rw [if_pos starts]
      exact ⟨⟨by simp, by simp, by simp⟩, fun _ right => right⟩
    · rw [if_neg starts]
      by_cases repeats : irThresholds.waitStartRepeatKey.Has signal
      · rw [if_pos repeats]
        by_cases due : history.decoder.RepeatDue
        · simp only [if_pos due]
          refine ⟨⟨by simp, by simp, by simpa [kept] using counted.held⟩, fun allowed right => ?_⟩
          have held := counted.held (allowed state repeats due)
          intro sent among
          obtain among | among := List.mem_append.mp among
          · exact right sent among
          · rw [List.mem_singleton.mp among]
            exact held
        · simp only [if_neg due]
          exact ⟨⟨by simp, by simp, by simpa [kept] using counted.held⟩, fun _ right => right⟩
      · rw [if_neg repeats]
        exact ⟨⟨by simp [idle], by simp [state], by simpa [state] using counted.held⟩,
          fun _ right => right⟩
  | waitBit =>
    have begun := counted.bits state
    have notStart :
        ∀ n, (if n < irBits then RCState.waitBit else RCState.waitEnd) ≠ RCState.waitStart := by
      intro n
      split <;> nofun
    dsimp only
    split
    · exact ⟨⟨fun back => absurd back (notStart _), by simp [begun], by simp [begun]⟩,
        fun _ right => right⟩
    · split
      · exact ⟨⟨fun back => absurd back (notStart _), by simp [begun], by simp [begun]⟩,
          fun _ right => right⟩
      · exact ⟨⟨by simp, by simp, by simp [begun]⟩, fun _ right => right⟩
  | waitEnd =>
    have held := counted.held
    by_cases ends : signal ≥ maxVal
    · rw [if_pos ends]
      by_cases full : history.decoder.recvBitCount ≥ irBits
      · simp only [if_pos full]
        exact ⟨⟨by simp, by simp, by simp⟩, fun _ right => right⟩
      · simp only [if_neg full]
        exact ⟨⟨by simp, by simp, held⟩, fun _ right => right⟩
    · rw [if_neg ends]
      exact ⟨⟨by simp, by simp, held⟩, fun _ right => right⟩

theorem irStep_decoder (history : IrHistory) (signal : Int) :
    (irStep irThresholds history signal).decoder =
      (irProbe irThresholds history.decoder signal).2 := by
  rw [irStep]
  split <;> rfl

theorem foldl_irStep_decoder (history : IrHistory) (signals : List Int) :
    (signals.foldl (irStep irThresholds) history).decoder =
      (irProbes irThresholds history.decoder signals).2 := by
  induction signals generalizing history with
  | nil => rfl
  | cons signal rest ih =>
    rw [List.foldl_cons, ih, irStep_decoder]
    rfl

/-- The ranges of `ir_normal.inc`. -/
def irNormal : IrThresholds where
  waitStart := ⟨1242, 1459, by decide⟩
  waitStartRepeatKey := ⟨1035, 1216, by decide⟩
  waitBit := ⟨103, 121, by decide⟩
  waitBitOne := ⟨206, 242, by decide⟩
  apart := by decide

/-- A frame of 32 equal bits. -/
def irFrame (signal gap : Int) : List Int := 1350 :: List.replicate 32 signal ++ [gap]

/-- A key that is held until its code is sent again. -/
def irHeld : List Int := (List.replicate 11 [1125, 1023]).flatten

end IteSdk.Itp
