import IteSdk.Lib.Ring
import IteSdk.Lib.Transition
import Mathlib.Data.List.Forall2

/-!
# The software UART

`swUart/main.c` drives a line bit by bit and samples another one.  Bytes go out with
seven data bits and a parity bit; the bytes that come in wait in a ring until they are
read.
-/

namespace IteSdk.AltCpu

open Lib

def MAX_UART_BUFFER_SIZE : Nat := 500

/-! ## Sending -/

/-- `gParity`, as the `switch` of the sender takes it. -/
inductive UartParity
  | none
  | odd
  | even
  | other
  deriving DecidableEq

structure SwUartWriteData where
  pWriteBuffer : List UInt8
  fits : pWriteBuffer.length ≤ MAX_UART_BUFFER_SIZE

structure SwUartTx where
  gTickPerbit : UInt32
  gParity : UartParity
  gTxInit : Bool
  gWriteData : List UInt8
  gTxWriteLen : Nat

/-- A level that is held until the timer has passed `nextCheckTime`. -/
structure HeldBit where
  level : Bool
  nextCheckTime : UInt32
  deriving DecidableEq

/-- The pin and the local variables of `swUartProcessSendDataOutCmd`. -/
structure TxLine where
  level : Bool
  nextCheckTime : UInt32
  parityNum : Nat
  held : List HeldBit

def swUartProcessWriteCmd (tx : SwUartTx) (pWriteData : SwUartWriteData) : SwUartTx :=
  if tx.gTxInit then
    { tx with
      gTxWriteLen := pWriteData.pWriteBuffer.length
      gWriteData := overwrite 0 pWriteData.pWriteBuffer tx.gWriteData }
  else tx

namespace TxLine

def hold (line : TxLine) : TxLine :=
  { line with held := line.held ++ [⟨line.level, line.nextCheckTime⟩] }

def drive (gTickPerbit : UInt32) (line : TxLine) (level : Bool) : TxLine :=
  { line with
    level := level
    nextCheckTime := line.nextCheckTime + gTickPerbit : TxLine }.hold

def startBit (gTickPerbit : UInt32) (line : TxLine) : TxLine :=
  { line with
    level := false
    nextCheckTime := gTickPerbit : TxLine }.hold

def dataBit (gTickPerbit : UInt32) (dataValue : UInt8) (line : TxLine) (i : Nat) : TxLine :=
  if dataValue.toNat.testBit i then
    { line.drive gTickPerbit true with parityNum := line.parityNum + 1 }
  else line.drive gTickPerbit false

/-- The `switch` over `gParity`; another value leaves the pin as it is. -/
def parityLevel (line : TxLine) : UartParity → Bool
  | .even => decide (line.parityNum % 2 ≠ 0)
  | .odd => decide (line.parityNum % 2 = 0)
  | .none => false
  | .other => line.level

def parityBit (gTickPerbit : UInt32) (gParity : UartParity) (line : TxLine) : TxLine :=
  line.drive gTickPerbit (line.parityLevel gParity)

def sendByte (gTickPerbit : UInt32) (gParity : UartParity) (line : TxLine)
    (dataValue : UInt8) : TxLine :=
  let data := (List.range 7).foldl (dataBit gTickPerbit dataValue) (line.startBit gTickPerbit)
  (data.parityBit gTickPerbit gParity).drive gTickPerbit true

def levels (line : TxLine) : List Bool := line.held.map HeldBit.level

end TxLine

/-- The bits that go out.  `parityNum` is set to 0 before the loop over the bytes. -/
def swUartProcessSendDataOutCmd (tx : SwUartTx) (level : Bool) : SwUartTx × TxLine :=
  let line : TxLine := ⟨level, 0, 0, []⟩
  if tx.gTxInit then
    ({ tx with gTxWriteLen := 0 },
      (tx.gWriteData.take tx.gTxWriteLen).foldl (TxLine.sendByte tx.gTickPerbit tx.gParity) line)
  else (tx, line)

/-! ## Frames -/

def dataBits (byte : UInt8) : List Bool := (List.range 7).map byte.toNat.testBit

def ones (byte : UInt8) : Nat := (dataBits byte).count true

def frame (parityBit : Bool) (byte : UInt8) : List Bool :=
  false :: (dataBits byte ++ [parityBit, true])

/-- The number of ones in the data bits and the parity bit is even or odd as asked. -/
def FrameRight (gParity : UartParity) (byte : UInt8) (levels : List Bool) : Prop :=
  ∃ parityBit : Bool,
    levels = frame parityBit byte ∧
      (ones byte + parityBit.toNat) % 2 = if gParity = .odd then 1 else 0

def parityOf (gParity : UartParity) (parityNum : Nat) : Bool :=
  if gParity = .odd then decide (parityNum % 2 = 0) else decide (parityNum % 2 ≠ 0)

/-- The frames that go out when `parityNum` ones have been counted before. -/
def sentFrames (gParity : UartParity) : Nat → List UInt8 → List (List Bool)
  | _, [] => []
  | parityNum, byte :: rest =>
    frame (parityOf gParity (parityNum + ones byte)) byte ::
      sentFrames gParity (parityNum + ones byte) rest

variable {gParity : UartParity} {line : TxLine} {byte : UInt8}

theorem length_frame (parityBit : Bool) (byte : UInt8) : (frame parityBit byte).length = 10 := by
  simp [frame, dataBits]

theorem frame_inj {first second : Bool} (same : frame first byte = frame second byte) :
    first = second := by
  have tails := List.append_cancel_left (List.cons.inj same).2
  exact (List.cons.inj tails).1

theorem levels_drive (gTickPerbit : UInt32) (line : TxLine) (level : Bool) :
    (line.drive gTickPerbit level).levels = line.levels ++ [level] := by
  simp [TxLine.drive, TxLine.hold, TxLine.levels]

theorem dataBits_sent (gTickPerbit : UInt32) (byte : UInt8) (places : List Nat) (line : TxLine) :
    (places.foldl (TxLine.dataBit gTickPerbit byte) line).levels =
        line.levels ++ places.map byte.toNat.testBit ∧
      (places.foldl (TxLine.dataBit gTickPerbit byte) line).parityNum =
        line.parityNum + (places.map byte.toNat.testBit).count true := by
  induction places generalizing line with
  | nil => simp
  | cons i places ih =>
    obtain ⟨sent, counted⟩ := ih (line.dataBit gTickPerbit byte i)
    rw [List.foldl_cons, sent, counted, TxLine.dataBit, List.map_cons]
    split
    · next one =>
      have driven := levels_drive gTickPerbit line true
      rw [TxLine.levels] at driven ⊢
      refine ⟨?_, ?_⟩
      · rw [driven, one, List.append_assoc]
        rfl
      · rw [one, List.count_cons_self]
        dsimp only
        omega
    · next zero =>
      have value : byte.toNat.testBit i = false := by simpa using zero
      refine ⟨?_, ?_⟩
      · rw [levels_drive, value, List.append_assoc]
        rfl
      · rw [value, List.count_cons_of_ne (by decide)]
        rfl

section

variable (parity : gParity = .even ∨ gParity = .odd)

include parity

theorem sendByte_sent (gTickPerbit : UInt32) (line : TxLine) (byte : UInt8) :
    (line.sendByte gTickPerbit gParity byte).levels =
        line.levels ++ frame (parityOf gParity (line.parityNum + ones byte)) byte ∧
      (line.sendByte gTickPerbit gParity byte).parityNum = line.parityNum + ones byte := by
  obtain ⟨sent, counted⟩ :=
    dataBits_sent gTickPerbit byte (List.range 7) (line.startBit gTickPerbit)
  have started : (line.startBit gTickPerbit).levels = line.levels ++ [false] := by
    simp [TxLine.startBit, TxLine.hold, TxLine.levels]
  have before : (line.startBit gTickPerbit).parityNum = line.parityNum := rfl
  rw [started] at sent
  rw [before, ← dataBits, ← ones] at counted
  refine ⟨?_, counted⟩
  rw [TxLine.sendByte, levels_drive, TxLine.parityBit, levels_drive, sent, frame, dataBits]
  rcases parity with rfl | rfl <;> simp [parityOf, TxLine.parityLevel, counted]

theorem message_sent (gTickPerbit : UInt32) (data : List UInt8) (line : TxLine) :
    (data.foldl (TxLine.sendByte gTickPerbit gParity) line).levels =
      line.levels ++ (sentFrames gParity line.parityNum data).flatten := by
  induction data generalizing line with
  | nil => simp [sentFrames]
  | cons byte data ih =>
    obtain ⟨sent, counted⟩ := sendByte_sent parity gTickPerbit line byte
    rw [List.foldl_cons, ih, sent, counted, sentFrames, List.flatten_cons, List.append_assoc]

theorem parityOf_right_iff (parityNum : Nat) (byte : UInt8) :
    (ones byte + (parityOf gParity (parityNum + ones byte)).toNat) % 2 =
        (if gParity = .odd then 1 else 0) ↔
      parityNum % 2 = 0 := by
  rcases parity with rfl | rfl
  · rw [parityOf, if_neg (by decide), if_neg (by decide)]
    by_cases odd : (parityNum + ones byte) % 2 = 0
    · simp only [odd, ne_eq, not_true_eq_false, decide_false, Bool.toNat_false]
      omega
    · simp only [odd, ne_eq, not_false_eq_true, decide_true, Bool.toNat_true]
      omega
  · rw [parityOf, if_pos rfl, if_pos rfl]
    by_cases odd : (parityNum + ones byte) % 2 = 0
    · simp only [odd, decide_true, Bool.toNat_true]
      omega
    · simp only [odd, decide_false, Bool.toNat_false]
      omega

theorem sentFrames_right_iff (parityNum : Nat) (data : List UInt8) :
    (∃ frames,
        (sentFrames gParity parityNum data).flatten = frames.flatten ∧
          List.Forall₂ (FrameRight gParity) data frames) ↔
      (data = [] ∨ parityNum % 2 = 0) ∧ ∀ byte ∈ data.dropLast, ones byte % 2 = 0 := by
  induction data generalizing parityNum with
  | nil => exact ⟨fun _ => ⟨Or.inl rfl, by simp⟩, fun _ => ⟨[], rfl, .nil⟩⟩
  | cons byte data ih =>
    have later := ih (parityNum + ones byte)
    have split : (data = [] ∨ (parityNum + ones byte) % 2 = 0) ∧
          (∀ byte ∈ data.dropLast, ones byte % 2 = 0) ∧ parityNum % 2 = 0 ↔
        (byte :: data = [] ∨ parityNum % 2 = 0) ∧
          ∀ b ∈ (byte :: data).dropLast, ones b % 2 = 0 := by
      cases data with
      | nil => simp
      | cons next rest =>
        simp only [List.dropLast_cons_cons, List.forall_mem_cons, reduceCtorEq, false_or]
        constructor
        · rintro ⟨all, others, here⟩
          exact ⟨here, by omega, others⟩
        · rintro ⟨here, first, others⟩
          exact ⟨by omega, others, here⟩
    rw [← split, ← and_assoc, ← later, sentFrames]
    constructor
    · rintro ⟨_, same, right⟩
      obtain ⟨levels, frames, ⟨bit, rfl, sum⟩, others, rfl⟩ := List.forall₂_cons_left_iff.mp right
      rw [List.flatten_cons, List.flatten_cons] at same
      obtain ⟨first, rest⟩ := List.append_inj same (by rw [length_frame, length_frame])
      refine ⟨⟨frames, rest, others⟩, ?_⟩
      rw [← frame_inj first] at sum
      exact (parityOf_right_iff parity parityNum byte).mp sum
    · rintro ⟨⟨frames, rest, others⟩, even⟩
      refine ⟨frame (parityOf gParity (parityNum + ones byte)) byte :: frames, ?_,
        .cons ⟨_, rfl, (parityOf_right_iff parity parityNum byte).mpr even⟩ others⟩
      rw [List.flatten_cons, List.flatten_cons, rest]

end

theorem swUartSend_levels (tx : SwUartTx) (level : Bool) (pWriteData : SwUartWriteData)
    (ready : tx.gTxInit = true) (parity : tx.gParity = .even ∨ tx.gParity = .odd) :
    (swUartProcessSendDataOutCmd (swUartProcessWriteCmd tx pWriteData) level).2.levels =
      (sentFrames tx.gParity 0 pWriteData.pWriteBuffer).flatten := by
  have accepted : swUartProcessWriteCmd tx pWriteData =
      { tx with
        gTxWriteLen := pWriteData.pWriteBuffer.length
        gWriteData := overwrite 0 pWriteData.pWriteBuffer tx.gWriteData } := by
    rw [swUartProcessWriteCmd, if_pos ready]
  have message :
      (overwrite 0 pWriteData.pWriteBuffer tx.gWriteData).take pWriteData.pWriteBuffer.length =
        pWriteData.pWriteBuffer := by
    simp [overwrite]
  rw [accepted, swUartProcessSendDataOutCmd]
  dsimp only
  rw [if_pos ready, message, message_sent parity]
  rfl

/-- Every frame of a message is right exactly if all bytes but the last have an even
number of ones. -/
theorem swUartSend_right_iff (tx : SwUartTx) (level : Bool) (pWriteData : SwUartWriteData)
    (ready : tx.gTxInit = true) (parity : tx.gParity = .even ∨ tx.gParity = .odd) :
    (∃ frames,
        (swUartProcessSendDataOutCmd (swUartProcessWriteCmd tx pWriteData) level).2.levels =
            frames.flatten ∧
          List.Forall₂ (FrameRight tx.gParity) pWriteData.pWriteBuffer frames) ↔
      ∀ byte ∈ pWriteData.pWriteBuffer.dropLast, ones byte % 2 = 0 := by
  rw [swUartSend_levels tx level pWriteData ready parity]
  exact (sentFrames_right_iff parity 0 _).trans (and_iff_right (Or.inr rfl))

def evenSender : SwUartTx := ⟨3, .even, true, List.replicate MAX_UART_BUFFER_SIZE 0, 0⟩

theorem swUartSend_right_iff_twoOnes :
    ∃ frames,
      (swUartProcessSendDataOutCmd
          (swUartProcessWriteCmd evenSender ⟨[3, 7], by decide⟩) true).2.levels =
          frames.flatten ∧
        List.Forall₂ (FrameRight .even) [3, 7] frames :=
  (swUartSend_right_iff evenSender true ⟨[3, 7], by decide⟩ rfl (Or.inl rfl)).mpr (by
    intro byte listed
    rw [List.mem_singleton.mp listed]
    decide)

/-- The one of the first byte is still counted for the second. -/
theorem swUartSend_parity_carried :
    ¬ ∃ frames,
      (swUartProcessSendDataOutCmd
          (swUartProcessWriteCmd evenSender ⟨[1, 0], by decide⟩) true).2.levels =
          frames.flatten ∧
        List.Forall₂ (FrameRight .even) [1, 0] frames := by
  rw [swUartSend_levels evenSender true ⟨[1, 0], by decide⟩ rfl (Or.inl rfl)]
  intro right
  have even := ((sentFrames_right_iff (Or.inl rfl) 0 [1, 0]).mp right).2
  exact absurd (even 1 (List.mem_singleton_self 1)) (by decide)

end IteSdk.AltCpu
