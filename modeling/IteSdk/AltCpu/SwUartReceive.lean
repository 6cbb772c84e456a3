import IteSdk.AltCpu.SwUart

/-!
# The receive ring of the software UART

`swUartMonitorReadDataCmd` samples the line each time `main` comes round and puts
every byte that is complete into a ring.  `swUartProcessReadCmd` copies what is asked
for, as far as it is there, in one piece or in two.
-/

namespace IteSdk.AltCpu

open Lib

/-- The receive side of the engine with the static variables of the monitor. -/
structure SwUartRx where
  gTickPerbit : UInt32
  gRxInit : Bool
  gReadData : List UInt8
  gRxWriteIdx : Nat
  gRxReadIdx : Nat
  readByte : UInt8
  bitIdx : Nat
  nextReadTime : UInt32
  preReadBit : Bool
  newByteFlag : Bool

/-- What the monitor finds: the level of the pin and the timer. -/
structure SwUartSample where
  curReadBit : Bool
  curTime : UInt32
  deriving DecidableEq

structure SwUartReadData where
  len : Nat
  pReadBuffer : List UInt8

def SwUartReadData.data (pReadData : SwUartReadData) : List UInt8 :=
  pReadData.pReadBuffer.take pReadData.len

/-- After `swUartProcessInitCmd` with these parameters. -/
def SwUartRx.init (gTickPerbit : UInt32) (gRxInit : Bool) : SwUartRx :=
  ⟨gTickPerbit, gRxInit, List.replicate MAX_UART_BUFFER_SIZE 0, 0, 0, 0, 0, 0, false, true⟩

def ringIndex (index : Nat) : Nat :=
  if index ≥ MAX_UART_BUFFER_SIZE then index - MAX_UART_BUFFER_SIZE else index

/-- The monitor with the byte that it puts into the ring, if one is complete. -/
def swUartMonitorReadDataCmd (rx : SwUartRx) (sample : SwUartSample) : SwUartRx × Option UInt8 :=
  if rx.gRxInit = false then (rx, none)
  else if sample.curReadBit = false ∧ rx.preReadBit ≠ sample.curReadBit ∧ rx.newByteFlag then
    ({ rx with
        nextReadTime := UInt32.ofNat (rx.gTickPerbit.toNat * 3 / 2)
        readByte := 0
        newByteFlag := false
        preReadBit := sample.curReadBit }, none)
  else if sample.curTime ≥ rx.nextReadTime ∧ rx.newByteFlag = false then
    let nextReadTime := rx.nextReadTime + (rx.gTickPerbit - (sample.curTime - rx.nextReadTime))
    if rx.bitIdx < 8 then
      ({ rx with
          readByte := rx.readByte ||| UInt8.ofNat (sample.curReadBit.toNat <<< rx.bitIdx)
          bitIdx := rx.bitIdx + 1
          newByteFlag := false
          nextReadTime
          preReadBit := sample.curReadBit }, none)
    else
      ({ rx with
          bitIdx := 0
          newByteFlag := true
          gReadData := overwrite rx.gRxWriteIdx [rx.readByte] rx.gReadData
          gRxWriteIdx := ringIndex (rx.gRxWriteIdx + 1)
          nextReadTime
          preReadBit := sample.curReadBit }, some rx.readByte)
  else ({ rx with preReadBit := sample.curReadBit }, none)

def swUartProcessReadCmd (rx : SwUartRx) (gRxReadLen : UInt32) : SwUartRx × SwUartReadData :=
  let cleared := List.replicate MAX_UART_BUFFER_SIZE 0
  if rx.gRxWriteIdx = rx.gRxReadIdx then (rx, ⟨0, cleared⟩)
  else if rx.gRxInit = false then (rx, ⟨0, cleared⟩)
  else
    let remainSize :=
      if rx.gRxWriteIdx > rx.gRxReadIdx then rx.gRxWriteIdx - rx.gRxReadIdx
      else MAX_UART_BUFFER_SIZE - rx.gRxReadIdx + rx.gRxWriteIdx
    let cpySize := if gRxReadLen.toNat ≤ remainSize then gRxReadLen.toNat else remainSize
    let tailSize := MAX_UART_BUFFER_SIZE - rx.gRxReadIdx
    let pReadBuffer :=
      if cpySize ≤ tailSize then
        overwrite 0 (slice rx.gRxReadIdx cpySize rx.gReadData) cleared
      else
        overwrite tailSize (slice 0 (cpySize - tailSize) rx.gReadData)
          (overwrite 0 (slice rx.gRxReadIdx tailSize rx.gReadData) cleared)
    ({ rx with gRxReadIdx := ringIndex (rx.gRxReadIdx + cpySize) }, ⟨cpySize, pReadBuffer⟩)

inductive SwUartEvent
  | monitor (sample : SwUartSample)
  | read (len : UInt32)

/-- A read with the number of bytes that had come in and not been read yet. -/
structure SwUartCall where
  len : UInt32
  unread : Nat
  data : List UInt8

structure SwUartHistory where
  rx : SwUartRx
  received : List UInt8
  calls : List SwUartCall

namespace SwUartHistory

def delivered (history : SwUartHistory) : List UInt8 := history.calls.flatMap SwUartCall.data

def unread (history : SwUartHistory) : Nat := history.received.length - history.delivered.length

def init (gTickPerbit : UInt32) (gRxInit : Bool) : SwUartHistory :=
  ⟨SwUartRx.init gTickPerbit gRxInit, [], []⟩

def step (history : SwUartHistory) : SwUartEvent → SwUartHistory
  | .monitor sample =>
    let monitored := swUartMonitorReadDataCmd history.rx sample
    { history with
      rx := monitored.1
      received := history.received ++ monitored.2.toList }
  | .read len =>
    let done := swUartProcessReadCmd history.rx len
    { history with
      rx := done.1
      calls := history.calls ++ [⟨len, history.unread, done.2.data⟩] }

def LeavesRoom (history : SwUartHistory) (event : SwUartEvent) : Prop :=
  (history.step event).unread ≤ MAX_UART_BUFFER_SIZE - 1
deriving Decidable

/-- The indices are inside the ring, every read has returned what it asked for as far
as it was there, and the reads together are what has come in so far. -/
structure Safe (history : SwUartHistory) : Prop where
  writeInside : history.rx.gRxWriteIdx < MAX_UART_BUFFER_SIZE
  readInside : history.rx.gRxReadIdx < MAX_UART_BUFFER_SIZE
  returned : ∀ call ∈ history.calls, call.data.length = min call.len.toNat call.unread
  inOrder : history.delivered <+: history.received

/-! ## The invariant -/

/-- The bytes that wait lie in the ring from the read index to the write index. -/
structure Inv (history : SwUartHistory) : Prop extends history.Safe where
  length : history.rx.gReadData.length = MAX_UART_BUFFER_SIZE
  room : history.unread < MAX_UART_BUFFER_SIZE
  behind :
    history.rx.gRxReadIdx + history.unread = history.rx.gRxWriteIdx ∨
      history.rx.gRxReadIdx + history.unread = history.rx.gRxWriteIdx + MAX_UART_BUFFER_SIZE
  waits :
    history.received =
      history.delivered ++ ringSlice history.rx.gRxReadIdx history.unread history.rx.gReadData
  silent : history.rx.gRxInit = false → history.received = []

theorem Inv.init (gTickPerbit : UInt32) (gRxInit : Bool) :
    Inv (SwUartHistory.init gTickPerbit gRxInit) where
  writeInside := (by decide : 0 < MAX_UART_BUFFER_SIZE)
  readInside := (by decide : 0 < MAX_UART_BUFFER_SIZE)
  returned := by
    intro call listed
    cases listed
  inOrder := List.nil_prefix
  length := List.length_replicate
  room := (by decide : 0 < MAX_UART_BUFFER_SIZE)
  behind := Or.inl rfl
  waits := by
    have empty :
        ringSlice 0 0 (SwUartRx.init gTickPerbit gRxInit).gReadData = [] :=
      ringSlice_zero (Nat.zero_le _)
    exact (congrArg ([] ++ ·) empty).symm
  silent := fun _ => rfl

end SwUartHistory

theorem swUartMonitorReadDataCmd_cases (rx : SwUartRx) (sample : SwUartSample) :
    (swUartMonitorReadDataCmd rx sample).1.gRxInit = rx.gRxInit ∧
      (swUartMonitorReadDataCmd rx sample).1.gRxReadIdx = rx.gRxReadIdx ∧
      ((swUartMonitorReadDataCmd rx sample).2 = none ∧
          (swUartMonitorReadDataCmd rx sample).1.gReadData = rx.gReadData ∧
          (swUartMonitorReadDataCmd rx sample).1.gRxWriteIdx = rx.gRxWriteIdx ∨
        rx.gRxInit = true ∧
          ∃ byte,
            (swUartMonitorReadDataCmd rx sample).2 = some byte ∧
              (swUartMonitorReadDataCmd rx sample).1.gReadData =
                overwrite rx.gRxWriteIdx [byte] rx.gReadData ∧
              (swUartMonitorReadDataCmd rx sample).1.gRxWriteIdx =
                ringIndex (rx.gRxWriteIdx + 1)) := by
  rw [swUartMonitorReadDataCmd]
  split
  · exact ⟨rfl, rfl, Or.inl ⟨rfl, rfl, rfl⟩⟩
  next ready =>
    split
    · exact ⟨rfl, rfl, Or.inl ⟨rfl, rfl, rfl⟩⟩
    · split
      · dsimp only
        split
        · exact ⟨rfl, rfl, Or.inl ⟨rfl, rfl, rfl⟩⟩
        · exact ⟨rfl, rfl, Or.inr ⟨by simpa using ready, rx.readByte, rfl, rfl, rfl⟩⟩
      · exact ⟨rfl, rfl, Or.inl ⟨rfl, rfl, rfl⟩⟩

theorem ringIndex_eq_wrap (index : Nat) : ringIndex index = wrap MAX_UART_BUFFER_SIZE index := by
  rw [ringIndex, wrap]
  split <;> split <;> omega

theorem take_copied {ring cleared : List UInt8} {start count : Nat}
    (inside : start ≤ ring.length) (fits : count ≤ ring.length)
    (room : ring.length = cleared.length) :
    (if count ≤ ring.length - start then
        overwrite 0 (slice start count ring) cleared
      else
        overwrite (ring.length - start) (slice 0 (count - (ring.length - start)) ring)
          (overwrite 0 (slice start (ring.length - start) ring) cleared)).take count =
      ringSlice start count ring := by
  split
  · next onePiece =>
    have length := length_slice (by omega : start + count ≤ ring.length)
    rw [ringSlice_of_le (by omega), overwrite, List.take_zero, List.nil_append]
    exact List.take_left' length
  · next twoPieces =>
    have first := length_slice (by omega : start + (ring.length - start) ≤ ring.length)
    have second := length_slice (by omega : 0 + (count - (ring.length - start)) ≤ ring.length)
    have rest : start + count - ring.length = count - (ring.length - start) := by omega
    rw [ringSlice_of_ge (by omega), rest]
    conv_lhs => rw [overwrite]
    have copied :
        (overwrite 0 (slice start (ring.length - start) ring) cleared).take
            (ring.length - start) =
          slice start (ring.length - start) ring := by
      rw [overwrite, List.take_zero, List.nil_append]
      exact List.take_left' first
    rw [copied]
    refine List.take_left' ?_
    rw [List.length_append, first, second]
    omega

namespace SwUartHistory

variable {history : SwUartHistory}

section

variable (inv : history.Inv)

include inv

theorem Inv.unread_eq :
    history.unread =
      if history.rx.gRxWriteIdx ≥ history.rx.gRxReadIdx then
        history.rx.gRxWriteIdx - history.rx.gRxReadIdx
      else
        MAX_UART_BUFFER_SIZE - history.rx.gRxReadIdx + history.rx.gRxWriteIdx := by
  have inside := inv.readInside
  have room := inv.room
  split <;> rcases inv.behind with straight | wrapped <;> omega

theorem Inv.monitor (sample : SwUartSample) (room : history.LeavesRoom (.monitor sample)) :
    (history.step (.monitor sample)).Inv := by
  have sameCalls : (history.step (.monitor sample)).delivered = history.delivered := rfl
  obtain ⟨sameInit, sameRead, kept⟩ := swUartMonitorReadDataCmd_cases history.rx sample
  rcases kept with ⟨none_, sameData, sameWrite⟩ | ⟨ready, byte, stored, data, write⟩
  · have sameReceived : (history.step (.monitor sample)).received = history.received := by
      simp [step, none_]
    have sameUnread : (history.step (.monitor sample)).unread = history.unread := by
      rw [unread, sameReceived, sameCalls, unread]
    have sameRx : (history.step (.monitor sample)).rx =
        (swUartMonitorReadDataCmd history.rx sample).1 := rfl
    exact
      { writeInside := by rw [sameRx, sameWrite]; exact inv.writeInside
        readInside := by rw [sameRx, sameRead]; exact inv.readInside
        returned := inv.returned
        inOrder := by rw [sameReceived]; exact inv.inOrder
        length := by rw [sameRx, sameData]; exact inv.length
        room := by rw [sameUnread]; exact inv.room
        behind := by rw [sameRx, sameRead, sameWrite, sameUnread]; exact inv.behind
        waits := by
          rw [sameRx, sameRead, sameData, sameUnread, sameReceived]
          exact inv.waits
        silent := by rw [sameRx, sameInit, sameReceived]; exact inv.silent }
  · have received : (history.step (.monitor sample)).received = history.received ++ [byte] := by
      simp [step, stored]
    have before : history.delivered.length ≤ history.received.length := inv.inOrder.length_le
    have oneMore : (history.step (.monitor sample)).unread = history.unread + 1 := by
      rw [unread, received, sameCalls, unread, List.length_append, List.length_singleton]
      omega
    have sameRx : (history.step (.monitor sample)).rx =
        (swUartMonitorReadDataCmd history.rx sample).1 := rfl
    have writeInside := inv.writeInside
    have readInside := inv.readInside
    have length := inv.length
    have behind := inv.behind
    rw [LeavesRoom, oneMore, MAX_UART_BUFFER_SIZE] at room
    rw [MAX_UART_BUFFER_SIZE] at writeInside readInside length behind
    have stop : history.rx.gRxWriteIdx + [byte].length ≤ history.rx.gReadData.length := by
      rw [List.length_singleton]
      omega
    exact
      { writeInside := by
          rw [sameRx, write, ringIndex, MAX_UART_BUFFER_SIZE]
          split <;> omega
        readInside := by rw [sameRx, sameRead]; exact inv.readInside
        returned := inv.returned
        inOrder := by
          rw [received]
          exact inv.inOrder.trans (List.prefix_append _ _)
        length := by
          rw [sameRx, data, length_overwrite stop]
          exact inv.length
        room := by
          rw [oneMore, MAX_UART_BUFFER_SIZE]
          omega
        behind := by
          rw [sameRx, sameRead, write, oneMore, ringIndex, MAX_UART_BUFFER_SIZE]
          split <;> omega
        waits := by
          have extended :
              ringSlice history.rx.gRxReadIdx (history.unread + [byte].length)
                  (ringWrite history.rx.gRxWriteIdx [byte] history.rx.gReadData) =
                ringSlice history.rx.gRxReadIdx history.unread history.rx.gReadData ++ [byte] :=
            ringSlice_ringWrite (by omega) (by omega)
              (by rw [List.length_singleton]; omega) (by rw [length]; exact behind)
          rw [ringWrite_of_le stop, List.length_singleton] at extended
          rw [sameRx, sameRead, data, oneMore, received, sameCalls, extended,
            ← List.append_assoc, ← inv.waits]
        silent := by
          rw [sameRx, sameInit, ready]
          intro wrong
          cases wrong }

theorem Inv.read_eq (len : UInt32) :
    (swUartProcessReadCmd history.rx len).1 =
        { history.rx with
          gRxReadIdx := ringIndex (history.rx.gRxReadIdx + min len.toNat history.unread) } ∧
      (swUartProcessReadCmd history.rx len).2.data =
        ringSlice history.rx.gRxReadIdx (min len.toNat history.unread) history.rx.gReadData := by
  have readInside := inv.readInside
  have writeInside := inv.writeInside
  have waiting := inv.unread_eq
  have length := inv.length
  by_cases nothing : history.unread = 0
  · have same : history.rx.gRxWriteIdx = history.rx.gRxReadIdx := by
      rw [nothing] at waiting
      split at waiting <;> omega
    have stays : ringIndex history.rx.gRxReadIdx = history.rx.gRxReadIdx := by
      rw [ringIndex, if_neg (by omega)]
    rw [swUartProcessReadCmd, if_pos same, nothing, Nat.min_zero, Nat.add_zero, stays,
      ringSlice_zero (by omega)]
    exact ⟨rfl, rfl⟩
  · have apart : history.rx.gRxWriteIdx ≠ history.rx.gRxReadIdx := by
      intro same
      rw [same, if_pos (Nat.le_refl _), Nat.sub_self] at waiting
      exact nothing waiting
    have ready : ¬ history.rx.gRxInit = false := by
      intro silent
      rw [unread, inv.silent silent] at nothing
      exact nothing (Nat.zero_sub _)
    have remainSize :
        (if history.rx.gRxWriteIdx > history.rx.gRxReadIdx then
            history.rx.gRxWriteIdx - history.rx.gRxReadIdx
          else MAX_UART_BUFFER_SIZE - history.rx.gRxReadIdx + history.rx.gRxWriteIdx) =
          history.unread := by
      rw [waiting]
      split <;> split <;> omega
    have cpySize :
        (if len.toNat ≤ history.unread then len.toNat else history.unread) =
          min len.toNat history.unread := (Nat.min_def).symm
    rw [swUartProcessReadCmd, if_neg apart, if_neg ready]
    dsimp only
    rw [remainSize, cpySize]
    refine ⟨rfl, ?_⟩
    have room := inv.room
    have sameLength : history.rx.gReadData.length =
        (List.replicate MAX_UART_BUFFER_SIZE (0 : UInt8)).length := by
      rw [length, List.length_replicate]
    rw [SwUartReadData.data, ← take_copied (by omega) (by omega) sameLength, length]

theorem Inv.read (len : UInt32) : (history.step (.read len)).Inv := by
  obtain ⟨after, data⟩ := inv.read_eq len
  have readInside := inv.readInside
  have writeInside := inv.writeInside
  have length := inv.length
  have room := inv.room
  have behind := inv.behind
  have taken : min len.toNat history.unread ≤ history.unread := Nat.min_le_right _ _
  have returned : (swUartProcessReadCmd history.rx len).2.data.length =
      min len.toNat history.unread := by
    rw [data, length_ringSlice (by omega) (by omega)]
  have delivered : (history.step (.read len)).delivered =
      history.delivered ++ (swUartProcessReadCmd history.rx len).2.data := by
    simp [SwUartHistory.delivered, step]
  have before : history.delivered.length ≤ history.received.length := inv.inOrder.length_le
  have fewer : (history.step (.read len)).unread =
      history.unread - min len.toNat history.unread := by
    have same : (history.step (.read len)).received = history.received := rfl
    rw [unread, same, delivered, List.length_append, returned, unread]
    omega
  have sameRx : (history.step (.read len)).rx =
      { history.rx with
        gRxReadIdx := ringIndex (history.rx.gRxReadIdx + min len.toNat history.unread) } := after
  have split :
      ringSlice history.rx.gRxReadIdx history.unread history.rx.gReadData =
        ringSlice history.rx.gRxReadIdx (min len.toNat history.unread) history.rx.gReadData ++
          ringSlice (ringIndex (history.rx.gRxReadIdx + min len.toNat history.unread))
            (history.unread - min len.toNat history.unread) history.rx.gReadData := by
    rw [ringIndex_eq_wrap, ← length, ← ringSlice_add (by omega) (by omega),
      Nat.add_sub_cancel' taken]
  have received : history.received =
      (history.step (.read len)).delivered ++
        ringSlice (ringIndex (history.rx.gRxReadIdx + min len.toNat history.unread))
          (history.step (.read len)).unread history.rx.gReadData := by
    rw [delivered, fewer, data, List.append_assoc, ← split]
    exact inv.waits
  exact
    { writeInside := by rw [sameRx]; exact writeInside
      readInside := by
        rw [sameRx]
        dsimp only
        rw [ringIndex]
        split <;> omega
      returned := by
        intro call listed
        rcases List.mem_append.mp listed with earlier | last
        · exact inv.returned call earlier
        · rw [List.mem_singleton.mp last]
          exact returned
      inOrder := ⟨_, received.symm⟩
      length := by rw [sameRx]; exact length
      room := by rw [fewer]; omega
      behind := by
        rw [sameRx, fewer]
        dsimp only
        rw [ringIndex]
        split <;> omega
      waits := by rw [sameRx]; exact received
      silent := by rw [sameRx]; exact inv.silent }

theorem Inv.step {event : SwUartEvent} (room : history.LeavesRoom event) :
    (history.step event).Inv := by
  cases event with
  | monitor sample => exact inv.monitor sample room
  | read len => exact inv.read len

end

/-- As long as a cell of the ring stays free, every state of a run is safe. -/
theorem swUart_received_inOrder (gTickPerbit : UInt32) (gRxInit : Bool)
    (events : List SwUartEvent)
    (room : AllowedAlong LeavesRoom step (SwUartHistory.init gTickPerbit gRxInit) events) :
    ∀ done rest,
      events = done ++ rest → Safe (done.foldl step (SwUartHistory.init gTickPerbit gRxInit)) := by
  rintro done rest rfl
  have inv : Inv (done.foldl step (SwUartHistory.init gTickPerbit gRxInit)) := by
    refine Run.invariant (Inv.init gTickPerbit gRxInit) ?_ (Run.guarded_foldl room.of_append.1)
    rintro before event _ inv ⟨allowed, rfl⟩
    exact inv.step allowed
  exact inv.toSafe

def receiveOne : List SwUartEvent :=
  .monitor ⟨true, 0⟩ :: .monitor ⟨false, 0⟩ ::
    (List.replicate 9 (.monitor ⟨true, 100⟩) ++ [.read 4])

theorem swUart_received_inOrder_one :
    Safe (receiveOne.foldl step (SwUartHistory.init 0 true)) :=
  swUart_received_inOrder 0 true receiveOne (by decide +kernel) receiveOne []
    (List.append_nil _).symm

end SwUartHistory

end IteSdk.AltCpu
