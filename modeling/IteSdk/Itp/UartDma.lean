import IteSdk.Lib.Ring
import IteSdk.Lib.Transition
import Mathlib.Data.List.TakeDrop

/-!
# The receive ring of the UART

With DMA the UART fills `gpDMABuffer` over and over: the list of blocks links to itself.
`UartRead` hands out what lies between its read index and the place the channel has come
to.  It never looks at the length it is asked for, and it takes a full ring for an empty
one.
-/

namespace IteSdk.Itp

open Lib

/-- The receive side of a `UART_OBJ`.  `transferSize` is the register of the channel:
how much of the block is still to come. -/
structure UartObj where
  gpDMABuffer : List UInt8
  transferSize : Nat
  gWriteIndex : Nat
  gReadIndex : Nat

/-- `DMA_BUFFER_SIZE`. -/
def UartObj.size (uartobj : UartObj) : Nat := uartobj.gpDMABuffer.length

/-- `UartRead` on a DMA port: the bytes copied to `ptr`.  The length asked for is not
used. -/
def uartRead (uartobj : UartObj) (_len : Nat) : UartObj × List UInt8 :=
  let size := uartobj.size
  let gReadIndex := uartobj.gReadIndex
  let gWriteIndex := (size + (2 ^ 32 - uartobj.transferSize)) % 2 ^ 32
  if size < gWriteIndex then ({ uartobj with gWriteIndex }, [])
  else if gWriteIndex ≠ gReadIndex then
    let data :=
      if gWriteIndex < gReadIndex then
        slice gReadIndex (size - gReadIndex) uartobj.gpDMABuffer ++
          slice 0 gWriteIndex uartobj.gpDMABuffer
      else slice gReadIndex (gWriteIndex - gReadIndex) uartobj.gpDMABuffer
    ({ uartobj with gWriteIndex, gReadIndex := gWriteIndex }, data)
  else ({ uartobj with gWriteIndex }, [])

/-- A byte of the line goes to where the channel has come to. -/
def uartReceive (uartobj : UartObj) (byte : UInt8) : UartObj :=
  { uartobj with
    gpDMABuffer := overwrite (uartobj.size - uartobj.transferSize) [byte] uartobj.gpDMABuffer
    transferSize := uartobj.transferSize - 1 }

/-- At the end of a block the channel loads the block again. -/
def uartNextBlock (uartobj : UartObj) : UartObj := { uartobj with transferSize := uartobj.size }

/-! ## Runs -/

inductive UartEvent
  | receive (byte : UInt8)
  | nextBlock
  | read (len : Nat)
  deriving DecidableEq

structure UartCall where
  len : Nat
  waiting : List UInt8
  stored : List UInt8
  deriving DecidableEq

structure UartHistory where
  uartobj : UartObj
  received : List UInt8
  waiting : List UInt8
  calls : List UartCall

/-- The channel goes on while its block lasts and the ring has room for the byte. -/
def UartEvent.enabled (history : UartHistory) : UartEvent → Prop
  | .receive _ =>
    0 < history.uartobj.transferSize ∧ history.waiting.length < history.uartobj.size
  | .nextBlock => history.uartobj.transferSize = 0
  | .read _ => True

instance UartEvent.decidableEnabled (history : UartHistory) :
    ∀ event : UartEvent, Decidable (event.enabled history)
  | .receive _ => inferInstanceAs (Decidable (_ ∧ _))
  | .nextBlock => inferInstanceAs (Decidable (_ = _))
  | .read _ => inferInstanceAs (Decidable True)

def uartAct (history : UartHistory) : UartEvent → UartHistory
  | .receive byte =>
    { history with
      uartobj := uartReceive history.uartobj byte
      received := history.received ++ [byte]
      waiting := history.waiting ++ [byte] }
  | .nextBlock => { history with uartobj := uartNextBlock history.uartobj }
  | .read len =>
    let result := uartRead history.uartobj len
    { history with
      uartobj := result.1
      waiting := history.waiting.drop result.2.length
      calls := history.calls ++ [⟨len, history.waiting, result.2⟩] }

def uartStep (history : UartHistory) (event : UartEvent) : UartHistory :=
  if event.enabled history then uartAct history event else history

def UartHistory.start (buffer : List UInt8) : UartHistory :=
  ⟨⟨buffer, buffer.length, 0, 0⟩, [], [], []⟩

/-- Every call has stored no more than it was asked for, namely the bytes that waited as
far as they fit; what the calls have stored and what waits is what was received. -/
structure UartSafe (history : UartHistory) : Prop where
  within : ∀ call ∈ history.calls, call.stored.length ≤ call.len
  next : ∀ call ∈ history.calls, call.stored = call.waiting.take call.len
  received : history.calls.flatMap UartCall.stored ++ history.waiting = history.received

def UartHistory.seen (history : UartHistory) : Prop :=
  history.waiting.length < history.uartobj.size ∨
    history.uartobj.gReadIndex = 0 ∧ history.uartobj.transferSize = 0
deriving Decidable

/-- The call asks for all that waits, or for nothing when the ring looks empty. -/
def UartAllowed (history : UartHistory) : UartEvent → Prop
  | .read len =>
    if history.seen then history.waiting.length ≤ len else len = 0
  | _ => True

instance UartAllowed.decidable :
    ∀ (history : UartHistory) (event : UartEvent), Decidable (UartAllowed history event)
  | history, .read len =>
    inferInstanceAs (Decidable (ite _ _ _))
  | _, .receive _ => inferInstanceAs (Decidable True)
  | _, .nextBlock => inferInstanceAs (Decidable True)

/-! ## The invariant -/

/-- The bytes that wait lie between the read index and the place of the channel. -/
structure UartInv (history : UartHistory) : Prop where
  positive : 0 < history.uartobj.size
  fits : history.uartobj.size < 2 ^ 32
  transferInside : history.uartobj.transferSize ≤ history.uartobj.size
  readInside : history.uartobj.gReadIndex ≤ history.uartobj.size
  waitingInside : history.waiting.length ≤ history.uartobj.size
  behind :
    history.uartobj.gReadIndex + history.waiting.length + history.uartobj.transferSize =
        history.uartobj.size ∨
      history.uartobj.gReadIndex + history.waiting.length +
          history.uartobj.transferSize = 2 * history.uartobj.size ∨
      history.uartobj.gReadIndex + history.waiting.length +
          history.uartobj.transferSize = 3 * history.uartobj.size
  waits :
    ringSlice history.uartobj.gReadIndex history.waiting.length
        history.uartobj.gpDMABuffer = history.waiting
  safe : UartSafe history

theorem UartInv.start
    {buffer : List UInt8} (positive : 0 < buffer.length) (fits : buffer.length < 2 ^ 32) :
    UartInv (UartHistory.start buffer) where
  positive := positive
  fits := fits
  transferInside := Nat.le_refl _
  readInside := Nat.zero_le _
  waitingInside := Nat.zero_le _
  behind := Or.inl (by simp [UartHistory.start, UartObj.size])
  waits := ringSlice_zero (Nat.zero_le _)
  safe :=
    { within := by
        intro call listed
        cases listed
      next := by
        intro call listed
        cases listed
      received := rfl }

theorem uartRead_eq {uartobj : UartObj} (len : Nat) (fits : uartobj.size < 2 ^ 32)
    (transferInside : uartobj.transferSize ≤ uartobj.size) :
    uartRead uartobj len =
      ({ uartobj with
          gWriteIndex := uartobj.size - uartobj.transferSize
          gReadIndex := uartobj.size - uartobj.transferSize },
        if uartobj.size - uartobj.transferSize < uartobj.gReadIndex then
          slice uartobj.gReadIndex (uartobj.size - uartobj.gReadIndex) uartobj.gpDMABuffer ++
            slice 0 (uartobj.size - uartobj.transferSize) uartobj.gpDMABuffer
        else
          slice uartobj.gReadIndex (uartobj.size - uartobj.transferSize - uartobj.gReadIndex)
            uartobj.gpDMABuffer) := by
  have index :
      (uartobj.size + (2 ^ 32 - uartobj.transferSize)) % 2 ^ 32 =
        uartobj.size - uartobj.transferSize := by
    omega
  have inside : ¬ uartobj.size < uartobj.size - uartobj.transferSize := by omega
  rw [uartRead]
  dsimp only
  rw [index, if_neg inside]
  by_cases moved : uartobj.size - uartobj.transferSize ≠ uartobj.gReadIndex
  · rw [if_pos moved]
  · have same := not_ne_iff.mp moved
    rw [if_neg moved, same, if_neg (Nat.lt_irrefl _), Nat.sub_self, slice_zero]

variable {history : UartHistory}

section

variable (inv : UartInv history)

include inv

theorem UartInv.data_eq_waiting (seen : history.seen) (len : Nat) :
    (uartRead history.uartobj len).2 = history.waiting := by
  obtain ⟨positive, fits, transferInside, readInside, waitingInside, behind, waits, -⟩ := inv
  have length : history.uartobj.gpDMABuffer.length = history.uartobj.size := rfl
  rw [UartHistory.seen] at seen
  rw [uartRead_eq len fits transferInside, ← waits]
  dsimp only
  split
  · have wrapped :
        history.uartobj.gReadIndex + history.waiting.length - history.uartobj.gpDMABuffer.length =
          history.uartobj.size - history.uartobj.transferSize := by
      omega
    rw [ringSlice_of_ge (by omega), wrapped]
    rfl
  · have straight :
        history.uartobj.size - history.uartobj.transferSize -
            history.uartobj.gReadIndex = history.waiting.length := by
      omega
    rw [ringSlice_of_le (by omega), straight]

theorem UartInv.data_eq_nil (unseen : ¬ history.seen) (len : Nat) :
    (uartRead history.uartobj len).2 = [] := by
  obtain ⟨positive, fits, transferInside, readInside, waitingInside, behind, waits, -⟩ := inv
  rw [UartHistory.seen] at unseen
  rw [uartRead_eq len fits transferInside]
  dsimp only
  split
  · -- The read index is at the end and the channel at the beginning.
    have atEnd : history.uartobj.size - history.uartobj.gReadIndex = 0 := by omega
    have atStart : history.uartobj.size - history.uartobj.transferSize = 0 := by omega
    rw [atEnd, atStart, slice_zero, slice_zero]
    rfl
  · have same :
        history.uartobj.size - history.uartobj.transferSize - history.uartobj.gReadIndex = 0 := by
      omega
    rw [same, slice_zero]

theorem UartInv.data_eq (len : Nat) :
    (uartRead history.uartobj len).2 = if history.seen then history.waiting else [] := by
  split
  · exact inv.data_eq_waiting ‹_› len
  · exact inv.data_eq_nil ‹_› len

theorem UartInv.read_iff (len : Nat) :
    (uartRead history.uartobj len).2 = history.waiting.take len ↔
      UartAllowed history (.read len) := by
  rw [inv.data_eq len]
  dsimp only [UartAllowed]
  split
  · exact eq_comm.trans (List.take_eq_self_iff history.waiting)
  · rename_i unseen
    have positive := inv.positive
    rw [UartHistory.seen] at unseen
    have waits : history.waiting ≠ [] := by
      rintro none_
      rw [none_, List.length_nil] at unseen
      omega
    rw [eq_comm, List.take_eq_nil_iff]
    exact or_iff_left waits

theorem UartInv.receive {byte : UInt8} (enabled : (UartEvent.receive byte).enabled history) :
    UartInv (uartAct history (.receive byte)) := by
  obtain ⟨positive, fits, transferInside, readInside, waitingInside, behind, waits, safe⟩ := inv
  obtain ⟨moreToCome, room⟩ := enabled
  have length : history.uartobj.gpDMABuffer.length = history.uartobj.size := rfl
  have stop :
      history.uartobj.size - history.uartobj.transferSize + 1 ≤
        history.uartobj.gpDMABuffer.length := by
    omega
  have sameSize :
      (uartReceive history.uartobj byte).size = history.uartobj.size :=
    length_overwrite stop
  have sameLength :
      (uartReceive history.uartobj byte).gpDMABuffer.length =
        (uartReceive history.uartobj byte).size :=
    rfl
  have waitingLength : (history.waiting ++ [byte]).length = history.waiting.length + 1 :=
    List.length_append
  have transfer :
      (uartReceive history.uartobj byte).transferSize = history.uartobj.transferSize - 1 :=
    rfl
  refine ⟨?_, ?_, ?_, ?_, ?_, ?_, ?_, ?_⟩ <;> dsimp only [uartAct]
  · omega
  · omega
  · omega
  · exact sameSize.symm ▸ readInside
  · omega
  · change history.uartobj.gReadIndex + _ + _ = _ ∨ history.uartobj.gReadIndex + _ + _ = _ ∨
      history.uartobj.gReadIndex + _ + _ = _
    omega
  · change ringSlice history.uartobj.gReadIndex (history.waiting ++ [byte]).length
      (overwrite _ [byte] history.uartobj.gpDMABuffer) = history.waiting ++ [byte]
    have extended :
        ringSlice history.uartobj.gReadIndex (history.waiting.length + [byte].length)
            (ringWrite (history.uartobj.size - history.uartobj.transferSize) [byte]
              history.uartobj.gpDMABuffer) =
          ringSlice history.uartobj.gReadIndex history.waiting.length
            history.uartobj.gpDMABuffer ++ [byte] :=
      ringSlice_ringWrite readInside (by omega) (by rw [List.length_singleton]; omega) (by omega)
    rw [waitingLength, ← ringWrite_of_le stop]
    exact extended.trans (congrArg (· ++ [byte]) waits)
  · exact
      { within := safe.within
        next := safe.next
        received := by
          dsimp only
          rw [← safe.received, List.append_assoc] }

theorem UartInv.nextBlock (enabled : UartEvent.nextBlock.enabled history) :
    UartInv (uartAct history .nextBlock) := by
  obtain ⟨positive, fits, transferInside, readInside, waitingInside, behind, waits, safe⟩ := inv
  have finished : history.uartobj.transferSize = 0 := enabled
  refine ⟨positive, fits, Nat.le_refl _, readInside, waitingInside, ?_, waits, ?_⟩
  · dsimp only [uartAct, uartNextBlock, UartObj.size] at *
    omega
  · exact ⟨safe.within, safe.next, safe.received⟩

theorem UartInv.read {len : Nat} (allowed : UartAllowed history (.read len)) :
    UartInv (uartAct history (.read len)) := by
  have data := inv.data_eq len
  have taken := (inv.read_iff len).mpr allowed
  obtain ⟨positive, fits, transferInside, readInside, waitingInside, behind, waits, safe⟩ := inv
  have uartobj := uartRead_eq len fits transferInside
  have moved :
      (uartRead history.uartobj len).1 =
        { history.uartobj with
          gWriteIndex := history.uartobj.size - history.uartobj.transferSize
          gReadIndex := history.uartobj.size - history.uartobj.transferSize } := by
    rw [uartobj]
  have placed :
      (uartAct history (.read len)).uartobj =
        { history.uartobj with
          gWriteIndex := history.uartobj.size - history.uartobj.transferSize
          gReadIndex := history.uartobj.size - history.uartobj.transferSize } :=
    moved
  have rest :
      (uartAct history (.read len)).waiting = if history.seen then [] else history.waiting := by
    change history.waiting.drop (uartRead history.uartobj len).2.length = _
    rw [data]
    split
    · exact List.drop_length
    · rfl
  refine ⟨?_, ?_, ?_, ?_, ?_, ?_, ?_, ?_⟩
  · rw [placed]
    exact positive
  · rw [placed]
    exact fits
  · rw [placed]
    exact transferInside
  · rw [placed]
    exact Nat.sub_le _ _
  · rw [rest, placed]
    split
    · exact Nat.zero_le _
    · exact waitingInside
  · rw [rest, placed]
    dsimp only [UartObj.size] at *
    split
    · left
      rw [List.length_nil]
      omega
    · rename_i unseen
      rw [UartHistory.seen, UartObj.size] at unseen
      omega
  · rw [rest, placed]
    split
    · exact ringSlice_zero (Nat.sub_le _ _)
    · rename_i unseen
      rw [UartHistory.seen] at unseen
      -- The ring is full: it starts where the channel is, or at the other boundary.
      by_cases same :
          history.uartobj.size - history.uartobj.transferSize = history.uartobj.gReadIndex
      · exact (congrArg (ringSlice · _ _) same).trans waits
      · have atStart : history.uartobj.size - history.uartobj.transferSize = 0 := by omega
        have atEnd : history.uartobj.gReadIndex = history.uartobj.gpDMABuffer.length := by
          change history.uartobj.gReadIndex = history.uartobj.size
          omega
        rw [atEnd, ringSlice_length waitingInside] at waits
        exact (congrArg (ringSlice · _ _) atStart).trans waits
  · constructor
    · intro call listed
      rcases List.mem_append.mp listed with earlier | last
      · exact safe.within call earlier
      · rw [List.mem_singleton.mp last]
        dsimp only
        rw [taken]
        exact List.length_take_le len _
    · intro call listed
      rcases List.mem_append.mp listed with earlier | last
      · exact safe.next call earlier
      · rw [List.mem_singleton.mp last]
        exact taken
    · change
        (history.calls ++ [_]).flatMap UartCall.stored ++
          history.waiting.drop (uartRead history.uartobj len).2.length = history.received
      rw [List.flatMap_append, List.flatMap_singleton, List.append_assoc]
      dsimp only
      rw [data]
      split
      · rw [List.drop_length, List.append_nil]
        exact safe.received
      · exact safe.received

theorem UartInv.step {event : UartEvent} (allowed : UartAllowed history event) :
    UartInv (uartStep history event) := by
  rw [uartStep]
  split
  · rename_i enabled
    cases event with
    | receive byte => exact inv.receive enabled
    | nextBlock => exact inv.nextBlock enabled
    | read len => exact inv.read allowed
  · exact inv

theorem uartAllowed_of_safe {event : UartEvent} (safe : UartSafe (uartStep history event)) :
    UartAllowed history event := by
  cases event with
  | receive byte | nextBlock => exact trivial
  | read len =>
    apply (inv.read_iff len).mp
    exact safe.next ⟨len, history.waiting, (uartRead history.uartobj len).2⟩
      (List.mem_append_right _ (List.mem_singleton_self _))

end

/-- The calls of a run store what they are asked for exactly if each of them asks for
all that waits, and for nothing where a full ring looks empty. -/
theorem uartRead_safe_iff
    {buffer : List UInt8} (positive : 0 < buffer.length) (fits : buffer.length < 2 ^ 32)
    (events : List UartEvent) :
    AllowedAlong UartAllowed uartStep (UartHistory.start buffer) events ↔
      ∀ done rest,
        events = done ++ rest → UartSafe (done.foldl uartStep (UartHistory.start buffer)) := by
  have initial := UartInv.start positive fits
  have kept :
      ∀ history event, UartInv history → UartAllowed history event →
        UartInv (uartStep history event) ∧ UartSafe (uartStep history event) := by
    intro history event inv allowed
    have stays := inv.step allowed
    exact ⟨stays, stays.safe⟩
  have needed :
      ∀ history event, UartInv history → UartSafe (uartStep history event) →
        UartAllowed history event :=
    fun _ _ inv safe => uartAllowed_of_safe inv safe
  exact AllowedAlong.iff_safe kept needed initial initial.safe events

/-- A ring of four bytes that is read before and after its end. -/
def uartWrapping : List UartEvent :=
  [.receive 1, .receive 2, .receive 3, .read 8, .receive 4, .nextBlock, .receive 5, .read 2]

theorem uartRead_safe_iff_wrapping :
    (AllowedAlong UartAllowed uartStep (UartHistory.start [0, 0, 0, 0]) uartWrapping ↔
        ∀ done rest,
          uartWrapping = done ++ rest →
            UartSafe (done.foldl uartStep (UartHistory.start [0, 0, 0, 0]))) ∧
      AllowedAlong UartAllowed uartStep (UartHistory.start [0, 0, 0, 0]) uartWrapping :=
  ⟨uartRead_safe_iff (by decide) (by decide) uartWrapping, by decide⟩

/-- Two bytes wait and one is asked for: both are stored. -/
theorem uartRead_overrun :
    ¬ ∀ done rest,
      [UartEvent.receive 1, .receive 2, .read 1] = done ++ rest →
        UartSafe (done.foldl uartStep (UartHistory.start [0, 0, 0, 0])) := by
  intro safe
  have bound :=
    (safe [.receive 1, .receive 2, .read 1] [] rfl).within ⟨1, [1, 2], [1, 2]⟩ (by decide)
  exact absurd bound (by decide)

end IteSdk.Itp
