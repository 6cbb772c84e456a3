import IteSdk.Lib.Ring
import IteSdk.Lib.Transition

/-!
# The 2D command queue

`ith_cmdq.c` for one port; the other port runs the same code on variables of its
own.  The wait loops read the read pointer again and again while the hardware
moves it, so each turn of a loop is a step of its own.
-/

namespace IteSdk.Ith

section

open Lib

def ithCmdQLoopTimeout : Nat := 30000

/-- Where a caller of `ithCmdQWaitSize` is: in the first or the second loop of
`WaitAvailableSize`, or behind it with the queue granted. -/
inductive CmdQPhase
  | idle
  | waitAvailable1 (size timeout : Nat)
  | waitAvailable2 (size timeout : Nat)
  | granted
  deriving DecidableEq

/-- The memory of the queue, the two pointer registers and the static
variables. -/
structure CmdQ where
  size : Nat
  memory : List UInt8
  readPtr : Nat
  writePtr : Nat
  currPtr : Nat
  waitSize : Nat
  phase : CmdQPhase
  deriving DecidableEq

/-- `ithCmdQInit` and `ithCmdQReset` on a queue of some kilobytes. -/
def ithCmdQReset (memory : List UInt8) : CmdQ where
  size := memory.length
  memory := memory
  readPtr := 0
  writePtr := 0
  currPtr := 0
  waitSize := 0
  phase := .idle

/-- `FillNullCommands`, which writes whole words. -/
def fillNullCommands (queue : CmdQ) : CmdQ :=
  let count := (queue.size - queue.currPtr) / 4
  { queue with
    memory := overwrite queue.currPtr (List.replicate (4 * count) 0) queue.memory }

/-- `ithCmdQWaitSize` up to the first loop that it enters. -/
def ithCmdQWaitSize (queue : CmdQ) (size : Nat) : CmdQ :=
  { queue with
    currPtr := queue.writePtr
    phase :=
      if queue.size ≤ (queue.writePtr + size) % 2 ^ 32 then
        .waitAvailable1 size ithCmdQLoopTimeout
      else
        .waitAvailable2 size ithCmdQLoopTimeout }

/-- One turn of a loop of `WaitAvailableSize`; when the second one ends
`ithCmdQWaitSize` returns the region at `currPtr`, or a null pointer after a
timeout. -/
def waitAvailableTurn (queue : CmdQ) : CmdQ :=
  match queue.phase with
  | .waitAvailable1 size timeout =>
    if queue.readPtr ≤ queue.currPtr then
      { fillNullCommands queue with
        currPtr := 0
        phase := .waitAvailable2 size ithCmdQLoopTimeout }
    else if timeout - 1 = 0 then
      { queue with phase := .idle }
    else
      { queue with phase := .waitAvailable1 size (timeout - 1) }
  | .waitAvailable2 size timeout =>
    if queue.readPtr ≤ queue.currPtr ∨ queue.readPtr - queue.currPtr ≥ size then
      { queue with
        waitSize := size
        phase := .granted }
    else if timeout - 1 = 0 then
      { queue with phase := .idle }
    else
      { queue with phase := .waitAvailable2 size (timeout - 1) }
  | .idle => queue
  | .granted => queue

/-- The caller stores commands `offset` bytes into its region. -/
def cmdQFill (queue : CmdQ) (offset : Nat) (commands : List UInt8) : CmdQ :=
  { queue with
    memory := overwrite (queue.currPtr + offset) commands queue.memory }

/-- `ithCmdQFlush` of the first `cmdsSize` bytes of the region. -/
def ithCmdQFlush (queue : CmdQ) (cmdsSize : Nat) : CmdQ :=
  { queue with
    currPtr := queue.currPtr + cmdsSize
    writePtr := queue.currPtr + cmdsSize
    waitSize := 0
    phase := .idle }

def CmdQ.pending (queue : CmdQ) : Nat :=
  if queue.readPtr ≤ queue.writePtr then
    queue.writePtr - queue.readPtr
  else
    queue.size - queue.readPtr + queue.writePtr

/-- The hardware executes the next `count` bytes. -/
def cmdQExecute (queue : CmdQ) (count : Nat) : CmdQ :=
  { queue with readPtr := wrap queue.size (queue.readPtr + count) }

end

/-!
# Runs of the 2D command queue

The driver and the hardware take their steps in any order.  Beside the queue a
run remembers every command that was flushed and every command that the hardware
has executed.
-/

section

open Lib

inductive CmdQEvent
  | wait (size : Nat)
  | turn
  | fill (offset : Nat) (commands : List UInt8)
  | flush (cmdsSize : Nat)
  | execute (count : Nat)
  deriving DecidableEq

/-- The assertions of the driver, that its functions are called in turn, and
that the hardware stops at the write pointer. -/
def CmdQEvent.enabled (queue : CmdQ) : CmdQEvent → Prop
  | .wait size =>
    (queue.phase = .idle ∨ queue.phase = .granted) ∧ 0 < size ∧ 8 ∣ size ∧ size < 2 ^ 32
  | .turn => True
  | .fill offset commands =>
    queue.phase = .granted ∧ offset + commands.length ≤ queue.waitSize
  | .flush cmdsSize =>
    queue.phase = .granted ∧ cmdsSize ≤ queue.waitSize ∧ 8 ∣ cmdsSize ∧ queue.currPtr + cmdsSize ≠ 0
  | .execute count => count ≤ queue.pending

instance CmdQEvent.decidableEnabled (queue : CmdQ) :
    ∀ event : CmdQEvent, Decidable (event.enabled queue)
  | .wait _ => inferInstanceAs (Decidable (_ ∧ _))
  | .turn => inferInstanceAs (Decidable True)
  | .fill _ _ => inferInstanceAs (Decidable (_ ∧ _))
  | .flush _ => inferInstanceAs (Decidable (_ ∧ _))
  | .execute _ => inferInstanceAs (Decidable (_ ≤ _))

structure CmdQHistory where
  queue : CmdQ
  issued : List UInt8
  executed : List UInt8
  deriving DecidableEq

/-- What a flush hands to the hardware: the commands of the region, behind the
null commands when the region starts over. -/
def CmdQ.flushed (queue : CmdQ) (cmdsSize : Nat) : List UInt8 :=
  (if queue.currPtr = queue.writePtr then
      []
    else
      List.replicate (queue.size - queue.writePtr) 0) ++
    slice queue.currPtr cmdsSize queue.memory

def cmdQAct (history : CmdQHistory) : CmdQEvent → CmdQHistory
  | .wait size =>
    { history with queue := ithCmdQWaitSize history.queue size }
  | .turn => { history with queue := waitAvailableTurn history.queue }
  | .fill offset commands =>
    { history with queue := cmdQFill history.queue offset commands }
  | .flush cmdsSize =>
    { history with
      queue := ithCmdQFlush history.queue cmdsSize
      issued := history.issued ++ history.queue.flushed cmdsSize }
  | .execute count =>
    { history with
      queue := cmdQExecute history.queue count
      executed := history.executed ++ ringSlice history.queue.readPtr count history.queue.memory }

def cmdQStep (history : CmdQHistory) (event : CmdQEvent) : CmdQHistory :=
  if event.enabled history.queue then cmdQAct history event else history

def CmdQHistory.reset (memory : List UInt8) : CmdQHistory := ⟨ithCmdQReset memory, [], []⟩

/-- No command is lost or executed twice, and a granted region lies inside the
ring and apart from the commands that the hardware has still to execute. -/
structure CmdQSafe (history : CmdQHistory) : Prop where
  commands :
    history.issued =
      history.executed ++ ringSlice history.queue.readPtr history.queue.pending history.queue.memory
  drained : history.queue.writePtr = history.queue.readPtr → history.issued = history.executed
  writeInside : history.queue.writePtr < history.queue.size
  regionInside :
    history.queue.phase = .granted →
      history.queue.currPtr + history.queue.waitSize ≤ history.queue.size
  regionApart :
    history.queue.phase = .granted →
      ∀ offset index,
        offset < history.queue.waitSize → index < history.queue.pending →
          history.queue.currPtr + offset ≠ wrap history.queue.size (history.queue.readPtr + index)

/-- The second loop must not let the region pass on `readPtr <= currPtr` after
it has started over, nor past the end. -/
def waitAvailableAllowed (queue : CmdQ) : Prop :=
  match queue.phase with
  | .waitAvailable2 size _ =>
    queue.readPtr ≤ queue.currPtr →
      queue.currPtr = queue.writePtr ∧ queue.currPtr + size ≤ queue.size
  | _ => True

instance waitAvailableAllowed.decidable (queue : CmdQ) :
    Decidable (waitAvailableAllowed queue) := by
  unfold waitAvailableAllowed
  split <;> infer_instance

/-- A flush that comes to the read pointer must have nothing to hand over. -/
def ithCmdQFlushAllowed (queue : CmdQ) (cmdsSize : Nat) : Prop :=
  queue.currPtr + cmdsSize < queue.size ∧
    (queue.currPtr + cmdsSize = queue.readPtr →
      queue.currPtr = queue.writePtr ∧ queue.pending = 0 ∧ cmdsSize = 0)
deriving Decidable

def CmdQAllowed (history : CmdQHistory) : CmdQEvent → Prop
  | .turn => waitAvailableAllowed history.queue
  | .flush cmdsSize =>
    CmdQEvent.enabled history.queue (.flush cmdsSize) → ithCmdQFlushAllowed history.queue cmdsSize
  | _ => True

instance CmdQAllowed.decidable :
    ∀ (history : CmdQHistory) (event : CmdQEvent), Decidable (CmdQAllowed history event)
  | _, .wait _ => inferInstanceAs (Decidable True)
  | history, .turn =>
    inferInstanceAs (Decidable (waitAvailableAllowed history.queue))
  | _, .fill _ _ => inferInstanceAs (Decidable True)
  | _, .flush _ => inferInstanceAs (Decidable (_ → _))
  | _, .execute _ => inferInstanceAs (Decidable True)

/-- The region starts over, behind null commands up to the end. -/
structure CmdQ.StartsOver (queue : CmdQ) : Prop where
  atZero : queue.currPtr = 0
  inOrder : queue.readPtr ≤ queue.writePtr
  nullCommands :
    slice queue.writePtr (queue.size - queue.writePtr) queue.memory =
      List.replicate (queue.size - queue.writePtr) 0

def CmdQ.Placed (queue : CmdQ) : Prop :=
  match queue.phase with
  | .idle => True
  | .waitAvailable1 size _ => 0 < size ∧ queue.currPtr = queue.writePtr
  | .waitAvailable2 size _ =>
    0 < size ∧ (queue.currPtr = queue.writePtr ∨ queue.StartsOver)
  | .granted =>
    (queue.currPtr = queue.writePtr ∧
        queue.writePtr + queue.waitSize ≤ queue.size ∧
          (queue.readPtr ≤ queue.writePtr ∨ queue.writePtr + queue.waitSize ≤ queue.readPtr)) ∨
      (queue.StartsOver ∧ queue.waitSize ≤ queue.readPtr)

structure CmdQInv (history : CmdQHistory) : Prop where
  memorySize : history.queue.memory.length = history.queue.size
  sizeAligned : 8 ∣ history.queue.size
  writeAligned : 8 ∣ history.queue.writePtr
  readInside : history.queue.readPtr < history.queue.size
  writeInside : history.queue.writePtr < history.queue.size
  commands :
    history.issued =
      history.executed ++ ringSlice history.queue.readPtr history.queue.pending history.queue.memory
  placed : history.queue.Placed

variable {queue : CmdQ} {history : CmdQHistory} {cmdsSize : Nat}

theorem CmdQ.pending_le
    (readInside : queue.readPtr < queue.size) (writeInside : queue.writePtr < queue.size) :
    queue.pending < queue.size := by
  unfold CmdQ.pending
  split <;> omega

theorem CmdQ.wrap_pending {index : Nat} (readInside : queue.readPtr < queue.size)
    (writeInside : queue.writePtr < queue.size) (within : index < queue.pending) :
    (queue.readPtr ≤ wrap queue.size (queue.readPtr + index) ∧
        wrap queue.size (queue.readPtr + index) < queue.size ∧
          (queue.readPtr ≤ queue.writePtr →
            wrap queue.size (queue.readPtr + index) < queue.writePtr)) ∨
      (queue.writePtr < queue.readPtr ∧
        wrap queue.size (queue.readPtr + index) < queue.writePtr) := by
  unfold CmdQ.pending at within
  unfold wrap
  split at within <;> split <;> omega

section

variable (inv : CmdQInv history)

include inv

theorem CmdQInv.apart (granted : history.queue.phase = .granted) {offset index : Nat}
    (inside : offset < history.queue.waitSize) (within : index < history.queue.pending) :
    history.queue.currPtr + offset ≠ wrap history.queue.size (history.queue.readPtr + index) := by
  have place := inv.placed
  simp only [CmdQ.Placed, granted] at place
  have position := CmdQ.wrap_pending inv.readInside inv.writeInside within
  rcases place with ⟨behind, fits, order⟩ | ⟨startsOver, fits⟩
  · rw [behind]
    omega
  · have atZero := startsOver.atZero
    have inOrder := startsOver.inOrder
    omega

theorem CmdQInv.regionFits (granted : history.queue.phase = .granted) :
    history.queue.currPtr + history.queue.waitSize ≤ history.queue.size := by
  have place := inv.placed
  simp only [CmdQ.Placed, granted] at place
  have readInside := inv.readInside
  rcases place with ⟨behind, fits, -⟩ | ⟨startsOver, fits⟩
  · rw [behind]
    exact fits
  · rw [startsOver.atZero]
    omega

theorem CmdQInv.safe : CmdQSafe history where
  commands := inv.commands
  drained := by
    intro drained
    have readInside := inv.readInside
    have none : history.queue.pending = 0 := by
      unfold CmdQ.pending
      split <;> omega
    have commands := inv.commands
    rw [none, ringSlice_zero (Nat.le_of_lt (inv.memorySize ▸ readInside)),
      List.append_nil] at commands
    exact commands
  writeInside := inv.writeInside
  regionInside := inv.regionFits
  regionApart := fun granted _ _ => inv.apart granted

theorem CmdQInv.wait {size : Nat} (positive : 0 < size) :
    CmdQInv (cmdQAct history (.wait size)) where
  memorySize := inv.memorySize
  sizeAligned := inv.sizeAligned
  writeAligned := inv.writeAligned
  readInside := inv.readInside
  writeInside := inv.writeInside
  commands := inv.commands
  placed := by
    show (ithCmdQWaitSize history.queue size).Placed
    unfold CmdQ.Placed ithCmdQWaitSize
    split_ifs
    · exact ⟨positive, rfl⟩
    · exact ⟨positive, Or.inl rfl⟩

/-- A step that leaves the memory and both pointers alone keeps the invariant
when it keeps the region in place. -/
theorem CmdQInv.replace (size : queue.size = history.queue.size)
    (memory : queue.memory = history.queue.memory) (read : queue.readPtr = history.queue.readPtr)
    (write : queue.writePtr = history.queue.writePtr) (placed : queue.Placed) :
    CmdQInv { history with queue := queue } where
  memorySize := by rw [memory, size]; exact inv.memorySize
  sizeAligned := by rw [size]; exact inv.sizeAligned
  writeAligned := by rw [write]; exact inv.writeAligned
  readInside := by rw [read, size]; exact inv.readInside
  writeInside := by rw [write, size]; exact inv.writeInside
  commands := by
    show history.issued = history.executed ++ ringSlice queue.readPtr queue.pending queue.memory
    have pending : queue.pending = history.queue.pending := by
      unfold CmdQ.pending
      rw [read, write, size]
    rw [read, memory, pending]
    exact inv.commands
  placed := placed

theorem CmdQInv.fillNullCommands (here : history.queue.currPtr = history.queue.writePtr)
    (inOrder : history.queue.readPtr ≤ history.queue.currPtr) {size timeout : Nat}
    (positive : 0 < size) :
    CmdQInv
      { history with
        queue :=
          { fillNullCommands history.queue with
            currPtr := 0
            phase := .waitAvailable2 size timeout } } := by
  have memorySize := inv.memorySize
  have writeInside := inv.writeInside
  have readInside := inv.readInside
  have whole :
      4 * ((history.queue.size - history.queue.writePtr) / 4) =
        history.queue.size - history.queue.writePtr := by
    have sizeAligned := inv.sizeAligned
    have writeAligned := inv.writeAligned
    omega
  have fits :
      history.queue.writePtr +
          (List.replicate (history.queue.size - history.queue.writePtr) (0 : UInt8)).length ≤
        history.queue.memory.length := by
    rw [List.length_replicate]
    omega
  have filled :
      (Ith.fillNullCommands history.queue).memory =
        overwrite history.queue.writePtr
          (List.replicate (history.queue.size - history.queue.writePtr) 0)
          history.queue.memory := by
    show overwrite history.queue.currPtr
        (List.replicate (4 * ((history.queue.size - history.queue.currPtr) / 4)) 0)
        history.queue.memory = _
    rw [here, whole]
  have pending :
      history.queue.pending = history.queue.writePtr - history.queue.readPtr :=
    if_pos (here ▸ inOrder)
  refine
    { memorySize := ?_
      sizeAligned := inv.sizeAligned
      writeAligned := inv.writeAligned
      readInside := readInside
      writeInside := writeInside
      commands := ?_
      placed := ⟨positive, Or.inr ⟨rfl, here ▸ inOrder, ?_⟩⟩ }
  · show (Ith.fillNullCommands history.queue).memory.length = history.queue.size
    rw [filled, length_overwrite fits]
    exact memorySize
  · show history.issued =
      history.executed ++
        ringSlice history.queue.readPtr history.queue.pending
          (Ith.fillNullCommands history.queue).memory
    rw [filled, ringSlice_overwrite (by omega) (by omega) fits]
    · exact inv.commands
    · intro index within
      left
      unfold wrap
      split <;> omega
  · show slice history.queue.writePtr (history.queue.size - history.queue.writePtr)
        (Ith.fillNullCommands history.queue).memory = _
    have self := slice_overwrite_self fits
    rw [List.length_replicate] at self
    rw [filled]
    exact self

theorem CmdQInv.turn (allowed : waitAvailableAllowed history.queue) :
    CmdQInv (cmdQAct history .turn) := by
  have placed := inv.placed
  show CmdQInv { history with queue := waitAvailableTurn history.queue }
  unfold CmdQ.Placed at placed
  unfold waitAvailableAllowed at allowed
  unfold waitAvailableTurn
  cases phase : history.queue.phase with
  | idle | granted => exact inv
  | waitAvailable1 size timeout =>
    simp only [phase] at placed
    obtain ⟨positive, here⟩ := placed
    dsimp only
    split_ifs with passed expired
    · exact inv.fillNullCommands here passed positive
    · exact inv.replace rfl rfl rfl rfl trivial
    · exact inv.replace rfl rfl rfl rfl ⟨positive, here⟩
  | waitAvailable2 size timeout =>
    simp only [phase] at placed allowed
    obtain ⟨positive, place⟩ := placed
    dsimp only
    split_ifs with passed expired
    · refine inv.replace rfl rfl rfl rfl ?_
      show (history.queue.currPtr = history.queue.writePtr ∧
          history.queue.writePtr + size ≤ history.queue.size ∧
            (history.queue.readPtr ≤ history.queue.writePtr ∨
              history.queue.writePtr + size ≤ history.queue.readPtr)) ∨ _
      have readInside := inv.readInside
      by_cases behind : history.queue.readPtr ≤ history.queue.currPtr
      · obtain ⟨here, fits⟩ := allowed behind
        left
        exact ⟨here, here ▸ fits, Or.inl (here ▸ behind)⟩
      · have room := passed.resolve_left behind
        rcases place with here | startsOver
        · left
          rw [here] at room behind
          exact ⟨here, by omega, Or.inr (by omega)⟩
        · right
          have atZero := startsOver.atZero
          exact ⟨⟨atZero, startsOver.inOrder, startsOver.nullCommands⟩,
            (by omega : size ≤ history.queue.readPtr)⟩
    · exact inv.replace rfl rfl rfl rfl trivial
    · refine inv.replace rfl rfl rfl rfl ⟨positive, ?_⟩
      exact place.imp_right fun startsOver =>
        ⟨startsOver.atZero, startsOver.inOrder, startsOver.nullCommands⟩

theorem CmdQInv.turn_allowed (safe : CmdQSafe (cmdQAct history .turn)) :
    waitAvailableAllowed history.queue := by
  have placed := inv.placed
  have readInside := inv.readInside
  have writeInside := inv.writeInside
  unfold CmdQ.Placed at placed
  unfold waitAvailableAllowed
  split
  · rename_i size timeout phase
    intro behind
    simp only [phase] at placed
    obtain ⟨positive, place⟩ := placed
    have granted :
        waitAvailableTurn history.queue =
          { history.queue with waitSize := size, phase := .granted } := by
      unfold waitAvailableTurn
      rw [phase]
      exact if_pos (Or.inl behind)
    have regionInside := safe.regionInside
    have regionApart := safe.regionApart
    simp only [cmdQAct, granted] at regionInside regionApart
    refine ⟨?_, regionInside trivial⟩
    rcases place with here | startsOver
    · exact here
    · by_contra elsewhere
      have atZero := startsOver.atZero
      have readZero : history.queue.readPtr = 0 := by omega
      have some : 0 < history.queue.pending := by
        unfold CmdQ.pending
        split <;> omega
      apply regionApart trivial 0 0 positive some
      rw [atZero, readZero, wrap, if_pos (by omega)]
  · trivial

theorem CmdQInv.fill {offset : Nat} {commands : List UInt8}
    (enabled : CmdQEvent.enabled history.queue (.fill offset commands)) :
    CmdQInv (cmdQAct history (.fill offset commands)) := by
  obtain ⟨granted, within⟩ := enabled
  have memorySize := inv.memorySize
  have readInside := inv.readInside
  have writeInside := inv.writeInside
  have regionFits := inv.regionFits granted
  have place := inv.placed
  simp only [CmdQ.Placed, granted] at place
  have fits :
      history.queue.currPtr + offset + commands.length ≤ history.queue.memory.length := by
    omega
  refine
    { memorySize := ?_
      sizeAligned := inv.sizeAligned
      writeAligned := inv.writeAligned
      readInside := readInside
      writeInside := writeInside
      commands := ?_
      placed := ?_ }
  · exact (length_overwrite fits).trans memorySize
  · show history.issued =
      history.executed ++
        ringSlice history.queue.readPtr history.queue.pending
          (overwrite (history.queue.currPtr + offset) commands history.queue.memory)
    have pendingFits := CmdQ.pending_le readInside writeInside
    rw [ringSlice_overwrite (by omega) (by omega) fits]
    · exact inv.commands
    · intro index pending
      rw [memorySize]
      by_contra touches
      have hit :
          wrap history.queue.size (history.queue.readPtr + index) - history.queue.currPtr <
            history.queue.waitSize := by
        omega
      have miss := inv.apart granted hit pending
      omega
  · show CmdQ.Placed (cmdQFill history.queue offset commands)
    simp only [CmdQ.Placed, cmdQFill, granted]
    refine place.imp_right ?_
    rintro ⟨startsOver, room⟩
    refine ⟨⟨startsOver.atZero, startsOver.inOrder, ?_⟩, room⟩
    have atZero := startsOver.atZero
    have inOrder := startsOver.inOrder
    have before :
        history.queue.currPtr + offset + commands.length ≤ history.queue.writePtr := by
      omega
    show slice _ _ (overwrite _ _ _) = _
    rw [slice_overwrite_of_disjoint fits (Or.inr before)]
    exact startsOver.nullCommands

end

/-- How far a flush moves the write pointer around the ring. -/
def CmdQ.flushDistance (queue : CmdQ) (cmdsSize : Nat) : Nat :=
  (if queue.currPtr = queue.writePtr then 0 else queue.size - queue.writePtr) + cmdsSize

section

variable (inv : CmdQInv history) (enabled : CmdQEvent.enabled history.queue (.flush cmdsSize))

include inv enabled

theorem CmdQInv.flushed_eq :
    history.queue.flushed cmdsSize =
      ringSlice history.queue.writePtr
        (history.queue.flushDistance cmdsSize) history.queue.memory := by
  obtain ⟨granted, fewer, -⟩ := enabled
  have memorySize := inv.memorySize
  have writeInside := inv.writeInside
  have regionFits := inv.regionFits granted
  have place := inv.placed
  simp only [CmdQ.Placed, granted] at place
  unfold CmdQ.flushed CmdQ.flushDistance
  split_ifs with here
  · rw [Nat.zero_add, List.nil_append, here, ringSlice_of_le (by omega)]
  · have startsOver := (place.resolve_left fun first => here first.1).1
    have distance :
        history.queue.writePtr + (history.queue.size - history.queue.writePtr + cmdsSize) -
            history.queue.memory.length =
          cmdsSize := by
      omega
    rw [ringSlice_of_ge (by omega), distance, memorySize,
      startsOver.nullCommands, startsOver.atZero]

theorem CmdQInv.flushDistance_le :
    history.queue.pending + history.queue.flushDistance cmdsSize ≤ history.queue.size := by
  obtain ⟨granted, fewer, -⟩ := enabled
  have readInside := inv.readInside
  have writeInside := inv.writeInside
  have place := inv.placed
  simp only [CmdQ.Placed, granted] at place
  unfold CmdQ.flushDistance CmdQ.pending
  rcases place with ⟨here, fits, order⟩ | ⟨startsOver, room⟩
  · rw [if_pos here]
    split <;> omega
  · have inOrder := startsOver.inOrder
    rw [if_pos inOrder]
    split <;> omega

theorem CmdQInv.pending_flushed :
    ringSlice history.queue.readPtr (history.queue.pending + history.queue.flushDistance cmdsSize)
        history.queue.memory =
      ringSlice history.queue.readPtr history.queue.pending history.queue.memory ++
        history.queue.flushed cmdsSize := by
  have memorySize := inv.memorySize
  have readInside := inv.readInside
  have writeInside := inv.writeInside
  have distance := inv.flushDistance_le enabled
  have stop :
      wrap history.queue.memory.length (history.queue.readPtr + history.queue.pending) =
        history.queue.writePtr := by
    unfold CmdQ.pending wrap
    split <;> split <;> omega
  rw [ringSlice_add (by omega) (by omega), stop, inv.flushed_eq enabled]

theorem CmdQInv.pending_flush (allowed : ithCmdQFlushAllowed history.queue cmdsSize) :
    (ithCmdQFlush history.queue cmdsSize).pending =
      history.queue.pending + history.queue.flushDistance cmdsSize := by
  obtain ⟨granted, fewer, -, moves⟩ := enabled
  obtain ⟨inside, meets⟩ := allowed
  have readInside := inv.readInside
  have writeInside := inv.writeInside
  have place := inv.placed
  simp only [CmdQ.Placed, granted] at place
  unfold CmdQ.flushDistance
  show (if history.queue.readPtr ≤ history.queue.currPtr + cmdsSize then
      history.queue.currPtr + cmdsSize - history.queue.readPtr
    else
      history.queue.size - history.queue.readPtr + (history.queue.currPtr + cmdsSize)) = _
  unfold CmdQ.pending at meets ⊢
  rcases place with ⟨here, fits, order⟩ | ⟨startsOver, room⟩
  · rw [if_pos here]
    split at meets <;> split_ifs <;> omega
  · have atZero := startsOver.atZero
    have inOrder := startsOver.inOrder
    rw [if_pos inOrder] at meets ⊢
    split_ifs <;> omega

theorem CmdQInv.flush (allowed : ithCmdQFlushAllowed history.queue cmdsSize) :
    CmdQInv (cmdQAct history (.flush cmdsSize)) where
  memorySize := inv.memorySize
  sizeAligned := inv.sizeAligned
  writeAligned := by
    obtain ⟨granted, -, aligned, -⟩ := enabled
    have place := inv.placed
    have writeAligned := inv.writeAligned
    simp only [CmdQ.Placed, granted] at place
    show 8 ∣ history.queue.currPtr + cmdsSize
    rcases place with ⟨here, -⟩ | ⟨startsOver, -⟩
    · omega
    · have atZero := startsOver.atZero
      omega
  readInside := inv.readInside
  writeInside := allowed.1
  commands := by
    show history.issued ++ history.queue.flushed cmdsSize =
      history.executed ++
        ringSlice history.queue.readPtr
          (ithCmdQFlush history.queue cmdsSize).pending history.queue.memory
    rw [inv.pending_flush enabled allowed, inv.pending_flushed enabled,
      ← List.append_assoc, ← inv.commands]
  placed := trivial

theorem CmdQInv.flush_allowed (safe : CmdQSafe (cmdQAct history (.flush cmdsSize))) :
    ithCmdQFlushAllowed history.queue cmdsSize := by
  refine ⟨safe.writeInside, fun meets => ?_⟩
  have memorySize := inv.memorySize
  have readInside := inv.readInside
  have fits := inv.flushDistance_le enabled
  have drained :
      history.issued ++ history.queue.flushed cmdsSize = history.executed :=
    safe.drained meets
  rw [inv.commands, List.append_assoc, ← inv.pending_flushed enabled] at drained
  have none := congrArg List.length drained
  rw [List.length_append, length_ringSlice (by omega) (by omega)] at none
  have writeInside := inv.writeInside
  unfold CmdQ.flushDistance at none
  split_ifs at none <;> omega

end

theorem CmdQInv.execute (inv : CmdQInv history)
    {count : Nat} (fewer : count ≤ history.queue.pending) :
    CmdQInv (cmdQAct history (.execute count)) := by
  have memorySize := inv.memorySize
  have readInside := inv.readInside
  have writeInside := inv.writeInside
  have pendingFits := CmdQ.pending_le readInside writeInside
  have rest :
      (cmdQExecute history.queue count).pending = history.queue.pending - count := by
    show (if wrap _ _ ≤ history.queue.writePtr then _ else _) = _
    unfold CmdQ.pending at fewer ⊢
    unfold wrap
    split at fewer <;> split_ifs <;> simp only [cmdQExecute, wrap] <;>
      split_ifs <;> omega
  refine
    { memorySize := memorySize
      sizeAligned := inv.sizeAligned
      writeAligned := inv.writeAligned
      readInside := ?_
      writeInside := writeInside
      commands := ?_
      placed := ?_ }
  · show wrap history.queue.size (history.queue.readPtr + count) < history.queue.size
    unfold wrap
    split <;> omega
  · show history.issued =
      history.executed ++ ringSlice history.queue.readPtr count history.queue.memory ++
        ringSlice (wrap history.queue.size (history.queue.readPtr + count))
          (cmdQExecute history.queue count).pending history.queue.memory
    rw [rest, ← memorySize, List.append_assoc,
      ← ringSlice_add (by omega) (by omega), Nat.add_sub_cancel' fewer]
    exact inv.commands
  · have place := inv.placed
    show CmdQ.Placed (cmdQExecute history.queue count)
    unfold CmdQ.pending at fewer
    have moved :
        history.queue.readPtr ≤ history.queue.writePtr →
          (cmdQExecute history.queue count).readPtr ≤ history.queue.writePtr ∧
            history.queue.readPtr ≤ (cmdQExecute history.queue count).readPtr := by
      intro inOrder
      rw [if_pos inOrder] at fewer
      show wrap _ _ ≤ _ ∧ _ ≤ wrap _ _
      unfold wrap
      split <;> omega
    have passed :
        (cmdQExecute history.queue count).readPtr ≤ history.queue.writePtr ∨
          history.queue.readPtr ≤ (cmdQExecute history.queue count).readPtr := by
      show wrap _ _ ≤ _ ∨ _ ≤ wrap _ _
      unfold wrap
      split at fewer <;> split <;> omega
    unfold CmdQ.Placed at place ⊢
    have samePhase : (cmdQExecute history.queue count).phase = history.queue.phase := rfl
    rw [samePhase]
    cases phase : history.queue.phase with
    | idle => trivial
    | waitAvailable1 size timeout =>
      rw [phase] at place
      exact place
    | waitAvailable2 size timeout =>
      rw [phase] at place
      refine ⟨place.1, place.2.imp_right fun startsOver => ?_⟩
      exact ⟨startsOver.atZero, (moved startsOver.inOrder).1, startsOver.nullCommands⟩
    | granted =>
      rw [phase] at place
      rcases place with ⟨here, fits, order⟩ | ⟨startsOver, room⟩
      · left
        refine ⟨here, fits, ?_⟩
        show (cmdQExecute history.queue count).readPtr ≤ history.queue.writePtr ∨
          history.queue.writePtr + history.queue.waitSize ≤
            (cmdQExecute history.queue count).readPtr
        rcases order with inOrder | room
        · exact Or.inl (moved inOrder).1
        · exact passed.imp_right room.trans
      · right
        have inOrder := moved startsOver.inOrder
        exact ⟨⟨startsOver.atZero, inOrder.1, startsOver.nullCommands⟩, room.trans inOrder.2⟩

theorem CmdQInv.step (inv : CmdQInv history)
    {event : CmdQEvent} (allowed : CmdQAllowed history event) :
    CmdQInv (cmdQStep history event) := by
  unfold cmdQStep
  split_ifs with enabled
  · cases event with
    | wait size => exact inv.wait enabled.2.1
    | turn => exact inv.turn allowed
    | fill offset commands => exact inv.fill enabled
    | flush cmdsSize => exact inv.flush enabled (allowed enabled)
    | execute count => exact inv.execute enabled
  · exact inv

theorem CmdQInv.step_allowed
    (inv : CmdQInv history) {event : CmdQEvent} (safe : CmdQSafe (cmdQStep history event)) :
    CmdQAllowed history event := by
  cases event with
  | turn => exact inv.turn_allowed safe
  | flush cmdsSize =>
    intro enabled
    rw [cmdQStep, if_pos enabled] at safe
    exact inv.flush_allowed enabled safe
  | wait size | fill offset commands | execute count => trivial

theorem CmdQInv.reset {memory : List UInt8}
    (positive : 0 < memory.length) (aligned : 8 ∣ memory.length) :
    CmdQInv (CmdQHistory.reset memory) where
  memorySize := rfl
  sizeAligned := aligned
  writeAligned := Nat.dvd_zero 8
  readInside := positive
  writeInside := positive
  commands := (ringSlice_zero (Nat.zero_le _)).symm
  placed := trivial

/-- A run passes only through safe states if and only if each of its steps meets
the condition. -/
theorem cmdQ_safe_iff
    (memory : List UInt8) (positive : 0 < memory.length) (aligned : 8 ∣ memory.length)
    (events : List CmdQEvent) :
    (∀ done rest, events = done ++ rest →
        CmdQSafe (done.foldl cmdQStep (CmdQHistory.reset memory))) ↔
      AllowedAlong CmdQAllowed cmdQStep (CmdQHistory.reset memory) events := by
  have initial := CmdQInv.reset positive aligned
  have kept : ∀ history event, CmdQInv history → CmdQAllowed history event →
      CmdQInv (cmdQStep history event) ∧ CmdQSafe (cmdQStep history event) := by
    intro history event inv allowed
    exact ⟨inv.step allowed, (inv.step allowed).safe⟩
  exact (AllowedAlong.iff_safe kept (fun _ _ inv => inv.step_allowed) initial
    initial.safe events).symm

/-- Three regions, the last of which starts over. -/
theorem cmdQ_safe_iff_wrapping :
    CmdQSafe
      ([CmdQEvent.wait 512, .turn, .flush 512, .execute 512, .wait 504, .turn,
          .flush 504, .execute 504, .wait 16, .turn, .turn,
          .fill 8 [1, 2, 3], .flush 16, .execute 24].foldl cmdQStep
        (CmdQHistory.reset (List.replicate 1024 0xff))) :=
  (cmdQ_safe_iff _ (by rw [List.length_replicate]; decide)
    (by rw [List.length_replicate]; decide) _).mpr (by decide +kernel) _ []
    (List.append_nil _).symm

/-- A flush of exactly the free bytes makes the pointers equal while 1016 bytes
are pending; and with the read pointer at zero the region that starts over is
granted on top of them. -/
theorem cmdQ_not_safe :
    ¬ CmdQSafe
        ([CmdQEvent.wait 1016, .turn, .flush 1016, .execute 8, .wait 8, .turn,
            .turn, .flush 8].foldl cmdQStep
          (CmdQHistory.reset (List.replicate 1024 0xff))) ∧
      ¬ CmdQSafe
          ([CmdQEvent.wait 1016, .turn, .flush 1016, .wait 8, .turn, .turn].foldl cmdQStep
            (CmdQHistory.reset (List.replicate 1024 0xff))) := by
  refine ⟨fun safe => ?_, fun safe => ?_⟩
  · exact absurd (safe.drained (by decide +kernel)) (by decide +kernel)
  · exact absurd (by decide +kernel)
      (safe.regionApart (by decide +kernel) 0 0 (by decide +kernel) (by decide +kernel))

end

end IteSdk.Ith
