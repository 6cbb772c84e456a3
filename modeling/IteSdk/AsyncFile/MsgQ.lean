import IteSdk.Lib.Counter
import IteSdk.Lib.Memory
import IteSdk.Lib.Transition

/-!
# The message queue

A buffer of `entryCount` entries with a read and a write pointer, which are kept
here as offsets from `buf`.  `PalReadMsgQ` and `PalWriteMsgQ` go on in steps: each
access to a pointer that the other side changes, each copy and each update of a
pointer is one.
-/

namespace IteSdk.AsyncFile

section

open Lib

variable {α : Type}

/-- `MSGQ`; `buffer` are the cells from `buf` on, bytes or whatever the messages are
made of. -/
structure MsgQ (α : Type) where
  buffer : List α
  entrySize : Nat
  entryCount : Nat
  readPtr : Nat
  writePtr : Nat
  endPtr : Nat
  deriving DecidableEq

/-- `PalCreateMsgQ`, where `PalHeapAlloc` has returned this memory. -/
def palCreateMsgQ (msgSize msgCount : Nat) (memory : List α) : MsgQ α :=
  { buffer := memory
    entrySize := msgSize
    entryCount := msgCount
    readPtr := 0
    writePtr := 0
    endPtr := msgSize * msgCount }

def waitTimeout : Nat := 2

def palMsgQInfinite : Nat := 0xFFFFFFFF

/-- `timeout != PAL_MSGQ_INFINITE && GetDuration(clk) >= timeout`. -/
def timedOut (timeout duration : Nat) : Bool := timeout ≠ palMsgQInfinite ∧ timeout ≤ duration

/-- Where `PalReadMsgQ` is; it has `msg` from the copy on. -/
inductive MsgQReadPc (α : Type)
  | idle
  | test (timeout : Nat)
  | sleep (timeout : Nat)
  | copy
  | advance (msg : List α)
  | wrap (msg : List α)
  deriving DecidableEq

/-- Where `PalWriteMsgQ` is. -/
inductive MsgQWritePc (α : Type)
  | idle
  | start (msg : List α) (timeout : Nat)
  | test (msg : List α) (timeout nextWritePtr : Nat)
  | sleep (msg : List α) (timeout nextWritePtr : Nat)
  | copy (msg : List α) (nextWritePtr : Nat)
  | publish (msg : List α) (nextWritePtr : Nat)
  deriving DecidableEq

/-- A call that has ended: its result, and whether one of its own steps has changed
the queue. -/
structure MsgQReturn where
  result : Nat
  changed : Bool
  deriving DecidableEq

/-- The queue with its two tasks.  `read` are the messages of the reads that
returned 0 and `written` those of such writes; `readChanged` and `writeChanged` are
about the call under way. -/
structure MsgQTasks (α : Type) where
  queue : MsgQ α
  reader : MsgQReadPc α
  writer : MsgQWritePc α
  read : List (List α)
  written : List (List α)
  readChanged : Bool
  writeChanged : Bool
  returns : List MsgQReturn
  deriving DecidableEq

def MsgQTasks.init (queue : MsgQ α) : MsgQTasks α :=
  { queue := queue
    reader := .idle
    writer := .idle
    read := []
    written := []
    readChanged := false
    writeChanged := false
    returns := [] }

/-- One step of `PalReadMsgQ`; `duration` is what `GetDuration` returns in it. -/
def palReadMsgQ (tasks : MsgQTasks α) (duration : Nat) : MsgQTasks α :=
  let queue := tasks.queue
  match tasks.reader with
  | .idle => tasks
  | .test timeout =>
    if queue.readPtr = queue.writePtr then
      { tasks with reader := .sleep timeout }
    else
      { tasks with reader := .copy }
  | .sleep timeout =>
    if timedOut timeout duration then
      { tasks with
        reader := .idle
        returns := tasks.returns ++ [⟨waitTimeout, tasks.readChanged⟩] }
    else
      { tasks with reader := .test timeout }
  | .copy =>
    { tasks with
      reader := .advance (slice queue.readPtr queue.entrySize queue.buffer) }
  | .advance msg =>
    { tasks with
      queue := { queue with readPtr := queue.readPtr + queue.entrySize }
      reader := .wrap msg
      readChanged := true }
  | .wrap msg =>
    { tasks with
      queue :=
        if queue.endPtr ≤ queue.readPtr then { queue with readPtr := 0 }
        else queue
      reader := .idle
      read := tasks.read ++ [msg]
      returns := tasks.returns ++ [⟨0, true⟩] }

/-- One step of `PalWriteMsgQ`. -/
def palWriteMsgQ (tasks : MsgQTasks α) (duration : Nat) : MsgQTasks α :=
  let queue := tasks.queue
  match tasks.writer with
  | .idle => tasks
  | .start msg timeout =>
    let nextWritePtr := queue.writePtr + queue.entrySize
    { tasks with
      writer :=
        .test msg timeout (if queue.endPtr ≤ nextWritePtr then 0 else nextWritePtr) }
  | .test msg timeout nextWritePtr =>
    if nextWritePtr = queue.readPtr then
      { tasks with writer := .sleep msg timeout nextWritePtr }
    else
      { tasks with writer := .copy msg nextWritePtr }
  | .sleep msg timeout nextWritePtr =>
    if timedOut timeout duration then
      { tasks with
        writer := .idle
        returns := tasks.returns ++ [⟨waitTimeout, tasks.writeChanged⟩] }
    else
      { tasks with writer := .test msg timeout nextWritePtr }
  | .copy msg nextWritePtr =>
    { tasks with
      queue := { queue with buffer := overwrite queue.writePtr msg queue.buffer }
      writer := .publish msg nextWritePtr
      writeChanged := true }
  | .publish msg nextWritePtr =>
    { tasks with
      queue := { queue with writePtr := nextWritePtr }
      writer := .idle
      written := tasks.written ++ [msg]
      returns := tasks.returns ++ [⟨0, true⟩] }

/-- The calls, where `msg` are the `entrySize` cells at the pointer that is passed,
and the steps of the calls. -/
inductive MsgQEvent (α : Type)
  | callRead (timeout : Nat)
  | read (duration : Nat)
  | callWrite (msg : List α) (timeout : Nat)
  | write (duration : Nat)
  deriving DecidableEq

def msgQStep (tasks : MsgQTasks α) : MsgQEvent α → MsgQTasks α
  | .callRead timeout =>
    match tasks.reader with
    | .idle => { tasks with reader := .test timeout, readChanged := false }
    | _ => tasks
  | .read duration => palReadMsgQ tasks duration
  | .callWrite msg timeout =>
    match tasks.writer with
    | .idle =>
      if msg.length = tasks.queue.entrySize then
        { tasks with writer := .start msg timeout, writeChanged := false }
      else tasks
    | _ => tasks
  | .write duration => palWriteMsgQ tasks duration

end

/-!
# Runs of the message queue

Message number `n` goes through entry `n % entryCount`.  `PalReadMsgQ` takes its
pointer past the last entry before it takes it back to the first one; a writer
that looks at the pointer in between does not see that the queue is full.
-/

section

open Lib

variable {α : Type}

namespace MsgQTasks

/-- How many messages `readPtr` has been moved past. -/
def taken (tasks : MsgQTasks α) : Nat :=
  match tasks.reader with
  | .wrap _ => tasks.read.length + 1
  | _ => tasks.read.length

def copied (tasks : MsgQTasks α) : Nat :=
  match tasks.reader with
  | .advance _ | .wrap _ => tasks.read.length + 1
  | _ => tasks.read.length

def entry (tasks : MsgQTasks α) (number : Nat) : Nat :=
  number % tasks.queue.entryCount * tasks.queue.entrySize

/-- The messages read are the first ones written; those not yet copied out are all
in the queue, and the writer never copies over one of them; the pointers are at
boundaries of entries; and a call that has timed out has changed nothing. -/
structure Order (tasks : MsgQTasks α) : Prop where
  order : tasks.read <+: tasks.written
  kept :
    ∀ number msg, tasks.copied ≤ number → tasks.written[number]? = some msg →
      slice (tasks.entry number) tasks.queue.entrySize tasks.queue.buffer = msg
  spared :
    ∀ msg nextWritePtr, tasks.writer = .copy msg nextWritePtr →
      ∀ number, tasks.copied ≤ number → number < tasks.written.length →
        tasks.entry number ≠ tasks.queue.writePtr
  readPtr : ∃ index ≤ tasks.queue.entryCount, tasks.queue.readPtr = index * tasks.queue.entrySize
  writePtr : ∃ index < tasks.queue.entryCount, tasks.queue.writePtr = index * tasks.queue.entrySize
  unchanged : ∀ ended ∈ tasks.returns, ended.result = waitTimeout → ended.changed = false

/-- And `readPtr` never leaves the buffer. -/
structure Safe (tasks : MsgQTasks α) : Prop extends tasks.Order where
  inside : ∃ index < tasks.queue.entryCount, tasks.queue.readPtr = index * tasks.queue.entrySize

/-- What the writer compares with `readPtr`. -/
def tested (tasks : MsgQTasks α) : Option Nat :=
  match tasks.writer with
  | .test _ _ nextWritePtr => some nextWritePtr
  | _ => none

/-- The writer does not take a queue for free whose `readPtr` is at the end while it
is about to go on to the first entry. -/
def WriteAllowed (tasks : MsgQTasks α) : MsgQEvent α → Prop
  | .write _ =>
    ∀ nextWritePtr ∈ tasks.tested,
      nextWritePtr = 0 → tasks.queue.readPtr = tasks.queue.endPtr →
        nextWritePtr = tasks.queue.readPtr
  | _ => True

instance WriteAllowed.decidable (tasks : MsgQTasks α) :
    ∀ event : MsgQEvent α, Decidable (tasks.WriteAllowed event)
  | .write _ => inferInstanceAs (Decidable (∀ nextWritePtr ∈ tasks.tested, _ → _ → _))
  | .callRead _ | .callWrite _ _ | .read _ => inferInstanceAs (Decidable True)

/-- The next step is the update of `readPtr`. -/
def advances (tasks : MsgQTasks α) : Bool :=
  match tasks.reader with
  | .advance _ => true
  | _ => false

/-- The reader does not take its pointer past the last entry. -/
def ReadAllowed (tasks : MsgQTasks α) : MsgQEvent α → Prop
  | .read _ =>
    tasks.advances → tasks.queue.readPtr + tasks.queue.entrySize < tasks.queue.endPtr
  | _ => True

instance ReadAllowed.decidable (tasks : MsgQTasks α) :
    ∀ event : MsgQEvent α, Decidable (tasks.ReadAllowed event)
  | .read _ => inferInstanceAs (Decidable (_ → _))
  | .callRead _ | .callWrite _ _ | .write _ => inferInstanceAs (Decidable True)

def Reading (tasks : MsgQTasks α) : Prop :=
  match tasks.reader with
  | .idle => True
  | .test _ | .sleep _ => tasks.readChanged = false
  | .copy =>
    0 < tasks.queue.entrySize ∧ tasks.read.length < tasks.written.length ∧ tasks.readChanged = false
  | .advance msg | .wrap msg =>
    0 < tasks.queue.entrySize ∧ tasks.written[tasks.read.length]? = some msg

def Writing (tasks : MsgQTasks α) : Prop :=
  match tasks.writer with
  | .idle => True
  | .start msg _ =>
    msg.length = tasks.queue.entrySize ∧ tasks.writeChanged = false
  | .test msg _ nextWritePtr | .sleep msg _ nextWritePtr =>
    msg.length = tasks.queue.entrySize ∧ tasks.writeChanged = false ∧
      nextWritePtr = tasks.entry (tasks.written.length + 1)
  | .copy msg nextWritePtr =>
    msg.length = tasks.queue.entrySize ∧ nextWritePtr = tasks.entry (tasks.written.length + 1) ∧
      0 < tasks.queue.entrySize ∧
      tasks.written.length + 1 < tasks.taken + tasks.queue.entryCount
  | .publish msg nextWritePtr =>
    slice (tasks.entry tasks.written.length) tasks.queue.entrySize tasks.queue.buffer = msg ∧
      nextWritePtr = tasks.entry (tasks.written.length + 1) ∧
      tasks.written.length + 1 < tasks.taken + tasks.queue.entryCount

structure Inv (tasks : MsgQTasks α) : Prop where
  entries : 2 ≤ tasks.queue.entryCount
  endPtr : tasks.queue.endPtr = tasks.queue.entrySize * tasks.queue.entryCount
  length : tasks.queue.buffer.length = tasks.queue.entrySize * tasks.queue.entryCount
  readPtr :
    tasks.queue.readPtr = match tasks.reader with
      | .wrap _ => tasks.entry tasks.read.length + tasks.queue.entrySize
      | _ => tasks.entry tasks.read.length
  writePtr : tasks.queue.writePtr = tasks.entry tasks.written.length
  behind : tasks.taken ≤ tasks.written.length
  ahead : tasks.written.length < tasks.taken + tasks.queue.entryCount
  order : tasks.read <+: tasks.written
  kept :
    ∀ number msg, tasks.copied ≤ number → tasks.written[number]? = some msg →
      slice (tasks.entry number) tasks.queue.entrySize tasks.queue.buffer = msg
  reading : tasks.Reading
  writing : tasks.Writing
  unchanged : ∀ ended ∈ tasks.returns, ended.result = waitTimeout → ended.changed = false

variable {tasks : MsgQTasks α}

theorem Writing.mono {after : MsgQTasks α} (writing : tasks.Writing)
    (writer : after.writer = tasks.writer) (written : after.written = tasks.written)
    (writeChanged : after.writeChanged = tasks.writeChanged)
    (entrySize : after.queue.entrySize = tasks.queue.entrySize)
    (entryCount : after.queue.entryCount = tasks.queue.entryCount)
    (buffer : after.queue.buffer = tasks.queue.buffer)
    (taken : tasks.taken ≤ after.taken) : after.Writing := by
  have same : ∀ number, after.entry number = tasks.entry number := by
    intro number
    rw [entry, entry, entrySize, entryCount]
  simp only [Writing, writer, written, writeChanged, entrySize, entryCount, buffer,
    same] at writing ⊢
  cases here : tasks.writer <;> simp only [here] at writing ⊢
  all_goals first | exact writing | skip
  · exact ⟨writing.1, writing.2.1, writing.2.2.1, by omega⟩
  · exact ⟨writing.1, writing.2.1, by omega⟩

theorem taken_le_copied (tasks : MsgQTasks α) : tasks.taken ≤ tasks.copied := by
  cases here : tasks.reader <;> simp [taken, copied, here]

theorem Inv.callRead (inv : tasks.Inv) (timeout : Nat) :
    (msgQStep tasks (.callRead timeout)).Inv := by
  obtain ⟨queue, reader, writer, read, written, readChanged, writeChanged, returns⟩ := tasks
  cases reader with
  | idle => exact { inv with reading := rfl }
  | test _ | sleep _ | copy | advance _ | wrap _ => exact inv

theorem mem_returns_append {returns : List MsgQReturn} {last : MsgQReturn}
    (unchanged : ∀ ended ∈ returns, ended.result = waitTimeout → ended.changed = false)
    (lastUnchanged : last.result = waitTimeout → last.changed = false) :
    ∀ ended ∈ returns ++ [last], ended.result = waitTimeout → ended.changed = false := by
  intro ended member
  rcases List.mem_append.mp member with old | new
  · exact unchanged ended old
  · rw [List.mem_singleton.mp new]
    exact lastUnchanged

theorem prefix_append_next {β : Type} {front whole : List β} {next : β}
    (order : front <+: whole) (found : whole[front.length]? = some next) :
    front ++ [next] <+: whole := by
  obtain ⟨rest, rfl⟩ := order
  rw [List.getElem?_append_right (Nat.le_refl _), Nat.sub_self] at found
  cases rest with
  | nil => simp at found
  | cons first rest =>
    obtain rfl : first = next := by simpa using found
    exact ⟨rest, by simp⟩

theorem entry_ne {number other : Nat} (differ : tasks.entry number ≠ tasks.entry other) :
    0 < tasks.queue.entrySize ∧ number ≠ other := by
  refine ⟨Nat.pos_of_ne_zero ?_, ?_⟩
  · intro empty
    exact differ (by simp [entry, empty])
  · rintro rfl
    exact differ rfl

theorem Inv.read (inv : tasks.Inv) (duration : Nat) : (palReadMsgQ tasks duration).Inv := by
  obtain ⟨queue, reader, writer, read, written, readChanged, writeChanged, returns⟩ := tasks
  cases reader with
  | idle => exact inv
  | test timeout =>
    simp only [palReadMsgQ]
    split
    · exact { inv with reading := inv.reading }
    · next differ =>
      rw [inv.readPtr, inv.writePtr] at differ
      obtain ⟨wide, others⟩ := entry_ne differ
      have more : read.length < written.length := Nat.lt_of_le_of_ne inv.behind others
      exact { inv with reading := ⟨wide, more, inv.reading⟩ }
  | sleep timeout =>
    have unchanged : readChanged = false := inv.reading
    simp only [palReadMsgQ]
    split
    · exact
        { inv with
          reading := trivial
          unchanged := mem_returns_append inv.unchanged fun _ => unchanged }
    · exact { inv with reading := inv.reading }
  | copy =>
    obtain ⟨wide, more, -⟩ := inv.reading
    have first := inv.kept read.length written[read.length] (Nat.le_refl _)
      (List.getElem?_eq_getElem more)
    have copied :
        slice queue.readPtr queue.entrySize queue.buffer = written[read.length] :=
      (congrArg (slice · queue.entrySize queue.buffer) inv.readPtr).trans first
    exact
      { inv with
        kept := fun number msg later => inv.kept number msg (Nat.le_of_succ_le later)
        reading := ⟨wide, copied ▸ List.getElem?_eq_getElem more⟩ }
  | advance msg =>
    obtain ⟨wide, found⟩ := inv.reading
    have more : read.length < written.length := (List.getElem?_eq_some_iff.mp found).1
    have ahead : written.length < read.length + queue.entryCount := inv.ahead
    have room : written.length < read.length + 1 + queue.entryCount := by omega
    have moved : queue.readPtr + queue.entrySize = _ := congrArg (· + queue.entrySize) inv.readPtr
    exact
      { inv with
        readPtr := moved
        behind := more
        ahead := room
        writing := inv.writing.mono rfl rfl rfl rfl rfl rfl (Nat.le_succ read.length) }
  | wrap msg =>
    obtain ⟨-, found⟩ := inv.reading
    have positive : 0 < queue.entryCount := Nat.lt_of_lt_of_le (by decide) inv.entries
    have length : (read ++ [msg]).length = read.length + 1 := by simp
    have moved :
        (if queue.endPtr ≤ queue.readPtr then { queue with readPtr := 0 }
          else queue) =
          { queue with
            readPtr := (read.length + 1) % queue.entryCount * queue.entrySize } := by
      have readPtr :
          queue.readPtr = read.length % queue.entryCount * queue.entrySize + queue.entrySize :=
        inv.readPtr
      have endPtr : queue.endPtr = queue.entrySize * queue.entryCount := inv.endPtr
      rw [← slot_offset_succ positive, ← readPtr, ← endPtr]
      split <;> rfl
    simp only [palReadMsgQ, moved]
    exact
      { inv with
        readPtr := by simp only [entry, length]
        behind := by
          simp only [taken, length]
          exact inv.behind
        ahead := by
          simp only [taken, length]
          exact inv.ahead
        order := prefix_append_next inv.order found
        kept := by
          simp only [copied, length]
          exact inv.kept
        reading := trivial
        writing := inv.writing.mono rfl rfl rfl rfl rfl rfl (by simp [taken])
        unchanged := mem_returns_append inv.unchanged fun wrong => by cases wrong }

theorem Inv.callWrite (inv : tasks.Inv) (msg : List α) (timeout : Nat) :
    (msgQStep tasks (.callWrite msg timeout)).Inv := by
  cases writer : tasks.writer with
  | idle =>
    simp only [msgQStep, writer]
    split
    · next fits => exact { inv with writing := ⟨fits, rfl⟩ }
    · exact inv
  | _ => simpa only [msgQStep, writer] using inv

/-- `readPtr` is at the entry of the first message that was not taken, except at the
end of the buffer, when that entry is the first one. -/
theorem Inv.readPtr_taken (inv : tasks.Inv) :
    tasks.queue.readPtr = tasks.entry tasks.taken ∨
      0 < tasks.queue.entrySize ∧
        tasks.queue.readPtr = tasks.queue.endPtr ∧ tasks.entry tasks.taken = 0 := by
  obtain ⟨queue, reader, writer, read, written, readChanged, writeChanged, returns⟩ := tasks
  cases reader with
  | idle | test _ | sleep _ | copy | advance _ => exact .inl inv.readPtr
  | wrap msg =>
    have positive : 0 < queue.entryCount := Nat.lt_of_lt_of_le (by decide) inv.entries
    have readPtr :
        queue.readPtr = read.length % queue.entryCount * queue.entrySize + queue.entrySize :=
      inv.readPtr
    have endPtr : queue.endPtr = queue.entrySize * queue.entryCount := inv.endPtr
    have inside : queue.readPtr ≤ queue.endPtr := by
      rw [readPtr, endPtr]
      exact slot_offset_inside positive
    have next :
        (if queue.endPtr ≤ queue.readPtr then 0 else queue.readPtr) =
          (read.length + 1) % queue.entryCount * queue.entrySize := by
      rw [← slot_offset_succ positive, readPtr, endPtr]
    by_cases last : queue.endPtr ≤ queue.readPtr
    · rw [if_pos last] at next
      exact .inr ⟨inv.reading.1, Nat.le_antisymm inside last, next.symm⟩
    · rw [if_neg last] at next
      exact .inl next

variable {msg : List α} {nextWritePtr : Nat} {event : MsgQEvent α}

section

variable (inv : tasks.Inv)

include inv

theorem Inv.room {duration timeout nextWritePtr : Nat}
    (writer : tasks.writer = .test msg timeout nextWritePtr)
    (next : nextWritePtr = tasks.entry (tasks.written.length + 1))
    (allowed : tasks.WriteAllowed (.write duration)) (free : nextWritePtr ≠ tasks.queue.readPtr) :
    0 < tasks.queue.entrySize ∧
      tasks.written.length + 1 < tasks.taken + tasks.queue.entryCount := by
  have ahead := inv.ahead
  have full :
      tasks.written.length + 1 = tasks.taken + tasks.queue.entryCount →
        nextWritePtr = tasks.entry tasks.taken := by
    intro same
    rw [next, same, entry, entry, Nat.add_mod_right]
  have roomy :
      nextWritePtr ≠ tasks.entry tasks.taken →
        tasks.written.length + 1 < tasks.taken + tasks.queue.entryCount := by
    intro differ
    have notFull := mt full differ
    omega
  rcases inv.readPtr_taken with here | ⟨wide, atEnd, first⟩
  · rw [here, next] at free
    exact ⟨(entry_ne free).1, roomy (next ▸ free)⟩
  · refine ⟨wide, roomy fun zero => free ?_⟩
    have looksAt : nextWritePtr ∈ tasks.tested := by simp [tested, writer]
    exact allowed nextWritePtr looksAt (zero.trans first) atEnd

theorem Inv.copy_apart (writer : tasks.writer = .copy msg nextWritePtr) {number : Nat}
    (later : tasks.copied ≤ number) (earlier : number < tasks.written.length) :
    tasks.written.length % tasks.queue.entryCount ≠ number % tasks.queue.entryCount := by
  have writing := inv.writing
  simp only [Writing, writer] at writing
  have taken := tasks.taken_le_copied
  exact slot_ne earlier (by omega)

theorem Inv.copyMsg (writer : tasks.writer = .copy msg nextWritePtr) :
    Inv
      { tasks with
        queue :=
          { tasks.queue with
            buffer := overwrite tasks.queue.writePtr msg tasks.queue.buffer }
        writer := .publish msg nextWritePtr
        writeChanged := true } := by
  have writing := inv.writing
  simp only [Writing, writer] at writing
  obtain ⟨length, next, wide, room⟩ := writing
  have positive : 0 < tasks.queue.entryCount := Nat.lt_of_lt_of_le (by decide) inv.entries
  have inside :
      tasks.queue.writePtr + msg.length ≤ tasks.queue.buffer.length := by
    rw [inv.writePtr, length, inv.length]
    exact slot_offset_inside positive
  have stored :
      slice (tasks.entry tasks.written.length) tasks.queue.entrySize
          (overwrite tasks.queue.writePtr msg tasks.queue.buffer) =
        msg := by
    rw [← inv.writePtr, ← length]
    exact slice_overwrite_self inside
  exact
    { inv with
      length := (length_overwrite inside).trans inv.length
      kept := by
        intro number other later found
        have earlier : number < tasks.written.length := (List.getElem?_eq_some_iff.mp found).1
        have apart := inv.copy_apart writer later earlier
        refine (slice_overwrite_of_disjoint inside ?_).trans (inv.kept number other later found)
        rw [inv.writePtr, length]
        exact (slot_offset_apart apart).symm
      writing := ⟨stored, next, room⟩ }

theorem Inv.publishMsg (writer : tasks.writer = .publish msg nextWritePtr) :
    Inv
      { tasks with
        queue := { tasks.queue with writePtr := nextWritePtr }
        writer := .idle
        written := tasks.written ++ [msg]
        returns := tasks.returns ++ [⟨0, true⟩] } := by
  have writing := inv.writing
  simp only [Writing, writer] at writing
  obtain ⟨stored, next, room⟩ := writing
  have length : (tasks.written ++ [msg]).length = tasks.written.length + 1 := by simp
  have older {number : Nat} {other : List α} (found : tasks.written[number]? = some other) :
      (tasks.written ++ [msg])[number]? = some other := by
    rw [List.getElem?_append_left (List.getElem?_eq_some_iff.mp found).1, found]
  exact
    { inv with
      writePtr := by
        rw [length]
        exact next
      behind := by
        rw [length]
        exact Nat.le_succ_of_le inv.behind
      ahead := by
        rw [length]
        exact room
      order := inv.order.trans (List.prefix_append tasks.written [msg])
      kept := by
        intro number other later found
        by_cases last : number = tasks.written.length
        · subst last
          rw [List.getElem?_concat_length] at found
          exact stored.trans (Option.some.inj found)
        · have inRange := (List.getElem?_eq_some_iff.mp found).1
          rw [length] at inRange
          rw [List.getElem?_append_left (by omega)] at found
          exact inv.kept number other later found
      reading := by
        have reading := inv.reading
        simp only [Reading] at reading ⊢
        cases here : tasks.reader <;> simp only [here] at reading ⊢
        · exact reading
        · exact reading
        · rw [length]
          exact ⟨reading.1, Nat.lt_succ_of_lt reading.2.1, reading.2.2⟩
        · exact ⟨reading.1, older reading.2⟩
        · exact ⟨reading.1, older reading.2⟩
      writing := trivial
      unchanged := mem_returns_append inv.unchanged fun wrong => by cases wrong }

theorem Inv.write (duration : Nat) (allowed : tasks.WriteAllowed (.write duration)) :
    (palWriteMsgQ tasks duration).Inv := by
  have positive : 0 < tasks.queue.entryCount := Nat.lt_of_lt_of_le (by decide) inv.entries
  have writing := inv.writing
  cases writer : tasks.writer with
  | idle => simpa only [palWriteMsgQ, writer] using inv
  | start msg timeout =>
    simp only [Writing, writer] at writing
    have next :
        (if tasks.queue.endPtr ≤ tasks.queue.writePtr + tasks.queue.entrySize then 0
          else tasks.queue.writePtr + tasks.queue.entrySize) =
          tasks.entry (tasks.written.length + 1) := by
      rw [entry, ← slot_offset_succ positive, inv.writePtr, inv.endPtr]
      rfl
    simp only [palWriteMsgQ, writer]
    exact { inv with writing := ⟨writing.1, writing.2, next⟩ }
  | test msg timeout nextWritePtr =>
    simp only [Writing, writer] at writing
    simp only [palWriteMsgQ, writer]
    split
    · exact { inv with writing := writing }
    · next free =>
      obtain ⟨wide, room⟩ := inv.room writer writing.2.2 allowed free
      exact { inv with writing := ⟨writing.1, writing.2.2, wide, room⟩ }
  | sleep msg timeout nextWritePtr =>
    simp only [Writing, writer] at writing
    simp only [palWriteMsgQ, writer]
    split
    · exact
        { inv with
          writing := trivial
          unchanged := mem_returns_append inv.unchanged fun _ => writing.2.1 }
    · exact { inv with writing := writing }
  | copy msg nextWritePtr =>
    simpa only [palWriteMsgQ, writer] using inv.copyMsg writer
  | publish msg nextWritePtr =>
    simpa only [palWriteMsgQ, writer] using inv.publishMsg writer

theorem Inv.step (allowed : tasks.WriteAllowed event) : (msgQStep tasks event).Inv := by
  cases event with
  | callRead timeout => exact inv.callRead timeout
  | read duration => exact inv.read duration
  | callWrite msg timeout => exact inv.callWrite msg timeout
  | write duration => exact inv.write duration allowed

end

/-! ## Runs -/

theorem Inv.init {msgSize msgCount : Nat} {memory : List α}
    (entries : 2 ≤ msgCount) (allocated : memory.length = msgSize * msgCount) :
    Inv (.init (palCreateMsgQ msgSize msgCount memory)) := by
  have start : 0 = 0 % msgCount * msgSize := by simp
  have empty : 0 < 0 + msgCount := by omega
  exact
    { entries := entries
      endPtr := rfl
      length := allocated
      readPtr := start
      writePtr := start
      behind := Nat.le_refl 0
      ahead := empty
      order := List.prefix_refl []
      kept := fun _ _ _ found => by cases found
      reading := trivial
      writing := trivial
      unchanged := fun _ never => (List.not_mem_nil never).elim }

theorem Inv.toOrder (inv : tasks.Inv) : tasks.Order where
  order := inv.order
  kept := inv.kept
  spared := by
    intro msg nextWritePtr writer number later earlier same
    have writing := inv.writing
    simp only [Writing, writer] at writing
    rw [inv.writePtr] at same
    exact slot_offset_ne writing.2.2.1 (inv.copy_apart writer later earlier) same.symm
  readPtr := by
    have positive : 0 < tasks.queue.entryCount := Nat.lt_of_lt_of_le (by decide) inv.entries
    rcases inv.readPtr_taken with here | ⟨-, atEnd, -⟩
    · exact ⟨_, Nat.le_of_lt (Nat.mod_lt tasks.taken positive), here⟩
    · refine ⟨tasks.queue.entryCount, Nat.le_refl _, ?_⟩
      rw [atEnd, inv.endPtr, Nat.mul_comm]
  writePtr := ⟨_, Nat.mod_lt _ (Nat.lt_of_lt_of_le (by decide) inv.entries), inv.writePtr⟩
  unchanged := inv.unchanged

/-- `readPtr` is at an entry. -/
def InRange (tasks : MsgQTasks α) : Prop :=
  0 < tasks.queue.entrySize → tasks.queue.readPtr < tasks.queue.endPtr

theorem InRange.writeAllowed (inRange : tasks.InRange) (inv : tasks.Inv)
    (event : MsgQEvent α) : tasks.WriteAllowed event := by
  cases event with
  | write duration =>
    intro nextWritePtr looksAt first atEnd
    have narrow : tasks.queue.entrySize = 0 := by
      by_contra wide
      have before := inRange (Nat.pos_of_ne_zero wide)
      omega
    rw [first, atEnd, inv.endPtr, narrow, Nat.zero_mul]
  | _ => trivial

theorem InRange.step (inRange : tasks.InRange)
    (allowed : tasks.ReadAllowed event) : (msgQStep tasks event).InRange := by
  have positive : 0 < tasks.queue.entrySize → 0 < tasks.queue.endPtr :=
    fun wide => Nat.lt_of_le_of_lt (Nat.zero_le _) (inRange wide)
  cases event with
  | callRead timeout =>
    simp only [msgQStep]
    split <;> exact inRange
  | callWrite msg timeout =>
    simp only [msgQStep]
    split
    · split <;> exact inRange
    · exact inRange
  | write duration =>
    simp only [msgQStep, palWriteMsgQ]
    cases tasks.writer with
    | test msg timeout nextWritePtr | sleep msg timeout nextWritePtr =>
      dsimp only
      split <;> exact inRange
    | _ => exact inRange
  | read duration =>
    simp only [ReadAllowed] at allowed
    simp only [msgQStep, palReadMsgQ]
    cases reader : tasks.reader with
    | test timeout | sleep timeout =>
      dsimp only
      split <;> exact inRange
    | advance msg => exact fun _ => allowed (by simp [advances, reader])
    | wrap msg =>
      dsimp only
      split
      · exact positive
      · exact inRange
    | _ => exact inRange

theorem Inv.toSafe (inv : tasks.Inv) (inRange : tasks.InRange) : tasks.Safe where
  toOrder := inv.toOrder
  inside := by
    have positive : 0 < tasks.queue.entryCount := Nat.lt_of_lt_of_le (by decide) inv.entries
    rcases inv.readPtr_taken with here | ⟨wide, atEnd, -⟩
    · exact ⟨_, Nat.mod_lt tasks.taken positive, here⟩
    · exact absurd atEnd (Nat.ne_of_lt (inRange wide))

theorem Inv.readAllowed (inv : tasks.Inv)
    (safe : (msgQStep tasks event).Safe) : tasks.ReadAllowed event := by
  cases event with
  | read duration =>
    intro advancing
    cases reader : tasks.reader with
    | advance msg =>
      have reading := inv.reading
      simp only [Reading, reader] at reading
      obtain ⟨index, inside, moved⟩ := safe.inside
      simp only [msgQStep, palReadMsgQ, reader] at inside moved
      rw [moved, inv.endPtr, Nat.mul_comm tasks.queue.entrySize]
      exact Nat.mul_lt_mul_of_pos_right inside reading.1
    | _ => simp [advances, reader] at advancing
  | _ => trivial

end MsgQTasks

/-- In a run of any calls with any timeouts: the reader never takes its pointer past
the last entry if and only if everything holds in every state; and messages are
neither lost nor altered as long as the writer is not misled by such a pointer. -/
theorem msgQ_safe (msgSize msgCount : Nat) (entries : 2 ≤ msgCount)
    (memory : List α) (allocated : memory.length = msgSize * msgCount)
    (events : List (MsgQEvent α)) :
    (AllowedAlong MsgQTasks.ReadAllowed msgQStep
        (.init (palCreateMsgQ msgSize msgCount memory)) events ↔
      ∀ done rest, events = done ++ rest →
        (done.foldl msgQStep (.init (palCreateMsgQ msgSize msgCount memory))).Safe) ∧
      (AllowedAlong MsgQTasks.WriteAllowed msgQStep
          (.init (palCreateMsgQ msgSize msgCount memory)) events →
        (events.foldl msgQStep (.init (palCreateMsgQ msgSize msgCount memory))).Order) := by
  have initial := MsgQTasks.Inv.init entries allocated
  have inRange :
      (MsgQTasks.init (palCreateMsgQ msgSize msgCount memory)).InRange :=
    fun wide => Nat.mul_pos wide (Nat.lt_of_lt_of_le (by decide) entries)
  have kept :
      ∀ (tasks : MsgQTasks α) (event : MsgQEvent α),
        tasks.Inv ∧ tasks.InRange → tasks.ReadAllowed event →
          ((msgQStep tasks event).Inv ∧ (msgQStep tasks event).InRange) ∧
            (msgQStep tasks event).Safe := by
    rintro tasks event ⟨inv, inRange⟩ allowed
    have next := inv.step (inRange.writeAllowed inv event)
    have nextInRange := inRange.step allowed
    exact ⟨⟨next, nextInRange⟩, next.toSafe nextInRange⟩
  have needed :
      ∀ (tasks : MsgQTasks α) (event : MsgQEvent α),
        tasks.Inv ∧ tasks.InRange → (msgQStep tasks event).Safe → tasks.ReadAllowed event :=
    fun tasks event both safe => both.1.readAllowed safe
  constructor
  · exact AllowedAlong.iff_safe kept needed ⟨initial, inRange⟩ (initial.toSafe inRange) events
  · intro allowed
    refine (Run.invariant initial ?_ (Run.guarded_foldl allowed)).toOrder
    intro before event after inv step
    rw [step.2]
    exact inv.step step.1

/-- Calls of the writer for these messages, and as many steps as they need. -/
def writeEvents (msgs : List (List UInt8)) : List (MsgQEvent UInt8) :=
  msgs.flatMap fun msg => .callWrite msg 0 :: List.replicate 4 (.write 0)

def readEvents (count : Nat) : List (MsgQEvent UInt8) :=
  (List.replicate count (.callRead 0 :: List.replicate 4 (.read 0))).flatten

def smallQueue : MsgQTasks UInt8 := .init (palCreateMsgQ 1 2 [0, 0])

theorem msgQ_safe_small :
    ((writeEvents [[7]] ++ readEvents 1).foldl msgQStep smallQueue).Safe :=
  (msgQ_safe 1 2 (by decide) [0, 0] rfl (writeEvents [[7]] ++ readEvents 1)).1.mp
    (by decide) (writeEvents [[7]] ++ readEvents 1) [] (by simp)

/-- The second message is read up to the update of the pointer. -/
def atEndEvents : List (MsgQEvent UInt8) :=
  writeEvents [[1]] ++ readEvents 1 ++ writeEvents [[2]] ++
    .callRead 0 :: List.replicate 3 (.read 0)

/-- The writer puts two more messages into the queue before the pointer is
wrapped. -/
def misledEvents : List (MsgQEvent UInt8) :=
  atEndEvents ++ writeEvents [[3], [4]] ++ [.read 0] ++ writeEvents [[5]] ++ readEvents 1

/-- The pointer leaves the buffer, and messages are lost. -/
theorem msgQ_unsafe :
    ¬ (atEndEvents.foldl msgQStep smallQueue).Safe ∧
      ¬ (misledEvents.foldl msgQStep smallQueue).Order := by
  constructor
  · intro safe
    obtain ⟨index, inside, moved⟩ := safe.inside
    have atEnd : (atEndEvents.foldl msgQStep smallQueue).queue.readPtr = 2 := by decide
    have entries : (atEndEvents.foldl msgQStep smallQueue).queue.entryCount = 2 := by decide
    have size : (atEndEvents.foldl msgQStep smallQueue).queue.entrySize = 1 := by decide
    rw [atEnd, size] at moved
    rw [entries] at inside
    omega
  · intro order
    have lost := order.order
    revert lost
    decide

end

end IteSdk.AsyncFile
