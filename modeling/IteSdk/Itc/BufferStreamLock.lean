import IteSdk.Itc.BufferStream
import IteSdk.Lib.Transition

/-!
# The zero-copy interface

Windows are handed out under the mutex, so that at most one is open at a time.
The cursors do not tell a full ring from an empty one; a run breaks the stream
exactly when it consumes from a ring that is drained without its end-of-file
flag, or opens a writer's window on a ring that is full.
-/

namespace IteSdk.Itc

open Lib

/-- The window handed out by the lock call whose unlock is still to come. -/
inductive Held
  | reading (offset count : Nat)
  | writing (offset count : Nat)
  deriving DecidableEq

inductive LockCall
  | readLock (size : Nat)
  | readUnlock (size : Nat)
  | writeLock (size : Nat)
  /-- The writer fills the beginning of its window. -/
  | store (data : List UInt8)
  | writeUnlock (size : Nat)
  deriving DecidableEq

/-- A stream together with its open window and everything that was committed
and consumed through the windows. -/
structure LockHistory where
  stream : ITCBufferStream
  held : Option Held
  committed : List UInt8
  consumed : List UInt8
  deriving DecidableEq

def LockHistory.opened (memory : List UInt8) : LockHistory :=
  ⟨itcBufferStreamOpen memory, none, [], []⟩

/-- One call, where the mutex and the window admit it: a lock waits for the
open window to be closed, a store and an unlock stay inside it. -/
def lockStep (history : LockHistory) : LockCall → Option LockHistory
  | .readLock size =>
    match history.held with
    | none =>
      let locked := bufferStreamReadLock history.stream size
      some
        { history with
          stream := locked.2.2
          held := some (.reading (locked.2.1.getD 0) locked.1) }
    | some _ => none
  | .readUnlock size =>
    match history.held with
    | some (.reading offset count) =>
      if size ≤ count then
        some
          { history with
            stream := bufferStreamReadUnlock history.stream size
            held := none
            consumed := history.consumed ++ slice offset size history.stream.buf }
      else none
    | _ => none
  | .writeLock size =>
    match history.held with
    | none =>
      let locked := bufferStreamWriteLock history.stream size
      some { history with held := some (.writing locked.2 locked.1) }
    | some _ => none
  | .store data =>
    match history.held with
    | some (.writing offset count) =>
      if data.length ≤ count then
        some
          { history with
            stream :=
              { history.stream with
                buf := overwrite offset data history.stream.buf } }
      else none
    | _ => none
  | .writeUnlock size =>
    match history.held with
    | some (.writing offset count) =>
      if size ≤ count then
        some
          { history with
            stream := bufferStreamWriteUnlock history.stream size
            held := none
            committed := history.committed ++ slice offset size history.stream.buf }
      else none
    | _ => none

def LockHistory.unread (history : LockHistory) : Nat :=
  history.committed.length - history.consumed.length

/-- The writer's window avoids the unread bytes, and the unread bytes are what
was committed beyond what was consumed. -/
structure LockSafe (history : LockHistory) : Prop where
  windowFree :
    ∀ offset count, history.held = some (.writing offset count) →
      ∀ cell, cell < count → ∀ index, index < history.unread →
        offset + cell ≠ wrap history.stream.size (history.stream.readpos + index)
  consumedPrefix : history.consumed <+: history.committed
  unreadKept :
    history.committed =
      history.consumed ++ ringSlice history.stream.readpos history.unread history.stream.buf

def LockAllowed (history : LockHistory) : LockCall → Prop
  | .readUnlock size =>
    size = 0 ∨ history.stream.eof = true ∨ 0 < history.unread
  | .writeLock size =>
    size = 0 ∨ history.stream.writepos = history.stream.size ∨ history.unread < history.stream.size
  | _ => True

instance (history : LockHistory) : ∀ call : LockCall, Decidable (LockAllowed history call)
  | .readUnlock size => inferInstanceAs (Decidable (size = 0 ∨ _ ∨ _ < _))
  | .writeLock size => inferInstanceAs (Decidable (size = 0 ∨ _ = _ ∨ _ < _))
  | .readLock _ => inferInstanceAs (Decidable True)
  | .store _ => inferInstanceAs (Decidable True)
  | .writeUnlock _ => inferInstanceAs (Decidable True)

/-! ## The invariant -/

/-- The cursors fit `pending` unread bytes.  The last two cases of `meets` are
the ones the flag does not tell apart: a ring drained while the write cursor is
still at the end, and a ring filled again behind a reader that stopped there. -/
structure Cursors (bs : ITCBufferStream) (pending : Nat) : Prop where
  bufLength : bs.buf.length = bs.size
  sizePositive : 0 < bs.size
  readposInside : bs.readpos ≤ bs.size
  writeposInside : bs.writepos ≤ bs.size
  pendingFits : pending ≤ bs.size
  meets :
    bs.readpos + pending = bs.writepos ∨ bs.readpos + pending = bs.writepos + bs.size ∨
      bs.readpos + pending + bs.size = bs.writepos ∨
      bs.readpos + pending = bs.writepos + bs.size + bs.size
  emptyFlag : bs.eof = true → pending = 0 ∧ bs.readpos = bs.writepos ∧ bs.writepos < bs.size

def HeldFits (bs : ITCBufferStream) (pending : Nat) : Option Held → Prop
  | none => True
  | some (.reading offset count) =>
    bs.eof = true ∧ count = 0 ∨
      bs.eof = false ∧ offset = bs.readpos ∧ bs.readpos < bs.size ∧
        (bs.readpos < bs.writepos → count ≤ bs.writepos - bs.readpos) ∧
        (bs.writepos ≤ bs.readpos → count ≤ bs.size - bs.readpos)
  | some (.writing offset count) =>
    offset = bs.writepos ∧ (bs.writepos < bs.readpos → count ≤ bs.readpos - bs.writepos) ∧
      (bs.readpos ≤ bs.writepos → count ≤ bs.size - bs.writepos) ∧
      (count = 0 ∨ pending < bs.size)

variable {bs : ITCBufferStream} {pending offset count size : Nat}

variable {pending offset count : Nat}

theorem Cursors.window_free (cursors : Cursors bs pending)
    (fits : HeldFits bs pending (some (.writing offset count))) {cell index : Nat}
    (cellInside : cell < count) (indexUnread : index < pending) :
    offset + cell ≠ wrap bs.size (bs.readpos + index) := by
  obtain ⟨here, behindReader, beforeEnd, notFull⟩ := fits
  have readposInside := cursors.readposInside
  have writeposInside := cursors.writeposInside
  have meets := cursors.meets
  unfold wrap
  split <;> omega

theorem Cursors.readLock {pending : Nat} (cursors : Cursors bs pending) (size : Nat) :
    let locked := bufferStreamReadLock bs size
    Cursors locked.2.2 pending ∧
      HeldFits locked.2.2 pending (some (.reading (locked.2.1.getD 0) locked.1)) ∧
      ringSlice bs.readpos pending bs.buf =
        ringSlice locked.2.2.readpos pending locked.2.2.buf := by
  have boundary : bs.readpos = bs.size →
      ringSlice bs.readpos pending bs.buf = ringSlice 0 pending bs.buf := by
    intro atEnd
    have pendingFits := cursors.pendingFits
    rw [atEnd, ← cursors.bufLength, ringSlice_length]
    rw [cursors.bufLength]
    exact pendingFits
  obtain ⟨bufLength, sizePositive, readposInside, writeposInside, pendingFits,
    meets, emptyFlag⟩ := cursors
  intro locked
  refine ⟨⟨?_, ?_, ?_, ?_, ?_, ?_, ?_⟩, ?_, ?_⟩ <;>
    simp only [locked, bufferStreamReadLock, HeldFits] <;>
    grind

theorem bufferStreamReadUnlock_within
    {size : Nat} (clear : bs.eof = false) (before : bs.readpos < bs.size)
    (ahead : bs.readpos < bs.writepos → size ≤ bs.writepos - bs.readpos)
    (behind : bs.writepos ≤ bs.readpos → size ≤ bs.size - bs.readpos) :
    bufferStreamReadUnlock bs size =
      let readpos :=
        if bs.readpos + size = bs.size ∧ 0 < bs.writepos then 0
        else bs.readpos + size
      { bs with
        readpos := readpos
        eof := decide (0 < size ∧ readpos = bs.writepos) } := by
  have inner : ¬ (bs.readpos = bs.size ∧ 0 < bs.writepos) := by omega
  have moved :
      (if bs.readpos < bs.writepos then min size (bs.writepos - bs.readpos)
        else min size (bs.size - bs.readpos)) = size := by
    split <;> omega
  simp only [bufferStreamReadUnlock, clear, Bool.false_eq_true, if_false, if_neg inner, moved]

section

variable (cursors : Cursors bs pending)
  (fits : HeldFits bs pending (some (.reading offset count))) (within : size ≤ count)
  (allowed : size = 0 ∨ bs.eof = true ∨ 0 < pending)

include cursors fits within allowed

theorem Cursors.readUnlock_cursors :
    Cursors (bufferStreamReadUnlock bs size) (pending - size) ∧ size ≤ pending ∧
      ((bufferStreamReadUnlock bs size).readpos = bs.readpos + size ∨
        (bufferStreamReadUnlock bs size).readpos + bs.size = bs.readpos + size) := by
  rcases fits with ⟨empty, none⟩ | ⟨clear, _, before, ahead, behind⟩
  · have same : bufferStreamReadUnlock bs size = bs := by simp [bufferStreamReadUnlock, empty]
    obtain rfl : size = 0 := by omega
    rw [same]
    exact ⟨cursors, Nat.zero_le _, Or.inl rfl⟩
  · obtain ⟨bufLength, sizePositive, readposInside, writeposInside, pendingFits,
      meets, emptyFlag⟩ := cursors
    rw [bufferStreamReadUnlock_within clear before (by omega) (by omega)]
    refine ⟨⟨bufLength, sizePositive, ?_, writeposInside, ?_, ?_, ?_⟩, ?_, ?_⟩ <;>
      grind

theorem Cursors.readUnlock :
    ringSlice bs.readpos pending bs.buf =
      slice offset size bs.buf ++
        ringSlice (bufferStreamReadUnlock bs size).readpos (pending - size)
          (bufferStreamReadUnlock bs size).buf := by
  obtain ⟨after, fewer, advanced⟩ := cursors.readUnlock_cursors fits within allowed
  have bufLength := cursors.bufLength
  have readposInside := cursors.readposInside
  have pendingFits := cursors.pendingFits
  have sameBuf : (bufferStreamReadUnlock bs size).buf = bs.buf := by
    unfold bufferStreamReadUnlock
    split <;> rfl
  have sameSize : (bufferStreamReadUnlock bs size).size = bs.size := by
    unfold bufferStreamReadUnlock
    split <;> rfl
  have newReadpos := after.readposInside
  have writeposInside := cursors.writeposInside
  have stop :
      (bufferStreamReadUnlock bs size).readpos = bs.readpos + size ∨
        (bufferStreamReadUnlock bs size).readpos + bs.buf.length = bs.readpos + size := by
    rw [bufLength]
    exact advanced
  have split : pending = size + (pending - size) := by omega
  rw [split, ringSlice_add (by omega) (by omega), Nat.add_sub_cancel_left,
    sameBuf, ringSlice_wrap (by omega) (by omega) stop]
  congr 1
  rcases fits with ⟨_, none⟩ | ⟨_, rfl, before, ahead, behind⟩
  · have empty : size = 0 := by omega
    subst empty
    rw [ringSlice_zero (by omega), slice_zero]
  · exact ringSlice_of_le (by omega)

end

theorem Cursors.writeLock {pending size : Nat} (cursors : Cursors bs pending)
    (allowed : size = 0 ∨ bs.writepos = bs.size ∨ pending < bs.size) :
    HeldFits bs pending
      (some (.writing (bufferStreamWriteLock bs size).2 (bufferStreamWriteLock bs size).1)) := by
  obtain ⟨_, sizePositive, readposInside, writeposInside, pendingFits, meets, _⟩ := cursors
  simp only [HeldFits, bufferStreamWriteLock]
  grind

section

variable (cursors : Cursors bs pending) (fits : HeldFits bs pending (some (.writing offset count)))

include cursors fits

theorem Cursors.store {data : List UInt8} (within : data.length ≤ count) :
    Cursors { bs with buf := overwrite offset data bs.buf } pending ∧
      ringSlice bs.readpos pending (overwrite offset data bs.buf) =
        ringSlice bs.readpos pending bs.buf := by
  have bufLength := cursors.bufLength
  have readposInside := cursors.readposInside
  have writeposInside := cursors.writeposInside
  have inside : offset + data.length ≤ bs.buf.length := by
    obtain ⟨here, behindReader, beforeEnd, _⟩ := fits
    omega
  constructor
  · exact { cursors with bufLength := (length_overwrite inside).trans bufLength }
  · apply ringSlice_overwrite (by omega) _ inside
    · intro index unread
      by_contra overlap
      rw [bufLength] at overlap
      refine cursors.window_free fits
        (by omega : wrap bs.size (bs.readpos + index) - offset < count)
        unread (by omega)
    · rw [bufLength]
      exact cursors.pendingFits

theorem Cursors.writeUnlock_cursors (within : size ≤ count) :
    Cursors (bufferStreamWriteUnlock bs size) (pending + size) := by
  obtain ⟨bufLength, sizePositive, readposInside, writeposInside, pendingFits,
    meets, emptyFlag⟩ := cursors
  simp only [HeldFits] at fits
  refine ⟨?_, ?_, ?_, ?_, ?_, ?_, ?_⟩ <;>
    simp only [bufferStreamWriteUnlock] <;>
    grind

theorem Cursors.writeUnlock (within : size ≤ count) :
    ringSlice (bufferStreamWriteUnlock bs size).readpos (pending + size)
        (bufferStreamWriteUnlock bs size).buf =
      ringSlice bs.readpos pending bs.buf ++ slice offset size bs.buf := by
  have after := cursors.writeUnlock_cursors fits within
  have bufLength := cursors.bufLength
  have readposInside := cursors.readposInside
  have writeposInside := cursors.writeposInside
  have moreFits := after.pendingFits
  have meets := cursors.meets
  obtain ⟨here, behindReader, beforeEnd, notFull⟩ := fits
  change pending + size ≤ bs.size at moreFits
  change ringSlice bs.readpos (pending + size) bs.buf = _
  rw [ringSlice_add (by omega) (by omega)]
  congr 1
  rcases Nat.eq_zero_or_pos size with none | some
  · subst none
    rw [slice_zero, ringSlice_zero]
    unfold wrap
    split <;> omega
  · have stop :
        bs.writepos = bs.readpos + pending ∨
          bs.writepos + bs.buf.length = bs.readpos + pending := by
      omega
    rw [ringSlice_wrap (by omega) (by omega) stop, here]
    exact ringSlice_of_le (by omega)

end

structure LockInvariant (history : LockHistory) : Prop where
  cursors : Cursors history.stream history.unread
  heldFits : HeldFits history.stream history.unread history.held
  kept :
    history.committed =
      history.consumed ++ ringSlice history.stream.readpos history.unread history.stream.buf

variable {history : LockHistory}

/-- The unread count is determined by the decomposition of the committed
bytes. -/
theorem unread_eq_of_kept {start count : Nat} {memory : List UInt8}
    (startInside : start ≤ memory.length) (fits : count ≤ memory.length)
    (kept : history.committed = history.consumed ++ ringSlice start count memory) :
    history.unread = count := by
  rw [LockHistory.unread, kept, List.length_append, length_ringSlice startInside fits]
  omega

theorem lockInvariant_of {pending : Nat} (cursors : Cursors history.stream pending)
    (heldFits : HeldFits history.stream pending history.held)
    (kept :
      history.committed =
        history.consumed ++ ringSlice history.stream.readpos pending history.stream.buf) :
    LockInvariant history := by
  have bufLength := cursors.bufLength
  have readposInside := cursors.readposInside
  have pendingFits := cursors.pendingFits
  obtain rfl := unread_eq_of_kept (by omega) (by omega) kept
  exact ⟨cursors, heldFits, kept⟩

theorem lockInvariant_opened {memory : List UInt8} (positive : 0 < memory.length) :
    LockInvariant (LockHistory.opened memory) where
  cursors :=
    { bufLength := rfl
      sizePositive := positive
      readposInside := Nat.zero_le _
      writeposInside := Nat.zero_le _
      pendingFits := Nat.zero_le _
      meets := Or.inl rfl
      emptyFlag := fun _ => ⟨rfl, rfl, positive⟩ }
  heldFits := trivial
  kept := (ringSlice_zero (Nat.zero_le _)).symm

theorem lockInvariant_step (before : LockHistory) (call : LockCall) (after : LockHistory)
    (inv : LockInvariant before) (step : Guarded LockAllowed (Enabled lockStep) before call after) :
    LockInvariant after := by
  obtain ⟨allowed, step⟩ := step
  obtain ⟨cursors, heldFits, kept⟩ := inv
  rcases before with ⟨stream, held, committed, consumed⟩
  simp only at cursors heldFits kept
  cases call with
  | readLock size =>
    cases held with
    | some window => simp [Enabled, lockStep] at step
    | none =>
      obtain rfl : _ = after := by simpa [Enabled, lockStep] using step
      obtain ⟨cursorsAfter, fits, sameUnread⟩ := cursors.readLock size
      exact lockInvariant_of cursorsAfter fits (kept.trans (congrArg (consumed ++ ·) sameUnread))
  | readUnlock size =>
    rcases held with _ | ⟨offset, count⟩ | ⟨offset, count⟩
    · simp [Enabled, lockStep] at step
    · by_cases within : size ≤ count
      · obtain rfl : _ = after := by simpa [Enabled, lockStep, within] using step
        refine lockInvariant_of (cursors.readUnlock_cursors heldFits within allowed).1 trivial
          (kept.trans ?_)
        rw [cursors.readUnlock heldFits within allowed, List.append_assoc]
      · simp [Enabled, lockStep, within] at step
    · simp [Enabled, lockStep] at step
  | writeLock size =>
    cases held with
    | some window => simp [Enabled, lockStep] at step
    | none =>
      obtain rfl : _ = after := by simpa [Enabled, lockStep] using step
      exact lockInvariant_of cursors (cursors.writeLock allowed) kept
  | store data =>
    rcases held with _ | ⟨offset, count⟩ | ⟨offset, count⟩
    · simp [Enabled, lockStep] at step
    · simp [Enabled, lockStep] at step
    · by_cases within : data.length ≤ count
      · obtain rfl : _ = after := by simpa [Enabled, lockStep, within] using step
        obtain ⟨cursorsAfter, sameUnread⟩ := cursors.store heldFits within
        exact lockInvariant_of cursorsAfter heldFits
          (kept.trans (congrArg (consumed ++ ·) sameUnread.symm))
      · simp [Enabled, lockStep, within] at step
  | writeUnlock size =>
    rcases held with _ | ⟨offset, count⟩ | ⟨offset, count⟩
    · simp [Enabled, lockStep] at step
    · simp [Enabled, lockStep] at step
    · by_cases within : size ≤ count
      · obtain rfl : _ = after := by simpa [Enabled, lockStep, within] using step
        refine lockInvariant_of (cursors.writeUnlock_cursors heldFits within) trivial
          ((congrArg (· ++ slice offset size stream.buf) kept).trans ?_)
        rw [cursors.writeUnlock heldFits within]
        exact List.append_assoc _ _ _
      · simp [Enabled, lockStep, within] at step

/-- In every run whose calls are all allowed the windows are safe. -/
theorem bufferStream_lock_safe
    {memory : List UInt8} {calls : List LockCall} {history : LockHistory}
    (positive : 0 < memory.length)
    (run : Run (Guarded LockAllowed (Enabled lockStep)) (LockHistory.opened memory) calls history) :
    LockSafe history := by
  obtain ⟨cursors, heldFits, kept⟩ :=
    run.invariant (lockInvariant_opened positive) lockInvariant_step
  refine ⟨?_, ⟨_, kept.symm⟩, kept⟩
  intro offset count writing cell cellInside index indexUnread
  rw [writing] at heldFits
  exact cursors.window_free heldFits cellInside indexUnread

/-- A writer that commits half of its window and a reader that asks for more
than there is. -/
theorem bufferStream_lock_safe_half :
    LockSafe ⟨⟨true, [1, 2], 2, 1, 1⟩, none, [1], [1]⟩ :=
  bufferStream_lock_safe (by decide : 0 < [(0 : UInt8), 0].length)
    (Run.guarded_foldlM
      (by decide :
        [LockCall.writeLock 2, .store [1, 2], .writeUnlock 1, .readLock 5, .readUnlock 1].foldlM
            (fun state event => if LockAllowed state event then lockStep state event else none)
            (LockHistory.opened [0, 0]) =
          some ⟨⟨true, [1, 2], 2, 1, 1⟩, none, [1], [1]⟩))

/-- A two-byte ring drained at its end is read a second time; a two-byte ring
filled behind the reader hands its unread bytes to the writer. -/
theorem bufferStream_lock_not_safe :
    (¬ ∀ (memory : List UInt8) (calls : List LockCall) (history : LockHistory),
        0 < memory.length →
        Run (Enabled lockStep) (LockHistory.opened memory) calls history →
        history.consumed <+: history.committed) ∧
      ¬ ∀ (memory : List UInt8) (calls : List LockCall) (history : LockHistory),
        0 < memory.length →
        Run (Enabled lockStep) (LockHistory.opened memory) calls history →
        ∀ offset count, history.held = some (.writing offset count) →
          ∀ cell, cell < count → ∀ index, index < history.unread →
            offset + cell ≠ wrap history.stream.size (history.stream.readpos + index) := by
  constructor
  · intro claimed
    have consumedPrefix :=
      claimed [0, 0]
        [.writeLock 2, .store [1, 2], .writeUnlock 2, .readLock 2,
          .readUnlock 2, .readLock 2, .readUnlock 2]
        ⟨⟨false, [1, 2], 2, 0, 2⟩, none, [1, 2], [1, 2, 1, 2]⟩
        (by decide) (Run.enabled_foldlM (by decide))
    exact absurd consumedPrefix (by decide)
  · intro claimed
    have windowFree :=
      claimed [0, 0]
        [.writeLock 2, .store [1, 2], .writeUnlock 2, .readLock 1,
          .readUnlock 1, .writeLock 0, .writeUnlock 0, .writeLock 1,
          .store [3], .writeUnlock 1, .writeLock 1]
        ⟨⟨false, [3, 2], 2, 1, 1⟩, some (.writing 1 1), [1, 2, 3], [1]⟩
        (by decide) (Run.enabled_foldlM (by decide)) 1 1 rfl 0 (by decide)
        0 (by decide)
    exact absurd windowFree (by decide)

end IteSdk.Itc
