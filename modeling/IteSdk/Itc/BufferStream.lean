import IteSdk.Lib.Ring
import IteSdk.Lib.Transition

/-!
# The ring-buffer stream

The four transfer methods of the buffer stream, under the lock they all take:
every method below runs from its `pthread_mutex_lock` to its unlock, except that
the lock methods return with the mutex held and the unlock methods release it.
-/

namespace IteSdk.Itc

section

open Lib

/-- The fields of `ITCBufferStream` that the methods use; `eof` is the field of
the base stream. -/
structure ITCBufferStream where
  eof : Bool
  buf : List UInt8
  size : Nat
  readpos : Nat
  writepos : Nat
  deriving DecidableEq

/-- The stream after a successful open; `memory` is the fresh block of `malloc`,
whose content is arbitrary. -/
def itcBufferStreamOpen (memory : List UInt8) : ITCBufferStream where
  eof := true
  buf := memory
  size := memory.length
  readpos := 0
  writepos := 0

/-- `BufferStreamRead`: the number of bytes read, the caller's buffer afterwards
and the stream.  `buf` is the caller's buffer before the call and its length is
the requested size. -/
def bufferStreamRead (bs : ITCBufferStream) (buf : List UInt8) :
    Nat × List UInt8 × ITCBufferStream :=
  if bs.eof then
    (0, buf, bs)
  else
    let size := buf.length
    let readpos := if bs.readpos = bs.size then 0 else bs.readpos
    if readpos < bs.writepos then
      let readsize := min size (bs.writepos - readpos)
      (readsize, overwrite 0 (slice readpos readsize bs.buf) buf,
        { bs with
          readpos := readpos + readsize
          eof := decide (0 < readsize ∧ readpos + readsize = bs.writepos) })
    else if bs.size - readpos < size then
      let size1 := bs.size - readpos
      let size2 := min (size - size1) bs.writepos
      (size1 + size2,
        overwrite size1 (slice 0 size2 bs.buf) (overwrite 0 (slice readpos size1 bs.buf) buf),
        { bs with
          readpos := size2
          eof := decide (0 < size1 + size2 ∧ size2 = bs.writepos) })
    else
      -- The source copies from the caller's buffer into the stream here.
      (size, buf,
        { bs with
          buf := overwrite readpos buf bs.buf
          readpos := readpos + size
          eof := decide (0 < size ∧ readpos + size = bs.writepos) })

/-- `BufferStreamWrite`: the number of bytes written and the stream. -/
def bufferStreamWrite (bs : ITCBufferStream) (buf : List UInt8) : Nat × ITCBufferStream :=
  let size := buf.length
  if bs.writepos < bs.readpos then
    let writesize := min size (bs.readpos - bs.writepos)
    (writesize,
      { bs with
        buf := overwrite bs.writepos (buf.take writesize) bs.buf
        writepos := bs.writepos + writesize
        eof := if 0 < writesize then false else bs.eof })
  else if bs.size - bs.writepos < size then
    let size1 := bs.size - bs.writepos
    let size2 := min (size - size1) bs.readpos
    (size1 + size2,
      { bs with
        buf := overwrite 0 (slice size1 size2 buf) (overwrite bs.writepos (buf.take size1) bs.buf)
        writepos := size2
        eof := if 0 < size1 + size2 then false else bs.eof })
  else
    (size,
      { bs with
        buf := overwrite bs.writepos buf bs.buf
        writepos := bs.writepos + size
        eof := if 0 < size then false else bs.eof })

/-- `BufferStreamReadLock`: the locked size, the window's offset where the call
sets `*bufptr`, and the stream. -/
def bufferStreamReadLock (bs : ITCBufferStream) (size : Nat) : Nat × Option Nat × ITCBufferStream :=
  if bs.eof then
    (0, none, bs)
  else
    let readpos := if bs.readpos = bs.size then 0 else bs.readpos
    let readsize :=
      if readpos < bs.writepos then min size (bs.writepos - readpos)
      else min size (bs.size - readpos)
    (readsize, some readpos, { bs with readpos := readpos })

def bufferStreamReadUnlock (bs : ITCBufferStream) (size : Nat) : ITCBufferStream :=
  if bs.eof then
    bs
  else
    let readpos := if bs.readpos = bs.size ∧ 0 < bs.writepos then 0 else bs.readpos
    let readsize :=
      if readpos < bs.writepos then min size (bs.writepos - readpos)
      else min size (bs.size - readpos)
    let consumed := readpos + readsize
    let readpos := if consumed = bs.size ∧ 0 < bs.writepos then 0 else consumed
    { bs with
      readpos := readpos
      eof := decide (0 < readsize ∧ readpos = bs.writepos) }

/-- `BufferStreamWriteLock`: the locked size and the window's offset. -/
def bufferStreamWriteLock (bs : ITCBufferStream) (size : Nat) : Nat × Nat :=
  if bs.writepos < bs.readpos then
    (min size (bs.readpos - bs.writepos), bs.writepos)
  else if bs.size - bs.writepos < size then
    (bs.size - bs.writepos, bs.writepos)
  else
    (size, bs.writepos)

def bufferStreamWriteUnlock (bs : ITCBufferStream) (size : Nat) : ITCBufferStream :=
  let advanced : Nat × Nat :=
    if bs.writepos < bs.readpos then
      let writesize := min size (bs.readpos - bs.writepos)
      (writesize, bs.writepos + writesize)
    else if bs.size - bs.writepos < size then
      (bs.size - bs.writepos, if 0 < bs.readpos then 0 else bs.writepos)
    else
      (size, bs.writepos + size)
  { bs with
    writepos := if advanced.2 = bs.size ∧ 0 < bs.readpos then 0 else advanced.2
    eof := if 0 < advanced.1 then false else bs.eof }

end

/-!
# The copy interface as a FIFO

`Read` and `Write` against the queue of unread bytes.  The two calls that break
the queue are a read that stays before the end of the buffer while the unread
bytes wrap, and a write into a ring whose cursors meet because it is full.
-/

section

open Lib

namespace ITCBufferStream

/-- How many bytes the cursors and the end-of-file flag say are unread. -/
def unreadCount (bs : ITCBufferStream) : Nat :=
  if bs.eof then 0
  else if bs.readpos < bs.writepos then bs.writepos - bs.readpos
  else bs.size - bs.readpos + bs.writepos

def unread (bs : ITCBufferStream) : List UInt8 := ringSlice bs.readpos bs.unreadCount bs.buf

/-- What every call keeps: cursors inside the buffer, and an end-of-file flag
that is set exactly when nothing is unread. -/
structure Sound (bs : ITCBufferStream) : Prop where
  bufLength : bs.buf.length = bs.size
  sizePositive : 0 < bs.size
  readposInside : bs.readpos ≤ bs.size
  writeposInside : bs.writepos ≤ bs.size
  emptyMeets : bs.eof = true → bs.readpos = bs.writepos
  unreadPositive : bs.eof = false → 0 < bs.unreadCount

variable {bs : ITCBufferStream}

theorem Sound.unreadCount_le (sound : Sound bs) : bs.unreadCount ≤ bs.size := by
  have readposInside := sound.readposInside
  have writeposInside := sound.writeposInside
  unfold unreadCount
  split
  · omega
  · split <;> omega

theorem Sound.behind (sound : Sound bs) :
    bs.readpos + bs.unreadCount = bs.writepos ∨
      bs.readpos + bs.unreadCount = bs.writepos + bs.size := by
  have readposInside := sound.readposInside
  have emptyMeets := sound.emptyMeets
  unfold unreadCount
  split
  · rename_i empty
    exact Or.inl (emptyMeets empty)
  · split <;> omega

theorem sound_open {memory : List UInt8} (positive : 0 < memory.length) :
    Sound (itcBufferStreamOpen memory) where
  bufLength := rfl
  sizePositive := positive
  readposInside := Nat.zero_le _
  writeposInside := Nat.zero_le _
  emptyMeets := fun _ => rfl
  unreadPositive := fun nonempty => by simp [itcBufferStreamOpen] at nonempty

end ITCBufferStream

open ITCBufferStream

variable {before after : ITCBufferStream}

/-- Storing `data` cyclically at the write cursor appends it to the unread
bytes, provided the new cursors count exactly that many more. -/
theorem sound_appended {data : List UInt8} (sound : before.Sound)
    (sameSize : after.size = before.size) (sameReadpos : after.readpos = before.readpos)
    (stored : after.buf = ringWrite before.writepos data before.buf)
    (writeposInside : after.writepos ≤ before.size)
    (emptyMeets : after.eof = true → after.readpos = after.writepos)
    (nonempty : after.eof = false → 0 < after.unreadCount)
    (fits : before.unreadCount + data.length ≤ before.size)
    (counted : after.unreadCount = before.unreadCount + data.length) :
    after.Sound ∧ after.unread = before.unread ++ data := by
  have bufLength := sound.bufLength
  have readposInside := sound.readposInside
  have oldWritepos := sound.writeposInside
  have behind := sound.behind
  have afterLength : after.buf.length = before.size := by
    rw [stored, length_ringWrite (by omega) (by omega), bufLength]
  refine ⟨⟨by omega, ?_, by omega, by omega, emptyMeets, nonempty⟩, ?_⟩
  · rw [sameSize]
    exact sound.sizePositive
  · rw [unread, counted, sameReadpos, stored]
    exact ringSlice_ringWrite (by omega) (by omega) (by omega) (by omega)

/-- Moving the read cursor by `count` bytes takes them off the unread bytes,
provided the new cursors count exactly that many fewer. -/
theorem sound_consumed {count : Nat} (sound : before.Sound) (sameSize : after.size = before.size)
    (sameBuf : after.buf = before.buf) (sameWritepos : after.writepos = before.writepos)
    (readposInside : after.readpos ≤ before.size)
    (advanced :
      after.readpos = before.readpos + count ∨ after.readpos + before.size = before.readpos + count)
    (emptyMeets : after.eof = true → after.readpos = after.writepos)
    (nonempty : after.eof = false → 0 < after.unreadCount)
    (counted : count + after.unreadCount = before.unreadCount) :
    after.Sound ∧ before.unread = ringSlice before.readpos count before.buf ++ after.unread := by
  have bufLength := sound.bufLength
  have oldReadpos := sound.readposInside
  have writeposInside := sound.writeposInside
  have total := sound.unreadCount_le
  refine ⟨⟨?_, ?_, by omega, by omega, emptyMeets, nonempty⟩, ?_⟩
  · rw [sameBuf, sameSize, bufLength]
  · rw [sameSize]
    exact sound.sizePositive
  · rw [unread, ← counted, ringSlice_add (by omega) (by omega), unread, sameBuf]
    congr 1
    exact ringSlice_wrap (by omega) (by omega) (by omega)

variable {bs : ITCBufferStream} {buf : List UInt8}

theorem bufferStreamWrite_buf (buf : List UInt8) (sound : bs.Sound) :
    (bufferStreamWrite bs buf).2.buf =
      ringWrite bs.writepos (buf.take (bufferStreamWrite bs buf).1) bs.buf := by
  have bufLength := sound.bufLength
  have readposInside := sound.readposInside
  have writeposInside := sound.writeposInside
  unfold bufferStreamWrite
  by_cases behindReader : bs.writepos < bs.readpos
  · simp only [if_pos behindReader]
    rw [ringWrite_of_le]
    simp only [List.length_take]
    omega
  · by_cases wraps : bs.size - bs.writepos < buf.length
    · simp only [if_neg behindReader, if_pos wraps]
      rw [ringWrite, bufLength, List.take_take, List.drop_take,
        Nat.min_eq_left (Nat.le_add_right _ _), Nat.add_sub_cancel_left]
      rfl
    · simp only [if_neg behindReader, if_neg wraps, List.take_length]
      rw [ringWrite_of_le (by omega)]

theorem bufferStreamWrite_cursors
    (sound : bs.Sound) (room : buf = [] ∨ bs.eof = true ∨ bs.readpos ≠ bs.writepos) :
    let written := bufferStreamWrite bs buf
    written.2.size = bs.size ∧ written.2.readpos = bs.readpos ∧ written.2.writepos ≤ bs.size ∧
      (written.2.eof = true → written.2.readpos = written.2.writepos) ∧
      (written.2.eof = false → 0 < written.2.unreadCount) ∧
      written.1 ≤ buf.length ∧
      bs.unreadCount + written.1 ≤ bs.size ∧
      written.2.unreadCount = bs.unreadCount + written.1 := by
  have sizePositive := sound.sizePositive
  have readposInside := sound.readposInside
  have writeposInside := sound.writeposInside
  have emptyMeets := sound.emptyMeets
  have unreadPositive := sound.unreadPositive
  have roomLength :
      buf.length = 0 ∨ bs.eof = true ∨ bs.readpos ≠ bs.writepos := by
    simpa only [List.length_eq_zero_iff] using room
  clear room sound
  rcases bs with ⟨eof, memory, size, readpos, writepos⟩
  unfold bufferStreamWrite
  generalize buf.length = requested at *
  cases eof with
  | true =>
    obtain rfl : readpos = writepos := emptyMeets rfl
    simp only [unreadCount]
    by_cases wraps : size - readpos < requested
    · grind
    · grind
  | false =>
    simp only [unreadCount] at *
    by_cases behindReader : writepos < readpos
    · grind
    · by_cases wraps : size - writepos < requested
      · grind
      · grind

theorem bufferStreamWrite_spec
    (sound : bs.Sound) (room : buf = [] ∨ bs.eof = true ∨ bs.readpos ≠ bs.writepos) :
    (bufferStreamWrite bs buf).2.Sound ∧
      (bufferStreamWrite bs buf).2.unread = bs.unread ++ buf.take (bufferStreamWrite bs buf).1 := by
  obtain ⟨sameSize, sameReadpos, writeposInside, emptyMeets, nonempty,
    accepted, fits, counted⟩ := bufferStreamWrite_cursors sound room
  have takeLength :
      (buf.take (bufferStreamWrite bs buf).1).length = (bufferStreamWrite bs buf).1 := by
    rw [List.length_take]
    exact Nat.min_eq_left accepted
  refine sound_appended sound sameSize sameReadpos
    (bufferStreamWrite_buf buf sound) writeposInside emptyMeets nonempty ?_ ?_
  · rw [takeLength]
    exact fits
  · rw [takeLength]
    exact counted

/-- The read cursor after the lazy wrap that a read starts with. -/
def ITCBufferStream.wrappedReadpos (bs : ITCBufferStream) : Nat :=
  if bs.readpos = bs.size then 0 else bs.readpos

section

variable (sound : bs.Sound)
  (forward : buf = [] ∨ bs.eof = true ∨ bs.wrappedReadpos < bs.writepos ∨ bs.size - bs.wrappedReadpos < buf.length)

include sound forward

/-- The cursor arithmetic of a read that does not take the branch with the
exchanged copy. -/
theorem bufferStreamRead_cursors :
    let got := bufferStreamRead bs buf
    got.2.2.size = bs.size ∧ got.2.2.writepos = bs.writepos ∧ got.2.2.readpos ≤ bs.size ∧
      (got.2.2.readpos = bs.readpos + got.1 ∨ got.2.2.readpos + bs.size = bs.readpos + got.1) ∧
      (got.2.2.eof = true → got.2.2.readpos = got.2.2.writepos) ∧
      (got.2.2.eof = false → 0 < got.2.2.unreadCount) ∧
      got.1 ≤ buf.length ∧
      got.1 + got.2.2.unreadCount = bs.unreadCount := by
  have sizePositive := sound.sizePositive
  have readposInside := sound.readposInside
  have writeposInside := sound.writeposInside
  have emptyMeets := sound.emptyMeets
  have unreadPositive := sound.unreadPositive
  have forwardLength :
      buf.length = 0 ∨ bs.eof = true ∨ bs.wrappedReadpos < bs.writepos ∨
        bs.size - bs.wrappedReadpos < buf.length := by
    simpa only [List.length_eq_zero_iff] using forward
  clear forward sound
  rcases bs with ⟨eof, memory, size, readpos, writepos⟩
  unfold bufferStreamRead
  unfold ITCBufferStream.wrappedReadpos at forwardLength
  cases eof with
  | true => grind
  | false =>
    simp only [unreadCount] at *
    by_cases atEnd : readpos = size
    · grind
    · by_cases ahead : readpos < writepos
      · grind
      · grind

/-- Outside the exchanged copy a read leaves the ring alone and delivers the
bytes at its cursor. -/
theorem bufferStreamRead_bytes :
    (bufferStreamRead bs buf).2.2.buf = bs.buf ∧
      (bufferStreamRead bs buf).2.1.take (bufferStreamRead bs buf).1 =
        ringSlice bs.readpos (bufferStreamRead bs buf).1 bs.buf := by
  have bufLength := sound.bufLength
  have readposInside := sound.readposInside
  have writeposInside := sound.writeposInside
  have fits := sound.unreadCount_le
  have startSame :
      ∀ count, count ≤ bs.size →
        ringSlice bs.readpos count bs.buf = ringSlice bs.wrappedReadpos count bs.buf := by
    intro count countFits
    unfold ITCBufferStream.wrappedReadpos
    split
    · rename_i atEnd
      rw [atEnd, ← bufLength, ringSlice_length (by omega)]
    · rfl
  have wrappedInside : bs.wrappedReadpos ≤ bs.size := by
    unfold ITCBufferStream.wrappedReadpos
    split <;> omega
  unfold bufferStreamRead
  by_cases empty : bs.eof = true
  · simp [empty, ringSlice_zero, bufLength, readposInside]
  · simp only [if_neg empty]
    rw [← ITCBufferStream.wrappedReadpos]
    by_cases ahead : bs.wrappedReadpos < bs.writepos
    · simp only [if_pos ahead]
      refine ⟨trivial, ?_⟩
      rw [startSame _ (by omega), ringSlice_of_le (by omega)]
      exact take_overwrite_zero buf (length_slice (by omega))
    · by_cases wraps : bs.size - bs.wrappedReadpos < buf.length
      · simp only [if_neg ahead, if_pos wraps]
        refine ⟨trivial, ?_⟩
        rw [startSame _ (by omega), ringSlice_of_ge (by omega),
          take_overwrite_overwrite buf (length_slice (by omega))
            (length_slice (by omega)), bufLength]
        congr 2
        omega
      · -- Only an empty request is left; its exchanged copy moves nothing.
        have none : buf = [] := by
          rcases forward with none | cleared | behind | beyond
          · exact none
          · exact absurd cleared empty
          · exact absurd behind ahead
          · exact absurd beyond wraps
        subst none
        simp only [if_neg ahead, List.length_nil, Nat.not_lt_zero, if_false,
          overwrite_nil, List.take_nil]
        rw [ringSlice_zero (by omega)]
        exact ⟨trivial, rfl⟩

/-- A read outside the exchanged copy takes what it delivers off the unread
bytes. -/
theorem bufferStreamRead_spec :
    (bufferStreamRead bs buf).2.2.Sound ∧
      bs.unread =
        (bufferStreamRead bs buf).2.1.take (bufferStreamRead bs buf).1 ++
          (bufferStreamRead bs buf).2.2.unread := by
  obtain ⟨sameSize, sameWritepos, readposInside, advanced, emptyMeets,
    nonempty, _, counted⟩ := bufferStreamRead_cursors sound forward
  obtain ⟨sameBuf, delivered⟩ := bufferStreamRead_bytes sound forward
  rw [delivered]
  exact sound_consumed sound sameSize sameBuf sameWritepos readposInside
    advanced emptyMeets nonempty counted

end

/-! ## Runs -/

/-- A call of the copy interface, with the caller's buffer. -/
inductive CopyCall
  | read (buf : List UInt8)
  | write (buf : List UInt8)
  deriving DecidableEq

/-- A stream together with everything it has delivered and accepted. -/
structure CopyHistory where
  stream : ITCBufferStream
  delivered : List UInt8
  accepted : List UInt8
  deriving DecidableEq

def CopyHistory.opened (memory : List UInt8) : CopyHistory := ⟨itcBufferStreamOpen memory, [], []⟩

/-- One call; the bytes a read delivers are the first `readsize` ones of the
caller's buffer after it. -/
def copyStep (history : CopyHistory) : CopyCall → CopyHistory
  | .read buf =>
    let got := bufferStreamRead history.stream buf
    { history with
      stream := got.2.2
      delivered := history.delivered ++ got.2.1.take got.1 }
  | .write buf =>
    let written := bufferStreamWrite history.stream buf
    { history with
      stream := written.2
      accepted := history.accepted ++ buf.take written.1 }

/-- The FIFO law: the cursors stay inside the buffer, and the bytes accepted are
those delivered followed by those the ring still holds, so that no unread byte
was overwritten. -/
structure CopyFifo (history : CopyHistory) : Prop where
  readposInside : history.stream.readpos ≤ history.stream.size
  writeposInside : history.stream.writepos ≤ history.stream.size
  deliveredPrefix : history.delivered <+: history.accepted
  unreadKept : history.accepted = history.delivered ++ history.stream.unread

/-- The calls that stay clear of the two defects.  A read may not stay before
the end of the buffer while the unread bytes continue at its beginning; a write
may not meet a full ring. -/
def CopyAllowed (history : CopyHistory) : CopyCall → Prop
  | .read buf =>
    buf = [] ∨ history.stream.eof = true ∨
      history.stream.wrappedReadpos < history.stream.writepos ∨
      history.stream.size - history.stream.wrappedReadpos < buf.length
  | .write buf =>
    buf = [] ∨ history.stream.eof = true ∨ history.stream.readpos ≠ history.stream.writepos

instance (history : CopyHistory) : ∀ call : CopyCall, Decidable (CopyAllowed history call)
  | .read buf =>
    inferInstanceAs (Decidable (buf = [] ∨ _ ∨ _ < _ ∨ _ < _))
  | .write buf =>
    inferInstanceAs (Decidable (buf = [] ∨ _ ∨ _ ≠ _))

def CopyInvariant (history : CopyHistory) : Prop :=
  history.stream.Sound ∧ history.accepted = history.delivered ++ history.stream.unread

theorem copyInvariant_opened {memory : List UInt8} (positive : 0 < memory.length) :
    CopyInvariant (CopyHistory.opened memory) := by
  refine ⟨sound_open positive, ?_⟩
  change [] = [] ++ ringSlice 0 0 memory
  rw [ringSlice_zero (Nat.zero_le _), List.nil_append]

theorem copyInvariant_step (before : CopyHistory) (call : CopyCall) (after : CopyHistory)
    (inv : CopyInvariant before) (step : Guarded CopyAllowed (Graph copyStep) before call after) :
    CopyInvariant after := by
  obtain ⟨sound, kept⟩ := inv
  obtain ⟨allowed, rfl⟩ := step
  cases call with
  | read buf =>
    obtain ⟨soundAfter, split⟩ := bufferStreamRead_spec sound allowed
    refine ⟨soundAfter, ?_⟩
    simp only [copyStep]
    rw [kept, split, List.append_assoc]
  | write buf =>
    obtain ⟨soundAfter, extended⟩ := bufferStreamWrite_spec sound allowed
    refine ⟨soundAfter, ?_⟩
    simp only [copyStep]
    rw [kept, extended, List.append_assoc]

/-- In every run whose calls are all allowed the stream is a FIFO. -/
theorem bufferStream_copy_fifo
    {memory : List UInt8} {calls : List CopyCall} {history : CopyHistory}
    (positive : 0 < memory.length)
    (run : Run (Guarded CopyAllowed (Graph copyStep)) (CopyHistory.opened memory) calls history) :
    CopyFifo history := by
  obtain ⟨sound, kept⟩ := run.invariant (copyInvariant_opened positive) copyInvariant_step
  exact
    { readposInside := sound.readposInside
      writeposInside := sound.writeposInside
      deliveredPrefix := ⟨_, kept.symm⟩
      unreadKept := kept }

/-- A one-byte ring is written and read back; the last read finds it drained. -/
theorem bufferStream_copy_fifo_drained :
    CopyFifo ([CopyCall.write [7], .read [0], .read [0]].foldl copyStep (CopyHistory.opened [0])) :=
  bufferStream_copy_fifo (by decide : 0 < [(0 : UInt8)].length) (Run.guarded_foldl (by decide))

/-- With the unread bytes `4, 5, 6` wrapped around the end of a four-byte ring,
reading one byte delivers the caller's own `9`. -/
theorem bufferStream_copy_not_fifo :
    ¬ ∀ (memory : List UInt8) (calls : List CopyCall) (history : CopyHistory), 0 < memory.length →
        Run (Graph copyStep) (CopyHistory.opened memory) calls history →
        CopyFifo history := by
  intro claimed
  have fifo :=
    claimed [0, 0, 0, 0] [.write [1, 2, 3, 4], .read [0, 0, 0], .write [5, 6], .read [9]]
      _ (by decide) (Run.graph_foldl copyStep _ _)
  exact absurd fifo.deliveredPrefix (by decide)

end

end IteSdk.Itc
