import IteSdk.Itc.BufferStream
import IteSdk.Itc.Stream
import IteSdk.Lib.Transition

/-!
# Seeking in the ring-buffer stream

`BufferStreamSeek`, which keeps its failure in the variable that the unlock writes to.
-/

namespace IteSdk.Itc

open Lib

/-- The `int` that the C sum of a position and a `long` is. -/
def intSum (position : Nat) (offset : BitVec 32) : Int :=
  (BitVec.ofNat 32 position + offset).toInt

/-- What a seek returns, and the fields it leaves; the read position may be negative. -/
structure SeekDone where
  result : Int
  readpos : Int
  eof : Bool
  deriving DecidableEq

/-- The read position moves; in front of the write position the flag is set anew. -/
def ITCBufferStream.movedTo (bs : ITCBufferStream) (pos : Int) : SeekDone where
  result := 0
  readpos := pos
  eof := if bs.readpos < bs.writepos then decide (pos = bs.writepos) else bs.eof

/-- The read position stays: `result = -1`, which `pthread_mutex_unlock` then sets to
0. -/
def ITCBufferStream.stayed (bs : ITCBufferStream) : SeekDone where
  result := 0
  readpos := bs.readpos
  eof := bs.eof

/-- The check of `SEEK_CUR` and `SEEK_END`. -/
def ITCBufferStream.seekPos (bs : ITCBufferStream) (pos : Int) : SeekDone :=
  if bs.readpos < bs.writepos then
    if 0 ≤ pos ∧ pos < bs.writepos then bs.movedTo pos else bs.stayed
  else
    if bs.writepos ≤ pos ∧ pos < bs.size then bs.movedTo pos else bs.stayed

def bufferStreamSeek (bs : ITCBufferStream) (offset : BitVec 32) : SeekOrigin → SeekDone
  | .seekSet =>
    if bs.readpos < bs.writepos then
      if offset.toInt ≤ bs.writepos then bs.movedTo offset.toInt else bs.stayed
    else
      if offset.toInt < bs.size then bs.movedTo offset.toInt else bs.stayed
  | .seekCur => bs.seekPos (intSum bs.readpos offset)
  | .seekEnd => bs.seekPos (intSum bs.size offset)

inductive BufferCall
  | read (buf : List UInt8)
  | write (buf : List UInt8)
  | readLock (size : Nat)
  | readUnlock (size : Nat)
  | writeLock (size : Nat)
  | store (offset : Nat) (data : List UInt8)
  | writeUnlock (size : Nat)
  | seek (offset : BitVec 32) (origin : SeekOrigin)
  deriving DecidableEq

/-- One call.  With a negative read position there is no stream any more. -/
def bufferCall (bs : ITCBufferStream) : BufferCall → Option ITCBufferStream
  | .read buf => some (bufferStreamRead bs buf).2.2
  | .write buf => some (bufferStreamWrite bs buf).2
  | .readLock size => some (bufferStreamReadLock bs size).2.2
  | .readUnlock size => some (bufferStreamReadUnlock bs size)
  | .writeLock _ => some bs
  | .store offset data => some { bs with buf := overwrite offset data bs.buf }
  | .writeUnlock size => some (bufferStreamWriteUnlock bs size)
  | .seek offset origin =>
    let done := bufferStreamSeek bs offset origin
    if 0 ≤ done.readpos then
      some { bs with readpos := done.readpos.toNat, eof := done.eof }
    else none

def ITCBufferStream.requested (bs : ITCBufferStream) (offset : BitVec 32) : SeekOrigin → Int
  | .seekSet => offset.toInt
  | .seekCur => bs.readpos + offset.toInt
  | .seekEnd => bs.size + offset.toInt

/-- The positions that can be read from: those up to the write position, or, when the
writer has started over, those from the write position to the end. -/
def ITCBufferStream.Readable (bs : ITCBufferStream) (pos : Int) : Prop :=
  if bs.readpos < bs.writepos then 0 ≤ pos ∧ pos ≤ bs.writepos
  else bs.writepos ≤ pos ∧ pos < bs.size
deriving Decidable

/-- A seek returns 0 exactly for a readable position, which it moves to; otherwise
nothing changes. -/
structure SeekRight (bs : ITCBufferStream) (offset : BitVec 32) (origin : SeekOrigin) :
    Prop where
  moves :
    bs.Readable (bs.requested offset origin) →
      (bufferStreamSeek bs offset origin).result = 0 ∧
        (bufferStreamSeek bs offset origin).readpos = bs.requested offset origin
  refuses :
    ¬ bs.Readable (bs.requested offset origin) →
      (bufferStreamSeek bs offset origin).result ≠ 0 ∧
        (bufferStreamSeek bs offset origin).readpos = bs.readpos ∧
        (bufferStreamSeek bs offset origin).eof = bs.eof
  inside :
    0 ≤ (bufferStreamSeek bs offset origin).readpos ∧
      (bufferStreamSeek bs offset origin).readpos ≤ bs.size

/-- The position is readable, and it is not the write position itself where only
`SEEK_SET` leads to it. -/
def SeekFits (bs : ITCBufferStream) (offset : BitVec 32) (origin : SeekOrigin) : Prop :=
  bs.Readable (bs.requested offset origin) ∧
    (bs.readpos < bs.writepos → bs.requested offset origin = bs.writepos → origin = .seekSet)
deriving Decidable

structure CursorsInside (size : Nat) (bs : ITCBufferStream) : Prop where
  sameSize : bs.size = size
  readpos : bs.readpos ≤ size
  writepos : bs.writepos ≤ size

variable {bs after : ITCBufferStream} {offset : BitVec 32} {origin : SeekOrigin}
  {size : Nat}

theorem intSum_cases {position : Nat} (small : position < 2 ^ 31) (offset : BitVec 32) :
    intSum position offset = position + offset.toInt ∨
      intSum position offset < 0 ∧ 2 ^ 31 ≤ position + offset.toInt := by
  have word := offset.isLt
  have sum :
      (BitVec.ofNat 32 position + offset).toNat = (position + offset.toNat) % 2 ^ 32 := by
    rw [BitVec.toNat_add, BitVec.toNat_ofNat, Nat.mod_add_mod]
  rw [intSum, BitVec.toInt_eq_toNat_cond, BitVec.toInt_eq_toNat_cond, sum]
  split <;> split <;> omega

def Accepts (bs : ITCBufferStream) (offset : BitVec 32) (origin : SeekOrigin) : Prop :=
  if origin = .seekSet then
    if bs.readpos < bs.writepos then bs.requested offset origin ≤ bs.writepos
    else bs.requested offset origin < bs.size
  else
    bs.Readable (bs.requested offset origin) ∧
      ¬ (bs.readpos < bs.writepos ∧ bs.requested offset origin = bs.writepos)

theorem seekPos_cases {base : Nat} (inside : CursorsInside size bs) (small : size < 2 ^ 31)
    (within : base ≤ size) :
    bs.seekPos (intSum base offset) = bs.movedTo (base + offset.toInt) ∧
        bs.Readable (base + offset.toInt) ∧
        ¬ (bs.readpos < bs.writepos ∧ (base : Int) + offset.toInt = bs.writepos) ∨
      bs.seekPos (intSum base offset) = bs.stayed ∧
        ¬ (bs.Readable (base + offset.toInt) ∧
          ¬ (bs.readpos < bs.writepos ∧ (base : Int) + offset.toInt = bs.writepos)) := by
  obtain ⟨rfl, readpos, writepos⟩ := inside
  unfold ITCBufferStream.seekPos ITCBufferStream.Readable
  rcases intSum_cases (show base < 2 ^ 31 by omega) offset with same | ⟨negative, large⟩
  · rw [same]
    split
    · split
      · exact Or.inl ⟨rfl, by omega, by omega⟩
      · exact Or.inr ⟨rfl, by omega⟩
    · split
      · exact Or.inl ⟨rfl, by omega, by omega⟩
      · exact Or.inr ⟨rfl, by omega⟩
  · split
    · rw [if_neg (by omega)]
      exact Or.inr ⟨rfl, by omega⟩
    · rw [if_neg (by omega)]
      exact Or.inr ⟨rfl, by omega⟩

theorem bufferStreamSeek_cases (inside : CursorsInside size bs) (small : size < 2 ^ 31)
    (offset : BitVec 32) (origin : SeekOrigin) :
    bufferStreamSeek bs offset origin = bs.movedTo (bs.requested offset origin) ∧
        Accepts bs offset origin ∨
      bufferStreamSeek bs offset origin = bs.stayed ∧ ¬ Accepts bs offset origin := by
  cases origin with
  | seekSet =>
    simp only [bufferStreamSeek, Accepts, ITCBufferStream.requested, if_true]
    split
    · split
      · next accepted => exact Or.inl ⟨rfl, accepted⟩
      · next refused => exact Or.inr ⟨rfl, refused⟩
    · split
      · next accepted => exact Or.inl ⟨rfl, accepted⟩
      · next refused => exact Or.inr ⟨rfl, refused⟩
  | seekCur =>
    exact seekPos_cases inside small inside.readpos
  | seekEnd =>
    exact seekPos_cases inside small (Nat.le_of_eq inside.sameSize)

theorem readable_inside (inside : CursorsInside size bs) {pos : Int}
    (readable : bs.Readable pos) : 0 ≤ pos ∧ pos ≤ bs.size := by
  obtain ⟨rfl, readpos, writepos⟩ := inside
  unfold ITCBufferStream.Readable at readable
  split at readable <;> omega

theorem accepts_of_readable (readable : bs.Readable (bs.requested offset origin))
    (notEnd :
      bs.readpos < bs.writepos → bs.requested offset origin = bs.writepos → origin = .seekSet) :
    Accepts bs offset origin := by
  unfold Accepts
  split
  · unfold ITCBufferStream.Readable at readable
    split at readable
    · next before =>
        rw [if_pos before]
        exact readable.2
    · next behind =>
        rw [if_neg behind]
        exact readable.2
  · next other => exact ⟨readable, fun ⟨before, ends⟩ => other (notEnd before ends)⟩

theorem seekRight_iff (inside : CursorsInside size bs) (small : size < 2 ^ 31)
    (offset : BitVec 32) (origin : SeekOrigin) :
    SeekRight bs offset origin ↔ SeekFits bs offset origin := by
  rcases bufferStreamSeek_cases inside small offset origin with
    ⟨moved, accepted⟩ | ⟨stayed, refused⟩
  · constructor
    · rintro ⟨-, refuses, -⟩
      have readable : bs.Readable (bs.requested offset origin) := by
        by_contra outside
        apply (refuses outside).1
        rw [moved]
        rfl
      refine ⟨readable, fun before ends => ?_⟩
      by_contra other
      rw [Accepts, if_neg other] at accepted
      exact accepted.2 ⟨before, ends⟩
    · rintro ⟨readable, -⟩
      refine ⟨fun _ => ?_, fun outside => absurd readable outside, ?_⟩
      · rw [moved]
        exact ⟨rfl, rfl⟩
      · rw [moved]
        exact readable_inside inside readable
  · refine iff_of_false ?_ fun ⟨readable, notEnd⟩ =>
      refused (accepts_of_readable readable notEnd)
    rintro ⟨moves, refuses, -⟩
    by_cases readable : bs.Readable (bs.requested offset origin)
    · -- The seek would have had to move to where the position is.
      have here := (moves readable).2
      rw [stayed] at here
      refine refused (accepts_of_readable readable fun before ends => ?_)
      have same : (bs.readpos : Int) = bs.writepos := here.trans ends
      omega
    · apply (refuses readable).1
      rw [stayed]
      rfl

/-! ## All calls -/

theorem cursorsInside_open (memory : List UInt8) :
    CursorsInside memory.length (itcBufferStreamOpen memory) :=
  ⟨rfl, Nat.zero_le _, Nat.zero_le _⟩

section

variable (inside : CursorsInside size bs)

include inside

theorem CursorsInside.read (buf : List UInt8) :
    CursorsInside size (bufferStreamRead bs buf).2.2 := by
  obtain ⟨rfl, readpos, writepos⟩ := inside
  unfold bufferStreamRead
  split
  · exact ⟨rfl, readpos, writepos⟩
  · have wrapped : (if bs.readpos = bs.size then 0 else bs.readpos) ≤ bs.size := by split <;> omega
    generalize (if bs.readpos = bs.size then 0 else bs.readpos) = start at wrapped
    dsimp only
    split
    · exact ⟨rfl, by dsimp only; omega, writepos⟩
    · split
      · exact ⟨rfl, by dsimp only; omega, writepos⟩
      · exact ⟨rfl, by dsimp only; omega, writepos⟩

theorem CursorsInside.write (buf : List UInt8) :
    CursorsInside size (bufferStreamWrite bs buf).2 := by
  obtain ⟨rfl, readpos, writepos⟩ := inside
  unfold bufferStreamWrite
  dsimp only
  split
  · exact ⟨rfl, readpos, by dsimp only; omega⟩
  · split
    · exact ⟨rfl, readpos, by dsimp only; omega⟩
    · exact ⟨rfl, readpos, by dsimp only; omega⟩

theorem CursorsInside.readLock (count : Nat) :
    CursorsInside size (bufferStreamReadLock bs count).2.2 := by
  obtain ⟨rfl, readpos, writepos⟩ := inside
  unfold bufferStreamReadLock
  split
  · exact ⟨rfl, readpos, writepos⟩
  · exact ⟨rfl, by dsimp only; split <;> omega, writepos⟩

theorem CursorsInside.readUnlock (count : Nat) :
    CursorsInside size (bufferStreamReadUnlock bs count) := by
  obtain ⟨rfl, readpos, writepos⟩ := inside
  unfold bufferStreamReadUnlock
  split
  · exact ⟨rfl, readpos, writepos⟩
  · have wrapped :
        (if bs.readpos = bs.size ∧ 0 < bs.writepos then 0 else bs.readpos) ≤ bs.size := by
      split <;> omega
    generalize (if bs.readpos = bs.size ∧ 0 < bs.writepos then 0 else bs.readpos) = start
      at wrapped
    refine ⟨rfl, ?_, writepos⟩
    dsimp only
    split <;> split <;> omega

theorem CursorsInside.writeUnlock (count : Nat) :
    CursorsInside size (bufferStreamWriteUnlock bs count) := by
  obtain ⟨rfl, readpos, writepos⟩ := inside
  have wrapped (advanced : Nat) (bound : advanced ≤ bs.size) :
      (if advanced = bs.size ∧ 0 < bs.readpos then 0 else advanced) ≤ bs.size := by
    split <;> omega
  refine ⟨rfl, readpos, ?_⟩
  unfold bufferStreamWriteUnlock
  dsimp only
  split
  · exact wrapped _ (by omega)
  · split
    · exact wrapped _ (by dsimp only; split <;> omega)
    · exact wrapped _ (by omega)

theorem CursorsInside.seek (small : size < 2 ^ 31) (offset : BitVec 32) (origin : SeekOrigin) :
    (bufferStreamSeek bs offset origin).readpos ≤ size := by
  rcases bufferStreamSeek_cases inside small offset origin with
    ⟨moved, accepted⟩ | ⟨stayed, -⟩
  · rw [moved]
    change bs.requested offset origin ≤ size
    have sameSize := inside.sameSize
    have writepos := inside.writepos
    unfold Accepts at accepted
    split at accepted
    · split at accepted <;> omega
    · have bound := (readable_inside inside accepted.1).2
      omega
  · rw [stayed]
    exact Int.ofNat_le.mpr inside.readpos

end

theorem CursorsInside.call (small : size < 2 ^ 31) (inside : CursorsInside size bs)
    (call : BufferCall) (step : bufferCall bs call = some after) :
    CursorsInside size after := by
  cases call with
  | read buf =>
    cases step
    exact inside.read buf
  | write buf =>
    cases step
    exact inside.write buf
  | readLock count =>
    cases step
    exact inside.readLock count
  | readUnlock count =>
    cases step
    exact inside.readUnlock count
  | writeLock count =>
    cases step
    exact inside
  | store offset data =>
    cases step
    exact ⟨inside.sameSize, inside.readpos, inside.writepos⟩
  | writeUnlock count =>
    cases step
    exact inside.writeUnlock count
  | seek offset origin =>
    have bound := inside.seek small offset origin
    rw [bufferCall] at step
    split at step
    · cases step
      exact ⟨inside.sameSize, Int.toNat_le.mpr bound, inside.writepos⟩
    · cases step

/-- In every state that a stream reaches its read position is inside the buffer, and a
seek from there is right exactly for the positions that fit; such a seek goes on. -/
theorem bufferStreamSeek_right_iff {memory : List UInt8} (small : memory.length < 2 ^ 31)
    {calls : List BufferCall} {bs : ITCBufferStream}
    (run : Run (Enabled bufferCall) (itcBufferStreamOpen memory) calls bs)
    (offset : BitVec 32) (origin : SeekOrigin) :
    bs.readpos ≤ bs.size ∧ (SeekRight bs offset origin ↔ SeekFits bs offset origin) ∧
      (SeekFits bs offset origin → (bufferCall bs (.seek offset origin)).isSome) := by
  have inside : CursorsInside memory.length bs :=
    run.invariant (cursorsInside_open memory)
      (fun before call after inside step => inside.call small call step)
  have right := seekRight_iff inside small offset origin
  refine ⟨inside.sameSize ▸ inside.readpos, right, fun fits => ?_⟩
  have positive := (right.mpr fits).inside.1
  rw [bufferCall, if_pos positive]
  rfl

def threeWritten : ITCBufferStream := ⟨false, [1, 2, 3, 0, 0, 0, 0, 0], 8, 0, 3⟩

theorem threeWritten_run :
    Run (Enabled bufferCall) (itcBufferStreamOpen (List.replicate 8 0))
      [.write [1, 2, 3]] threeWritten :=
  Run.enabled_foldlM (by decide)

/-- Back to the second byte, from the end of the buffer. -/
theorem bufferStreamSeek_right_second :
    SeekFits threeWritten (-7) .seekEnd ∧ SeekRight threeWritten (-7) .seekEnd :=
  ⟨by decide,
    (bufferStreamSeek_right_iff (by decide) threeWritten_run (-7)
      .seekEnd).2.1.mpr (by decide)⟩

/-- A seek behind the written bytes is refused and returns 0; one to a negative offset
is done; one by `SEEK_CUR` to the end of the written bytes is refused. -/
theorem bufferStreamSeek_wrong :
    Run (Enabled bufferCall) (itcBufferStreamOpen (List.replicate 8 0))
        [.write [1, 2, 3]] threeWritten ∧
      bufferStreamSeek threeWritten 5 .seekSet = ⟨0, 0, false⟩ ∧
      ¬ SeekRight threeWritten 5 .seekSet ∧
      bufferStreamSeek threeWritten (-1) .seekSet = ⟨0, -1, false⟩ ∧
      ¬ SeekRight threeWritten (-1) .seekSet ∧
      ¬ SeekRight threeWritten 3 .seekCur := by
  have inside : CursorsInside 8 threeWritten := ⟨rfl, by decide, by decide⟩
  refine ⟨threeWritten_run, by decide, ?_, by decide, ?_, ?_⟩
  all_goals
    rw [seekRight_iff inside (by decide)]
    decide

end IteSdk.Itc
