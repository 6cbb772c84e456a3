import IteSdk.Lib.Memory

/-!
# Readable streams

`ITCStream` as `itc_arraystream.c` and `itc_filestream.c` fill in its methods.
-/

namespace IteSdk.Itc

open Lib

/-- Which methods `itcStreamRead` and `itcStreamSeek` call. -/
inductive StreamKind
  | array
  | file
  deriving DecidableEq

/-- The third argument of `itcStreamSeek`. -/
inductive SeekOrigin
  | seekSet
  | seekCur
  | seekEnd
  deriving DecidableEq

/-- An open stream; its `size` is an `int`. -/
structure ITCStream where
  kind : StreamKind
  data : List UInt8
  pos : Nat
  sizeFits : data.length < 2 ^ 31

def ITCStream.size (stream : ITCStream) : Nat := stream.data.length

/-- `ArrayStreamRead` and `FileStreamRead` with a `size` that is no negative
`int`: the bytes delivered and the stream behind them. -/
def itcStreamRead (stream : ITCStream) (size : Nat) : List UInt8 × ITCStream :=
  let result := slice stream.pos size stream.data
  (result, { stream with pos := stream.pos + result.length })

/-- How many bytes a read copies to the caller.  The `size` of the methods is an
`int`: from `2 ^ 31` on it is negative, which `ArrayStreamRead` passes on to
`memcpy` and `FileStreamRead` to `fread`. -/
def itcStreamCopied (stream : ITCStream) (size : Nat) : Nat :=
  if stream.kind = .array ∧ 2 ^ 31 ≤ size then
    size
  else
    min size (stream.size - stream.pos)

/-- `ArrayStreamSeek` and `FileStreamSeek`, `none` where they return an error.
No caller passes a negative offset with `SEEK_SET`. -/
def itcStreamSeek (stream : ITCStream) (offset : Int) (origin : SeekOrigin) : Option ITCStream :=
  let pos : Int :=
    match origin with
    | .seekSet => offset
    | .seekCur => stream.pos + offset
    | .seekEnd => stream.size + offset
  match stream.kind with
  | .array =>
    if (origin = .seekSet ∨ 0 ≤ pos) ∧ pos < stream.size then
      some { stream with pos := pos.toNat }
    else
      none
  | .file => if 0 ≤ pos then some { stream with pos := pos.toNat } else none

/-- The stream `count` bytes further on. -/
def ITCStream.advance (stream : ITCStream) (count : Nat) : ITCStream :=
  { stream with pos := stream.pos + count }

@[simp] theorem ITCStream.advance_data (stream : ITCStream) (count : Nat) :
    (stream.advance count).data = stream.data := rfl

@[simp] theorem ITCStream.advance_pos (stream : ITCStream) (count : Nat) :
    (stream.advance count).pos = stream.pos + count := rfl

@[simp] theorem ITCStream.advance_size (stream : ITCStream) (count : Nat) :
    (stream.advance count).size = stream.size := rfl

@[simp] theorem ITCStream.advance_advance (stream : ITCStream) (first second : Nat) :
    (stream.advance first).advance second = stream.advance (first + second) := by
  simp [ITCStream.advance, Nat.add_assoc]

def itcStreamTell (stream : ITCStream) : Nat := stream.pos

variable {stream : ITCStream}

theorem itcStreamRead_within {size : Nat} (within : stream.pos + size ≤ stream.size) :
    itcStreamRead stream size =
      (slice stream.pos size stream.data, { stream with pos := stream.pos + size }) := by
  rw [itcStreamRead, length_slice within]

theorem itcStreamRead_full {size : Nat} (sensible : 0 < size ∨ stream.pos ≤ stream.size)
    (full : (itcStreamRead stream size).1.length = size) :
    stream.pos + size ≤ stream.size ∧
      itcStreamRead stream size = (slice stream.pos size stream.data, stream.advance size) := by
  have length : (slice stream.pos size stream.data).length = size := full
  have within : stream.pos + size ≤ stream.size := by
    simp only [slice, List.length_take, List.length_drop] at length
    unfold ITCStream.size at sensible ⊢
    omega
  exact ⟨within, itcStreamRead_within within⟩

theorem itcStreamSeek_eq {stream sought : ITCStream} {offset : Int}
    (seek : itcStreamSeek stream offset .seekCur = some sought) :
    sought = { stream with pos := (stream.pos + offset).toNat } := by
  unfold itcStreamSeek at seek
  dsimp only at seek
  split at seek <;> split at seek <;> cases seek <;> rfl

theorem itcStreamSeek_set {stream sought : ITCStream} {target : Nat}
    (seek : itcStreamSeek stream target .seekSet = some sought) :
    sought = { stream with pos := target } := by
  unfold itcStreamSeek at seek
  dsimp only at seek
  split at seek <;> split at seek <;> cases seek <;> rfl

theorem itcStreamSeek_within {offset : Int} {origin : SeekOrigin} {target : Nat}
    (reaches :
      (match origin with
        | .seekSet => offset
        | .seekCur => stream.pos + offset
        | .seekEnd => stream.size + offset) = (target : Int))
    (within : target < stream.size) :
    itcStreamSeek stream offset origin = some { stream with pos := target } := by
  have nonnegative : (0 : Int) ≤ target := Int.natCast_nonneg target
  have withinInt : (target : Int) < stream.size := Int.ofNat_lt.mpr within
  unfold itcStreamSeek
  rw [reaches]
  cases stream.kind with
  | array =>
    simp only [if_pos (And.intro (Or.inr nonnegative) withinInt), Int.toNat_natCast]
  | file => simp only [if_pos nonnegative, Int.toNat_natCast]

theorem itcStreamSeek_end_before {distance : Nat} (before : stream.size < distance) :
    itcStreamSeek stream (-distance) .seekEnd = none := by
  have negative : ¬ (0 : Int) ≤ stream.size + -distance := by omega
  unfold itcStreamSeek
  cases stream.kind with
  | array => simp [negative]
  | file => simp only [if_neg negative]

end IteSdk.Itc
