import IteSdk.Lib.Ring
import IteSdk.Lib.Transition
import Mathlib.Algebra.Group.Nat.Defs
import Mathlib.Data.List.Basic
import Mathlib.Logic.Function.Basic

/-!
# The queue of PES samples

The PES decoder fills the samples of a ring and the player releases them.  Each
side advances an index of its own; the copies in `PidInfo` are how one side
learns of the other's.  Where an array is indexed outside its bounds the
functions below give `none`.
-/

namespace IteSdk.TsDemuxer

section

inductive QueueErrorCode
  | notInit
  | invalidInput
  | isEmpty
  | isFull
  | noEnoughHandle
  | notExist
  | noError
  deriving DecidableEq

/-- The byte order that `SET32` and `GET32` are compiled for. -/
inductive Endian
  | little
  | big
  deriving DecidableEq

def maxChannelCount : Nat := 1

def maxPidCountPerChannel : Nat := 4

def maxPesSampleCount : Nat := 32

def swap32 (val : Nat) : Nat :=
  ((val &&& 0x000000FF) <<< 24 + (val &&& 0x0000FF00) <<< 8 +
      (val &&& 0x00FF0000) >>> 8 + (val &&& 0xFF000000) >>> 24) % 2 ^ 32

/-- The value that `SET32(var, val)` leaves in `var`. -/
def set32 : Endian → Nat → Nat
  | .big, val => swap32 val
  | .little, val => val

def get32 : Endian → Nat → Nat
  | .big, v => swap32 v
  | .little, v => v

/-- `pOutputPesValidSize` has `maxPesSampleCount` entries. -/
structure PidInfo where
  pid : Nat
  pOutPesBuffer : Nat
  pesOutSampleSize : Nat
  validPesSampleCount : Nat
  pOutputPesValidSize : List Nat
  pesBufferWriteIdx : Nat
  pesBufferReadIdx : Nat
  deriving DecidableEq

structure QueueDataBlock where
  ptPidInfo : PidInfo
  pid : Nat
  pOutPesBuffer : Nat
  pesOutSampleSize : Nat
  validPesSampleCount : Nat
  pesBufferWriteIdx : Nat
  pesBufferReadIdx : Nat
  deriving DecidableEq

/-- A null `ptPidInfo` is `none`. -/
def pesQmCreateQueue (endian : Endian) (channelId pesIndex : Nat)
    (ptPidInfo : Option PidInfo) (pRiscBaseAddr : Nat) :
    Option QueueDataBlock :=
  match ptPidInfo with
  | none => none
  | some info =>
    if channelId < maxChannelCount ∧ pesIndex < maxPidCountPerChannel then
      some
        { ptPidInfo := info
          pid := get32 endian info.pid
          pOutPesBuffer :=
            (get32 endian info.pOutPesBuffer + 2 ^ 32 - pRiscBaseAddr) %
              2 ^ 32
          pesOutSampleSize := get32 endian info.pesOutSampleSize
          validPesSampleCount := get32 endian info.validPesSampleCount
          pesBufferWriteIdx := get32 endian info.pesBufferWriteIdx
          pesBufferReadIdx := get32 endian info.pesBufferReadIdx }
    else
      none

/-- `pOutPesBuffer + idx * pesOutSampleSize`. -/
def QueueDataBlock.sampleAt (queue : QueueDataBlock) (idx : Nat) : Nat :=
  (queue.pOutPesBuffer + idx * queue.pesOutSampleSize) % 2 ^ 32

/-- Both indices start over at `validPesSampleCount`. -/
def QueueDataBlock.nextIdx (queue : QueueDataBlock) (idx : Nat) : Nat :=
  if (idx + 1) % 2 ^ 32 = queue.validPesSampleCount then
    0
  else
    (idx + 1) % 2 ^ 32

/-- A null `ptQueue` is `none`. -/
def pesQmGetFree (ptQueue : Option QueueDataBlock) : QueueErrorCode × Option Nat :=
  match ptQueue with
  | none => (.invalidInput, none)
  | some queue => (.noError, some (queue.sampleAt queue.pesBufferWriteIdx))

/-- `queue` is the entry of `gtDataArray` that the two indices name. -/
def pesQmSetFree (channelId pesIndex : Nat) (queue : QueueDataBlock)
    (sample : Nat) : QueueErrorCode × QueueDataBlock :=
  if maxChannelCount ≤ channelId ∨ maxPidCountPerChannel ≤ pesIndex ∨ sample = 0 then
    (.invalidInput, queue)
  else if sample = queue.sampleAt queue.pesBufferReadIdx then
    (.noError,
      { queue with
        pesBufferReadIdx := queue.nextIdx queue.pesBufferReadIdx
        ptPidInfo :=
          { queue.ptPidInfo with
            pesBufferReadIdx := queue.nextIdx queue.pesBufferReadIdx } })
  else
    (.invalidInput, queue)

/-- `ptQueue->pesBufferWriteIdx = ptQueue->ptPidInfo->pesBufferWriteIdx`,
without `GET32`. -/
def QueueDataBlock.fetchWriteIdx (queue : QueueDataBlock) : QueueDataBlock :=
  { queue with pesBufferWriteIdx := queue.ptPidInfo.pesBufferWriteIdx }

/-- A ready sample comes with the size that is stored for it. -/
def pesQmGetReady (channelId pesIndex : Nat) (queue : QueueDataBlock) :
    Option (QueueErrorCode × QueueDataBlock × Option (Nat × Nat)) :=
  if maxChannelCount ≤ channelId ∨ maxPidCountPerChannel ≤ pesIndex then
    some (.invalidInput, queue, none)
  else if queue.pesBufferReadIdx = queue.fetchWriteIdx.pesBufferWriteIdx then
    some (.isEmpty, queue.fetchWriteIdx, none)
  else
    (queue.ptPidInfo.pOutputPesValidSize[queue.pesBufferReadIdx]?).map
      fun sampleSize =>
        (.noError, queue.fetchWriteIdx, some (queue.sampleAt queue.pesBufferReadIdx, sampleSize))

def pesQmSetReady (endian : Endian) (ptQueue : Option QueueDataBlock) (sample sampleSize : Nat) :
    Option (QueueErrorCode × Option QueueDataBlock) :=
  match ptQueue with
  | none => some (.invalidInput, none)
  | some queue =>
    if sample = 0 then
      some (.invalidInput, some queue)
    else if sample = queue.sampleAt queue.pesBufferWriteIdx then
      if queue.pesBufferWriteIdx < queue.ptPidInfo.pOutputPesValidSize.length then
        some
          (.noError,
            some
              { queue with
                pesBufferWriteIdx := queue.nextIdx queue.pesBufferWriteIdx
                ptPidInfo :=
                  { queue.ptPidInfo with
                    pOutputPesValidSize :=
                      queue.ptPidInfo.pOutputPesValidSize.set
                        queue.pesBufferWriteIdx (set32 endian sampleSize)
                    pesBufferWriteIdx := set32 endian (queue.nextIdx queue.pesBufferWriteIdx) } })
      else
        none
    else
      some (.invalidInput, some queue)

end

/-!
# Runs of the queue of PES samples

The producer gets a free sample, fills it and makes it ready; the consumer gets
a ready sample and frees it.  Every call is one step, and the two take their
steps in any order.  Beside the queue a run remembers which samples are ready,
what was made ready and what the consumer obtained.
-/

section

open Lib

universe u

variable {α : Type u}

inductive PesEvent (α : Type u)
  | getFree
  | fill (content : α)
  | setReady (sampleSize : Nat)
  | getReady
  | setFree
  deriving DecidableEq

inductive PesFault
  /-- an access outside `pOutputPesValidSize` -/
  | outside
  /-- `pesQmGetReady` found no sample although some are ready -/
  | starved
  /-- a sample that the queue had handed out was not taken back -/
  | refused
  deriving DecidableEq

/-- A sample that is ready: where it is, what it holds and its size. -/
structure PesSample (α : Type u) where
  address : Nat
  content : α
  sampleSize : Nat

structure PesRing (α : Type u) where
  queue : QueueDataBlock
  memory : Nat → α
  /-- the sample that the producer was given -/
  free : Option Nat
  /-- the sample that the consumer was given -/
  held : Option Nat
  /-- ready and not yet released, oldest first -/
  ready : List (PesSample α)
  published : List (α × Nat)
  obtained : List (α × Nat)
  faults : List PesFault

def PesRing.start (queue : QueueDataBlock) (memory : Nat → α) : PesRing α :=
  ⟨queue, memory, none, none, [], [], [], []⟩

def PesRing.getFree (ring : PesRing α) : PesRing α :=
  { ring with free := (pesQmGetFree (some ring.queue)).2 }

def PesRing.fill (ring : PesRing α) (content : α) : PesRing α :=
  match ring.free with
  | none => ring
  | some address =>
    { ring with memory := Function.update ring.memory address content }

def PesRing.setReady (endian : Endian) (ring : PesRing α) (sampleSize : Nat) : PesRing α :=
  match ring.free with
  | none => ring
  | some address =>
    match pesQmSetReady endian (some ring.queue) address sampleSize with
    | none => { ring with faults := .outside :: ring.faults }
    | some (.noError, some queue) =>
      { ring with
        queue := queue
        free := none
        ready := ring.ready ++ [⟨address, ring.memory address, sampleSize⟩]
        published := ring.published ++ [(ring.memory address, sampleSize)] }
    | some _ => { ring with free := none, faults := .refused :: ring.faults }

def PesRing.getReady (channelId pesIndex : Nat) (ring : PesRing α) : PesRing α :=
  match ring.held with
  | some _ => ring
  | none =>
    match pesQmGetReady channelId pesIndex ring.queue with
    | none => { ring with faults := .outside :: ring.faults }
    | some (_, queue, some (address, sampleSize)) =>
      { ring with
        queue := queue
        held := some address
        obtained := ring.obtained ++ [(ring.memory address, sampleSize)] }
    | some (_, queue, none) =>
      { ring with
        queue := queue
        faults := if ring.ready = [] then ring.faults else .starved :: ring.faults }

def PesRing.setFree (channelId pesIndex : Nat) (ring : PesRing α) : PesRing α :=
  match ring.held with
  | none => ring
  | some address =>
    match pesQmSetFree channelId pesIndex ring.queue address with
    | (.noError, queue) =>
      { ring with queue := queue, held := none, ready := ring.ready.tail }
    | (_, queue) =>
      { ring with
        queue := queue
        held := none
        faults := .refused :: ring.faults }

def pesStep (endian : Endian) (channelId pesIndex : Nat) (ring : PesRing α) : PesEvent α → PesRing α
  | .getFree => ring.getFree
  | .fill content => ring.fill content
  | .setReady sampleSize => ring.setReady endian sampleSize
  | .getReady => ring.getReady channelId pesIndex
  | .setFree => ring.setFree channelId pesIndex

def PesRing.waiting (ring : PesRing α) : List (PesSample α) :=
  match ring.held with
  | none => ring.ready
  | some _ => ring.ready.tail

/-- The producer never has a sample that is ready, and the consumer obtains what
was made ready, in order. -/
structure PesSafe (ring : PesRing α) : Prop where
  free :
    ∀ address,
      ring.free = some address →
        (∃ idx < ring.queue.validPesSampleCount, address = ring.queue.sampleAt idx) ∧
          ∀ sample ∈ ring.ready, sample.address ≠ address
  inOrder :
    ring.published =
      ring.obtained ++ ring.waiting.map (fun sample => (sample.content, sample.sampleSize))
  faultless : ring.faults = []

/-- The ring must not be full when a free sample is taken or a ready one is
looked for; a sample that is made ready must have an entry in
`pOutputPesValidSize`, and `SET32` must not change what it stores. -/
def PesAllowed (endian : Endian) (ring : PesRing α) : PesEvent α → Prop
  | .getFree => ring.ready.length < ring.queue.validPesSampleCount
  | .fill _ => True
  | .setReady sampleSize =>
    ring.free.isSome →
      ring.queue.pesBufferWriteIdx < maxPesSampleCount ∧
        set32 endian sampleSize = sampleSize ∧
          set32 endian (ring.queue.nextIdx ring.queue.pesBufferWriteIdx) =
            ring.queue.nextIdx ring.queue.pesBufferWriteIdx
  | .getReady =>
    ring.held = none → ring.ready.length < ring.queue.validPesSampleCount
  | .setFree => True

instance PesAllowed.decidable (endian : Endian) (ring : PesRing α) :
    ∀ event : PesEvent α, Decidable (PesAllowed endian ring event)
  | .getFree => inferInstanceAs (Decidable (_ < _))
  | .fill _ => inferInstanceAs (Decidable True)
  | .setReady _ => inferInstanceAs (Decidable (_ → _))
  | .getReady => inferInstanceAs (Decidable (_ → _))
  | .setFree => inferInstanceAs (Decidable True)

structure QueueDataBlock.BufferFits (queue : QueueDataBlock) : Prop where
  address : 0 < queue.pOutPesBuffer
  size : 0 < queue.pesOutSampleSize
  inside : queue.pOutPesBuffer + queue.validPesSampleCount * queue.pesOutSampleSize ≤ 2 ^ 32

/-- A `PidInfo` whose queue is still empty. -/
structure PidInfo.Fresh (info : PidInfo) : Prop where
  sizes : info.pOutputPesValidSize.length = maxPesSampleCount
  writeIdx : info.pesBufferWriteIdx = 0
  readIdx : info.pesBufferReadIdx = 0

namespace QueueDataBlock.BufferFits

variable {queue : QueueDataBlock} {idx other : Nat}

section

variable (fits : queue.BufferFits) (within : idx < queue.validPesSampleCount)

include fits within

theorem sampleAt_eq : queue.sampleAt idx = queue.pOutPesBuffer + idx * queue.pesOutSampleSize := by
  have last :
      (idx + 1) * queue.pesOutSampleSize ≤ queue.validPesSampleCount * queue.pesOutSampleSize :=
    Nat.mul_le_mul_right _ within
  have size := fits.size
  have inside := fits.inside
  rw [Nat.succ_mul] at last
  exact Nat.mod_eq_of_lt (by omega)

theorem sampleAt_pos : queue.sampleAt idx ≠ 0 := by
  have address := fits.address
  rw [fits.sampleAt_eq within]
  omega

theorem sampleAt_ne (otherWithin : other < queue.validPesSampleCount) (different : idx ≠ other) :
    queue.sampleAt idx ≠ queue.sampleAt other := by
  rw [fits.sampleAt_eq within, fits.sampleAt_eq otherWithin]
  intro same
  exact different (Nat.eq_of_mul_eq_mul_right fits.size (Nat.add_left_cancel same))

theorem nextIdx_eq : queue.nextIdx idx = wrap queue.validPesSampleCount (idx + 1) := by
  have count :
      queue.validPesSampleCount * 1 ≤ queue.validPesSampleCount * queue.pesOutSampleSize :=
    Nat.mul_le_mul_left _ fits.size
  have address := fits.address
  have inside := fits.inside
  unfold QueueDataBlock.nextIdx wrap
  rw [Nat.mod_eq_of_lt (by omega)]
  split <;> split <;> omega

end

end QueueDataBlock.BufferFits

/-- The sample stands at the index `cell` of the ring. -/
structure PesHolds (queue : QueueDataBlock) (memory : Nat → α) (cell : Nat)
    (sample : PesSample α) : Prop where
  address : sample.address = queue.sampleAt cell
  size : queue.ptPidInfo.pOutputPesValidSize[cell]? = some sample.sampleSize
  content : memory (queue.sampleAt cell) = sample.content

structure PesInv (ring : PesRing α) : Prop where
  fits : ring.queue.BufferFits
  sizes : ring.queue.ptPidInfo.pOutputPesValidSize.length = maxPesSampleCount
  readInside : ring.queue.pesBufferReadIdx < ring.queue.validPesSampleCount
  count : ring.ready.length ≤ ring.queue.validPesSampleCount
  writeIdx :
    ring.queue.pesBufferWriteIdx =
      wrap ring.queue.validPesSampleCount (ring.queue.pesBufferReadIdx + ring.ready.length)
  shared : ring.queue.ptPidInfo.pesBufferWriteIdx = ring.queue.pesBufferWriteIdx
  stored :
    RingHolds (PesHolds ring.queue ring.memory)
      ring.queue.validPesSampleCount ring.queue.pesBufferReadIdx ring.ready
  free :
    ∀ address,
      ring.free = some address →
        address = ring.queue.sampleAt ring.queue.pesBufferWriteIdx ∧
          ring.ready.length < ring.queue.validPesSampleCount
  held :
    ∀ address,
      ring.held = some address →
        address = ring.queue.sampleAt ring.queue.pesBufferReadIdx ∧ ring.ready ≠ []
  inOrder :
    ring.published =
      ring.obtained ++ ring.waiting.map (fun sample => (sample.content, sample.sampleSize))
  faultless : ring.faults = []

namespace PesInv

variable {ring : PesRing α}

theorem writeInside (inv : PesInv ring) :
    ring.queue.pesBufferWriteIdx < ring.queue.validPesSampleCount := by
  rw [inv.writeIdx]
  exact wrap_lt inv.readInside inv.count

theorem safe (inv : PesInv ring) : PesSafe ring where
  free := by
    intro address given
    obtain ⟨here, notFull⟩ := inv.free address given
    refine ⟨⟨_, inv.writeInside, here⟩, fun sample member => ?_⟩
    obtain ⟨index, bound, found⟩ := List.getElem_of_mem member
    have stands := inv.stored index sample (List.getElem?_eq_some_iff.mpr ⟨bound, found⟩)
    rw [here, stands.address]
    refine inv.fits.sampleAt_ne (wrap_lt inv.readInside (by omega)) inv.writeInside ?_
    rw [inv.writeIdx]
    exact wrap_ne bound notFull
  inOrder := inv.inOrder
  faultless := inv.faultless

theorem getFree (inv : PesInv ring) (notFull : ring.ready.length < ring.queue.validPesSampleCount) :
    PesInv ring.getFree :=
  { inv with
    free := by
      intro address given
      exact ⟨(Option.some.inj given).symm, notFull⟩ }

theorem fill (inv : PesInv ring) (content : α) : PesInv (ring.fill content) := by
  cases given : ring.free with
  | none =>
    rw [PesRing.fill, given]
    exact inv
  | some address =>
    obtain ⟨here, notFull⟩ := inv.free address given
    have filled :
        ring.fill content =
          { ring with
            memory := Function.update ring.memory address content } := by
      rw [PesRing.fill, given]
    rw [filled]
    refine { inv with stored := ?_ }
    refine inv.stored.frame inv.readInside notFull ?_
    intro cell sample inside apart stands
    rw [← inv.writeIdx] at apart
    refine ⟨stands.address, stands.size, ?_⟩
    have elsewhere : ring.queue.sampleAt cell ≠ address := by
      rw [here]
      exact inv.fits.sampleAt_ne inside inv.writeInside apart
    change Function.update ring.memory address content _ = _
    rw [Function.update_of_ne elsewhere]
    exact stands.content

def pushed (queue : QueueDataBlock) (sampleSize : Nat) : QueueDataBlock :=
  { queue with
    pesBufferWriteIdx := wrap queue.validPesSampleCount (queue.pesBufferWriteIdx + 1)
    ptPidInfo :=
      { queue.ptPidInfo with
        pOutputPesValidSize :=
          queue.ptPidInfo.pOutputPesValidSize.set queue.pesBufferWriteIdx sampleSize
        pesBufferWriteIdx := wrap queue.validPesSampleCount (queue.pesBufferWriteIdx + 1) } }

variable {endian : Endian}

theorem setReady_eq (inv : PesInv ring) {address : Nat}
    {sampleSize : Nat} (given : ring.free = some address)
    (allowed : PesAllowed endian ring (.setReady sampleSize)) :
    ring.setReady endian sampleSize =
      { ring with
        queue := pushed ring.queue sampleSize
        free := none
        ready := ring.ready ++ [⟨address, ring.memory address, sampleSize⟩]
        published := ring.published ++ [(ring.memory address, sampleSize)] } := by
  obtain ⟨within, sizeKept, idxKept⟩ := allowed (by rw [given, Option.isSome_some])
  have here := (inv.free address given).1
  have writeInside := inv.writeInside
  have accepted :
      pesQmSetReady endian (some ring.queue) address sampleSize =
        some (.noError, some (pushed ring.queue sampleSize)) := by
    rw [pesQmSetReady, here, if_neg (inv.fits.sampleAt_pos writeInside),
      if_pos rfl, if_pos (inv.sizes ▸ within), sizeKept, idxKept,
      inv.fits.nextIdx_eq writeInside]
    rfl
  rw [PesRing.setReady, given]
  dsimp only
  rw [accepted]

theorem setReady (inv : PesInv ring) {sampleSize : Nat}
    (allowed : PesAllowed endian ring (.setReady sampleSize)) :
    PesInv (ring.setReady endian sampleSize) := by
  cases given : ring.free with
  | none =>
    rw [PesRing.setReady, given]
    exact inv
  | some address =>
    obtain ⟨here, notFull⟩ := inv.free address given
    have within := (allowed (by rw [given, Option.isSome_some])).1
    have readInside := inv.readInside
    have nextWrite :
        wrap ring.queue.validPesSampleCount (ring.queue.pesBufferWriteIdx + 1) =
          wrap ring.queue.validPesSampleCount
            (ring.queue.pesBufferReadIdx + (ring.ready.length + 1)) := by
      rw [inv.writeIdx]
      unfold wrap
      split <;> split <;> split <;> omega
    have kept :
        RingHolds (PesHolds (pushed ring.queue sampleSize) ring.memory)
          ring.queue.validPesSampleCount ring.queue.pesBufferReadIdx
          ring.ready := by
      refine inv.stored.frame readInside notFull ?_
      intro cell sample inside apart stands
      rw [← inv.writeIdx] at apart
      refine ⟨stands.address, ?_, stands.content⟩
      exact (List.getElem?_set_ne (Ne.symm apart)).trans stands.size
    have waiting :
        PesRing.waiting
            { ring with
              ready := ring.ready ++ [⟨address, ring.memory address, sampleSize⟩] } =
          ring.waiting ++ [⟨address, ring.memory address, sampleSize⟩] := by
      unfold PesRing.waiting
      cases held : ring.held with
      | none => rfl
      | some other =>
        exact List.tail_append_of_ne_nil (inv.held other held).2
    rw [inv.setReady_eq given allowed]
    exact
      { fits := ⟨inv.fits.address, inv.fits.size, inv.fits.inside⟩
        sizes := (List.length_set ..).trans inv.sizes
        readInside := readInside
        count := by
          rw [List.length_append]
          exact notFull
        writeIdx := by
          rw [List.length_append]
          exact nextWrite
        shared := rfl
        stored := by
          refine kept.append ?_
          rw [← inv.writeIdx]
          refine ⟨here, ?_, congrArg ring.memory here.symm⟩
          exact List.getElem?_set_self (by rw [inv.sizes]; exact within)
        free := by
          intro other none_
          cases none_
        held := by
          intro other holds
          obtain ⟨there, some_⟩ := inv.held other holds
          exact ⟨there, List.append_ne_nil_of_left_ne_nil some_ _⟩
        inOrder := by
          change ring.published ++ _ = ring.obtained ++ List.map _ _
          rw [inv.inOrder, List.append_assoc]
          congr 1
          have shown := congrArg
            (List.map fun sample => (sample.content, sample.sampleSize))
            waiting
          rw [List.map_append] at shown
          exact shown.symm
        faultless := inv.faultless }

variable {channelId pesIndex : Nat}

section

variable (inv : PesInv ring)

include inv

theorem readIdx_eq_iff (notFull : ring.ready.length < ring.queue.validPesSampleCount) :
    ring.queue.pesBufferReadIdx = ring.queue.pesBufferWriteIdx ↔ ring.ready = [] := by
  have readInside := inv.readInside
  rw [inv.writeIdx, ← List.length_eq_zero_iff]
  unfold wrap
  split <;> omega

theorem fetchWriteIdx_eq : ring.queue.fetchWriteIdx = ring.queue := by
  rw [QueueDataBlock.fetchWriteIdx, inv.shared]

section

variable (channel : channelId < maxChannelCount) (pesPid : pesIndex < maxPidCountPerChannel)

include channel pesPid

theorem getReady (allowed : PesAllowed endian ring .getReady) :
    PesInv (ring.getReady channelId pesIndex) := by
  cases holds : ring.held with
  | some address =>
    rw [PesRing.getReady, holds]
    exact inv
  | none =>
    have notFull := allowed holds
    have inOrder := inv.inOrder
    rw [PesRing.waiting, holds] at inOrder
    cases waits : ring.ready with
    | nil =>
      have none_ :
          pesQmGetReady channelId pesIndex ring.queue = some (.isEmpty, ring.queue, none) := by
        rw [pesQmGetReady, if_neg (by omega), inv.fetchWriteIdx_eq,
          if_pos ((inv.readIdx_eq_iff notFull).mpr waits)]
      rw [PesRing.getReady, holds, none_]
      dsimp only
      rw [if_pos waits, ← holds]
      exact inv
    | cons first rest =>
      have stands :
          PesHolds ring.queue ring.memory ring.queue.pesBufferReadIdx first := by
        have stored := inv.stored
        rw [waits] at stored
        exact stored.head inv.readInside
      have found :
          pesQmGetReady channelId pesIndex ring.queue =
            some
              (.noError, ring.queue,
                some (ring.queue.sampleAt ring.queue.pesBufferReadIdx, first.sampleSize)) := by
        have some_ : ring.ready ≠ [] := by
          rw [waits]
          exact List.cons_ne_nil first rest
        rw [pesQmGetReady, if_neg (by omega), inv.fetchWriteIdx_eq,
          if_neg ((inv.readIdx_eq_iff notFull).not.mpr some_),
          stands.size]
        rfl
      rw [PesRing.getReady, holds, found]
      exact
        { inv with
          held := by
            intro address given
            refine ⟨(Option.some.inj given).symm, ?_⟩
            rw [waits]
            exact List.cons_ne_nil first rest
          inOrder := by
            change ring.published = (ring.obtained ++ [(_, _)]) ++ List.map _ ring.ready.tail
            rw [inOrder]
            dsimp only
            rw [waits, stands.content, List.append_assoc]
            rfl }

theorem setFree_eq {address : Nat} (holds : ring.held = some address) :
    ring.setFree channelId pesIndex =
      { ring with
        queue :=
          { ring.queue with
            pesBufferReadIdx :=
              wrap ring.queue.validPesSampleCount (ring.queue.pesBufferReadIdx + 1)
            ptPidInfo :=
              { ring.queue.ptPidInfo with
                pesBufferReadIdx :=
                  wrap ring.queue.validPesSampleCount (ring.queue.pesBufferReadIdx + 1) } }
        held := none
        ready := ring.ready.tail } := by
  have here := (inv.held address holds).1
  have present : address ≠ 0 := by
    rw [here]
    exact inv.fits.sampleAt_pos inv.readInside
  rw [PesRing.setFree, holds]
  dsimp only
  rw [pesQmSetFree, if_neg (by omega), if_pos here, inv.fits.nextIdx_eq inv.readInside]

theorem setFree : PesInv (ring.setFree channelId pesIndex) := by
  cases holds : ring.held with
  | none =>
    rw [PesRing.setFree, holds]
    exact inv
  | some address =>
    obtain ⟨first, rest, waits⟩ := List.exists_cons_of_ne_nil (inv.held address holds).2
    have count := inv.count
    have writeIdx := inv.writeIdx
    have stored := inv.stored
    have inOrder := inv.inOrder
    rw [PesRing.waiting, holds] at inOrder
    rw [waits] at count writeIdx stored
    rw [inv.setFree_eq channel pesPid holds]
    have shorter : ring.ready.tail = rest := by rw [waits, List.tail_cons]
    rw [List.length_cons] at count writeIdx
    exact
      { inv with
        fits := ⟨inv.fits.address, inv.fits.size, inv.fits.inside⟩
        readInside := wrap_lt inv.readInside (by omega)
        count := by
          rw [shorter]
          exact Nat.le_of_succ_le count
        writeIdx := by
          change ring.queue.pesBufferWriteIdx = _
          rw [shorter, wrap_wrap inv.readInside count]
          exact writeIdx
        stored := by
          rw [shorter]
          intro index sample found
          obtain ⟨address_, size, content⟩ := stored.tail inv.readInside count index sample found
          exact ⟨address_, size, content⟩
        free := by
          intro other given
          obtain ⟨there, notFull⟩ := inv.free other given
          refine ⟨there, ?_⟩
          rw [shorter]
          exact Nat.lt_of_succ_le count
        held := by
          intro other none_
          cases none_
        inOrder := inOrder }

theorem step {event : PesEvent α} (allowed : PesAllowed endian ring event) :
    PesInv (pesStep endian channelId pesIndex ring event) := by
  cases event with
  | getFree => exact inv.getFree allowed
  | fill content => exact inv.fill content
  | setReady sampleSize => exact inv.setReady allowed
  | getReady => exact inv.getReady channel pesPid allowed
  | setFree => exact inv.setFree channel pesPid

end

end

end PesInv

/-! ## Runs -/

variable {queue : QueueDataBlock}

theorem PesInv.start (fits : queue.BufferFits) (some_ : 0 < queue.validPesSampleCount)
    (sizes : queue.ptPidInfo.pOutputPesValidSize.length = maxPesSampleCount)
    (writeIdx : queue.pesBufferWriteIdx = 0) (readIdx : queue.pesBufferReadIdx = 0)
    (shared : queue.ptPidInfo.pesBufferWriteIdx = 0) (memory : Nat → α) :
    PesInv (PesRing.start queue memory) where
  fits := fits
  sizes := sizes
  readInside := readIdx ▸ some_
  count := Nat.zero_le _
  writeIdx := by
    change queue.pesBufferWriteIdx = wrap queue.validPesSampleCount (queue.pesBufferReadIdx + 0)
    rw [writeIdx, readIdx, wrap, if_pos some_]
  shared := shared.trans writeIdx.symm
  stored := .nil
  free := by
    intro address none_
    cases none_
  held := by
    intro address none_
    cases none_
  inOrder := rfl
  faultless := rfl

theorem PesSafe.start (queue : QueueDataBlock) (memory : Nat → α) :
    PesSafe (PesRing.start queue memory) where
  free := by
    intro address none_
    cases none_
  inOrder := rfl
  faultless := rfl

theorem pesStep_noSample {endian : Endian} {channelId pesIndex : Nat} {memory : Nat → α}
    (noSample : queue.validPesSampleCount = 0) {event : PesEvent α}
    (allowed : PesAllowed endian (PesRing.start queue memory) event) :
    pesStep endian channelId pesIndex (PesRing.start queue memory) event =
      PesRing.start queue memory := by
  cases event with
  | getFree =>
    change 0 < queue.validPesSampleCount at allowed
    omega
  | fill content | setReady sampleSize | setFree => rfl
  | getReady =>
    have some_ : 0 < queue.validPesSampleCount := allowed rfl
    omega

/-- A queue that was created over a buffer and an empty `PidInfo`. -/
structure PesCreated (endian : Endian) (channelId pesIndex : Nat)
    (queue : QueueDataBlock) : Prop where
  created :
    ∃ info pRiscBaseAddr, PidInfo.Fresh info ∧
      pesQmCreateQueue endian channelId pesIndex (some info) pRiscBaseAddr = some queue
  fits : queue.BufferFits

theorem PesCreated.fresh {endian : Endian} {channelId pesIndex : Nat}
    (created : PesCreated endian channelId pesIndex queue) :
    channelId < maxChannelCount ∧ pesIndex < maxPidCountPerChannel ∧
      queue.ptPidInfo.Fresh ∧ queue.pesBufferWriteIdx = 0 ∧ queue.pesBufferReadIdx = 0 := by
  obtain ⟨info, pRiscBaseAddr, fresh, creates⟩ := created.created
  rw [pesQmCreateQueue] at creates
  have zero : get32 endian 0 = 0 := by cases endian <;> rfl
  split at creates
  · next inside =>
      cases creates
      refine ⟨inside.1, inside.2, fresh, ?_, ?_⟩
      · exact (congrArg (get32 endian) fresh.writeIdx).trans zero
      · exact (congrArg (get32 endian) fresh.readIdx).trans zero
  · cases creates

/-- Where the ring is never found full, every sample has a size entry and
`SET32` keeps what it stores, the producer and the consumer never meet and the
consumer obtains what was made ready, in order. -/
theorem pesQm_safe {endian : Endian} {channelId pesIndex : Nat} {queue : QueueDataBlock}
    (created : PesCreated endian channelId pesIndex queue)
    (memory : Nat → α) (events : List (PesEvent α))
    (allowed :
      AllowedAlong (PesAllowed endian) (pesStep endian channelId pesIndex)
        (PesRing.start queue memory) events) :
    PesSafe (events.foldl (pesStep endian channelId pesIndex) (PesRing.start queue memory)) := by
  obtain ⟨channel, pesPid, fresh, writeIdx, readIdx⟩ := created.fresh
  have run := Run.guarded_foldl allowed
  rcases Nat.eq_zero_or_pos queue.validPesSampleCount with noSample | some_
  · have stays :
        ∀ before event after,
          PesRing.start queue memory = before →
            Guarded (PesAllowed endian)
              (Graph (pesStep endian channelId pesIndex)) before event after →
              PesRing.start queue memory = after := by
      intro before event after here step
      subst here
      exact (step.2.trans (pesStep_noSample noSample step.1)).symm
    rw [← Run.invariant rfl stays run]
    exact PesSafe.start queue memory
  · have initial :=
      PesInv.start created.fits some_ fresh.sizes writeIdx readIdx fresh.writeIdx memory
    refine (Run.invariant initial ?_ run).safe
    intro before event after inv step
    rw [step.2]
    exact inv.step channel pesPid step.1

def twoSampleInfo (endian : Endian) : PidInfo where
  pid := set32 endian 0x100
  pOutPesBuffer := set32 endian 0x1000
  pesOutSampleSize := set32 endian 16
  validPesSampleCount := set32 endian 2
  pOutputPesValidSize := List.replicate maxPesSampleCount 0
  pesBufferWriteIdx := 0
  pesBufferReadIdx := 0

def twoSampleQueue (endian : Endian) : QueueDataBlock :=
  ⟨twoSampleInfo endian, 0x100, 0x1000, 16, 2, 0, 0⟩

def twoSampleRun (endian : Endian) (events : List (PesEvent Nat)) : PesRing Nat :=
  events.foldl (pesStep endian 0 0) (PesRing.start (twoSampleQueue endian) fun _ => 0)

theorem twoSampleQueue_created (endian : Endian) :
    PesCreated endian 0 0 (twoSampleQueue endian) where
  created := by
    refine ⟨twoSampleInfo endian, 0, ⟨List.length_replicate .., rfl, rfl⟩, ?_⟩
    cases endian <;> rfl
  fits := by constructor <;> simp [twoSampleQueue]

/-- A sample is released before the next one is made ready. -/
theorem pesQm_safe_twice :
    PesSafe
      (twoSampleRun .little [.getFree, .fill 7, .setReady 9, .getReady, .getFree, .setFree]) :=
  pesQm_safe (twoSampleQueue_created .little) (fun _ => 0)
    [.getFree, .fill 7, .setReady 9, .getReady, .getFree, .setFree] (by decide)

/-- Once both samples are ready, the producer is given one of them, and the
consumer finds none.  Where `SET32` swaps bytes the first sample already comes
with a wrong size. -/
theorem pesQm_unsafe :
    PesCreated .little 0 0 (twoSampleQueue .little) ∧
      ¬ PesSafe
        (twoSampleRun .little
          [.getFree, .fill 7, .setReady 9, .getFree, .fill 8, .setReady 9, .getFree]) ∧
      ¬ PesSafe
        (twoSampleRun .little
          [.getFree, .fill 7, .setReady 9, .getFree, .fill 8, .setReady 9, .getReady]) ∧
      PesCreated .big 0 0 (twoSampleQueue .big) ∧
        ¬ PesSafe (twoSampleRun .big [.getFree, .fill 7, .setReady 9, .getReady]) := by
  refine ⟨twoSampleQueue_created .little, ?_, ?_, twoSampleQueue_created .big, ?_⟩
  · intro safe
    have apart := (safe.free 0x1000 rfl).2
    revert apart
    decide
  · intro safe
    have faultless := safe.faultless
    revert faultless
    decide
  · intro safe
    have inOrder := safe.inOrder
    revert inOrder
    decide

end

end IteSdk.TsDemuxer
