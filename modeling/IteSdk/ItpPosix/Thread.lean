import IteSdk.ItpPosix.Cond
import IteSdk.Lib.Transition

/-!
# The life of a thread

`itpPthreadCreate`, the thread itself, and one `pthread_join` or `pthread_detach` use
the record of the thread without a lock.  Each access to the record, each kernel call
and each critical section is a step.  `fault` is set where a step uses the record or
the semaphore when it is not there.
-/

namespace IteSdk.ItpPosix

section

/-- `itpThreadKey`. -/
structure ThreadKey where
  used : Bool
  dtor : BitVec 32
  value : BitVec 32
  deriving DecidableEq

/-- `k->dtor && k->value`. -/
def ThreadKey.calls (key : ThreadKey) : Bool := key.dtor ≠ 0 ∧ key.value ≠ 0

def pthreadKeysMax : Nat := 8

/-- `itpThread`; `joinable` is `detachstate`, and `xSemaphore` that there is one. -/
structure ItpThread where
  xHandle : Nat
  xSemaphore : Bool
  startRoutine : BitVec 32
  arg : BitVec 32
  valuePtr : BitVec 32
  joinable : Bool
  keys : List ThreadKey
  deriving DecidableEq

/-- The handle that `xTaskCreate` gives to the thread. -/
def threadHandle : Nat := 1

inductive NativeSemaphore
  | null
  | live (tokens : Nat)
  | deleted
  deriving DecidableEq

/-- Where `itpPthreadCreate` is. -/
inductive CreatePc
  | start
  | makeSemaphore
  | makeTask
  | publish
  | returned (result : Errno)
  deriving DecidableEq

/-- Where the thread is: in `vTaskCode`, in its `start_routine`, or at its end, where
`exits` tells `pthread_exit` from the return. -/
inductive ThreadPc
  | none
  | setHandle
  | setTag
  | start
  | routine
  | setValue (value : BitVec 32) (exits : Bool)
  | readDetach (exits : Bool)
  | readSemaphore
  | give (found : Bool)
  | sleeping
  | destroy (exits : Bool) (key : Nat)
  | readHandle
  | free (xHandle : Nat)
  | delete (xHandle : Nat)
  | deleted
  deriving DecidableEq

/-- Where `pthread_join`, with whether it was given a `value_ptr`, or
`pthread_detach` is. -/
inductive OtherPc
  | idle
  | joinTag (wants : Bool)
  | joinRead (wants : Bool)
  | joinTake (wants found : Bool)
  | joinDestroy (wants : Bool) (key : Nat)
  | joinValue (wants : Bool)
  | joinReread
  | joinDelete (found : Bool)
  | joinHandle
  | joinFree (xHandle : Nat)
  | joinKill (xHandle : Nat)
  | joined
  | detachTag
  | detachSet
  | detachTest
  | detachReread
  | detachDelete (found : Bool)
  | detachClear
  | detached
  deriving DecidableEq

/-- `joinable`, `routine` and `arg` are what `itpPthreadCreate` is given.  `result`
and `finalKeys` are what the thread has ended with, `joined` what the join has
returned, and `destructed` the calls of destructors. -/
structure ThreadLife where
  joinable : Bool
  startRoutine : BitVec 32
  arg : BitVec 32
  record : Option ItpThread
  semaphore : NativeSemaphore
  creator : CreatePc
  thread : ThreadPc
  other : OtherPc
  fault : Bool
  allocs : Nat
  frees : Nat
  makes : Nat
  deletes : Nat
  started : Option (BitVec 32 × BitVec 32)
  result : Option (BitVec 32)
  finalKeys : List ThreadKey
  joined : Option (BitVec 32)
  destructed : List (BitVec 32 × BitVec 32)
  endSteps : Nat
  deriving DecidableEq

def ThreadLife.init (joinable : Bool) (startRoutine arg : BitVec 32) : ThreadLife :=
  { joinable := joinable
    startRoutine := startRoutine
    arg := arg
    record := none
    semaphore := .null
    creator := .start
    thread := .none
    other := .idle
    fault := false
    allocs := 0
    frees := 0
    makes := 0
    deletes := 0
    started := none
    result := none
    finalKeys := []
    joined := none
    destructed := []
    endSteps := 0 }

namespace ThreadLife

/-- A use of the record `t`. -/
def access (state : ThreadLife) (use : ItpThread → ThreadLife) : ThreadLife :=
  match state.record with
  | some record => use record
  | none => { state with fault := true }

/-- `vPortFree(t)`. -/
def freeRecord (state : ThreadLife) : ThreadLife :=
  state.access fun _ => { state with record := none, frees := state.frees + 1 }

/-- A use of the semaphore through a pointer that was found or was null. -/
def useSemaphore (state : ThreadLife) (found : Bool) (use : Nat → ThreadLife) : ThreadLife :=
  match found, state.semaphore with
  | true, .live tokens => use tokens
  | _, _ => { state with fault := true }

/-- `vSemaphoreDelete(t->xSemaphore)`. -/
def deleteSemaphore (state : ThreadLife) (found : Bool) : ThreadLife :=
  state.useSemaphore found fun _ =>
    { state with semaphore := .deleted, deletes := state.deletes + 1 }

/-- `vTaskDelete(xHandle)`. -/
def deleteTask (state : ThreadLife) (xHandle : Nat) : ThreadLife :=
  if xHandle = threadHandle then { state with thread := .deleted }
  else { state with fault := true }

/-- `if (k->dtor && k->value) k->dtor(k->value)`. -/
def destroyKey (state : ThreadLife) (keys : List ThreadKey) (key : Nat) : ThreadLife :=
  match keys[key]? with
  | some found =>
    if found.calls then
      { state with destructed := state.destructed ++ [(found.dtor, found.value)] }
    else state
  | none => state

end ThreadLife

def freshKeys : List ThreadKey := List.replicate pthreadKeysMax ⟨false, 0, 0⟩

/-- A step of `itpPthreadCreate`; `ok` is that the kernel does what it asks for. -/
def itpPthreadCreate (state : ThreadLife) (ok : Bool) : ThreadLife :=
  match state.creator with
  | .returned _ => state
  | .start =>
    if ok then
      { state with
        record :=
          some
            { xHandle := 0
              xSemaphore := false
              startRoutine := state.startRoutine
              arg := state.arg
              valuePtr := 0
              joinable := state.joinable
              keys := freshKeys }
        allocs := state.allocs + 1
        creator := .makeSemaphore }
    else { state with creator := .returned .enomem }
  | .makeSemaphore =>
    state.access fun record =>
      if record.joinable then
        if ok then
          { state with
            record := some { record with xSemaphore := true }
            semaphore := .live 0
            makes := state.makes + 1
            creator := .makeTask }
        else { state.freeRecord with creator := .returned .enomem }
      else
        { state with
          record := some { record with xSemaphore := false }, creator := .makeTask }
  | .makeTask =>
    if ok then { state with thread := .setHandle, creator := .publish }
    else
      state.access fun record =>
        let state := if record.xSemaphore then state.deleteSemaphore true else state
        { state.freeRecord with creator := .returned .eagain }
  | .publish =>
    state.access fun record =>
      { state with
        record := some { record with xHandle := threadHandle }
        creator := .returned .ok }

/-- A step of the thread outside its `start_routine`. -/
def vTaskCode (state : ThreadLife) : ThreadLife :=
  match state.thread with
  | .none | .routine | .sleeping | .deleted => state
  | .setHandle =>
    state.access fun record =>
      { state with
        record := some { record with xHandle := threadHandle }, thread := .setTag }
  | .setTag => { state with thread := .start }
  | .start =>
    state.access fun record =>
      { state with
        started := some (record.startRoutine, record.arg), thread := .routine }
  | .setValue value exits =>
    state.access fun record =>
      { state with
        record := some { record with valuePtr := value }
        result := some value
        finalKeys := record.keys
        thread := .readDetach exits }
  | .readDetach exits =>
    state.access fun record =>
      { state with
        thread := if record.joinable then .readSemaphore else .destroy exits 0 }
  | .readSemaphore =>
    state.access fun record => { state with thread := .give record.xSemaphore }
  | .give found =>
    state.useSemaphore found fun _ =>
      { state with semaphore := .live 1, thread := .sleeping }
  | .destroy exits key =>
    if key < pthreadKeysMax then
      state.access fun record =>
        { state.destroyKey record.keys key with thread := .destroy exits (key + 1) }
    else
      { state with thread := if exits then .readHandle else .free threadHandle }
  | .readHandle =>
    state.access fun record => { state with thread := .free record.xHandle }
  | .free xHandle => { state.freeRecord with thread := .delete xHandle }
  | .delete xHandle => state.deleteTask xHandle

/-- A step of `pthread_join`. -/
def pthreadJoin (state : ThreadLife) : ThreadLife :=
  match state.other with
  | .joinTag wants => { state with other := .joinRead wants }
  | .joinRead wants =>
    state.access fun record =>
      { state with other := .joinTake wants record.xSemaphore }
  | .joinTake wants found =>
    state.useSemaphore found fun tokens =>
      if tokens = 0 then state
      else
        { state with semaphore := .live (tokens - 1), other := .joinDestroy wants 0 }
  | .joinDestroy wants key =>
    if key < pthreadKeysMax then
      state.access fun record =>
        { state.destroyKey record.keys key with
          other := .joinDestroy wants (key + 1) }
    else { state with other := .joinValue wants }
  | .joinValue wants =>
    if wants then
      state.access fun record =>
        { state with joined := some record.valuePtr, other := .joinReread }
    else { state with other := .joinReread }
  | .joinReread =>
    state.access fun record => { state with other := .joinDelete record.xSemaphore }
  | .joinDelete found => { state.deleteSemaphore found with other := .joinHandle }
  | .joinHandle =>
    state.access fun record => { state with other := .joinFree record.xHandle }
  | .joinFree xHandle => { state.freeRecord with other := .joinKill xHandle }
  | .joinKill xHandle => { state.deleteTask xHandle with other := .joined }
  | _ => state

/-- A step of `pthread_detach`. -/
def pthreadDetach (state : ThreadLife) : ThreadLife :=
  match state.other with
  | .detachTag => { state with other := .detachSet }
  | .detachSet =>
    state.access fun record =>
      { state with
        record := some { record with joinable := false }, other := .detachTest }
  | .detachTest =>
    state.access fun record =>
      { state with other := if record.xSemaphore then .detachReread else .detached }
  | .detachReread =>
    state.access fun record => { state with other := .detachDelete record.xSemaphore }
  | .detachDelete found => { state.deleteSemaphore found with other := .detachClear }
  | .detachClear =>
    state.access fun record =>
      { state with
        record := some { record with xSemaphore := false }, other := .detached }
  | _ => state

/-- `pthread_key_create`: the first key that is not used. -/
def pthreadKeyCreate (dtor : BitVec 32) : List ThreadKey → List ThreadKey
  | [] => []
  | key :: keys =>
    if key.used then key :: pthreadKeyCreate dtor keys else ⟨true, dtor, 0⟩ :: keys

/-- `pthread_key_delete` and `pthread_setspecific`, of a key that is used. -/
def setKey (key : Nat) (change : ThreadKey → ThreadKey) (keys : List ThreadKey) : List ThreadKey :=
  match keys[key]? with
  | some found => if found.used then keys.set key (change found) else keys
  | none => keys

/-- The steps of the three, the calls of the other one, and what the `start_routine`
does: the functions on keys, and its end. -/
inductive ThreadEvent
  | create (ok : Bool)
  | thread
  | keyCreate (dtor : BitVec 32)
  | keyDelete (key : Nat)
  | setSpecific (key : Nat) (value : BitVec 32)
  | finish (value : BitVec 32) (exits : Bool)
  | callJoin (wants : Bool)
  | callDetach
  | other
  deriving DecidableEq

/-- The `start_routine` changes the keys of its thread. -/
def ThreadLife.routineKeys (state : ThreadLife)
    (change : List ThreadKey → List ThreadKey) : ThreadLife :=
  match state.thread with
  | .routine =>
    state.access fun record =>
      { state with record := some { record with keys := change record.keys } }
  | _ => state

def ThreadPc.ending : ThreadPc → Bool
  | .none | .setHandle | .setTag | .start | .routine | .sleeping | .deleted => false
  | _ => true

/-- A call of the other one, which has the handle when `itpPthreadCreate` has returned
it. -/
def ThreadLife.callOther (state : ThreadLife) (pc : OtherPc) : ThreadLife :=
  if state.creator = .returned .ok ∧ state.other = .idle then { state with other := pc }
  else state

def threadStep (state : ThreadLife) : ThreadEvent → ThreadLife
  | .create ok => itpPthreadCreate state ok
  | .thread =>
    { vTaskCode state with
      endSteps := state.endSteps + (if state.thread.ending then 1 else 0) }
  | .keyCreate dtor => state.routineKeys (pthreadKeyCreate dtor)
  | .keyDelete key =>
    state.routineKeys (setKey key fun found => { found with used := false, value := 0 })
  | .setSpecific key value =>
    state.routineKeys (setKey key fun found => { found with value := value })
  | .finish value exits =>
    match state.thread with
    | .routine => { state with thread := .setValue value exits }
    | _ => state
  | .callJoin wants => state.callOther (.joinTag wants)
  | .callDetach => state.callOther .detachTag
  | .other =>
    match state.other with
    | .detachTag | .detachSet | .detachTest | .detachReread | .detachDelete _
    | .detachClear => pthreadDetach state
    | _ => pthreadJoin state

end

/-!
# Who has the record of a thread

The record has one owner after the other: the creator, the thread that ends detached
or waits to be joined, and the one that joins it.  That holds as long as a detached
thread is not so short that it ends before `itpPthreadCreate` and `pthread_detach` have
done with the record, and a thread is not detached when it has already ended.
-/

section

open Lib

/-! ## Places -/

namespace CreatePc

/-- The record has been allocated and not been freed again. -/
def owns : CreatePc → Bool
  | .makeSemaphore | .makeTask | .publish | .returned .ok => true
  | _ => false

def made : CreatePc → Bool
  | .makeTask | .publish | .returned .ok => true
  | _ => false

def runs : CreatePc → Bool
  | .publish | .returned .ok => true
  | _ => false

theorem owns_of_runs {creator : CreatePc} (runs : creator.runs = true) : creator.owns = true := by
  cases creator with
  | publish => rfl
  | returned result =>
    cases result with
    | ok => rfl
    | _ => cases runs
  | _ => cases runs

end CreatePc

namespace ThreadPc

def handled : ThreadPc → Bool
  | .none | .setHandle => false
  | _ => true

/-- The thread has not looked at `detachstate` yet. -/
def early : ThreadPc → Bool
  | .setHandle | .setTag | .start | .routine | .setValue _ _ | .readDetach _ => true
  | _ => false

def joins : ThreadPc → Bool
  | .readSemaphore | .give _ | .sleeping => true
  | _ => false

def finished : ThreadPc → Bool
  | .none | .setHandle | .setTag | .start | .routine | .setValue _ _ => false
  | _ => true

def gone : ThreadPc → Bool
  | .delete _ | .deleted => true
  | _ => false

def destroyed : ThreadPc → Nat
  | .destroy _ key => key
  | .readHandle | .free _ | .delete _ | .deleted => pthreadKeysMax
  | _ => 0

def left : ThreadPc → Nat
  | .setValue _ _ => pthreadKeysMax + 6
  | .readDetach _ => pthreadKeysMax + 5
  | .destroy _ key => pthreadKeysMax - key + 4
  | .readHandle => 3
  | .free _ => 2
  | .delete _ => 1
  | .readSemaphore => 2
  | .give _ => 1
  | .none | .setHandle | .setTag | .start | .routine => pthreadKeysMax + 6
  | .sleeping | .deleted => 0

def Fits : ThreadPc → Prop
  | .give found => found = true
  | .free xHandle | .delete xHandle => xHandle = threadHandle
  | _ => True

theorem of_early {thread : ThreadPc} (early : thread.early = true) :
    thread ≠ .none ∧ thread ≠ .sleeping ∧ thread.gone = false ∧ thread.joins = false ∧
      thread.destroyed = 0 ∧ thread.Fits := by
  cases thread with
  | setHandle | setTag | start | routine | setValue value exits | readDetach exits =>
    exact ⟨by simp, by simp, rfl, rfl, rfl, trivial⟩
  | _ => cases early

/-- The thread has found that it will not be joined, and has the record still. -/
def late : ThreadPc → Bool
  | .destroy _ _ | .readHandle | .free _ => true
  | _ => false

theorem of_late {thread : ThreadPc} (late : thread.late = true) :
    thread ≠ .none ∧ thread ≠ .sleeping ∧ thread.gone = false ∧ thread.joins = false ∧
      thread.early = false ∧ thread.finished = true ∧ thread.handled = true := by
  cases thread with
  | destroy exits key | readHandle | free xHandle =>
    exact ⟨by simp, by simp, rfl, rfl, rfl, rfl, rfl⟩
  | _ => cases late

end ThreadPc

namespace OtherPc

def took : OtherPc → Bool
  | .joinDestroy _ _ | .joinValue _ | .joinReread | .joinDelete _ | .joinHandle
  | .joinFree _ | .joinKill _ | .joined => true
  | _ => false

def dropped : OtherPc → Bool
  | .joinHandle | .joinFree _ | .joinKill _ | .joined | .detachClear | .detached => true
  | _ => false

def freed : OtherPc → Bool
  | .joinKill _ | .joined => true
  | _ => false

/-- The other one has written `detachstate`. -/
def detaches : OtherPc → Bool
  | .detachTest | .detachReread | .detachDelete _ | .detachClear | .detached => true
  | _ => false

def destroyed : OtherPc → Nat
  | .joinDestroy _ key => key
  | .joinValue _ | .joinReread | .joinDelete _ | .joinHandle | .joinFree _ | .joinKill _
  | .joined => pthreadKeysMax
  | _ => 0

def Fits : OtherPc → Prop
  | .joinTake _ found | .joinDelete found | .detachDelete found => found = true
  | .joinFree xHandle | .joinKill xHandle => xHandle = threadHandle
  | _ => True

theorem of_not_took {other : OtherPc} (took : other.took = false) :
    other.freed = false ∧ other.destroyed = 0 := by
  cases other with
  | joinDestroy wants key | joinValue wants | joinReread | joinDelete found | joinHandle
  | joinFree xHandle | joinKill xHandle | joined => cases took
  | _ => exact ⟨rfl, rfl⟩

/-- A step of the other one in which it neither takes nor gives anything up. -/
structure Alike (before next : OtherPc) : Prop where
  called : before ≠ .idle
  joined : before ≠ .joined
  detached : before ≠ .detached
  nextJoined : next ≠ .joined
  nextDetached : next ≠ .detached
  took : next.took = before.took
  dropped : next.dropped = before.dropped
  freed : next.freed = before.freed
  detaches : next.detaches = before.detaches

theorem not_dropped {other : OtherPc} (untaken : other.took = false)
    (attached : other.detaches = false) : other.dropped = false := by
  cases other <;> simp_all [took, detaches, dropped]

end OtherPc

def dtorRuns (keys : List ThreadKey) : List (BitVec 32 × BitVec 32) :=
  keys.filterMap fun key => if key.calls then some (key.dtor, key.value) else none

def NativeSemaphore.isLive : NativeSemaphore → Bool
  | .live _ => true
  | _ => false

namespace ThreadLife

def isDetached (state : ThreadLife) : Bool := !state.joinable || state.other.detaches

/-- Nothing more will happen: the thread could not be created, or has been deleted. -/
def finished (state : ThreadLife) : Bool :=
  match state.creator with
  | .returned .ok => state.thread == .deleted
  | .returned _ => true
  | _ => false

/-- The record and the semaphore are not used when they are not there, nor freed twice,
and they have been freed when all is over; a detached thread does not wait to be joined,
and gets there with the steps it has left; join returns the result, and each destructor
is called once. -/
structure Safe (state : ThreadLife) : Prop where
  fault : state.fault = false
  frees : state.frees ≤ state.allocs
  allocs : state.allocs ≤ 1
  deletes : state.deletes ≤ state.makes
  makes : state.makes ≤ 1
  released : state.finished = true → state.frees = state.allocs ∧ state.deletes = state.makes
  detached : state.isDetached = true → state.thread.joins = false
  ends : state.endSteps + state.thread.left ≤ pthreadKeysMax + 6
  joined : ∀ value ∈ state.joined, state.result = some value
  destructed : state.destructed <+: dtorRuns state.finalKeys
  allDestructed : state.thread = .deleted → state.destructed = dtorRuns state.finalKeys

/-- The thread does not free the record while the creator or a detach still has to use
it; a thread is detached before it looks whether it is; and only a thread that was
created joinable is joined or detached. -/
def Allowed (state : ThreadLife) : ThreadEvent → Prop
  | .thread =>
    ∀ xHandle, state.thread = .free xHandle →
      state.creator = .returned .ok ∧ (state.other.detaches = true → state.other = .detached)
  | .other => state.other = .detachSet → state.thread.early = true
  | .callJoin _ | .callDetach => state.joinable = true
  | _ => True

instance Allowed.decidable (state : ThreadLife) :
    (event : ThreadEvent) → Decidable (state.Allowed event)
  | .thread =>
    match thread : state.thread with
    | .free xHandle =>
      decidable_of_iff
        (state.creator = .returned .ok ∧ (state.other.detaches = true → state.other = .detached))
        ⟨fun done _ _ => done, fun allowed => allowed xHandle thread⟩
    | .none | .setHandle | .setTag | .start | .routine | .setValue _ _ | .readDetach _
    | .readSemaphore | .give _ | .sleeping | .destroy _ _ | .readHandle | .delete _
    | .deleted =>
      .isTrue fun xHandle frees => by rw [thread] at frees; cases frees
  | .other =>
    inferInstanceAs (Decidable (state.other = .detachSet → state.thread.early = true))
  | .callJoin _ | .callDetach =>
    inferInstanceAs (Decidable (state.joinable = true))
  | .create _ | .keyCreate _ | .keyDelete _ | .setSpecific _ _ | .finish _ _ =>
    .isTrue trivial

structure Possible (joinable : Bool) (creator : CreatePc) (thread : ThreadPc)
    (other : OtherPc) : Prop where
  runs : thread = .none ↔ creator.runs = false
  called : other ≠ .idle → creator = .returned .ok ∧ joinable = true
  joins : thread.joins = true → joinable = true ∧ other.detaches = false
  detached :
    thread ≠ .none → thread.early = false → thread.joins = false →
      joinable = false ∨ other.detaches = true ∨ other = .joined
  took : other.took = true → other ≠ .joined → thread = .sleeping
  killed : other = .joined → thread = .deleted
  gone : thread.gone = true → creator = .returned .ok ∧ (other.detaches = true → other = .detached)

structure Recorded (state : ThreadLife) (record : ItpThread) : Prop where
  joinable : record.joinable = (state.joinable && !state.other.detaches)
  xSemaphore :
    record.xSemaphore = (state.joinable && state.creator.made && !(state.other == .detached))
  xHandle : state.thread.handled = true → record.xHandle = threadHandle
  keys : record.keys.length = pthreadKeysMax
  finished :
    state.thread.finished = true →
      state.result = some record.valuePtr ∧ state.finalKeys = record.keys

def owned (state : ThreadLife) : Bool :=
  state.creator.owns && !state.thread.gone && !state.other.freed

def signals (state : ThreadLife) : Bool :=
  state.joinable && state.creator.made && !state.other.dropped

def destroyed (state : ThreadLife) : Nat := max state.thread.destroyed state.other.destroyed

/-- How often the record and the semaphore have been made and freed. -/
structure Counted (state : ThreadLife) : Prop where
  records : state.allocs = state.frees + state.record.isSome.toNat
  semaphores : state.makes = state.deletes + state.semaphore.isLive.toNat
  allocs : state.allocs ≤ 1
  makes : state.makes ≤ 1
  unallocated : state.creator = .start → state.allocs = 0
  unmade : state.creator = .start ∨ state.creator = .makeSemaphore → state.makes = 0

structure Inv (state : ThreadLife) : Prop where
  fault : state.fault = false
  possible : Possible state.joinable state.creator state.thread state.other
  owned : state.record.isSome = state.owned
  recorded : ∀ record, state.record = some record → state.Recorded record
  live :
    state.signals = true →
      state.semaphore =
        .live (if state.thread = .sleeping ∧ state.other.took = false then 1 else 0)
  dead : state.signals = false → state.semaphore.isLive = false
  counted : state.Counted
  threadFits : state.thread.Fits
  otherFits : state.other.Fits
  ends : state.endSteps + state.thread.left ≤ pthreadKeysMax + 6
  joined : ∀ value, state.joined = some value → state.result = some value ∧ state.other.took = true
  finalKeys : state.finalKeys.length ≤ pthreadKeysMax
  destructed : state.destructed = dtorRuns (state.finalKeys.take state.destroyed)

end ThreadLife

end

end IteSdk.ItpPosix
