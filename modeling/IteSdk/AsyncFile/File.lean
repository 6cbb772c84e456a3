import IteSdk.AsyncFile.MsgQ

/-!
# The asynchronous file requests

Clients fill the one `msgBuf` under the mutex, a field at a time, and write it to
the message queue; the file thread reads messages, executes them and calls their
callbacks.  `fault` is set where the code would use the mutex or the queue when they
do not exist, make them a second time, or write to the queue from two tasks.
-/

namespace IteSdk.AsyncFile

section

inductive FileFunc
  | palFileRead
  | palFileWrite
  | palFileSeek
  | palFileTell
  | palFileOpen
  | palFileClose
  | palFileOpenWriteClose
  | palFileDelete
  deriving DecidableEq

/-- A field of `MESSAGE`, each of them a `void*`. -/
inductive FileWord
  | func (func : FileFunc)
  | word (value : BitVec 32)
  deriving DecidableEq

def FileWord.null : FileWord := .word 0

/-- `MESSAGE`. -/
structure FileMessage where
  func : FileWord
  callback : FileWord
  callbackArg : FileWord
  arg1 : FileWord
  arg2 : FileWord
  arg3 : FileWord
  arg4 : FileWord
  deriving DecidableEq

def FileMessage.blank : FileMessage := ⟨.null, .null, .null, .null, .null, .null, .null⟩

def FileMessage.cells (message : FileMessage) : List FileWord :=
  [message.func, message.callback, message.callbackArg, message.arg1, message.arg2,
    message.arg3, message.arg4]

def FileMessage.ofCells : List FileWord → FileMessage
  | [func, callback, callbackArg, arg1, arg2, arg3, arg4] =>
    ⟨func, callback, callbackArg, arg1, arg2, arg3, arg4⟩
  | _ => .blank

inductive FileField
  | func
  | callback
  | callbackArg
  | arg1
  | arg2
  | arg3
  | arg4
  deriving DecidableEq

/-- `msgBuf.field = value`. -/
def FileMessage.assign (message : FileMessage) : FileField × FileWord → FileMessage
  | (.func, value) => { message with func := value }
  | (.callback, value) => { message with callback := value }
  | (.callbackArg, value) => { message with callbackArg := value }
  | (.arg1, value) => { message with arg1 := value }
  | (.arg2, value) => { message with arg2 := value }
  | (.arg3, value) => { message with arg3 := value }
  | (.arg4, value) => { message with arg4 := value }

/-- An asynchronous call, with a callback that is not null. -/
inductive FileRequest
  | openWriteClose (filename buffer size count callback callbackArg : BitVec 32)
  | read (buffer size count stream callback callbackArg : BitVec 32)
  deriving DecidableEq

/-- What the call writes into `msgBuf`, in this order. -/
def FileRequest.assignments : FileRequest → List (FileField × FileWord)
  | .openWriteClose filename buffer size count callback _ =>
    [(.func, .func .palFileOpenWriteClose), (.callback, .word callback),
      (.arg1, .word filename), (.arg2, .word buffer), (.arg3, .word size),
      (.arg4, .word count)]
  | .read buffer size count stream callback callbackArg =>
    [(.func, .func .palFileRead), (.callback, .word callback),
      (.callbackArg, .word callbackArg), (.arg1, .word buffer), (.arg2, .word size),
      (.arg3, .word count), (.arg4, .word stream)]

/-- A function that the file thread calls, with its arguments. -/
structure FileCall where
  func : FileFunc
  args : List FileWord
  deriving DecidableEq

structure FileCallback where
  callback : FileWord
  handle : FileWord
  result : FileWord
  arg : FileWord
  deriving DecidableEq

def FileMessage.args (message : FileMessage) : FileFunc → List FileWord
  | .palFileRead | .palFileWrite | .palFileOpenWriteClose =>
    [message.arg1, message.arg2, message.arg3, message.arg4]
  | .palFileSeek => [message.arg1, message.arg2, message.arg3]
  | .palFileOpen => [message.arg1, message.arg2]
  | .palFileTell | .palFileClose | .palFileDelete => [message.arg1]

/-- `handle` of `FileThreadFunc`. -/
def FileMessage.handle (message : FileMessage) (result : FileWord) : FileFunc → FileWord
  | .palFileRead | .palFileWrite => message.arg4
  | .palFileSeek | .palFileTell | .palFileClose => message.arg1
  | .palFileOpen => result
  | .palFileOpenWriteClose | .palFileDelete => .null

/-- `callback_arg` of `FileThreadFunc`: for `PalFileOpenWriteClose` the buffer. -/
def FileMessage.threadArg (message : FileMessage) : FileFunc → FileWord
  | .palFileOpenWriteClose => message.arg2
  | _ => message.callbackArg

inductive FileClientPc
  | idle
  | testInited (request : FileRequest)
  | palFileInitialize (request : FileRequest)
  | setInited (request : FileRequest)
  | lock (request : FileRequest)
  | fill (request : FileRequest) (rest : List (FileField × FileWord))
  | writing (request : FileRequest)
  | unlock
  deriving DecidableEq

/-- Where `FileThreadFunc` is. -/
inductive FileThreadPc
  | none
  | begin
  | reading
  | received (message : FileMessage)
  | calling (message : FileMessage) (func : FileFunc) (result : FileWord)
  | ended
  deriving DecidableEq

/-- Where `PalFileTerminate` is. -/
inductive FileTerminatePc
  | notCalled
  | setFunc
  | startWrite
  | writing
  | waiting
  | destroy
  | returned
  deriving DecidableEq

/-- `created` is that the mutex, the queue and the thread have been made and not
been destroyed.  `accepted` are the requests that were written to the queue,
`executed` and `callbacks` what the file thread has called. -/
structure FileState where
  inited : Bool
  created : Bool
  destroyed : Bool
  mutex : Option Nat
  msgBuf : FileMessage
  queue : MsgQTasks FileWord
  clients : List FileClientPc
  thread : FileThreadPc
  terminate : FileTerminatePc
  fault : Bool
  accepted : List FileRequest
  executed : List FileCall
  callbacks : List FileCallback
  deriving DecidableEq

def fileMsgQCount : Nat := 1000

def fileTimeout : Nat := 1000

/-- `PalCreateMsgQ(PAL_MSGQ_FILE, sizeof(MESSAGE), FILE_MSGQ_COUNT)`. -/
def fileMsgQ : MsgQTasks FileWord :=
  .init (palCreateMsgQ 7 fileMsgQCount (List.replicate (7 * fileMsgQCount) .null))

def FileState.init (clients : Nat) : FileState :=
  { inited := false
    created := false
    destroyed := false
    mutex := none
    msgBuf := .blank
    queue := fileMsgQ
    clients := List.replicate clients .idle
    thread := .none
    terminate := .notCalled
    fault := false
    accepted := []
    executed := []
    callbacks := [] }

/-- `PalWriteMsgQ` copies what is at `&msgBuf` when it gets there. -/
def MsgQTasks.withMsg (tasks : MsgQTasks FileWord) (msg : List FileWord) : MsgQTasks FileWord :=
  match tasks.writer with
  | .copy _ nextWritePtr => { tasks with writer := .copy msg nextWritePtr }
  | _ => tasks

/-- One step of `PalWriteMsgQ(queue, &msgBuf, TIMEOUT)`. -/
def fileWriteStep (state : FileState) (duration : Nat) : MsgQTasks FileWord :=
  palWriteMsgQ (state.queue.withMsg state.msgBuf.cells) duration

/-- The queue takes a call of `PalWriteMsgQ` if there is none under way. -/
def fileStartWrite (state : FileState) : Option (MsgQTasks FileWord) :=
  if state.created ∧ state.queue.writer = .idle then
    some (msgQStep state.queue (.callWrite state.msgBuf.cells fileTimeout))
  else
    none

/-- A step of a client; `ok` says whether `PalFileInitialize` succeeds. -/
def fileClient (state : FileState) (client : Nat) (ok : Bool) (duration : Nat) :
    FileClientPc → FileState × FileClientPc
  | .idle => (state, .idle)
  | .testInited request =>
    (state, if state.inited then .lock request else .palFileInitialize request)
  | .palFileInitialize request =>
    if state.created then
      ({ state with fault := true }, .idle)
    else if ok then
      ({ state with
          created := true
          destroyed := false
          mutex := none
          queue := fileMsgQ
          thread := .begin },
        .setInited request)
    else
      (state, .idle)
  | .setInited request => ({ state with inited := true }, .lock request)
  | .lock request =>
    if state.created then
      match state.mutex with
      | none =>
        ({ state with mutex := some client }, .fill request request.assignments)
      | some _ => (state, .lock request)
    else
      ({ state with fault := true }, .idle)
  | .fill request (next :: rest) =>
    ({ state with msgBuf := state.msgBuf.assign next }, .fill request rest)
  | .fill request [] =>
    match fileStartWrite state with
    | some queue => ({ state with queue := queue }, .writing request)
    | none => ({ state with fault := true }, .idle)
  | .writing request =>
    let queue := fileWriteStep state duration
    match queue.writer with
    | .idle =>
      ({ state with
          queue := queue
          accepted :=
            if queue.written.length = state.queue.written.length then
              state.accepted
            else state.accepted ++ [request] },
        .unlock)
    | _ => ({ state with queue := queue }, .writing request)
  | .unlock => ({ state with mutex := none }, .idle)

/-- What `FileThreadFunc` does after a step of its `PalReadMsgQ`. -/
def fileThreadRead (duration : Nat) : MsgQReadPc FileWord → FileThreadPc
  | .wrap msg => .received (.ofCells msg)
  | .sleep timeout => if timedOut timeout duration then .begin else .reading
  | _ => .reading

/-- A step of `FileThreadFunc`; `result` is what the function it executes returns. -/
def fileThread (state : FileState) (duration : Nat) (result : FileWord) : FileState :=
  match state.thread with
  | .none | .ended => state
  | .begin =>
    { state with
      queue := msgQStep state.queue (.callRead palMsgQInfinite)
      thread := .reading }
  | .reading =>
    { state with
      queue := palReadMsgQ state.queue duration
      thread := fileThreadRead duration state.queue.reader }
  | .received message =>
    match message.func with
    | .func func =>
      { state with
        executed := state.executed ++ [⟨func, message.args func⟩]
        thread := .calling message func result }
    | .word value =>
      if value = 0 then { state with destroyed := true, thread := .ended }
      else { state with thread := .begin }
  | .calling message func result =>
    { state with
      callbacks :=
        state.callbacks ++
          [⟨message.callback, message.handle result func, result, message.threadArg func⟩]
      thread := .begin }

/-- A step of `PalFileTerminate`. -/
def filePalTerminate (state : FileState) (duration : Nat) : FileState :=
  match state.terminate with
  | .notCalled | .returned => state
  | .setFunc =>
    { state with
      msgBuf := { state.msgBuf with func := .null }
      terminate := .startWrite }
  | .startWrite =>
    match fileStartWrite state with
    | some queue => { state with queue := queue, terminate := .writing }
    | none => { state with fault := true, terminate := .returned }
  | .writing =>
    let queue := fileWriteStep state duration
    match queue.writer with
    | .idle =>
      { state with
        queue := queue
        terminate :=
          if queue.written.length = state.queue.written.length then .returned
          else .waiting }
    | _ => { state with queue := queue }
  | .waiting => if state.destroyed then { state with terminate := .destroy } else state
  | .destroy => { state with created := false, terminate := .returned }

inductive FileEvent
  | call (client : Nat) (request : FileRequest)
  | client (client : Nat) (ok : Bool) (duration : Nat)
  | thread (duration : Nat) (result : FileWord)
  | callTerminate
  | terminate (duration : Nat)
  deriving DecidableEq

def fileStep (state : FileState) : FileEvent → FileState
  | .call client request =>
    match state.clients[client]? with
    | some .idle =>
      { state with clients := state.clients.set client (.testInited request) }
    | _ => state
  | .client client ok duration =>
    match state.clients[client]? with
    | some pc =>
      { (fileClient state client ok duration pc).1 with
        clients := state.clients.set client (fileClient state client ok duration pc).2 }
    | none => state
  | .thread duration result => fileThread state duration result
  | .callTerminate =>
    match state.terminate with
    | .notCalled | .returned => { state with terminate := .setFunc }
    | _ => state
  | .terminate duration => filePalTerminate state duration

end

/-!
# The queue of the file thread

What a step of the writer and one of the reader do to the queue that the clients and
the file thread share, and which requests the messages in it stand for.
-/

section

open Lib

variable {tasks : MsgQTasks FileWord} {duration : Nat}

/-! ## Messages -/

@[simp]
theorem FileMessage.ofCells_cells (message : FileMessage) : .ofCells message.cells = message := rfl

@[simp]
theorem FileMessage.length_cells (message : FileMessage) : message.cells.length = 7 := rfl

/-- The message is what the assignments of the request make of some `msgBuf`. -/
def FileRequest.Carried (request : FileRequest) (message : FileMessage) : Prop :=
  ∃ old, request.assignments.foldl FileMessage.assign old = message

def FileRequest.func : FileRequest → FileFunc
  | .openWriteClose .. => .palFileOpenWriteClose
  | .read .. => .palFileRead

def FileRequest.call : FileRequest → FileCall
  | .openWriteClose filename buffer size count _ _ =>
    ⟨.palFileOpenWriteClose, [.word filename, .word buffer, .word size, .word count]⟩
  | .read buffer size count stream _ _ =>
    ⟨.palFileRead, [.word buffer, .word size, .word count, .word stream]⟩

/-- The argument that the client has passed for its callback. -/
def FileRequest.callbackArg : FileRequest → FileWord
  | .openWriteClose _ _ _ _ _ callbackArg => .word callbackArg
  | .read _ _ _ _ _ callbackArg => .word callbackArg

/-- The argument that the callback gets: from `PalFileOpenWriteClose` its buffer. -/
def FileRequest.threadArg : FileRequest → FileWord
  | .openWriteClose _ buffer _ _ _ _ => .word buffer
  | .read _ _ _ _ _ callbackArg => .word callbackArg

/-- The callback of the request with this argument, whatever the result. -/
def FileRequest.callbackOf (argOf : FileRequest → FileWord) (request : FileRequest)
    (result : FileWord) : FileCallback :=
  match request with
  | .openWriteClose _ _ _ _ callback _ => ⟨.word callback, .null, result, argOf request⟩
  | .read _ _ _ stream callback _ =>
    ⟨.word callback, .word stream, result, argOf request⟩

namespace FileRequest.Carried

variable {request : FileRequest} {message : FileMessage}

theorem func (carried : request.Carried message) : message.func = .func request.func := by
  obtain ⟨old, rfl⟩ := carried
  cases request <;> rfl

theorem call (carried : request.Carried message) :
    ⟨request.func, message.args request.func⟩ = request.call := by
  obtain ⟨old, rfl⟩ := carried
  cases request <;> rfl

theorem callback (carried : request.Carried message) (result : FileWord) :
    ⟨message.callback, message.handle result request.func, result,
        message.threadArg request.func⟩ =
      request.callbackOf FileRequest.threadArg result := by
  obtain ⟨old, rfl⟩ := carried
  cases request <;> rfl

end FileRequest.Carried

/-- The messages written are the accepted requests, and after these at most the exit
message. -/
structure FileQueued (accepted : List FileRequest) (written : List (List FileWord)) :
    Prop where
  counted : accepted.length ≤ written.length
  stands :
    ∀ number cells, written[number]? = some cells →
      (∃ request, accepted[number]? = some request ∧ request.Carried (.ofCells cells)) ∨
        number = accepted.length ∧ (FileMessage.ofCells cells).func = .null

namespace FileQueued

variable {accepted : List FileRequest} {written : List (List FileWord)}
  {request : FileRequest} {cells : List FileWord}

theorem nil : FileQueued [] [] where
  counted := Nat.le_refl 0
  stands := fun _ _ found => by simp at found

variable {number : Nat}

theorem getElem?_of_prefix {α : Type} {front whole : List α}
    {element : α} (order : front <+: whole) (found : front[number]? = some element) :
    whole[number]? = some element := by
  obtain ⟨bound, same⟩ := List.getElem?_eq_some_iff.mp found
  rw [List.prefix_iff_getElem?.mp order number bound, same]

section

variable (queued : FileQueued accepted written)

include queued

theorem accept (same : written.length = accepted.length)
    (carried : request.Carried (.ofCells cells)) :
    FileQueued (accepted ++ [request]) (written ++ [cells]) where
  counted := by simp [same]
  stands := by
    intro number other found
    rcases getElem?_concat_cases found with before | ⟨last, rfl⟩
    · rcases queued.stands number other before with ⟨older, place, carries⟩ | ⟨last, -⟩
      · exact .inl ⟨older, getElem?_of_prefix (List.prefix_append _ _) place, carries⟩
      · have bound := (List.getElem?_eq_some_iff.mp before).1
        omega
    · refine .inl ⟨request, ?_, carried⟩
      rw [last, same, List.getElem?_concat_length]

theorem exit (same : written.length = accepted.length)
    (exits : (FileMessage.ofCells cells).func = .null) :
    FileQueued accepted (written ++ [cells]) where
  counted := by simp [same]
  stands := by
    intro number other found
    rcases getElem?_concat_cases found with before | ⟨last, rfl⟩
    · exact queued.stands number other before
    · exact .inr ⟨last.trans same, exits⟩

theorem request_of_func {func : FileFunc} (found : written[number]? = some cells)
    (asks : (FileMessage.ofCells cells).func = .func func) :
    ∃ request, accepted[number]? = some request ∧ request.func = func ∧
      request.Carried (.ofCells cells) := by
  rcases queued.stands number cells found with ⟨request, place, carried⟩ | ⟨-, exits⟩
  · refine ⟨request, place, ?_, carried⟩
    rw [carried.func] at asks
    exact FileWord.func.inj asks
  · rw [exits] at asks
    cases asks

theorem last_of_word {value : BitVec 32} (found : written[number]? = some cells)
    (asks : (FileMessage.ofCells cells).func = .word value) :
    number = accepted.length ∧ value = 0 := by
  rcases queued.stands number cells found with ⟨request, -, carried⟩ | ⟨last, exits⟩
  · rw [carried.func] at asks
    cases asks
  · rw [exits] at asks
    exact ⟨last, (FileWord.word.inj asks).symm⟩

end

end FileQueued

theorem palReadMsgQ_writer :
    (palReadMsgQ tasks duration).writer = tasks.writer ∧
      (palReadMsgQ tasks duration).written = tasks.written ∧
      (palReadMsgQ tasks duration).queue.entrySize = tasks.queue.entrySize := by
  cases reader : tasks.reader with
  | idle | copy | advance msg => simp [palReadMsgQ, reader]
  | test timeout | sleep timeout | wrap msg =>
    simp only [palReadMsgQ, reader]
    split <;> simp

theorem palWriteMsgQ_reader :
    (palWriteMsgQ tasks duration).reader = tasks.reader ∧
      (palWriteMsgQ tasks duration).read = tasks.read ∧
      (palWriteMsgQ tasks duration).queue.entrySize = tasks.queue.entrySize := by
  cases writer : tasks.writer with
  | idle | start msg timeout | copy msg nextWritePtr | publish msg nextWritePtr =>
    simp [palWriteMsgQ, writer]
  | test msg timeout nextWritePtr | sleep msg timeout nextWritePtr =>
    simp only [palWriteMsgQ, writer]
    split <;> simp

theorem palWriteMsgQ_cases (tasks : MsgQTasks FileWord) (duration : Nat) :
    (∃ msg nextWritePtr, tasks.writer = .publish msg nextWritePtr ∧
        (palWriteMsgQ tasks duration).written = tasks.written ++ [msg] ∧
        (palWriteMsgQ tasks duration).writer = .idle) ∨
      (palWriteMsgQ tasks duration).written = tasks.written ∧
        ∀ msg nextWritePtr,
          (palWriteMsgQ tasks duration).writer = .publish msg nextWritePtr →
            tasks.writer = .copy msg nextWritePtr := by
  cases writer : tasks.writer with
  | idle | start msg timeout | copy msg nextWritePtr | publish msg nextWritePtr =>
    simp [palWriteMsgQ, writer]
  | test msg timeout nextWritePtr | sleep msg timeout nextWritePtr =>
    simp only [palWriteMsgQ, writer]
    split <;> simp

theorem MsgQTasks.Inv.pointers_ne (inv : tasks.Inv) {timeout : Nat}
    (reader : tasks.reader = .test timeout) (wide : 0 < tasks.queue.entrySize)
    (more : tasks.read.length < tasks.written.length) :
    tasks.queue.readPtr ≠ tasks.queue.writePtr := by
  have readPtr : tasks.queue.readPtr = tasks.entry tasks.read.length := by rw [inv.readPtr, reader]
  have ahead : tasks.written.length < tasks.read.length + tasks.queue.entryCount := by
    simpa only [taken, reader] using inv.ahead
  rw [readPtr, inv.writePtr]
  exact (slot_offset_ne wide (slot_ne more ahead)).symm

variable {msg : List FileWord} {state : FileState}

theorem MsgQTasks.withMsg_of_copy {older : List FileWord} {nextWritePtr : Nat}
    (writer : tasks.writer = .copy older nextWritePtr) :
    tasks.withMsg msg = { tasks with writer := .copy msg nextWritePtr } := by
  simp only [withMsg, writer]

theorem MsgQTasks.withMsg_of_ne
    (never : ∀ older nextWritePtr, tasks.writer ≠ .copy older nextWritePtr) :
    tasks.withMsg msg = tasks := by
  cases writer : tasks.writer with
  | copy older nextWritePtr => exact absurd writer (never older nextWritePtr)
  | _ => simp only [withMsg, writer]

theorem fileWriteStep_reader (state : FileState) (duration : Nat) :
    (fileWriteStep state duration).reader = state.queue.reader ∧
      (fileWriteStep state duration).read = state.queue.read ∧
      (fileWriteStep state duration).queue.entrySize = state.queue.queue.entrySize := by
  rw [fileWriteStep]
  cases writer : state.queue.writer with
  | copy older nextWritePtr =>
    simp [MsgQTasks.withMsg_of_copy writer, palWriteMsgQ]
  | _ =>
    rw [MsgQTasks.withMsg_of_ne (by simp [writer])]
    exact palWriteMsgQ_reader

theorem fileWriteStep_cases (state : FileState) (duration : Nat) :
    (∃ msg nextWritePtr, state.queue.writer = .publish msg nextWritePtr ∧
        (fileWriteStep state duration).written = state.queue.written ++ [msg] ∧
        (fileWriteStep state duration).writer = .idle) ∨
      (fileWriteStep state duration).written = state.queue.written ∧
        ∀ msg nextWritePtr,
          (fileWriteStep state duration).writer = .publish msg nextWritePtr →
            msg = state.msgBuf.cells := by
  rw [fileWriteStep]
  cases writer : state.queue.writer with
  | copy older nextWritePtr =>
    simp [MsgQTasks.withMsg_of_copy writer, palWriteMsgQ, eq_comm]
  | _ =>
    rw [MsgQTasks.withMsg_of_ne (by simp [writer])]
    have step := palWriteMsgQ_cases state.queue duration
    rw [writer] at step
    rcases step with ended | ⟨same, copies⟩
    · exact .inl ended
    · refine .inr ⟨same, fun msg nextWritePtr here => ?_⟩
      cases copies msg nextWritePtr here

theorem MsgQTasks.Inv.withMsg (inv : tasks.Inv)
    (fits : msg.length = tasks.queue.entrySize) : (tasks.withMsg msg).Inv := by
  cases writer : tasks.writer with
  | copy older nextWritePtr =>
    rw [withMsg_of_copy writer]
    have writing := inv.writing
    simp only [Writing, writer] at writing
    exact { inv with writing := ⟨fits, writing.2⟩ }
  | _ => rwa [withMsg_of_ne (by simp [writer])]

theorem MsgQTasks.WriteAllowed.withMsg {event : MsgQEvent FileWord}
    (allowed : tasks.WriteAllowed event) : (tasks.withMsg msg).WriteAllowed event := by
  cases writer : tasks.writer with
  | copy older nextWritePtr =>
    rw [withMsg_of_copy writer]
    cases event with
    | write duration => simp [WriteAllowed, tested]
    | _ => trivial
  | _ => rwa [withMsg_of_ne (by simp [writer])]

theorem fileWriteStep_inv (inv : state.queue.Inv) (entrySize : state.queue.queue.entrySize = 7)
    (allowed : state.queue.WriteAllowed (.write duration)) :
    (fileWriteStep state duration).Inv :=
  (inv.withMsg (state.msgBuf.length_cells.trans entrySize.symm)).write duration allowed.withMsg

end

end IteSdk.AsyncFile
