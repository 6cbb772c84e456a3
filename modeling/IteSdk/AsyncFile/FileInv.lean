import IteSdk.AsyncFile.File
import IteSdk.Lib.Threads
import IteSdk.Lib.Transition

/-!
# The invariant of the asynchronous file requests

What the clients, the file thread and `PalFileTerminate` can rely on where they are,
and that the steps of the file thread keep it.
-/

namespace IteSdk.AsyncFile

section

open Lib

def FileClientPc.creates : FileClientPc → Bool
  | .palFileInitialize _ | .setInited _ => true
  | _ => false

def FileClientPc.setsInited : FileClientPc → Bool
  | .setInited _ => true
  | _ => false

def FileClientPc.writes : FileClientPc → Bool
  | .writing _ => true
  | _ => false

namespace FileState

/-- The accepted requests are executed one after the other in the order in which they
were accepted, and the callback of each is called when it has been executed. -/
structure Ordered (argOf : FileRequest → FileWord) (state : FileState) : Prop where
  fault : state.fault = false
  executed : state.executed <+: state.accepted.map FileRequest.call
  callbacks :
    ∀ (number : Nat) callback, state.callbacks[number]? = some callback →
      ∃ request : FileRequest, state.accepted[number]? = some request ∧
        callback = request.callbackOf argOf callback.result
  finished : state.callbacks.length ≤ state.executed.length
  current : state.executed.length ≤ state.callbacks.length + 1

/-- No other client makes the queue when one looks whether it has been made, and the
writer is not misled by the queue. -/
def ClientAllowed (state : FileState) (duration : Nat) : FileClientPc → Prop
  | .testInited _ => ∀ pc ∈ state.clients, pc.creates = false
  | .writing _ => state.queue.WriteAllowed (.write duration)
  | _ => True

def Allowed (state : FileState) : FileEvent → Prop
  | .call _ _ => state.terminate = .notCalled
  | .client client _ duration =>
    ∀ pc ∈ state.clients[client]?, state.ClientAllowed duration pc
  | .thread _ _ => True
  | .callTerminate =>
    state.created = true ∧ state.terminate = .notCalled ∧ ∀ pc ∈ state.clients, pc = .idle
  | .terminate duration => state.queue.WriteAllowed (.write duration)

instance ClientAllowed.decidable (state : FileState) (duration : Nat) :
    ∀ pc, Decidable (state.ClientAllowed duration pc)
  | .testInited _ =>
    inferInstanceAs (Decidable (∀ pc ∈ state.clients, pc.creates = false))
  | .writing _ =>
    inferInstanceAs (Decidable (state.queue.WriteAllowed (.write duration)))
  | .idle | .palFileInitialize _ | .setInited _ | .lock _ | .fill _ _ | .unlock =>
    inferInstanceAs (Decidable True)

instance Allowed.decidable (state : FileState) : ∀ event, Decidable (state.Allowed event)
  | .call _ _ => inferInstanceAs (Decidable (state.terminate = .notCalled))
  | .client client _ duration =>
    inferInstanceAs (Decidable (∀ pc ∈ state.clients[client]?, state.ClientAllowed duration pc))
  | .thread _ _ => inferInstanceAs (Decidable True)
  | .callTerminate => inferInstanceAs (Decidable (_ ∧ _))
  | .terminate duration =>
    inferInstanceAs (Decidable (state.queue.WriteAllowed (.write duration)))

def Serving (state : FileState) : Prop := state.created = true ∧ state.terminate = .notCalled

def Placed (state : FileState) (client : Nat) : FileClientPc → Prop
  | .idle => True
  | .testInited _ => state.terminate = .notCalled
  | .palFileInitialize _ => state.terminate = .notCalled ∧ state.inited = false
  | .setInited _ | .lock _ => state.Serving
  | .fill request rest =>
    state.Serving ∧ state.mutex = some client ∧
      ∃ old,
        rest.foldl FileMessage.assign state.msgBuf =
          request.assignments.foldl FileMessage.assign old
  | .writing request =>
    state.Serving ∧ state.mutex = some client ∧ request.Carried state.msgBuf ∧
      ∀ msg nextWritePtr, state.queue.writer = .publish msg nextWritePtr →
        request.Carried (.ofCells msg)
  | .unlock => state.Serving ∧ state.mutex = some client

/-- Where `PalFileTerminate` is. -/
def Ending (state : FileState) : Prop :=
  match state.terminate with
  | .setFunc => state.created = true
  | .startWrite => state.created = true ∧ state.msgBuf.func = .null
  | .writing =>
    state.msgBuf.func = .null ∧
      ∀ msg nextWritePtr, state.queue.writer = .publish msg nextWritePtr →
        (FileMessage.ofCells msg).func = .null
  | _ => True

def Open (state : FileState) : Prop :=
  match state.terminate with
  | .notCalled | .setFunc | .startWrite | .writing => True
  | _ => False

def Awaits : MsgQReadPc FileWord → Prop
  | .idle => False
  | .test timeout | .sleep timeout => timeout = palMsgQInfinite
  | _ => True

def Received (state : FileState) (message : FileMessage) : Prop :=
  state.queue.reader = .idle ∧
    state.queue.read.length = state.callbacks.length + 1 ∧
      ∃ cells, state.queue.read[state.callbacks.length]? = some cells ∧ .ofCells cells = message

def Phase (state : FileState) : Prop :=
  match state.thread with
  | .none => state.created = false ∧ state.terminate = .notCalled
  | .begin =>
    state.queue.reader = .idle ∧ state.queue.read.length = state.callbacks.length ∧
      state.executed.length = state.callbacks.length
  | .reading =>
    Awaits state.queue.reader ∧ state.queue.read.length = state.callbacks.length ∧
      state.executed.length = state.callbacks.length
  | .received message =>
    state.Received message ∧ state.executed.length = state.callbacks.length
  | .calling message func _ =>
    state.Received message ∧ message.func = .func func ∧
      state.executed.length = state.callbacks.length + 1
  | .ended =>
    state.executed.length = state.callbacks.length ∧
      ∃ message, state.Received message ∧ message.func = .null

structure Inv (state : FileState) : Prop where
  fault : state.fault = false
  queue : state.queue.Inv
  entrySize : state.queue.queue.entrySize = 7
  queued : FileQueued state.accepted state.queue.written
  even : state.Open → state.queue.written.length = state.accepted.length
  once : AtMostOne (fun pc => pc.creates = true) state.clients
  clients : ∀ client pc, state.clients[client]? = some pc → state.Placed client pc
  uninited : state.Serving → state.inited = false → ∃ pc ∈ state.clients, pc.setsInited = true
  inited : state.terminate = .notCalled → state.inited = true → state.created = true
  writer :
    state.queue.writer ≠ .idle →
      (∃ pc ∈ state.clients, pc.writes = true) ∨ state.terminate = .writing
  fresh :
    state.terminate = .notCalled → state.created = false →
      state.accepted = [] ∧ state.executed = [] ∧ state.callbacks = []
  executed : state.executed <+: state.accepted.map FileRequest.call
  callbacks :
    ∀ (number : Nat) callback, state.callbacks[number]? = some callback →
      ∃ request : FileRequest, state.accepted[number]? = some request ∧
        callback = request.callbackOf FileRequest.threadArg callback.result
  phase : state.Phase
  ending : state.Ending

variable {state after : FileState} {client : Nat}

variable {pc : FileClientPc} {message : FileMessage} {func : FileFunc}

/-- What the others rely on stays when the mutex, the message and the write in the
queue are touched by the client that holds the mutex only. -/
theorem Placed.carry (placed : state.Placed client pc)
    (terminate : after.terminate = state.terminate)
    (created : state.created = true → after.created = true)
    (inited : after.inited = state.inited ∨ pc.creates = false)
    (shared :
      state.created = true → state.mutex = some client →
        after.mutex = state.mutex ∧ after.msgBuf = state.msgBuf ∧
          after.queue.writer = state.queue.writer) :
    after.Placed client pc := by
  have serving : state.Serving → after.Serving := fun both =>
    ⟨created both.1, terminate.trans both.2⟩
  cases pc with
  | idle => trivial
  | testInited request => exact terminate.trans placed
  | palFileInitialize request =>
    rcases inited with same | never
    · exact ⟨terminate.trans placed.1, same.trans placed.2⟩
    · cases never
  | setInited request | lock request => exact serving placed
  | fill request rest =>
    obtain ⟨mutex, msgBuf, -⟩ := shared placed.1.1 placed.2.1
    obtain ⟨both, holds, filled⟩ := placed
    exact ⟨serving both, mutex.trans holds, msgBuf ▸ filled⟩
  | writing request =>
    obtain ⟨mutex, msgBuf, writer⟩ := shared placed.1.1 placed.2.1
    obtain ⟨both, holds, carried, publishes⟩ := placed
    exact ⟨serving both, mutex.trans holds, msgBuf ▸ carried, writer ▸ publishes⟩
  | unlock =>
    obtain ⟨mutex, -⟩ := shared placed.1.1 placed.2
    exact ⟨serving placed.1, mutex.trans placed.2⟩

section

variable (inv : state.Inv)

include inv

theorem Inv.idle_of_terminate (ended : state.terminate ≠ .notCalled) :
    ∀ pc ∈ state.clients, pc = .idle := by
  intro pc member
  obtain ⟨client, found⟩ := List.getElem?_of_mem member
  have placed := inv.clients client pc found
  cases pc with
  | idle => rfl
  | testInited request => exact absurd placed ended
  | palFileInitialize request => exact absurd placed.1 ended
  | setInited request | lock request => exact absurd placed.2 ended
  | fill request rest | writing request | unlock => exact absurd placed.1.2 ended

theorem Inv.holder_of_writes {other : Nat} (found : state.clients[other]? = some pc)
    (writes : pc.writes = true) :
    state.mutex = some other := by
  have placed := inv.clients other pc found
  cases pc with
  | writing request => exact placed.2.1
  | _ => cases writes

theorem Inv.writer_idle (here : state.clients[client]? = some pc) (rests : pc.writes = false)
    (terminate : state.terminate = .notCalled) (holds : state.mutex = some client) :
    state.queue.writer = .idle := by
  by_contra busy
  rcases inv.writer busy with ⟨other, member, writes⟩ | wrong
  · obtain ⟨index, found⟩ := List.getElem?_of_mem member
    have same := (inv.holder_of_writes found writes).symm.trans holds
    obtain rfl := Option.some.inj same
    rw [here] at found
    rw [Option.some.inj found, writes] at rests
    cases rests
  · rw [terminate] at wrong
    cases wrong

/-! ## The file thread -/

theorem Inv.withReader {queue : MsgQTasks FileWord} {thread : FileThreadPc} (kept : queue.Inv)
    (frame :
      queue.writer = state.queue.writer ∧ queue.written = state.queue.written ∧
        queue.queue.entrySize = state.queue.queue.entrySize)
    (phase : Phase { state with queue := queue, thread := thread }) :
    Inv { state with queue := queue, thread := thread } := by
  obtain ⟨writer, written, entrySize⟩ := frame
  exact
    { inv with
      queue := kept
      entrySize := entrySize.trans inv.entrySize
      queued := written ▸ inv.queued
      even := fun stillOpen => (congrArg List.length written).trans (inv.even stillOpen)
      clients := fun client pc found =>
        (inv.clients client pc found).carry rfl id (.inl rfl) fun _ _ => ⟨rfl, rfl, writer⟩
      writer := fun busy => inv.writer (writer ▸ busy)
      phase := phase
      ending := by
        have ending := inv.ending
        simp only [Ending] at ending ⊢
        split <;> simp_all }

theorem Inv.threadBegin (thread : state.thread = .begin) :
    Inv
      { state with
        queue := msgQStep state.queue (.callRead palMsgQInfinite)
        thread := .reading } := by
  have phase := inv.phase
  simp only [Phase, thread] at phase
  obtain ⟨idle, counts⟩ := phase
  refine inv.withReader (inv.queue.callRead palMsgQInfinite) ?_ ?_
  · simp [msgQStep, idle]
  · simp only [Phase, msgQStep, idle]
    exact ⟨rfl, counts⟩

theorem Inv.threadReading (thread : state.thread = .reading) (duration : Nat) :
    Inv
      { state with
        queue := palReadMsgQ state.queue duration
        thread := fileThreadRead duration state.queue.reader } := by
  have phase := inv.phase
  simp only [Phase, thread] at phase
  obtain ⟨awaits, counts, same⟩ := phase
  refine inv.withReader (inv.queue.read duration) palReadMsgQ_writer ?_
  cases reader : state.queue.reader with
  | idle =>
    rw [reader] at awaits
    exact awaits.elim
  | test timeout =>
    rw [reader] at awaits
    simp only [Phase, fileThreadRead, palReadMsgQ, reader]
    split
    · exact ⟨awaits, counts, same⟩
    · exact ⟨trivial, counts, same⟩
  | sleep timeout =>
    rw [reader] at awaits
    have never : timedOut timeout duration = false := by
      simp [timedOut, show timeout = palMsgQInfinite from awaits]
    simp only [Phase, fileThreadRead, palReadMsgQ, reader, never]
    exact ⟨awaits, counts, same⟩
  | copy | advance msg =>
    simp only [Phase, fileThreadRead, palReadMsgQ, reader]
    exact ⟨trivial, counts, same⟩
  | wrap msg =>
    simp only [Phase, Received, fileThreadRead, palReadMsgQ, reader]
    refine ⟨⟨trivial, by simp [counts], msg, ?_, rfl⟩, same⟩
    rw [← counts, List.getElem?_concat_length]

end

theorem Received.written (received : state.Received message) (inv : state.Inv) :
    ∃ cells, state.queue.written[state.callbacks.length]? = some cells ∧
      .ofCells cells = message := by
  obtain ⟨-, -, cells, found, same⟩ := received
  exact ⟨cells, FileQueued.getElem?_of_prefix inv.queue.order found, same⟩

theorem Received.request (received : state.Received message) (inv : state.Inv)
    (asks : message.func = .func func) :
    ∃ request, state.accepted[state.callbacks.length]? = some request ∧
      request.func = func ∧ request.Carried message := by
  obtain ⟨cells, found, rfl⟩ := received.written inv
  exact inv.queued.request_of_func found asks

theorem Inv.not_fresh (inv : state.Inv) {number : Nat} {request : FileRequest}
    (found : state.accepted[number]? = some request)
    (terminate : state.terminate = .notCalled) : state.created ≠ false := by
  intro fresh
  rw [(inv.fresh terminate fresh).1] at found
  simp at found

theorem Inv.threadCall (inv : state.Inv)
    (thread : state.thread = .received message) (asks : message.func = .func func)
    (result : FileWord) :
    Inv
      { state with
        executed := state.executed ++ [⟨func, message.args func⟩]
        thread := .calling message func result } := by
  have phase := inv.phase
  simp only [Phase, thread] at phase
  obtain ⟨received, same⟩ := phase
  obtain ⟨request, found, rfl, carried⟩ := received.request inv asks
  have next :
      (state.accepted.map FileRequest.call)[state.executed.length]? =
        some ⟨request.func, message.args request.func⟩ := by
    rw [same, List.getElem?_map, found, carried.call]
    rfl
  exact
    { inv with
      fresh := fun terminate fresh => absurd fresh (inv.not_fresh found terminate)
      executed := MsgQTasks.prefix_append_next inv.executed next
      phase := ⟨received, asks, by simp [same]⟩ }

theorem Inv.threadCallback (inv : state.Inv)
    {result : FileWord} (thread : state.thread = .calling message func result) :
    Inv
      { state with
        callbacks :=
          state.callbacks ++
            [⟨message.callback, message.handle result func, result, message.threadArg func⟩]
        thread := .begin } := by
  have phase := inv.phase
  simp only [Phase, thread] at phase
  obtain ⟨received, asks, ahead⟩ := phase
  obtain ⟨request, found, rfl, carried⟩ := received.request inv asks
  exact
    { inv with
      fresh := fun terminate fresh => absurd fresh (inv.not_fresh found terminate)
      callbacks := by
        intro number callback called
        rcases getElem?_concat_cases called with before | ⟨rfl, rfl⟩
        · exact inv.callbacks number callback before
        · exact ⟨request, found, carried.callback result⟩
      phase := ⟨received.1, by simp [received.2.1], by simp [ahead]⟩ }

theorem Inv.threadExit (inv : state.Inv)
    (thread : state.thread = .received message) (exits : message.func = .null) :
    Inv { state with destroyed := true, thread := .ended } := by
  have phase := inv.phase
  simp only [Phase, thread] at phase
  exact { inv with phase := ⟨phase.2, message, phase.1, exits⟩ }

theorem Inv.thread (inv : state.Inv) (duration : Nat) (result : FileWord) :
    (fileThread state duration result).Inv := by
  cases thread : state.thread with
  | none | ended => simpa only [fileThread, thread] using inv
  | begin => simpa only [fileThread, thread] using inv.threadBegin thread
  | reading => simpa only [fileThread, thread] using inv.threadReading thread duration
  | received message =>
    cases asks : message.func with
    | func func =>
      simpa only [fileThread, thread, asks] using inv.threadCall thread asks result
    | word value =>
      have phase := inv.phase
      simp only [Phase, thread] at phase
      obtain ⟨cells, found, rfl⟩ := phase.1.written inv
      obtain ⟨-, rfl⟩ := inv.queued.last_of_word found asks
      simpa only [fileThread, thread, asks, if_true] using inv.threadExit thread asks
  | calling message func given =>
    simpa only [fileThread, thread] using inv.threadCallback thread

end FileState

end

/-!
# The clients of the asynchronous file requests

Each step of a client keeps the invariant: the one that holds the mutex fills
`msgBuf` and writes it, and the others rely on neither.
-/

section

open Lib

namespace FileState

variable {state after : FileState} {client : Nat}

theorem Inv.move (inv : state.Inv) {before pc : FileClientPc}
    (here : state.clients[client]? = some before) (own : state.Placed client pc)
    (once : AtMostOne (fun pc => pc.creates = true) (state.clients.set client pc))
    (setsInited : before.setsInited = true → pc.setsInited = true)
    (writes : before.writes = true → pc.writes = true) :
    Inv { state with clients := state.clients.set client pc } :=
  { inv with
    once := once
    clients := forall_set own fun other place _ found => inv.clients other place found
    uninited := fun serving fresh => exists_mem_set here setsInited (inv.uninited serving fresh)
    writer := fun busy => (inv.writer busy).imp_left (exists_mem_set here writes) }

theorem Inv.moveOn (inv : state.Inv) {before pc : FileClientPc}
    (here : state.clients[client]? = some before) (own : state.Placed client pc)
    (creates : pc.creates = true → before.creates = true)
    (setsInited : before.setsInited = true → pc.setsInited = true)
    (writes : before.writes = true → pc.writes = true) :
    Inv { state with clients := state.clients.set client pc } :=
  inv.move here own (inv.once.set here creates) setsInited writes

variable {request : FileRequest}

theorem Inv.clientTest (inv : state.Inv)
    (here : state.clients[client]? = some (.testInited request))
    (alone : ∀ pc ∈ state.clients, pc.creates = false) :
    Inv
      { state with
        clients :=
          state.clients.set client
            (if state.inited then .lock request else .palFileInitialize request) } := by
  have terminate : state.terminate = .notCalled := inv.clients client _ here
  by_cases inited : state.inited = true
  · have own : state.Placed client (.lock request) := ⟨inv.inited terminate inited, terminate⟩
    rw [if_pos inited]
    exact inv.moveOn here own (fun wrong => wrong) id id
  · have own : state.Placed client (.palFileInitialize request) :=
      ⟨terminate, by simpa using inited⟩
    rw [if_neg inited]
    refine inv.move here own ?_ (fun wrong => by cases wrong) (fun wrong => by cases wrong)
    exact AtMostOne.set_of_none (fun pc member => by simp [alone pc member]) client _

theorem Inv.not_created (inv : state.Inv)
    (here : state.clients[client]? = some (.palFileInitialize request)) :
    state.created = false := by
  obtain ⟨terminate, fresh⟩ := inv.clients client _ here
  by_contra created
  have made : state.created = true := by simpa using created
  obtain ⟨pc, member, sets⟩ := inv.uninited ⟨made, terminate⟩ fresh
  obtain ⟨other, found⟩ := List.getElem?_of_mem member
  have creates : pc.creates = true := by
    cases pc with
    | setInited request => rfl
    | _ => cases sets
  have same := inv.once other client pc _ found here creates rfl
  subst same
  rw [here] at found
  rw [← Option.some.inj found] at sets
  cases sets

theorem fileMsgQ_inv : fileMsgQ.Inv := MsgQTasks.Inv.init (by decide) (List.length_replicate)

theorem Inv.clientInitialize (inv : state.Inv)
    (here : state.clients[client]? = some (.palFileInitialize request)) :
    Inv
      { state with
        created := true
        destroyed := false
        mutex := none
        queue := fileMsgQ
        thread := .begin
        clients := state.clients.set client (.setInited request) } := by
  have fresh := inv.not_created here
  obtain ⟨terminate, uninited⟩ := inv.clients client _ here
  obtain ⟨noneAccepted, noneExecuted, noneCalled⟩ := inv.fresh terminate fresh
  have made (missing : state.created = true) : False := by
    rw [fresh] at missing
    cases missing
  exact
    { inv with
      queue := fileMsgQ_inv
      entrySize := rfl
      queued := noneAccepted ▸ FileQueued.nil
      even := fun _ => by simp [noneAccepted, fileMsgQ, MsgQTasks.init]
      once := inv.once.set here fun _ => rfl
      clients := by
        refine forall_set ⟨rfl, terminate⟩ fun other place _ found => ?_
        exact (inv.clients other place found).carry rfl (fun _ => rfl) (.inl rfl)
          fun missing _ => (made missing).elim
      uninited := fun _ _ => ⟨.setInited request, mem_set_self _ here, rfl⟩
      inited := fun _ _ => rfl
      writer := fun busy => absurd rfl busy
      fresh := fun _ missing => by cases missing
      phase := by simp [Phase, fileMsgQ, MsgQTasks.init, noneExecuted, noneCalled]
      ending := by simp [Ending, terminate] }

theorem Inv.clientSet (inv : state.Inv)
    (here : state.clients[client]? = some (.setInited request)) :
    Inv
      { state with
        inited := true
        clients := state.clients.set client (.lock request) } := by
  have serving : state.Serving := inv.clients client _ here
  exact
    { inv with
      once := inv.once.set here fun _ => rfl
      clients := by
        refine forall_set serving fun other place differ found => ?_
        refine (inv.clients other place found).carry rfl id (.inr ?_) fun _ _ => ⟨rfl, rfl, rfl⟩
        by_contra creates
        exact differ (inv.once other client _ _ found here (by simpa using creates) rfl)
      uninited := fun _ fresh => by cases fresh
      inited := fun _ _ => serving.1
      writer := fun busy =>
        (inv.writer busy).imp_left (exists_mem_set here fun wrong => by cases wrong) }

theorem Inv.clientLock (inv : state.Inv)
    (here : state.clients[client]? = some (.lock request)) (free : state.mutex = none) :
    Inv
      { state with
        mutex := some client
        clients := state.clients.set client (.fill request request.assignments) } := by
  have serving : state.Serving := inv.clients client _ here
  exact
    { inv with
      once := inv.once.set here fun wrong => wrong
      clients := by
        refine forall_set ⟨serving, rfl, state.msgBuf, rfl⟩ fun other place _ found => ?_
        refine (inv.clients other place found).carry rfl id (.inl rfl) fun _ held => ?_
        rw [free] at held
        cases held
      uninited := fun _ fresh =>
        exists_mem_set here (fun wrong => by cases wrong) (inv.uninited serving fresh)
      writer := fun busy =>
        (inv.writer busy).imp_left (exists_mem_set here fun wrong => by cases wrong) }

theorem not_holds {other : Nat} {holds : Prop} (held : state.mutex = some client)
    (differ : other ≠ client) (wrong : state.mutex = some other) : holds :=
  absurd (Option.some.inj (wrong.symm.trans held)) differ

theorem Inv.clientFill (inv : state.Inv) {next : FileField × FileWord}
    {rest : List (FileField × FileWord)}
    (here : state.clients[client]? = some (.fill request (next :: rest))) :
    Inv
      { state with
        msgBuf := state.msgBuf.assign next
        clients := state.clients.set client (.fill request rest) } := by
  obtain ⟨serving, held, filled⟩ := inv.clients client _ here
  exact
    { inv with
      once := inv.once.set here fun wrong => wrong
      clients := by
        refine forall_set ⟨serving, held, filled⟩ fun other place differ found => ?_
        exact (inv.clients other place found).carry rfl id (.inl rfl)
          fun _ wrong => not_holds held differ wrong
      uninited := fun _ fresh =>
        exists_mem_set here (fun wrong => by cases wrong) (inv.uninited serving fresh)
      writer := fun busy =>
        (inv.writer busy).imp_left (exists_mem_set here fun wrong => by cases wrong)
      ending := by simp [Ending, serving.2] }

theorem Inv.clientStart (inv : state.Inv)
    (here : state.clients[client]? = some (.fill request [])) :
    ∃ queue, fileStartWrite state = some queue ∧
      Inv
        { state with
          queue := queue
          clients := state.clients.set client (.writing request) } := by
  obtain ⟨serving, held, old, filled⟩ := inv.clients client _ here
  have idle := inv.writer_idle here rfl serving.2 held
  refine ⟨_, if_pos ⟨serving.1, idle⟩, ?_⟩
  have start :
      msgQStep state.queue (.callWrite state.msgBuf.cells fileTimeout) =
        { state.queue with
          writer := .start state.msgBuf.cells fileTimeout, writeChanged := false } := by
    simp [msgQStep, idle, inv.entrySize]
  have queueInv := inv.queue.callWrite state.msgBuf.cells fileTimeout
  rw [start] at queueInv ⊢
  exact
    { inv with
      queue := queueInv
      once := inv.once.set here fun wrong => wrong
      clients := by
        refine forall_set ⟨serving, held, ⟨old, filled.symm⟩, ?_⟩ fun other place differ found => ?_
        · intro msg nextWritePtr wrong
          cases wrong
        · exact (inv.clients other place found).carry rfl id (.inl rfl)
            fun _ wrong => not_holds held differ wrong
      uninited := fun _ fresh =>
        exists_mem_set here (fun wrong => by cases wrong) (inv.uninited serving fresh)
      writer := fun _ => .inl ⟨.writing request, mem_set_self _ here, rfl⟩
      ending := by simp [Ending, serving.2] }

theorem Phase.write (phase : state.Phase) (duration : Nat)
    (accepted : List FileRequest) (clients : List FileClientPc) (created : state.created = true) :
    Phase
      { state with
        queue := fileWriteStep state duration
        accepted := accepted
        clients := clients } := by
  obtain ⟨reader, read, -⟩ := fileWriteStep_reader state duration
  cases thread : state.thread with
  | none =>
    simp only [Phase, thread] at phase
    rw [phase.1] at created
    cases created
  | _ => simpa only [Phase, Received, thread, reader, read] using phase

section

variable {duration : Nat} (inv : state.Inv)
  (here : state.clients[client]? = some (.writing request))
  (allowed : state.queue.WriteAllowed (.write duration))

include inv here allowed

/-- A step of the write of the client that holds the mutex, after which these are the
accepted requests and the client is there. -/
theorem Inv.clientWritten {accepted : List FileRequest} {pc : FileClientPc}
    (order : state.accepted <+: accepted)
    (queued : FileQueued accepted (fileWriteStep state duration).written)
    (even : (fileWriteStep state duration).written.length = accepted.length)
    (own : Placed { state with queue := fileWriteStep state duration } client pc)
    (creates : pc.creates = false)
    (busy : (fileWriteStep state duration).writer ≠ .idle → pc.writes = true) :
    Inv
      { state with
        queue := fileWriteStep state duration
        accepted := accepted
        clients := state.clients.set client pc } := by
  obtain ⟨serving, held, -⟩ := inv.clients client _ here
  exact
    { inv with
      queue := fileWriteStep_inv inv.queue inv.entrySize allowed
      entrySize := (fileWriteStep_reader state duration).2.2.trans inv.entrySize
      queued := queued
      even := fun _ => even
      once := inv.once.set here fun wrong => by
        rw [creates] at wrong
        cases wrong
      clients := by
        refine forall_set ?_ fun other place differ found => ?_
        · exact own.carry rfl id (.inl rfl) fun _ _ => ⟨rfl, rfl, rfl⟩
        · exact (inv.clients other place found).carry rfl id (.inl rfl)
            fun _ wrong => not_holds held differ wrong
      uninited := fun _ fresh =>
        exists_mem_set here (fun wrong => by cases wrong) (inv.uninited serving fresh)
      writer := fun working => .inl ⟨pc, mem_set_self pc here, busy working⟩
      fresh := fun _ missing => by
        have created := serving.1
        rw [show state.created = false from missing] at created
        cases created
      executed := inv.executed.trans (order.map FileRequest.call)
      callbacks := by
        intro number callback called
        obtain ⟨older, found, same⟩ := inv.callbacks number callback called
        exact ⟨older, FileQueued.getElem?_of_prefix order found, same⟩
      phase := inv.phase.write duration accepted _ serving.1
      ending := by simp [Ending, serving.2] }

theorem Inv.clientWrite (ok : Bool) :
    Inv
      { (fileClient state client ok duration (.writing request)).1 with
        clients :=
          state.clients.set client
            (fileClient state client ok duration (.writing request)).2 } := by
  obtain ⟨serving, held, carried, publishes⟩ := inv.clients client _ here
  have even : state.queue.written.length = state.accepted.length :=
    inv.even (by simp [Open, serving.2])
  rcases fileWriteStep_cases state duration with
    ⟨msg, nextWritePtr, publish, written, idle⟩ | ⟨written, copies⟩
  · have same :
        fileClient state client ok duration (.writing request) =
          ({ state with
              queue := fileWriteStep state duration
              accepted := state.accepted ++ [request] },
            .unlock) := by
      simp [fileClient, idle, written]
    rw [same]
    refine inv.clientWritten here allowed (List.prefix_append _ _) ?_ ?_ ⟨serving, held⟩ rfl ?_
    · rw [written]
      exact inv.queued.accept even (publishes msg nextWritePtr publish)
    · simp [written, even]
    · exact fun wrong => absurd idle wrong
  · by_cases idle : (fileWriteStep state duration).writer = .idle
    · have same :
          fileClient state client ok duration (.writing request) =
            ({ state with queue := fileWriteStep state duration }, .unlock) := by
        simp [fileClient, idle, written]
      rw [same]
      exact inv.clientWritten here allowed (List.prefix_refl _) (written ▸ inv.queued)
        (by rw [written, even]) ⟨serving, held⟩ rfl (fun wrong => absurd idle wrong)
    · have same :
          fileClient state client ok duration (.writing request) =
            ({ state with queue := fileWriteStep state duration }, .writing request) := by
        simp only [fileClient]
      rw [same]
      refine inv.clientWritten here allowed (List.prefix_refl _) (written ▸ inv.queued)
        (by rw [written, even]) ⟨serving, held, carried, ?_⟩ rfl (fun _ => rfl)
      intro msg nextWritePtr publish
      rw [copies msg nextWritePtr publish, FileMessage.ofCells_cells]
      exact carried

end

theorem Inv.clientUnlock (inv : state.Inv) (here : state.clients[client]? = some .unlock) :
    Inv
      { state with
        mutex := none
        clients := state.clients.set client .idle } := by
  obtain ⟨serving, held⟩ := inv.clients client _ here
  exact
    { inv with
      once := inv.once.set here fun wrong => wrong
      clients := by
        refine forall_set trivial fun other place differ found => ?_
        exact (inv.clients other place found).carry rfl id (.inl rfl)
          fun _ wrong => not_holds held differ wrong
      uninited := fun _ fresh =>
        exists_mem_set here (fun wrong => by cases wrong) (inv.uninited serving fresh)
      writer := fun busy =>
        (inv.writer busy).imp_left (exists_mem_set here fun wrong => by cases wrong) }

theorem Inv.clientStep (inv : state.Inv) {pc : FileClientPc}
    (here : state.clients[client]? = some pc) (ok : Bool) (duration : Nat)
    (allowed : state.Allowed (.client client ok duration)) :
    Inv
      { (fileClient state client ok duration pc).1 with
        clients := state.clients.set client (fileClient state client ok duration pc).2 } := by
  have allowed : state.ClientAllowed duration pc := allowed pc here
  cases pc with
  | idle => exact inv.moveOn here trivial id id id
  | testInited request => exact inv.clientTest here allowed
  | palFileInitialize request =>
    have fresh := inv.not_created here
    cases ok with
    | true =>
      have made :
          fileClient state client true duration (.palFileInitialize request) =
            ({ state with
                created := true
                destroyed := false
                mutex := none
                queue := fileMsgQ
                thread := .begin },
              .setInited request) := by
        simp [fileClient, fresh]
      rw [made]
      exact inv.clientInitialize here
    | false =>
      have failed :
          fileClient state client false duration (.palFileInitialize request) = (state, .idle) := by
        simp [fileClient, fresh]
      rw [failed]
      exact inv.moveOn here trivial (fun wrong => by cases wrong)
        (fun wrong => by cases wrong) (fun wrong => by cases wrong)
  | setInited request => exact inv.clientSet here
  | lock request =>
    have serving : state.Serving := inv.clients client _ here
    cases mutex : state.mutex with
    | none =>
      have locked :
          fileClient state client ok duration (.lock request) =
            ({ state with mutex := some client }, .fill request request.assignments) := by
        simp only [fileClient, serving.1, mutex, if_true]
      rw [locked]
      exact inv.clientLock here mutex
    | some holder =>
      have waits :
          fileClient state client ok duration (.lock request) = (state, .lock request) := by
        simp only [fileClient, serving.1, mutex, if_true]
      rw [waits]
      exact inv.moveOn here serving id id id
  | fill request rest =>
    cases rest with
    | cons next rest => exact inv.clientFill here
    | nil =>
      obtain ⟨queue, started, kept⟩ := inv.clientStart here
      simpa only [fileClient, started] using kept
  | writing request => exact inv.clientWrite here allowed ok
  | unlock => exact inv.clientUnlock here

theorem Inv.call (inv : state.Inv) (here : state.clients[client]? = some .idle)
    (request : FileRequest) (terminate : state.terminate = .notCalled) :
    Inv { state with clients := state.clients.set client (.testInited request) } :=
  inv.moveOn here terminate (fun wrong => by cases wrong) (fun wrong => by cases wrong)
    (fun wrong => by cases wrong)

end FileState

end

end IteSdk.AsyncFile
