import IteSdk.AsyncFile.FileInv

/-!
# Runs of the asynchronous file requests

A request that a client has written to the queue is executed and called back in its
turn as long as one client at a time makes the queue and the thread, `PalFileTerminate`
is called when no request is under way, and none is issued after it.
-/

namespace IteSdk.AsyncFile

open Lib

namespace FileState

variable {state : FileState} {client : Nat}

theorem Inv.terminated (inv : state.Inv) (idle : ∀ pc ∈ state.clients, pc = .idle)
    (started : state.thread ≠ .none) {terminate : FileTerminatePc}
    (called : terminate ≠ .notCalled) {queue : MsgQTasks FileWord} (kept : queue.Inv)
    (frame :
      queue.reader = state.queue.reader ∧ queue.read = state.queue.read ∧
        queue.queue.entrySize = state.queue.queue.entrySize)
    (queued : FileQueued state.accepted queue.written)
    (even :
      Open { state with terminate := terminate } → queue.written.length = state.accepted.length)
    (writer : queue.writer ≠ .idle → terminate = .writing) {msgBuf : FileMessage} {created : Bool}
    (ending :
      Ending
        { state with
          created := created
          msgBuf := msgBuf
          queue := queue
          terminate := terminate }) :
    Inv
      { state with
        created := created
        msgBuf := msgBuf
        queue := queue
        terminate := terminate } := by
  obtain ⟨reader, read, entrySize⟩ := frame
  exact
    { inv with
      queue := kept
      entrySize := entrySize.trans inv.entrySize
      queued := queued
      even := even
      clients := fun client pc found => by
        rw [idle pc (List.mem_of_getElem? found)]
        trivial
      uninited := fun serving => absurd serving.2 called
      inited := fun wrong => absurd wrong called
      writer := fun busy => .inr (writer busy)
      fresh := fun wrong => absurd wrong called
      phase := by
        have phase := inv.phase
        cases thread : state.thread with
        | none => exact absurd thread started
        | _ => simpa only [Phase, Received, thread, reader, read] using phase
      ending := ending }

theorem Inv.started_of_created (inv : state.Inv) (created : state.created = true) :
    state.thread ≠ .none := by
  intro missing
  have phase := inv.phase
  simp only [Phase, missing] at phase
  rw [phase.1] at created
  cases created

theorem Inv.started_of_terminate (inv : state.Inv)
    (called : state.terminate ≠ .notCalled) : state.thread ≠ .none := by
  intro missing
  have phase := inv.phase
  simp only [Phase, missing] at phase
  exact called phase.2

theorem Inv.writer_of_idle (inv : state.Inv) (idle : ∀ pc ∈ state.clients, pc = .idle)
    (busy : state.queue.writer ≠ .idle) : state.terminate = .writing := by
  rcases inv.writer busy with ⟨pc, member, writes⟩ | writing
  · rw [idle pc member] at writes
    cases writes
  · exact writing

theorem Inv.callTerminate (inv : state.Inv) (allowed : state.Allowed .callTerminate) :
    Inv { state with terminate := .setFunc } := by
  obtain ⟨created, terminate, idle⟩ := allowed
  refine inv.terminated idle (inv.started_of_created created)
    (fun wrong => by cases wrong) inv.queue ⟨rfl, rfl, rfl⟩ inv.queued
    (fun _ => inv.even (by simp [Open, terminate]))
    (fun busy => ?_) created
  have writing := inv.writer_of_idle idle busy
  rw [terminate] at writing
  cases writing

variable {duration : Nat}

theorem Inv.terminateWrite (inv : state.Inv) (writing : state.terminate = .writing)
    (allowed : state.queue.WriteAllowed (.write duration)) :
    (filePalTerminate state duration).Inv := by
  have called : state.terminate ≠ .notCalled := by simp [writing]
  have idle := inv.idle_of_terminate called
  have started := inv.started_of_terminate called
  have kept := fileWriteStep_inv inv.queue inv.entrySize allowed
  have even : state.queue.written.length = state.accepted.length :=
    inv.even (by simp [Open, writing])
  have ending := inv.ending
  simp only [Ending, writing] at ending
  obtain ⟨blank, publishes⟩ := ending
  rcases fileWriteStep_cases state duration with
    ⟨msg, nextWritePtr, publish, written, ended⟩ | ⟨written, copies⟩
  · have same :
        filePalTerminate state duration =
          { state with
            queue := fileWriteStep state duration, terminate := .waiting } := by
      simp [filePalTerminate, writing, ended, written]
    rw [same]
    refine inv.terminated idle started (fun wrong => by cases wrong) kept
      (fileWriteStep_reader state duration) ?_ (by simp [Open])
      (fun busy => absurd ended busy) trivial
    rw [written]
    exact inv.queued.exit even (publishes msg nextWritePtr publish)
  · by_cases ended : (fileWriteStep state duration).writer = .idle
    · have same :
          filePalTerminate state duration =
            { state with
              queue := fileWriteStep state duration, terminate := .returned } := by
        simp [filePalTerminate, writing, ended, written]
      rw [same]
      exact inv.terminated idle started (fun wrong => by cases wrong) kept
        (fileWriteStep_reader state duration) (written ▸ inv.queued) (by simp [Open])
        (fun busy => absurd ended busy) trivial
    · have same :
          filePalTerminate state duration =
            { state with
              queue := fileWriteStep state duration, terminate := .writing } := by
        simp only [filePalTerminate, writing]
      rw [same]
      refine inv.terminated idle started (fun wrong => by cases wrong) kept
        (fileWriteStep_reader state duration) (written ▸ inv.queued)
        (fun _ => by rw [written, even]) (fun _ => rfl) ⟨blank, ?_⟩
      intro msg nextWritePtr publish
      rw [copies msg nextWritePtr publish, FileMessage.ofCells_cells]
      exact blank

theorem Inv.terminate (inv : state.Inv) (allowed : state.queue.WriteAllowed (.write duration)) :
    (filePalTerminate state duration).Inv := by
  cases terminate : state.terminate with
  | notCalled | returned => simpa only [filePalTerminate, terminate] using inv
  | writing => exact inv.terminateWrite terminate allowed
  | setFunc =>
    have called : state.terminate ≠ .notCalled := by simp [terminate]
    have idle := inv.idle_of_terminate called
    have ending := inv.ending
    simp only [Ending, terminate] at ending
    simp only [filePalTerminate, terminate]
    refine inv.terminated idle (inv.started_of_terminate called)
      (fun wrong => by cases wrong) inv.queue ⟨rfl, rfl, rfl⟩ inv.queued
      (fun _ => inv.even (by simp [Open, terminate])) (fun busy => ?_) ⟨ending, rfl⟩
    have writing := inv.writer_of_idle idle busy
    rw [terminate] at writing
    cases writing
  | startWrite =>
    have called : state.terminate ≠ .notCalled := by simp [terminate]
    have idle := inv.idle_of_terminate called
    have ending := inv.ending
    simp only [Ending, terminate] at ending
    have rests : state.queue.writer = .idle := by
      by_contra busy
      have writing := inv.writer_of_idle idle busy
      rw [terminate] at writing
      cases writing
    have start :
        fileStartWrite state =
          some
            { state.queue with
              writer := .start state.msgBuf.cells fileTimeout
              writeChanged := false } := by
      simp [fileStartWrite, msgQStep, ending.1, rests, inv.entrySize]
    have queueInv := inv.queue.callWrite state.msgBuf.cells fileTimeout
    simp only [msgQStep, rests, FileMessage.length_cells, inv.entrySize, if_true] at queueInv
    simp only [filePalTerminate, terminate, start]
    exact inv.terminated idle (inv.started_of_terminate called)
      (fun wrong => by cases wrong) queueInv ⟨rfl, rfl, rfl⟩ inv.queued
      (fun _ => inv.even (by simp [Open, terminate])) (fun _ => rfl)
      ⟨ending.2, fun _ _ wrong => by cases wrong⟩
  | waiting =>
    simp only [filePalTerminate, terminate]
    split
    · have called : state.terminate ≠ .notCalled := by simp [terminate]
      have idle := inv.idle_of_terminate called
      refine inv.terminated idle (inv.started_of_terminate called)
        (fun wrong => by cases wrong) inv.queue ⟨rfl, rfl, rfl⟩ inv.queued
        (by simp [Open]) (fun busy => ?_) trivial
      have writing := inv.writer_of_idle idle busy
      rw [terminate] at writing
      cases writing
    · exact inv
  | destroy =>
    have called : state.terminate ≠ .notCalled := by simp [terminate]
    have idle := inv.idle_of_terminate called
    simp only [filePalTerminate, terminate]
    refine inv.terminated idle (inv.started_of_terminate called)
      (fun wrong => by cases wrong) inv.queue ⟨rfl, rfl, rfl⟩ inv.queued
      (by simp [Open]) (fun busy => ?_) trivial
    have writing := inv.writer_of_idle idle busy
    rw [terminate] at writing
    cases writing

theorem Inv.step (inv : state.Inv) {event : FileEvent} (allowed : state.Allowed event) :
    (fileStep state event).Inv := by
  cases event with
  | call client request =>
    simp only [fileStep]
    split
    · next here => exact inv.call here request allowed
    · exact inv
  | client client ok duration =>
    simp only [fileStep]
    cases here : state.clients[client]? with
    | some pc => exact inv.clientStep here ok duration allowed
    | none => exact inv
  | thread duration result => exact inv.thread duration result
  | callTerminate =>
    have same :
        fileStep state .callTerminate = { state with terminate := .setFunc } := by
      simp [fileStep, allowed.2.1]
    rw [same]
    exact inv.callTerminate allowed
  | terminate duration => exact inv.terminate allowed

theorem Inv.init (clients : Nat) : Inv (.init clients) where
  fault := rfl
  queue := fileMsgQ_inv
  entrySize := rfl
  queued := .nil
  even := fun _ => rfl
  once := AtMostOne.of_none fun pc member => by
    simp [List.eq_of_mem_replicate member, FileClientPc.creates]
  clients := fun client pc found => by
    rw [List.eq_of_mem_replicate (List.mem_of_getElem? found)]
    trivial
  uninited := fun serving => by cases serving.1
  inited := fun _ wrong => by cases wrong
  writer := fun busy => absurd rfl busy
  fresh := fun _ _ => ⟨rfl, rfl, rfl⟩
  executed := List.prefix_refl []
  callbacks := fun _ _ found => by simp [FileState.init] at found
  phase := ⟨rfl, rfl⟩
  ending := trivial

theorem Inv.counts (inv : state.Inv) :
    state.callbacks.length ≤ state.executed.length ∧
      state.executed.length ≤ state.callbacks.length + 1 := by
  have phase := inv.phase
  cases thread : state.thread with
  | none =>
    simp only [Phase, thread] at phase
    obtain ⟨-, noneExecuted, noneCalled⟩ := inv.fresh phase.2 phase.1
    simp [noneExecuted, noneCalled]
  | begin | reading | calling message func result =>
    simp only [Phase, thread] at phase
    simp [phase.2.2]
  | received message =>
    simp only [Phase, thread] at phase
    simp [phase.2]
  | ended =>
    simp only [Phase, thread] at phase
    simp [phase.1]

theorem Inv.ordered (inv : state.Inv) : state.Ordered FileRequest.threadArg where
  fault := inv.fault
  executed := inv.executed
  callbacks := inv.callbacks
  finished := inv.counts.1
  current := inv.counts.2

/-! ## Progress -/

/-- How many steps the file thread needs for the next callback, if there is a message
for it. -/
def left (state : FileState) : Nat :=
  match state.thread with
  | .begin => 7
  | .reading =>
    match state.queue.reader with
    | .idle => 0
    | .sleep _ => 7
    | .test _ => 6
    | .copy => 5
    | .advance _ => 4
    | .wrap _ => 3
  | .received _ => 2
  | .calling .. => 1
  | .none | .ended => 0

theorem left_le (state : FileState) : state.left ≤ 7 := by
  simp only [left]
  split
  · omega
  · split <;> omega
  all_goals omega

theorem Inv.left_thread (inv : state.Inv)
    (behind : state.callbacks.length < state.accepted.length) (duration : Nat) (result : FileWord) :
    0 < state.left ∧
        state.callbacks.length < (fileThread state duration result).callbacks.length ∨
      (fileThread state duration result).callbacks = state.callbacks ∧
        (fileThread state duration result).left < state.left := by
  have phase := inv.phase
  cases thread : state.thread with
  | none =>
    simp only [Phase, thread] at phase
    rw [(inv.fresh phase.2 phase.1).1] at behind
    exact absurd behind (Nat.not_lt_zero _)
  | begin =>
    simp only [Phase, thread] at phase
    simp [fileThread, left, thread, msgQStep, phase.1]
  | reading =>
    simp only [Phase, thread] at phase
    obtain ⟨awaits, counts, -⟩ := phase
    refine .inr ?_
    cases reader : state.queue.reader with
    | idle =>
      rw [reader] at awaits
      exact awaits.elim
    | test timeout =>
      have more : state.queue.read.length < state.queue.written.length := by
        rw [counts]
        exact Nat.lt_of_lt_of_le behind inv.queued.counted
      have wide : 0 < state.queue.queue.entrySize := by simp [inv.entrySize]
      have differ := inv.queue.pointers_ne reader wide more
      simp [fileThread, left, thread, palReadMsgQ, fileThreadRead, reader, differ]
    | sleep timeout =>
      rw [reader] at awaits
      have never : timedOut timeout duration = false := by
        simp [timedOut, show timeout = palMsgQInfinite from awaits]
      simp [fileThread, left, thread, palReadMsgQ, fileThreadRead, reader, never]
    | copy | wrap msg => simp [fileThread, left, thread, palReadMsgQ, fileThreadRead, reader]
    | advance msg =>
      simp [fileThread, left, thread, palReadMsgQ, fileThreadRead, reader]
  | received message =>
    refine .inr ?_
    cases asks : message.func with
    | func func => simp [fileThread, left, thread, asks]
    | word value =>
      by_cases exits : value = 0
      · simp [fileThread, left, thread, asks, exits]
      · simp only [Phase, thread] at phase
        obtain ⟨cells, found, rfl⟩ := phase.1.written inv
        exact absurd (inv.queued.last_of_word found asks).2 exits
  | calling message func given => simp [fileThread, left, thread]
  | ended =>
    simp only [Phase, thread] at phase
    obtain ⟨-, message, received, exits⟩ := phase
    obtain ⟨cells, found, rfl⟩ := received.written inv
    have last := (inv.queued.last_of_word found exits).1
    omega

def isThread : FileEvent → Bool
  | .thread _ _ => true
  | _ => false

/-- What the file thread is doing is the same in both states. -/
def SameThread (state after : FileState) : Prop :=
  after.thread = state.thread ∧ after.queue.reader = state.queue.reader ∧
    after.callbacks = state.callbacks

theorem SameThread.left_eq {after : FileState} (same : state.SameThread after) :
    after.left = state.left := by
  simp only [left, same.1, same.2.1]

theorem fileStartWrite_reader {queue : MsgQTasks FileWord}
    (started : fileStartWrite state = some queue) :
    queue.reader = state.queue.reader := by
  simp only [fileStartWrite] at started
  split at started
  · next both =>
    obtain rfl := Option.some.inj started
    simp only [msgQStep, both.2]
    split <;> rfl
  · cases started

theorem fileClient_sameThread {ok : Bool} {pc : FileClientPc}
    (made : ∀ request, pc = .palFileInitialize request → state.created = true) :
    state.SameThread (fileClient state client ok duration pc).1 := by
  cases pc with
  | palFileInitialize request =>
    simp [fileClient, made request rfl, SameThread]
  | lock request =>
    simp only [fileClient]
    split
    · split <;> exact ⟨rfl, rfl, rfl⟩
    · exact ⟨rfl, rfl, rfl⟩
  | fill request rest =>
    cases rest with
    | cons next rest => exact ⟨rfl, rfl, rfl⟩
    | nil =>
      simp only [fileClient]
      split
      · next queue started => exact ⟨rfl, fileStartWrite_reader started, rfl⟩
      · exact ⟨rfl, rfl, rfl⟩
  | writing request =>
    simp only [fileClient]
    split <;> exact ⟨rfl, (fileWriteStep_reader state duration).1, rfl⟩
  | _ => exact ⟨rfl, rfl, rfl⟩

theorem filePalTerminate_sameThread (duration : Nat) :
    state.SameThread (filePalTerminate state duration) := by
  cases terminate : state.terminate with
  | startWrite =>
    simp only [filePalTerminate, terminate]
    split
    · next queue started => exact ⟨rfl, fileStartWrite_reader started, rfl⟩
    · exact ⟨rfl, rfl, rfl⟩
  | writing =>
    simp only [filePalTerminate, terminate]
    split <;> exact ⟨rfl, (fileWriteStep_reader state duration).1, rfl⟩
  | waiting =>
    simp only [filePalTerminate, terminate]
    split <;> exact ⟨rfl, rfl, rfl⟩
  | _ => simp [filePalTerminate, terminate, SameThread]

theorem Inv.sameThread (inv : state.Inv) {event : FileEvent} (other : isThread event = false)
    (behind : state.callbacks.length < state.accepted.length) :
    state.SameThread (fileStep state event) := by
  cases event with
  | call client request | callTerminate =>
    simp only [fileStep]
    split <;> exact ⟨rfl, rfl, rfl⟩
  | client client ok duration =>
    simp only [fileStep]
    split
    · next pc here =>
      refine fileClient_sameThread ?_
      rintro request rfl
      have fresh := inv.not_created here
      have terminate := (inv.clients client _ here).1
      rw [(inv.fresh terminate fresh).1] at behind
      exact absurd behind (Nat.not_lt_zero _)
    · exact ⟨rfl, rfl, rfl⟩
  | thread duration result => cases other
  | terminate duration => exact filePalTerminate_sameThread duration

def Grows (state after : FileState) : Prop :=
  state.accepted.length ≤ after.accepted.length ∧ state.callbacks.length ≤ after.callbacks.length

theorem Grows.of_eq {after : FileState} (accepted : after.accepted = state.accepted)
    (callbacks : after.callbacks = state.callbacks) : state.Grows after := by
  rw [Grows, accepted, callbacks]
  exact ⟨Nat.le_refl _, Nat.le_refl _⟩

theorem fileThread_grows (duration : Nat) (result : FileWord) :
    state.Grows (fileThread state duration result) := by
  cases thread : state.thread with
  | received message =>
    simp only [fileThread, thread]
    split
    · exact .of_eq rfl rfl
    · split <;> exact .of_eq rfl rfl
  | calling message func given => simp [fileThread, thread, Grows]
  | _ =>
    simp only [fileThread, thread]
    exact .of_eq rfl rfl

theorem fileClient_grows (ok : Bool) (duration : Nat) (pc : FileClientPc) :
    state.Grows (fileClient state client ok duration pc).1 := by
  cases pc with
  | palFileInitialize request =>
    simp only [fileClient]
    split
    · exact .of_eq rfl rfl
    · split <;> exact .of_eq rfl rfl
  | lock request =>
    simp only [fileClient]
    split
    · split <;> exact .of_eq rfl rfl
    · exact .of_eq rfl rfl
  | fill request rest =>
    cases rest with
    | cons next rest => exact .of_eq rfl rfl
    | nil =>
      simp only [fileClient]
      split <;> exact .of_eq rfl rfl
  | writing request =>
    simp only [fileClient]
    split
    · simp only [Grows]
      split <;> simp
    · exact .of_eq rfl rfl
  | _ => exact .of_eq rfl rfl

theorem filePalTerminate_grows (duration : Nat) :
    state.Grows (filePalTerminate state duration) := by
  cases terminate : state.terminate with
  | startWrite | writing | waiting =>
    simp only [filePalTerminate, terminate]
    split <;> exact .of_eq rfl rfl
  | _ =>
    simp only [filePalTerminate, terminate]
    exact .of_eq rfl rfl

theorem grows (state : FileState) (event : FileEvent) : state.Grows (fileStep state event) := by
  cases event with
  | call client request | callTerminate =>
    simp only [fileStep]
    split <;> exact .of_eq rfl rfl
  | client client ok duration =>
    simp only [fileStep]
    split
    · next pc _ => exact fileClient_grows ok duration pc
    · exact .of_eq rfl rfl
  | thread duration result => exact fileThread_grows duration result
  | terminate duration => exact filePalTerminate_grows duration

theorem grows_foldl (state : FileState) (events : List FileEvent) :
    state.Grows (events.foldl fileStep state) := by
  induction events generalizing state with
  | nil => exact .of_eq rfl rfl
  | cons event events ih =>
    have first := grows state event
    have later := ih (fileStep state event)
    exact ⟨first.1.trans later.1, first.2.trans later.2⟩

theorem Inv.left_pos (inv : state.Inv)
    (behind : state.callbacks.length < state.accepted.length) : 0 < state.left := by
  rcases inv.left_thread behind 0 .null with ⟨positive, -⟩ | ⟨-, less⟩
  · exact positive
  · exact Nat.lt_of_le_of_lt (Nat.zero_le _) less

/-- With as many steps of the file thread as it needs, whatever happens in between,
the next callback is called. -/
theorem Inv.progress (inv : state.Inv) {events : List FileEvent}
    (allowed : AllowedAlong Allowed fileStep state events)
    (behind : state.callbacks.length < state.accepted.length)
    (steps : state.left ≤ events.countP isThread) :
    state.callbacks.length < (events.foldl fileStep state).callbacks.length := by
  induction events generalizing state with
  | nil =>
    rw [List.countP_nil] at steps
    exact absurd (inv.left_pos behind) (Nat.not_lt_of_le steps)
  | cons event events ih =>
    have next := inv.step allowed.1
    have first := grows state event
    have later := grows_foldl (fileStep state event) events
    rw [List.foldl_cons]
    cases other : isThread event with
    | true =>
      rw [List.countP_cons, other, if_pos rfl] at steps
      cases event with
      | thread duration result =>
        rcases inv.left_thread behind duration result with
          ⟨-, called⟩ | ⟨same, less⟩
        · exact Nat.lt_of_lt_of_le called later.2
        · rw [← congrArg List.length same]
          refine ih next allowed.2 ?_ (Nat.le_of_lt_succ (Nat.lt_of_lt_of_le less steps))
          exact (congrArg List.length same).trans_lt (Nat.lt_of_lt_of_le behind first.1)
      | _ => cases other
    | false =>
      have same := inv.sameThread other behind
      rw [List.countP_cons, other] at steps
      rw [← same.2.2]
      refine ih next allowed.2 ?_ ?_
      · rw [same.2.2]
        exact Nat.lt_of_lt_of_le behind first.1
      · simpa [same.left_eq] using steps

end FileState

/-- In a run of any clients, the file thread and `PalFileTerminate` that meets the
conditions, with any timings and results: the accepted requests are executed and called
back one after the other, and whenever one has not been called back, the next callback
comes before the file thread has made seven more steps. -/
theorem fileRequests_ordered (clients : Nat) (events : List FileEvent)
    (allowed : AllowedAlong FileState.Allowed fileStep (.init clients) events) :
    (events.foldl fileStep (.init clients)).Ordered FileRequest.threadArg ∧
      ∀ done rest, events = done ++ rest →
        (done.foldl fileStep (.init clients)).callbacks.length <
            (done.foldl fileStep (.init clients)).accepted.length →
          7 ≤ rest.countP FileState.isThread →
            (done.foldl fileStep (.init clients)).callbacks.length <
              (events.foldl fileStep (.init clients)).callbacks.length := by
  have kept :
      ∀ events, AllowedAlong FileState.Allowed fileStep (.init clients) events →
        (events.foldl fileStep (.init clients)).Inv := by
    intro events allowed
    refine Run.invariant (FileState.Inv.init clients) ?_ (Run.guarded_foldl allowed)
    intro before event after inv step
    rw [step.2]
    exact inv.step step.1
  refine ⟨(kept events allowed).ordered, ?_⟩
  rintro done rest rfl behind steps
  obtain ⟨before, later⟩ := allowed.of_append
  rw [List.foldl_append]
  exact (kept done before).progress later behind ((FileState.left_le _).trans steps)

/-- A call of `PalFileOpenWriteClose` by the only client, and its execution. -/
def onceRequest : FileRequest := .openWriteClose 1 2 3 4 5 6

def onceEvents : List FileEvent :=
  .call 0 onceRequest :: List.replicate 16 (.client 0 true 0) ++ List.replicate 7 (.thread 0 .null)

theorem fileRequests_ordered_once :
    (onceEvents.foldl fileStep (.init 1)).Ordered FileRequest.threadArg :=
  (fileRequests_ordered 1 onceEvents (by decide)).1

/-- The callback does not get the argument of the client. -/
theorem fileRequests_callbackArg :
    ¬ (onceEvents.foldl fileStep (.init 1)).Ordered FileRequest.callbackArg := by
  intro ordered
  have called :
      (onceEvents.foldl fileStep (.init 1)).callbacks[0]? =
        some ⟨.word 5, .null, .null, .word 2⟩ := by
    decide
  have accepted :
      (onceEvents.foldl fileStep (.init 1)).accepted[0]? = some onceRequest := by
    decide
  obtain ⟨request, found, same⟩ := ordered.callbacks 0 _ called
  obtain rfl := Option.some.inj (accepted.symm.trans found)
  revert same
  decide

end IteSdk.AsyncFile
