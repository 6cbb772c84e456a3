import IteSdk.ItpPosix.ThreadJoin

/-!
# Steps of a detach

What `pthread_detach` writes is what the thread has not read yet.
-/

namespace IteSdk.ItpPosix

section

open Lib

namespace ThreadLife

variable {state : ThreadLife}

theorem Inv.detachSet (inv : state.Inv) (other : state.other = .detachSet)
    (early : state.thread.early = true) : (pthreadDetach state).Inv := by
  obtain ⟨joinable, returned, here, alive, owned⟩ :=
    inv.record_of_called (by simp [other]) (by simp [other]) (by simp [other])
  obtain ⟨-, -, -, unjoined, -⟩ := ThreadPc.of_early early
  have destructed := inv.destructed
  rw [ThreadLife.destroyed, other] at destructed
  rw [other] at owned
  obtain ⟨record, found⟩ := Option.isSome_iff_exists.mp owned
  have recorded := inv.recorded record found
  have same :
      ThreadLife.signals { state with other := .detachTest } = state.signals := by
    simp only [ThreadLife.signals, other]
    rfl
  have step :
      ItpPosix.pthreadDetach state =
        { state with
          record := some { record with joinable := false }, other := .detachTest } := by
    simp only [ItpPosix.pthreadDetach, other, access, found]
  have records := inv.counted.records
  rw [found] at records
  rw [step]
  exact
    { inv with
      possible :=
        { inv.possible with
          called := fun _ => ⟨returned, joinable⟩
          joins := fun joins => by
            rw [unjoined] at joins
            cases joins
          detached := fun _ _ _ => .inr (.inl rfl)
          took := fun wrong => by cases wrong
          killed := fun wrong => by cases wrong
          gone := fun gone => by
            rw [alive] at gone
            cases gone }
      owned := by
        rw [ThreadLife.owned, returned, alive]
        rfl
      recorded := by
        intro next there
        obtain rfl := Option.some.inj there
        exact
          { recorded with
            joinable := by simp [OtherPc.detaches]
            xSemaphore := by
              have attached := recorded.xSemaphore
              rw [other] at attached
              exact attached }
      live := fun there => by
        have live := inv.live (same.symm.trans there)
        rw [other] at live
        exact live
      dead := fun there => inv.dead (same.symm.trans there)
      counted := { inv.counted with records := records }
      otherFits := trivial
      joined := fun value there => by
        have took := (inv.joined value there).2
        rw [other] at took
        cases took
      destructed := destructed }

theorem Possible.detach {joinable : Bool} {creator : CreatePc} {thread : ThreadPc}
    {other next : OtherPc} (possible : Possible joinable creator thread other)
    (called : other ≠ .idle) (alive : thread.gone = false)
    (detaches : other.detaches = true) (nextDetaches : next.detaches = true)
    (untaken : next.took = false) (nextJoined : next ≠ .joined) :
    Possible joinable creator thread next where
  runs := possible.runs
  called := fun _ => possible.called called
  joins := fun joins => by
    have attached := (possible.joins joins).2
    rw [detaches] at attached
    cases attached
  detached := fun _ _ _ => .inr (.inl nextDetaches)
  took := fun took => by
    rw [untaken] at took
    cases took
  killed := fun joined => absurd joined nextJoined
  gone := fun gone => by
    rw [alive] at gone
    cases gone

theorem Inv.record_of_detaches (inv : state.Inv) (detaches : state.other.detaches = true)
    (kept : state.other ≠ .detached) :
    state.other ≠ .idle ∧ state.creator = .returned .ok ∧ state.thread.gone = false ∧
      state.thread ≠ .sleeping ∧ state.other.took = false ∧
      ∃ record, state.record = some record ∧ state.Recorded record ∧ record.xSemaphore = true := by
  have called : state.other ≠ .idle := by
    intro idle
    rw [idle] at detaches
    cases detaches
  have joined : state.other ≠ .joined := by
    intro joined
    rw [joined] at detaches
    cases detaches
  obtain ⟨-, returned, here, alive, owned⟩ := inv.record_of_called called joined kept
  have awake : state.thread ≠ .sleeping := by
    intro asleep
    have attached := (inv.possible.joins (by rw [asleep]; rfl)).2
    rw [detaches] at attached
    cases attached
  have notDeleted : state.thread ≠ .deleted := by
    intro deleted
    rw [deleted] at alive
    cases alive
  have took := inv.not_took awake notDeleted
  obtain ⟨freed, -⟩ := OtherPc.of_not_took took
  rw [freed] at owned
  obtain ⟨record, found⟩ := Option.isSome_iff_exists.mp owned
  have recorded := inv.recorded record found
  exact
    ⟨called, returned, alive, awake, took, record, found, recorded,
      recorded.attached inv called kept⟩

theorem Inv.detachDelete (inv : state.Inv) {found : Bool}
    (other : state.other = .detachDelete found) : (pthreadDetach state).Inv := by
  have fits := inv.otherFits
  rw [other] at fits
  obtain rfl : found = true := fits
  have detaches : state.other.detaches = true := by rw [other]; rfl
  obtain ⟨called, returned, alive, awake, took, -⟩ :=
    inv.record_of_detaches detaches (by simp [other])
  obtain ⟨-, live⟩ := inv.live_of_called called (by rw [other]; rfl)
  have destructed := inv.destructed
  rw [ThreadLife.destroyed, other] at destructed
  have step :
      ItpPosix.pthreadDetach state =
        { state with
          semaphore := .deleted
          deletes := state.deletes + 1
          other := .detachClear } := by
    simp only [ItpPosix.pthreadDetach, other, deleteSemaphore, useSemaphore, live]
  rw [step]
  exact
    { inv with
      possible := inv.possible.detach called alive detaches rfl rfl (by simp)
      owned := by
        rw [inv.owned, ThreadLife.owned, ThreadLife.owned, other]
        rfl
      recorded := fun record there => by
        have recorded := inv.recorded record there
        exact
          { recorded with
            joinable := by
              rw [recorded.joinable, other]
              rfl
            xSemaphore := by
              rw [recorded.xSemaphore, other]
              rfl }
      live := fun wrong => by simp [ThreadLife.signals, OtherPc.dropped] at wrong
      dead := fun _ => rfl
      counted :=
        { inv.counted with
          semaphores := by
            have semaphores := inv.counted.semaphores
            rw [live] at semaphores
            exact semaphores }
      otherFits := trivial
      joined := fun value same => by
        have taken := (inv.joined value same).2
        rw [took] at taken
        cases taken
      destructed := destructed }

theorem Inv.detachClear (inv : state.Inv) (other : state.other = .detachClear) :
    (pthreadDetach state).Inv := by
  have detaches : state.other.detaches = true := by rw [other]; rfl
  obtain ⟨called, returned, alive, awake, took, record, found, recorded, -⟩ :=
    inv.record_of_detaches detaches (by simp [other])
  have destructed := inv.destructed
  rw [ThreadLife.destroyed, other] at destructed
  have dead : state.semaphore.isLive = false := by
    refine inv.dead ?_
    rw [ThreadLife.signals, other]
    simp [OtherPc.dropped]
  have records := inv.counted.records
  rw [found] at records
  have step :
      ItpPosix.pthreadDetach state =
        { state with
          record := some { record with xSemaphore := false }, other := .detached } := by
    simp only [ItpPosix.pthreadDetach, other, access, found]
  rw [step]
  exact
    { inv with
      possible := inv.possible.detach called alive detaches rfl rfl (by simp)
      owned := by
        rw [ThreadLife.owned, returned, alive]
        rfl
      recorded := by
        intro next there
        obtain rfl := Option.some.inj there
        exact
          { recorded with
            joinable := by
              rw [recorded.joinable, other]
              rfl
            xSemaphore := by simp }
      live := fun wrong => by simp [ThreadLife.signals, OtherPc.dropped] at wrong
      dead := fun _ => dead
      counted := { inv.counted with records := records }
      otherFits := trivial
      joined := fun value same => by
        have taken := (inv.joined value same).2
        rw [took] at taken
        cases taken
      destructed := destructed }

theorem Inv.pthreadDetach (inv : state.Inv) {pc : OtherPc} (other : state.other = pc)
    (allowed : state.Allowed .other) : (pthreadDetach state).Inv := by
  have destructed := inv.destructed
  rw [ThreadLife.destroyed, other] at destructed
  cases pc with
  | detachTag =>
    have step :
        ItpPosix.pthreadDetach state = { state with other := .detachSet } := by
      simp only [ItpPosix.pthreadDetach, other]
    rw [step]
    refine inv.otherMove ?_ trivial inv.joined destructed
    rw [other]
    exact ⟨by simp, by simp, by simp, by simp, by simp, rfl, rfl, rfl, rfl⟩
  | detachSet => exact inv.detachSet other (allowed other)
  | detachTest =>
    obtain ⟨-, -, -, -, -, record, found, -, attached⟩ :=
      inv.record_of_detaches (by rw [other]; rfl) (by simp [other])
    have step :
        ItpPosix.pthreadDetach state = { state with other := .detachReread } := by
      simp only [ItpPosix.pthreadDetach, other, access, found, attached, if_true]
    rw [step]
    refine inv.otherMove ?_ trivial inv.joined destructed
    rw [other]
    exact ⟨by simp, by simp, by simp, by simp, by simp, rfl, rfl, rfl, rfl⟩
  | detachReread =>
    obtain ⟨-, -, -, -, -, record, found, -, attached⟩ :=
      inv.record_of_detaches (by rw [other]; rfl) (by simp [other])
    have step :
        ItpPosix.pthreadDetach state =
          { state with other := .detachDelete record.xSemaphore } := by
      simp only [ItpPosix.pthreadDetach, other, access, found]
    rw [step]
    refine inv.otherMove ?_ attached inv.joined destructed
    rw [other]
    exact ⟨by simp, by simp, by simp, by simp, by simp, rfl, rfl, rfl, rfl⟩
  | detachDelete found => exact inv.detachDelete other
  | detachClear => exact inv.detachClear other
  | _ =>
    have step : ItpPosix.pthreadDetach state = state := by simp only [ItpPosix.pthreadDetach, other]
    rw [step]
    exact inv

end ThreadLife

end

/-!
# Runs of a thread

The record has one owner after the other: the creator, the thread that ends detached
or waits to be joined, and the one that joins it.
-/

section

open Lib

namespace ThreadLife

variable {state : ThreadLife}

theorem length_pthreadKeyCreate (dtor : BitVec 32) (keys : List ThreadKey) :
    (pthreadKeyCreate dtor keys).length = keys.length := by
  induction keys with
  | nil => rfl
  | cons key keys ih =>
    rw [pthreadKeyCreate]
    split
    · simp [ih]
    · simp

theorem length_setKey (key : Nat) (change : ThreadKey → ThreadKey)
    (keys : List ThreadKey) : (setKey key change keys).length = keys.length := by
  rw [setKey]
  split
  · split
    · simp
    · rfl
  · rfl

theorem Inv.routineKeys (inv : state.Inv) {change : List ThreadKey → List ThreadKey}
    (length : ∀ keys, (change keys).length = keys.length) :
    (state.routineKeys change).Inv := by
  cases thread : state.thread with
  | routine =>
    have early : state.thread.early = true := by rw [thread]; rfl
    obtain ⟨here, awake, alive, -⟩ := ThreadPc.of_early early
    obtain ⟨record, found, owned, recorded⟩ := inv.record_of_awake here awake alive
    have step :
        state.routineKeys change =
          { state with
            record := some { record with keys := change record.keys }
            thread := .routine } := by
      simp only [ThreadLife.routineKeys, thread, access, found]
    have ends := inv.ends
    rw [thread] at ends
    rw [step]
    refine inv.threadEarly owned early rfl ?_ ends inv.finalKeys
    exact
      { recorded with
        xHandle := fun _ => recorded.xHandle (by rw [thread]; rfl)
        keys := (length record.keys).trans recorded.keys
        finished := fun wrong => by cases wrong }
  | _ => simpa only [ThreadLife.routineKeys, thread] using inv

theorem Inv.finish (inv : state.Inv) (thread : state.thread = .routine)
    (value : BitVec 32) (exits : Bool) :
    Inv { state with thread := .setValue value exits } := by
  have early : state.thread.early = true := by rw [thread]; rfl
  obtain ⟨here, awake, alive, -⟩ := ThreadPc.of_early early
  obtain ⟨record, found, owned, recorded⟩ := inv.record_of_awake here awake alive
  have ends := inv.ends
  rw [thread] at ends
  have moved :
      Inv { state with record := some record, thread := .setValue value exits } := by
    refine inv.threadEarly owned early rfl ?_ ends inv.finalKeys
    exact
      { recorded with
        xHandle := fun _ => recorded.xHandle (by rw [thread]; rfl)
        finished := fun wrong => by cases wrong }
  rw [← found] at moved
  exact moved

theorem Inv.callOther (inv : state.Inv) (joinable : state.joinable = true) {pc : OtherPc}
    (fits : pc.Fits) (places : pc.took = false ∧ pc.dropped = false ∧ pc.freed = false)
    (detaches : pc.detaches = false) (idle : pc ≠ .joined) (kept : pc ≠ .detached) :
    (state.callOther pc).Inv := by
  simp only [ThreadLife.callOther]
  split
  · next both =>
    obtain ⟨returned, other⟩ := both
    obtain ⟨took, dropped, freed⟩ := places
    have same : ThreadLife.signals { state with other := pc } = state.signals := by
      simp only [ThreadLife.signals, other, dropped]
      rfl
    exact
      { inv with
        possible :=
          { inv.possible with
            called := fun _ => ⟨returned, joinable⟩
            joins := fun _ => ⟨joinable, detaches⟩
            detached := fun here late unjoined => by
              have possible := inv.possible.detached here late unjoined
              rw [joinable, other] at possible
              rcases possible with no | detached | joined
              · cases no
              · cases detached
              · cases joined
            took := fun wrong => by
              rw [took] at wrong
              cases wrong
            killed := fun joined => absurd joined idle
            gone := fun _ => ⟨returned, fun wrong => by
              rw [detaches] at wrong
              cases wrong⟩ }
        owned := by
          rw [inv.owned, ThreadLife.owned, ThreadLife.owned, other, freed]
          rfl
        recorded := fun record found => by
          have recorded := inv.recorded record found
          exact
            { recorded with
              joinable := by
                rw [recorded.joinable, other, detaches]
                rfl
              xSemaphore := by
                rw [recorded.xSemaphore, other, beq_false_of_ne kept]
                rfl }
        live := fun there => by
          have live := inv.live (same.symm.trans there)
          rw [other] at live
          rw [took]
          exact live
        dead := fun there => inv.dead (same.symm.trans there)
        counted := { inv.counted with }
        otherFits := fits
        joined := fun value there => by
          have taken := (inv.joined value there).2
          rw [other] at taken
          cases taken
        destructed := by
          obtain ⟨-, zero⟩ := OtherPc.of_not_took took
          have destructed := inv.destructed
          rw [ThreadLife.destroyed, other] at destructed
          rw [ThreadLife.destroyed, zero]
          exact destructed }
  · exact inv

theorem Inv.step (inv : state.Inv) {event : ThreadEvent} (allowed : state.Allowed event) :
    (threadStep state event).Inv := by
  cases event with
  | create ok => exact inv.itpPthreadCreate ok
  | thread => exact inv.vTaskCode allowed rfl
  | keyCreate dtor => exact inv.routineKeys (length_pthreadKeyCreate dtor)
  | keyDelete key | setSpecific key value => exact inv.routineKeys (length_setKey key _)
  | finish value exits =>
    simp only [threadStep]
    split
    · next thread => exact inv.finish thread value exits
    · exact inv
  | callJoin wants | callDetach =>
    exact inv.callOther allowed trivial ⟨rfl, rfl, rfl⟩ rfl (by simp) (by simp)
  | other =>
    simp only [threadStep]
    split
    all_goals first | exact inv.pthreadDetach rfl allowed | exact inv.pthreadJoin rfl

theorem Inv.init (joinable : Bool) (startRoutine arg : BitVec 32) :
    Inv (.init joinable startRoutine arg) where
  fault := rfl
  possible :=
    { runs := by simp [ThreadLife.init, CreatePc.runs]
      called := fun wrong => absurd rfl wrong
      joins := fun wrong => by cases wrong
      detached := fun wrong => absurd rfl wrong
      took := fun wrong => by cases wrong
      killed := fun wrong => by cases wrong
      gone := fun wrong => by cases wrong }
  owned := rfl
  recorded := fun _ wrong => by cases wrong
  live := fun wrong => by simp [ThreadLife.signals, ThreadLife.init, CreatePc.made] at wrong
  dead := fun _ => rfl
  counted :=
    { records := rfl
      semaphores := rfl
      allocs := Nat.zero_le 1
      makes := Nat.zero_le 1
      unallocated := fun _ => rfl
      unmade := fun _ => rfl }
  threadFits := trivial
  otherFits := trivial
  ends := Nat.le_of_eq (Nat.zero_add _)
  joined := fun _ wrong => by cases wrong
  finalKeys := Nat.zero_le _
  destructed := rfl

theorem Inv.released (inv : state.Inv) (finished : state.finished = true) :
    state.record.isSome = false ∧ state.semaphore.isLive = false := by
  cases creator : state.creator with
  | returned result =>
    cases result with
    | ok =>
      rw [ThreadLife.finished, creator] at finished
      have deleted : state.thread = .deleted := by simpa using finished
      refine ⟨?_, inv.dead ?_⟩
      · rw [inv.owned, ThreadLife.owned, deleted]
        simp [ThreadPc.gone]
      · have gone := inv.possible.gone (by rw [deleted]; rfl)
        have possible :=
          inv.possible.detached (by simp [deleted]) (by rw [deleted]; rfl) (by rw [deleted]; rfl)
        rcases possible with no | detaches | joined
        · simp [ThreadLife.signals, no]
        · simp [ThreadLife.signals, gone.2 detaches, OtherPc.dropped]
        · simp [ThreadLife.signals, joined, OtherPc.dropped]
    | _ =>
      refine ⟨?_, inv.dead ?_⟩
      · rw [inv.owned, ThreadLife.owned, creator]
        rfl
      · simp [ThreadLife.signals, creator, CreatePc.made]
  | _ =>
    rw [ThreadLife.finished, creator] at finished
    cases finished

theorem dtorRuns_take_prefix (keys : List ThreadKey) (count : Nat) :
    dtorRuns (keys.take count) <+: dtorRuns keys :=
  (List.take_prefix count keys).filterMap _

theorem Inv.safe (inv : state.Inv) : state.Safe where
  fault := inv.fault
  frees := by
    have records := inv.counted.records
    omega
  allocs := inv.counted.allocs
  deletes := by
    have semaphores := inv.counted.semaphores
    omega
  makes := inv.counted.makes
  released := fun finished => by
    obtain ⟨missing, dead⟩ := inv.released finished
    have records := inv.counted.records
    have semaphores := inv.counted.semaphores
    rw [missing] at records
    rw [dead] at semaphores
    exact ⟨records.symm, semaphores.symm⟩
  detached := fun detached => by
    by_contra wrong
    obtain ⟨joinable, attached⟩ := inv.possible.joins (by simpa using wrong)
    simp [isDetached, joinable, attached] at detached
  ends := inv.ends
  joined := fun value there => (inv.joined value there).1
  destructed := by
    rw [inv.destructed]
    exact dtorRuns_take_prefix _ _
  allDestructed := fun deleted => by
    have all : state.finalKeys.length ≤ state.destroyed := by
      rw [ThreadLife.destroyed, deleted]
      exact Nat.le_trans inv.finalKeys (Nat.le_max_left _ _)
    rw [inv.destructed, List.take_of_length_le all]

end ThreadLife

/-- In every run of a thread, with any results of the kernel and any keys, whose steps
meet the conditions, the record and the semaphore are freed once and not used after
that, a detached thread releases them, and the join returns the result. -/
theorem thread_safe (joinable : Bool) (startRoutine arg : BitVec 32)
    (events : List ThreadEvent)
    (allowed :
      AllowedAlong ThreadLife.Allowed threadStep (.init joinable startRoutine arg) events) :
    (events.foldl threadStep (.init joinable startRoutine arg)).Safe := by
  refine
    (Run.invariant (ThreadLife.Inv.init joinable startRoutine arg) ?_
      (Run.guarded_foldl allowed)).safe
  intro before event after inv step
  rw [step.2]
  exact inv.step step.1

def joinedThread : List ThreadEvent :=
  List.replicate 4 (.create true) ++ List.replicate 3 .thread ++
    [.keyCreate 7, .setSpecific 0 5, .finish 42 false, .callJoin true] ++
    List.replicate 4 .thread ++ List.replicate 18 .other

theorem thread_safe_joined :
    let last := joinedThread.foldl threadStep (.init true 1 2)
    last.Safe ∧ last.thread = .deleted ∧ last.joined = some 42 ∧
      last.destructed = [(7, 5)] ∧ last.frees = 1 ∧ last.deletes = 1 :=
  ⟨thread_safe true 1 2 joinedThread (by decide +kernel), by decide +kernel⟩

/-- A thread that is created detached and ends before `itpPthreadCreate` writes its
handle. -/
def shortThread : List ThreadEvent :=
  List.replicate 3 (.create true) ++ List.replicate 3 .thread ++ [.finish 42 false] ++
    List.replicate 13 .thread ++ [.create true]

def lateDetach : List ThreadEvent :=
  List.replicate 4 (.create true) ++ List.replicate 3 .thread ++
    [.finish 42 false] ++ List.replicate 4 .thread ++ [.callDetach] ++
    List.replicate 6 .other

/-- The first uses a record that has been freed; the second is never freed. -/
theorem thread_unsafe :
    (shortThread.foldl threadStep (.init false 1 2)).fault = true ∧
      ¬ (shortThread.foldl threadStep (.init false 1 2)).Safe ∧
      (let detached := lateDetach.foldl threadStep (.init true 1 2)
      detached.isDetached = true ∧ detached.thread = .sleeping ∧ detached.frees = 0 ∧
        ¬ detached.Safe ∧
        ∀ steps,
          (List.replicate steps ThreadEvent.thread).foldl threadStep detached = detached) := by
  have fault : (shortThread.foldl threadStep (.init false 1 2)).fault = true := by decide +kernel
  refine ⟨fault, fun safe => ?_, by decide +kernel, by decide +kernel, by decide +kernel,
    fun safe => ?_, fun steps => ?_⟩
  · rw [safe.fault] at fault
    cases fault
  · have joins :
        (lateDetach.foldl threadStep (.init true 1 2)).thread.joins = true := by
      decide +kernel
    rw [safe.detached (by decide +kernel)] at joins
    cases joins
  · induction steps with
    | zero => rfl
    | succ steps sleeps =>
      have same :
          threadStep (lateDetach.foldl threadStep (.init true 1 2)) .thread =
            lateDetach.foldl threadStep (.init true 1 2) := by
        decide +kernel
      rw [List.replicate_succ, List.foldl_cons, same, sleeps]

end

end IteSdk.ItpPosix
