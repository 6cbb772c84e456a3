import IteSdk.ItpPosix.Thread

/-!
# Steps of the thread

Up to its look at `detachstate` the thread changes nothing that is shared; from there
on it either waits to be joined, or owns the record and frees it.
-/

namespace IteSdk.ItpPosix

open Lib

namespace ThreadLife

variable {state : ThreadLife}

theorem Possible.thread {joinable : Bool} {creator : CreatePc} {thread next : ThreadPc}
    {other : OtherPc} (possible : Possible joinable creator thread other)
    (here : thread ≠ .none) (there : next ≠ .none) (awake : thread ≠ .sleeping)
    (alive : thread ≠ .deleted)
    (joins : next.joins = true → joinable = true ∧ other.detaches = false)
    (detached :
      next.early = false → next.joins = false →
        joinable = false ∨ other.detaches = true ∨ other = .joined)
    (gone :
      next.gone = true → creator = .returned .ok ∧ (other.detaches = true → other = .detached)) :
    Possible joinable creator next other where
  runs := ⟨fun wrong => absurd wrong there, fun stops => absurd (possible.runs.mpr stops) here⟩
  called := possible.called
  joins := joins
  detached := fun _ => detached
  took := fun took joined => absurd (possible.took took joined) awake
  killed := fun joined => absurd (possible.killed joined) alive
  gone := gone

theorem Inv.not_took (inv : state.Inv) (awake : state.thread ≠ .sleeping)
    (alive : state.thread ≠ .deleted) : state.other.took = false := by
  by_contra took
  have taken : state.other.took = true := by simpa using took
  by_cases joined : state.other = .joined
  · exact alive (inv.possible.killed joined)
  · exact awake (inv.possible.took taken joined)

theorem Inv.owned_eq (inv : state.Inv) (owned : state.record.isSome = true) :
    state.creator.owns = true ∧ state.thread.gone = false ∧ state.other.freed = false := by
  rw [inv.owned, ThreadLife.owned] at owned
  simpa [and_assoc] using owned

variable {endSteps : Nat} {next : ThreadPc} {record : ItpThread}

section

variable (inv : state.Inv)

include inv

variable {started : Option (BitVec 32 × BitVec 32)} {result : Option (BitVec 32)}
  {finalKeys : List ThreadKey}

theorem Inv.threadMove {destructed : List (BitVec 32 × BitVec 32)}
    (owned : state.record.isSome = true) (here : state.thread ≠ .none) (there : next ≠ .none)
    (awake : state.thread ≠ .sleeping) (stays : next ≠ .sleeping) (lives : next.gone = false)
    (joins : next.joins = true → state.joinable = true ∧ state.other.detaches = false)
    (detached :
      next.early = false → next.joins = false →
        state.joinable = false ∨ state.other.detaches = true ∨ state.other = .joined)
    (recorded :
      Recorded { state with thread := next, result := result, finalKeys := finalKeys } record)
    (fits : next.Fits) (ends : endSteps + next.left ≤ pthreadKeysMax + 6)
    (keys : finalKeys.length ≤ pthreadKeysMax)
    (runs : destructed = dtorRuns (finalKeys.take next.destroyed)) :
    Inv
      { state with
        record := some record
        thread := next
        started := started
        result := result
        finalKeys := finalKeys
        destructed := destructed
        endSteps := endSteps } := by
  obtain ⟨owns, alive, freed⟩ := inv.owned_eq owned
  have notDeleted : state.thread ≠ .deleted := by
    intro deleted
    rw [deleted] at alive
    cases alive
  have took := inv.not_took awake notDeleted
  obtain ⟨-, destroyed⟩ := OtherPc.of_not_took took
  exact
    { fault := inv.fault
      possible :=
        inv.possible.thread here there awake notDeleted joins detached fun wrong => by
          rw [lives] at wrong
          cases wrong
      owned := by simp [ThreadLife.owned, owns, lives, freed]
      recorded := by
        intro other same
        obtain rfl := Option.some.inj same
        exact { recorded with }
      live := by
        intro signals
        have live := inv.live signals
        rw [if_neg fun asleep => awake asleep.1] at live
        rw [if_neg fun asleep => stays asleep.1]
        exact live
      dead := inv.dead
      counted :=
        { inv.counted with
          records := by
            have records := inv.counted.records
            rw [owned] at records
            exact records }
      threadFits := fits
      otherFits := inv.otherFits
      ends := ends
      joined := by
        intro value same
        have taken := (inv.joined value same).2
        rw [took] at taken
        cases taken
      finalKeys := keys
      destructed := by rw [runs, ThreadLife.destroyed, destroyed, Nat.max_zero] }

theorem Inv.creator_of_runs (here : state.thread ≠ .none) :
    state.creator = .publish ∨ state.creator = .returned .ok := by
  have runs : state.creator.runs = true := by
    by_contra stops
    exact here (inv.possible.runs.mpr (by simpa using stops))
  cases creator : state.creator with
  | publish => exact .inl rfl
  | returned result =>
    rw [creator] at runs
    cases result with
    | ok => exact .inr rfl
    | _ => cases runs
  | _ =>
    rw [creator] at runs
    cases runs

theorem Inv.record_of_awake (here : state.thread ≠ .none) (awake : state.thread ≠ .sleeping)
    (alive : state.thread.gone = false) :
    ∃ record, state.record = some record ∧ state.record.isSome = true ∧ state.Recorded record := by
  have notDeleted : state.thread ≠ .deleted := by
    intro deleted
    rw [deleted] at alive
    cases alive
  obtain ⟨freed, -⟩ := OtherPc.of_not_took (inv.not_took awake notDeleted)
  have runs : state.creator.runs = true := by
    by_contra stops
    exact here (inv.possible.runs.mpr (by simpa using stops))
  have owned : state.record.isSome = true := by
    rw [inv.owned]
    simp [ThreadLife.owned, CreatePc.owns_of_runs runs, alive, freed]
  obtain ⟨record, found⟩ := Option.isSome_iff_exists.mp owned
  exact ⟨record, found, owned, inv.recorded record found⟩

theorem Inv.withEndSteps (ends : endSteps + state.thread.left ≤ pthreadKeysMax + 6) :
    Inv { state with endSteps := endSteps } :=
  { inv with
    recorded := fun record found => { inv.recorded record found with }
    counted := { inv.counted with }
    ends := ends }

theorem Inv.threadStays (stays : ItpPosix.vTaskCode state = state)
    (ending : state.thread.ending = false) :
    Inv
      { vTaskCode state with
        endSteps := state.endSteps + (if state.thread.ending then 1 else 0) } := by
  rw [stays, ending]
  exact inv.withEndSteps inv.ends

theorem Inv.destructed_nil (awake : state.thread ≠ .sleeping) (alive : state.thread.gone = false)
    (none_ : state.thread.destroyed = 0) :
    state.destructed = [] := by
  have notDeleted : state.thread ≠ .deleted := by
    intro deleted
    rw [deleted] at alive
    cases alive
  obtain ⟨-, zero⟩ := OtherPc.of_not_took (inv.not_took awake notDeleted)
  rw [inv.destructed, ThreadLife.destroyed, none_, zero]
  rfl

theorem Inv.threadEarly (owned : state.record.isSome = true) (early : state.thread.early = true)
    (nextEarly : next.early = true)
    (recorded :
      Recorded { state with thread := next, result := result, finalKeys := finalKeys } record)
    (ends : endSteps + next.left ≤ pthreadKeysMax + 6) (keys : finalKeys.length ≤ pthreadKeysMax) :
    Inv
      { state with
        record := some record
        thread := next
        started := started
        result := result
        finalKeys := finalKeys
        endSteps := endSteps } := by
  obtain ⟨here, awake, alive, -, unstarted, -⟩ := ThreadPc.of_early early
  obtain ⟨there, stays, lives, unjoined, none_, fits⟩ := ThreadPc.of_early nextEarly
  refine inv.threadMove owned here there awake stays lives ?_ ?_ recorded fits ends keys ?_
  · intro joins
    rw [unjoined] at joins
    cases joins
  · intro late
    rw [nextEarly] at late
    cases late
  · rw [inv.destructed_nil awake alive unstarted, none_]
    rfl

end

theorem Recorded.late (recorded : state.Recorded record)
    (finished : state.thread.finished = true) (next : ThreadPc)
    (handled : state.thread.handled = true) :
    Recorded { state with thread := next } record :=
  { recorded with
    xHandle := fun _ => recorded.xHandle handled
    finished := fun _ => recorded.finished finished }

theorem Inv.threadLate (inv : state.Inv) {destructed : List (BitVec 32 × BitVec 32)}
    (found : state.record = some record) (late : state.thread.late = true)
    (nextLate : next.late = true) (fits : next.Fits)
    (ends : endSteps + next.left ≤ pthreadKeysMax + 6)
    (runs : destructed = dtorRuns (state.finalKeys.take next.destroyed)) :
    Inv
      { state with
        thread := next
        destructed := destructed
        endSteps := endSteps } := by
  have owned : state.record.isSome = true := by simp [found]
  obtain ⟨here, awake, -, unjoined, notEarly, finished, handled⟩ := ThreadPc.of_late late
  obtain ⟨there, stays, lives, nextUnjoined, nextNotEarly, -⟩ := ThreadPc.of_late nextLate
  have detached := inv.possible.detached here notEarly unjoined
  have recorded := (inv.recorded record found).late finished next handled
  have moved :
      Inv
        { state with
          record := some record
          thread := next
          destructed := destructed
          endSteps := endSteps } := by
    refine inv.threadMove owned here there awake stays lives ?_ (fun _ _ => detached)
      recorded fits ends inv.finalKeys runs
    intro joins
    rw [nextUnjoined] at joins
    cases joins
  rw [← found] at moved
  exact moved

theorem destroyKey_eq {keys : List ThreadKey} (key : Nat) {done : ThreadLife}
    (here : done.destructed = dtorRuns (keys.take key)) :
    done.destroyKey keys key = { done with destructed := dtorRuns (keys.take (key + 1)) } := by
  simp only [destroyKey]
  cases found : keys[key]? with
  | none =>
    have short := List.getElem?_eq_none_iff.mp found
    rw [List.take_of_length_le (by omega)] at here
    rw [List.take_of_length_le (by omega), ← here]
  | some next =>
    rw [List.take_add_one, found, Option.toList_some, dtorRuns, List.filterMap_append,
      ← dtorRuns, ← here]
    by_cases calls : next.calls = true
    · simp [calls]
    · simp [calls]

section

variable (inv : state.Inv)

include inv

theorem Inv.threadReadDetach {exits : Bool} (thread : state.thread = .readDetach exits) :
    Inv { vTaskCode state with endSteps := state.endSteps + 1 } := by
  have ends := inv.ends
  rw [thread] at ends
  have early : state.thread.early = true := by rw [thread]; rfl
  obtain ⟨here, awake, alive, -, unstarted, -⟩ := ThreadPc.of_early early
  obtain ⟨record, found, owned, recorded⟩ := inv.record_of_awake here awake alive
  have kept (next : ThreadPc) : Recorded { state with thread := next } record :=
    { recorded with
      xHandle := fun _ => recorded.xHandle (by rw [thread]; rfl)
      finished := fun _ => recorded.finished (by rw [thread]; rfl) }
  cases joinable : record.joinable with
  | true =>
    have step :
        ItpPosix.vTaskCode state =
          { state with record := some record, thread := .readSemaphore } := by
      simp only [ItpPosix.vTaskCode, thread, access, found, joinable, if_true]
    have joins : state.joinable = true ∧ state.other.detaches = false := by
      simpa [recorded.joinable] using joinable
    rw [step]
    refine inv.threadMove owned here (by simp) awake (by simp) rfl (fun _ => joins)
      (fun _ wrong => by cases wrong) (kept _) trivial ?_ inv.finalKeys ?_
    · simp only [ThreadPc.left] at ends ⊢
      omega
    · exact inv.destructed_nil awake alive unstarted
  | false =>
    have step :
        ItpPosix.vTaskCode state =
          { state with record := some record, thread := .destroy exits 0 } := by
      simp [ItpPosix.vTaskCode, thread, access, found, joinable]
    have detached : state.joinable = false ∨ state.other.detaches = true := by
      have same := recorded.joinable.symm.trans joinable
      cases whole : state.joinable with
      | false => exact .inl rfl
      | true => exact .inr (by simpa [whole] using same)
    rw [step]
    refine inv.threadMove owned here (by simp) awake (by simp) rfl
      (fun wrong => by cases wrong) (fun _ _ => detached.imp_right .inl) (kept _) trivial
      ?_ inv.finalKeys ?_
    · simp only [ThreadPc.left] at ends ⊢
      omega
    · exact inv.destructed_nil awake alive unstarted

theorem Inv.threadReadSemaphore (thread : state.thread = .readSemaphore) :
    Inv { vTaskCode state with endSteps := state.endSteps + 1 } := by
  have ends := inv.ends
  rw [thread] at ends
  have here : state.thread ≠ .none := by simp [thread]
  have awake : state.thread ≠ .sleeping := by simp [thread]
  have alive : state.thread.gone = false := by rw [thread]; rfl
  obtain ⟨record, found, owned, recorded⟩ := inv.record_of_awake here awake alive
  have joins := inv.possible.joins (by rw [thread]; rfl)
  have step :
      ItpPosix.vTaskCode state =
        { state with record := some record, thread := .give record.xSemaphore } := by
    simp only [ItpPosix.vTaskCode, thread, access, found]
  have runs : state.creator.made = true := by
    rcases inv.creator_of_runs here with publish | returned
    · rw [publish]
      rfl
    · rw [returned]
      rfl
  have attached : record.xSemaphore = true := by
    rw [recorded.xSemaphore, joins.1, runs]
    cases other : state.other with
    | detached =>
      rw [other] at joins
      cases joins.2
    | _ => rfl
  rw [step]
  refine inv.threadMove owned here (by simp) awake (by simp) rfl (fun _ => joins)
    (fun _ wrong => by cases wrong) ?_ attached ?_ inv.finalKeys ?_
  · exact
      { recorded with
        xHandle := fun _ => recorded.xHandle (by rw [thread]; rfl)
        finished := fun _ => recorded.finished (by rw [thread]; rfl) }
  · simp only [ThreadPc.left] at ends ⊢
    omega
  · exact inv.destructed_nil awake alive (by rw [thread]; rfl)

theorem Inv.live_of_joins (joins : state.thread.joins = true) (awake : state.thread ≠ .sleeping) :
    state.signals = true ∧ state.semaphore = .live 0 := by
  have here : state.thread ≠ .none := by
    intro none_
    rw [none_] at joins
    cases joins
  have alive : state.thread ≠ .deleted := by
    intro deleted
    rw [deleted] at joins
    cases joins
  obtain ⟨joinable, attached⟩ := inv.possible.joins joins
  have took := inv.not_took awake alive
  have made : state.creator.made = true := by
    rcases inv.creator_of_runs here with publish | returned
    · rw [publish]
      rfl
    · rw [returned]
      rfl
  have there := OtherPc.not_dropped took attached
  have signals : state.signals = true := by simp [ThreadLife.signals, joinable, made, there]
  have live := inv.live signals
  rw [if_neg fun asleep => awake asleep.1] at live
  exact ⟨signals, live⟩

theorem Inv.threadGive {found : Bool} (thread : state.thread = .give found) :
    Inv { vTaskCode state with endSteps := state.endSteps + 1 } := by
  have ends := inv.ends
  have fits := inv.threadFits
  rw [thread] at ends fits
  obtain rfl : found = true := fits
  have joins : state.thread.joins = true := by rw [thread]; rfl
  have awake : state.thread ≠ .sleeping := by simp [thread]
  have here : state.thread ≠ .none := by simp [thread]
  have alive : state.thread.gone = false := by rw [thread]; rfl
  have notDeleted : state.thread ≠ .deleted := by simp [thread]
  obtain ⟨signals, live⟩ := inv.live_of_joins joins awake
  have took := inv.not_took awake notDeleted
  obtain ⟨freed, zero⟩ := OtherPc.of_not_took took
  obtain ⟨record, found, owned, recorded⟩ := inv.record_of_awake here awake alive
  obtain ⟨owns, -⟩ := inv.owned_eq owned
  have step :
      ItpPosix.vTaskCode state = { state with semaphore := .live 1, thread := .sleeping } := by
    simp only [ItpPosix.vTaskCode, thread, useSemaphore, live]
  rw [step]
  exact
    { inv with
      possible :=
        inv.possible.thread here (by simp) awake notDeleted
          (fun _ => inv.possible.joins joins) (fun _ wrong => by cases wrong)
          (fun wrong => by cases wrong)
      owned := by
        rw [owned]
        simp [ThreadLife.owned, owns, freed, ThreadPc.gone]
      recorded := by
        intro other same
        have kept := inv.recorded other same
        exact
          { kept with
            xHandle := fun _ => kept.xHandle (by rw [thread]; rfl)
            finished := fun _ => kept.finished (by rw [thread]; rfl) }
      live := fun _ => by simp [took]
      dead := fun wrong => by
        rw [ThreadLife.signals] at wrong signals
        rw [signals] at wrong
        cases wrong
      counted :=
        { inv.counted with
          semaphores := by
            have semaphores := inv.counted.semaphores
            rw [live] at semaphores
            exact semaphores }
      threadFits := trivial
      ends := by
        simp only [ThreadPc.left] at ends ⊢
        omega
      destructed := by
        have nothing := inv.destructed_nil awake alive (by rw [thread]; rfl)
        rw [ThreadLife.destroyed, zero]
        exact nothing }

theorem Inv.record_of_late (late : state.thread.late = true) :
    ∃ record, state.record = some record ∧ state.Recorded record ∧
      state.finalKeys = record.keys ∧ state.other.freed = false ∧
      state.other.took = false ∧
      state.destructed = dtorRuns (state.finalKeys.take state.thread.destroyed) := by
  obtain ⟨here, awake, alive, -, -, finished, -⟩ := ThreadPc.of_late late
  obtain ⟨record, found, owned, recorded⟩ := inv.record_of_awake here awake alive
  have notDeleted : state.thread ≠ .deleted := by
    intro deleted
    rw [deleted] at alive
    cases alive
  have took := inv.not_took awake notDeleted
  obtain ⟨freed, zero⟩ := OtherPc.of_not_took took
  have destructed := inv.destructed
  rw [ThreadLife.destroyed, zero, Nat.max_zero] at destructed
  exact ⟨record, found, recorded, (recorded.finished finished).2, freed, took, destructed⟩

theorem Inv.threadDestroy {exits : Bool} {key : Nat} (thread : state.thread = .destroy exits key) :
    Inv { vTaskCode state with endSteps := state.endSteps + 1 } := by
  have ends := inv.ends
  rw [thread] at ends
  have late : state.thread.late = true := by rw [thread]; rfl
  obtain ⟨record, found, -, same, -, -, destructed⟩ := inv.record_of_late late
  rw [thread] at destructed
  by_cases more : key < pthreadKeysMax
  · have runs := destroyKey_eq key (same ▸ destructed)
    have step :
        ItpPosix.vTaskCode state =
          { state with
            destructed := dtorRuns (record.keys.take (key + 1))
            thread := .destroy exits (key + 1) } := by
      simp only [ItpPosix.vTaskCode, thread, if_pos more, access, found, runs]
    rw [step]
    refine inv.threadLate found late rfl trivial ?_ (same ▸ rfl)
    simp only [ThreadPc.left] at ends ⊢
    omega
  · have all : state.finalKeys.take key = state.finalKeys.take pthreadKeysMax := by
      rw [List.take_of_length_le inv.finalKeys,
        List.take_of_length_le (Nat.le_trans inv.finalKeys (Nat.not_lt.mp more))]
    simp only [ThreadPc.left] at ends
    cases exits with
    | true =>
      have step :
          ItpPosix.vTaskCode state = { state with thread := .readHandle } := by
        simp only [ItpPosix.vTaskCode, thread, if_neg more, if_true]
      rw [step]
      refine inv.threadLate found late rfl trivial ?_ (destructed.trans (all ▸ rfl))
      simp only [ThreadPc.left]
      omega
    | false =>
      have step :
          ItpPosix.vTaskCode state = { state with thread := .free threadHandle } := by
        simp [ItpPosix.vTaskCode, thread, more]
      rw [step]
      refine inv.threadLate found late rfl rfl ?_ (destructed.trans (all ▸ rfl))
      simp only [ThreadPc.left]
      omega

theorem Inv.threadReadHandle (thread : state.thread = .readHandle) :
    Inv { vTaskCode state with endSteps := state.endSteps + 1 } := by
  have ends := inv.ends
  rw [thread] at ends
  have late : state.thread.late = true := by rw [thread]; rfl
  obtain ⟨record, found, recorded, -, -, -, destructed⟩ := inv.record_of_late late
  rw [thread] at destructed
  have step :
      ItpPosix.vTaskCode state = { state with thread := .free record.xHandle } := by
    simp only [ItpPosix.vTaskCode, thread, access, found]
  rw [step]
  refine inv.threadLate found late rfl (recorded.xHandle (by rw [thread]; rfl)) ?_ destructed
  simp only [ThreadPc.left] at ends ⊢
  omega

theorem Inv.threadFree {xHandle : Nat} (thread : state.thread = .free xHandle)
    (allowed : state.Allowed .thread) :
    Inv { vTaskCode state with endSteps := state.endSteps + 1 } := by
  have ends := inv.ends
  have fits := inv.threadFits
  have late : state.thread.late = true := by rw [thread]; rfl
  obtain ⟨record, found, -, -, freed, took, destructed⟩ := inv.record_of_late late
  obtain ⟨here, awake, -, unjoined, notEarly, -⟩ := ThreadPc.of_late late
  rw [thread] at ends fits destructed
  have step :
      ItpPosix.vTaskCode state =
        { state with
          record := none, frees := state.frees + 1, thread := .delete xHandle } := by
    simp only [ItpPosix.vTaskCode, thread, freeRecord, access, found]
  rw [step]
  exact
    { inv with
      possible :=
        inv.possible.thread here (by simp) awake (by simp [thread])
          (fun wrong => by cases wrong)
          (fun _ _ => inv.possible.detached here notEarly unjoined)
          (fun _ => allowed xHandle thread)
      owned := by simp [ThreadLife.owned, ThreadPc.gone]
      recorded := fun _ wrong => by cases wrong
      live := fun signals => by
        have live := inv.live signals
        rw [if_neg fun asleep => awake asleep.1] at live
        rw [live]
        simp
      counted :=
        { inv.counted with
          records := by
            have records := inv.counted.records
            rw [found] at records
            simpa using records }
      threadFits := fits
      ends := by
        simp only [ThreadPc.left] at ends ⊢
        omega
      destructed := by
        obtain ⟨-, zero⟩ := OtherPc.of_not_took took
        rw [ThreadLife.destroyed, zero]
        exact destructed }

theorem Inv.threadDelete {xHandle : Nat} (thread : state.thread = .delete xHandle) :
    Inv { vTaskCode state with endSteps := state.endSteps + 1 } := by
  have ends := inv.ends
  have fits := inv.threadFits
  have gone : state.thread.gone = true := by rw [thread]; rfl
  have here : state.thread ≠ .none := by simp [thread]
  have awake : state.thread ≠ .sleeping := by simp [thread]
  have alive : state.thread ≠ .deleted := by simp [thread]
  have detached := inv.possible.detached here (by rw [thread]; rfl) (by rw [thread]; rfl)
  obtain ⟨-, zero⟩ := OtherPc.of_not_took (inv.not_took awake alive)
  rw [thread] at ends fits
  obtain rfl : xHandle = threadHandle := fits
  have step : ItpPosix.vTaskCode state = { state with thread := .deleted } := by
    simp only [ItpPosix.vTaskCode, thread, deleteTask, if_true]
  rw [step]
  exact
    { inv with
      possible :=
        inv.possible.thread here (by simp) awake alive (fun wrong => by cases wrong)
          (fun _ _ => detached) (fun _ => inv.possible.gone gone)
      owned := by
        rw [inv.owned, ThreadLife.owned, ThreadLife.owned, gone]
        rfl
      recorded := fun record found => by
        have owned := inv.owned
        rw [found] at owned
        simp [ThreadLife.owned, gone] at owned
      live := fun signals => by
        have live := inv.live signals
        rw [if_neg fun asleep => awake asleep.1] at live
        rw [live]
        simp
      counted := { inv.counted with }
      threadFits := trivial
      ends := by
        simp only [ThreadPc.left] at ends ⊢
        omega
      destructed := by
        have destructed := inv.destructed
        rw [ThreadLife.destroyed, zero, thread] at destructed
        rw [ThreadLife.destroyed, zero]
        exact destructed }

theorem Inv.vTaskCode (allowed : state.Allowed .thread) {pc : ThreadPc}
    (thread : state.thread = pc) :
    Inv
      { vTaskCode state with
        endSteps := state.endSteps + (if state.thread.ending then 1 else 0) } := by
  have ends := inv.ends
  rw [thread] at ends
  cases pc with
  | none | routine | sleeping | deleted =>
    have stays : ItpPosix.vTaskCode state = state := by simp only [ItpPosix.vTaskCode, thread]
    exact inv.threadStays stays (by simp only [thread, ThreadPc.ending])
  | setHandle =>
    have early : state.thread.early = true := by rw [thread]; rfl
    obtain ⟨here, awake, alive, -⟩ := ThreadPc.of_early early
    obtain ⟨record, found, owned, recorded⟩ := inv.record_of_awake here awake alive
    have step :
        ItpPosix.vTaskCode state =
          { state with
            record := some { record with xHandle := threadHandle }
            thread := .setTag } := by
      simp only [ItpPosix.vTaskCode, thread, access, found]
    rw [step, thread]
    refine inv.threadEarly owned early rfl ?_ ends inv.finalKeys
    exact
      { recorded with
        xHandle := fun _ => rfl
        finished := fun wrong => by cases wrong }
  | setTag =>
    have early : state.thread.early = true := by rw [thread]; rfl
    obtain ⟨here, awake, alive, -⟩ := ThreadPc.of_early early
    obtain ⟨record, found, owned, recorded⟩ := inv.record_of_awake here awake alive
    have step :
        ItpPosix.vTaskCode state = { state with record := some record, thread := .start } := by
      simp only [ItpPosix.vTaskCode, thread, ← found]
    rw [step, thread]
    refine inv.threadEarly owned early rfl ?_ ends inv.finalKeys
    exact
      { recorded with
        xHandle := fun _ => recorded.xHandle (by rw [thread]; rfl)
        finished := fun wrong => by cases wrong }
  | start =>
    have early : state.thread.early = true := by rw [thread]; rfl
    obtain ⟨here, awake, alive, -⟩ := ThreadPc.of_early early
    obtain ⟨record, found, owned, recorded⟩ := inv.record_of_awake here awake alive
    have step :
        ItpPosix.vTaskCode state =
          { state with
            record := some record
            started := some (record.startRoutine, record.arg)
            thread := .routine } := by
      simp only [ItpPosix.vTaskCode, thread, access, found]
    rw [step, thread]
    refine inv.threadEarly owned early rfl ?_ ends inv.finalKeys
    exact
      { recorded with
        xHandle := fun _ => recorded.xHandle (by rw [thread]; rfl)
        finished := fun wrong => by cases wrong }
  | setValue value exits =>
    have early : state.thread.early = true := by rw [thread]; rfl
    obtain ⟨here, awake, alive, -⟩ := ThreadPc.of_early early
    obtain ⟨record, found, owned, recorded⟩ := inv.record_of_awake here awake alive
    have step :
        ItpPosix.vTaskCode state =
          { state with
            record := some { record with valuePtr := value }
            result := some value
            finalKeys := record.keys
            thread := .readDetach exits } := by
      simp only [ItpPosix.vTaskCode, thread, access, found]
    rw [step, thread]
    refine inv.threadEarly owned early rfl ?_ ?_ (Nat.le_of_eq recorded.keys)
    · exact
        { recorded with
          xHandle := fun _ => recorded.xHandle (by rw [thread]; rfl)
          finished := fun _ => ⟨rfl, rfl⟩ }
    · simp only [ThreadPc.left, ThreadPc.ending, if_true] at ends ⊢
      omega
  | readDetach exits =>
    rw [thread]
    exact inv.threadReadDetach thread
  | readSemaphore =>
    rw [thread]
    exact inv.threadReadSemaphore thread
  | give found =>
    rw [thread]
    exact inv.threadGive thread
  | destroy exits key =>
    rw [thread]
    exact inv.threadDestroy thread
  | readHandle =>
    rw [thread]
    exact inv.threadReadHandle thread
  | free xHandle =>
    rw [thread]
    exact inv.threadFree thread allowed
  | delete xHandle =>
    rw [thread]
    exact inv.threadDelete thread

end

end ThreadLife

end IteSdk.ItpPosix
