import IteSdk.ItpPosix.ThreadCreate

/-!
# Steps of a join

The token of the semaphore hands the record over to the one that joins.
-/

namespace IteSdk.ItpPosix

open Lib

namespace ThreadLife

variable {state : ThreadLife}

section

variable (inv : state.Inv)

include inv

/-- The other one has a thread that was created joinable, and the record as long as it
has not freed it itself or is done with it. -/
theorem Inv.record_of_called (called : state.other ≠ .idle) (joined : state.other ≠ .joined)
    (detached : state.other ≠ .detached) :
    state.joinable = true ∧ state.creator = .returned .ok ∧ state.thread ≠ .none ∧
      state.thread.gone = false ∧ state.record.isSome = !state.other.freed := by
  obtain ⟨returned, joinable⟩ := inv.possible.called called
  have here : state.thread ≠ .none := by
    intro stops
    have wrong := inv.possible.runs.mp stops
    rw [returned] at wrong
    cases wrong
  have alive : state.thread.gone = false := by
    by_contra wrong
    have gone : state.thread.gone = true := by simpa using wrong
    have late : state.thread.early = false ∧ state.thread.joins = false := by
      cases thread : state.thread <;> rw [thread] at gone <;>
        first | exact ⟨rfl, rfl⟩ | cases gone
    rcases inv.possible.detached here late.1 late.2 with no | detaches | was
    · rw [joinable] at no
      cases no
    · exact detached ((inv.possible.gone gone).2 detaches)
    · exact joined was
  refine ⟨joinable, returned, here, alive, ?_⟩
  rw [inv.owned, ThreadLife.owned, returned, alive]
  simp [CreatePc.owns]

variable {joinedValue : Option (BitVec 32)} {destructed : List (BitVec 32 × BitVec 32)}

theorem Inv.otherMove {next : OtherPc} (alike : state.other.Alike next) (fits : next.Fits)
    (value :
      ∀ value, joinedValue = some value → state.result = some value ∧ state.other.took = true)
    (runs :
      destructed = dtorRuns (state.finalKeys.take (max state.thread.destroyed next.destroyed))) :
    Inv
      { state with
        other := next
        joined := joinedValue
        destructed := destructed } := by
  obtain ⟨called, joined, detached, nextJoined, nextDetached, took, dropped, freed,
    detaches⟩ := alike
  obtain ⟨joinable, returned, here, alive, -⟩ := inv.record_of_called called joined detached
  have signals :
      ThreadLife.signals { state with other := next } = state.signals := by
    simp only [ThreadLife.signals, dropped]
  exact
    { inv with
      possible :=
        { inv.possible with
          called := fun _ => ⟨returned, joinable⟩
          joins := fun joins => by
            rw [detaches]
            exact inv.possible.joins joins
          detached := fun there late unjoined => by
            rw [detaches]
            exact (inv.possible.detached there late unjoined).imp_right
              (.imp_right fun was => absurd was joined)
          took := fun taken _ => inv.possible.took (took ▸ taken) joined
          killed := fun wrong => absurd wrong nextJoined
          gone := fun gone => by
            rw [alive] at gone
            cases gone }
      owned := by rw [inv.owned, ThreadLife.owned, ThreadLife.owned, freed]
      recorded := fun record found => by
        have recorded := inv.recorded record found
        exact
          { recorded with
            joinable := by rw [recorded.joinable, detaches]
            xSemaphore := by
              have attached := recorded.xSemaphore
              rw [beq_false_of_ne detached] at attached
              rw [attached, beq_false_of_ne nextDetached] }
      live := fun there => by
        rw [took]
        exact inv.live (signals.symm.trans there)
      dead := fun there => inv.dead (signals.symm.trans there)
      counted := { inv.counted with }
      otherFits := fits
      joined := fun other same => by
        rw [took]
        exact value other same
      destructed := runs }

theorem Inv.live_of_called (called : state.other ≠ .idle) (kept : state.other.dropped = false) :
    state.signals = true ∧
      state.semaphore =
        .live (if state.thread = .sleeping ∧ state.other.took = false then 1 else 0) := by
  obtain ⟨returned, joinable⟩ := inv.possible.called called
  have signals : state.signals = true := by
    rw [ThreadLife.signals, joinable, returned, kept]
    rfl
  exact ⟨signals, inv.live signals⟩

theorem Inv.record_of_took (took : state.other.took = true) (kept : state.other.freed = false) :
    state.thread = .sleeping ∧
      ∃ record, state.record = some record ∧ state.Recorded record ∧
        state.result = some record.valuePtr ∧ state.finalKeys = record.keys := by
  have called : state.other ≠ .idle := by
    intro idle
    rw [idle] at took
    cases took
  have joined : state.other ≠ .joined := by
    intro joined
    rw [joined] at kept
    cases kept
  have detached : state.other ≠ .detached := by
    intro detached
    rw [detached] at took
    cases took
  obtain ⟨-, -, -, -, owned⟩ := inv.record_of_called called joined detached
  rw [kept] at owned
  obtain ⟨record, found⟩ := Option.isSome_iff_exists.mp owned
  have recorded := inv.recorded record found
  have asleep := inv.possible.took took joined
  exact ⟨asleep, record, found, recorded, recorded.finished (by rw [asleep]; rfl)⟩

theorem Inv.joinTake {wants found : Bool} (other : state.other = .joinTake wants found) :
    (pthreadJoin state).Inv := by
  have fits := inv.otherFits
  rw [other] at fits
  obtain rfl : found = true := fits
  have called : state.other ≠ .idle := by simp [other]
  have took : state.other.took = false := by rw [other]; rfl
  obtain ⟨signals, live⟩ := inv.live_of_called called (by rw [other]; rfl)
  obtain ⟨joinable, returned, here, alive, owned⟩ :=
    inv.record_of_called called (by simp [other]) (by simp [other])
  by_cases asleep : state.thread = .sleeping
  · rw [if_pos ⟨asleep, took⟩] at live
    have step :
        ItpPosix.pthreadJoin state =
          { state with semaphore := .live 0, other := .joinDestroy wants 0 } := by
      simp [ItpPosix.pthreadJoin, other, useSemaphore, live]
    rw [step]
    exact
      { inv with
        possible :=
          { inv.possible with
            called := fun _ => ⟨returned, joinable⟩
            joins := fun _ => ⟨joinable, rfl⟩
            detached := fun _ _ unjoined => by
              rw [asleep] at unjoined
              cases unjoined
            took := fun _ _ => asleep
            killed := fun wrong => by cases wrong
            gone := fun gone => by
              rw [alive] at gone
              cases gone }
        owned := by
          rw [owned, ThreadLife.owned, returned, alive, other]
          rfl
        recorded := fun record there => by
          have recorded := inv.recorded record there
          exact
            { recorded with
              joinable := by
                rw [recorded.joinable, other]
                rfl
              xSemaphore := by
                rw [recorded.xSemaphore, other]
                rfl }
        live := fun _ => by simp [OtherPc.took]
        dead := fun wrong => by
          simp [ThreadLife.signals, joinable, returned, CreatePc.made, OtherPc.dropped] at wrong
        counted :=
          { inv.counted with
            semaphores := by
              have semaphores := inv.counted.semaphores
              rw [live] at semaphores
              exact semaphores }
        otherFits := trivial
        joined := fun value same => ⟨(inv.joined value same).1, rfl⟩
        destructed := by
          have destructed := inv.destructed
          rw [ThreadLife.destroyed, other] at destructed
          exact destructed }
  · rw [if_neg fun both => asleep both.1] at live
    have step : ItpPosix.pthreadJoin state = state := by
      simp [ItpPosix.pthreadJoin, other, useSemaphore, live]
    rw [step]
    exact inv

theorem Inv.destructed_of_asleep (asleep : state.thread = .sleeping) :
    state.destructed = dtorRuns (state.finalKeys.take state.other.destroyed) := by
  have destructed := inv.destructed
  rw [ThreadLife.destroyed, asleep, show ThreadPc.sleeping.destroyed = 0 from rfl,
    Nat.max_eq_right (Nat.zero_le _)] at destructed
  exact destructed

theorem Inv.joinMove {next : OtherPc} (alike : state.other.Alike next)
    (asleep : state.thread = .sleeping) (fits : next.Fits)
    (value :
      ∀ value, joinedValue = some value → state.result = some value ∧ state.other.took = true)
    (runs : destructed = dtorRuns (state.finalKeys.take next.destroyed)) :
    Inv
      { state with
        other := next
        joined := joinedValue
        destructed := destructed } := by
  refine inv.otherMove alike fits value (runs.trans ?_)
  rw [asleep, show ThreadPc.sleeping.destroyed = 0 from rfl, Nat.max_eq_right (Nat.zero_le _)]

end

variable {wants : Bool}

theorem Inv.joinDestroy (inv : state.Inv) {key : Nat}
    (other : state.other = .joinDestroy wants key) : (pthreadJoin state).Inv := by
  obtain ⟨asleep, record, found, -, -, same⟩ :=
    inv.record_of_took (by rw [other]; rfl) (by rw [other]; rfl)
  have destructed := inv.destructed_of_asleep asleep
  rw [other] at destructed
  by_cases more : key < pthreadKeysMax
  · have runs := destroyKey_eq key (same ▸ destructed)
    have step :
        ItpPosix.pthreadJoin state =
          { state with
            destructed := dtorRuns (record.keys.take (key + 1))
            other := .joinDestroy wants (key + 1) } := by
      simp only [ItpPosix.pthreadJoin, other, if_pos more, access, found, runs]
    rw [step]
    refine inv.joinMove ?_ asleep trivial inv.joined (same ▸ rfl)
    rw [other]
    exact ⟨by simp, by simp, by simp, by simp, by simp, rfl, rfl, rfl, rfl⟩
  · have all : state.finalKeys.take key = state.finalKeys.take pthreadKeysMax := by
      rw [List.take_of_length_le inv.finalKeys,
        List.take_of_length_le (Nat.le_trans inv.finalKeys (Nat.not_lt.mp more))]
    have step :
        ItpPosix.pthreadJoin state = { state with other := .joinValue wants } := by
      simp only [ItpPosix.pthreadJoin, other, if_neg more]
    rw [step]
    refine inv.joinMove ?_ asleep trivial inv.joined (destructed.trans (all ▸ rfl))
    rw [other]
    exact ⟨by simp, by simp, by simp, by simp, by simp, rfl, rfl, rfl, rfl⟩

theorem Inv.joinValue (inv : state.Inv)
    (other : state.other = .joinValue wants) : (pthreadJoin state).Inv := by
  have took : state.other.took = true := by rw [other]; rfl
  obtain ⟨asleep, record, found, -, result, -⟩ := inv.record_of_took took (by rw [other]; rfl)
  have destructed := inv.destructed_of_asleep asleep
  rw [other] at destructed
  have alike : state.other.Alike .joinReread := by
    rw [other]
    exact ⟨by simp, by simp, by simp, by simp, by simp, rfl, rfl, rfl, rfl⟩
  cases wants with
  | true =>
    have step :
        ItpPosix.pthreadJoin state =
          { state with joined := some record.valuePtr, other := .joinReread } := by
      simp only [ItpPosix.pthreadJoin, other, access, found, if_true]
    rw [step]
    refine inv.joinMove alike asleep trivial ?_ destructed
    intro value same
    rw [← same]
    exact ⟨result, took⟩
  | false =>
    have step : ItpPosix.pthreadJoin state = { state with other := .joinReread } := by
      simp [ItpPosix.pthreadJoin, other]
    rw [step]
    exact inv.joinMove alike asleep trivial inv.joined destructed

theorem Recorded.attached {record : ItpThread} (recorded : state.Recorded record)
    (inv : state.Inv) (called : state.other ≠ .idle) (kept : state.other ≠ .detached) :
    record.xSemaphore = true := by
  obtain ⟨returned, joinable⟩ := inv.possible.called called
  rw [recorded.xSemaphore, joinable, returned, beq_false_of_ne kept]
  rfl

theorem Inv.joinRead (inv : state.Inv)
    (other : state.other = .joinRead wants) : (pthreadJoin state).Inv := by
  have called : state.other ≠ .idle := by simp [other]
  have kept : state.other ≠ .detached := by simp [other]
  obtain ⟨-, -, -, -, owned⟩ := inv.record_of_called called (by simp [other]) kept
  rw [other] at owned
  obtain ⟨record, found⟩ := Option.isSome_iff_exists.mp owned
  have attached := (inv.recorded record found).attached inv called kept
  have destructed := inv.destructed
  rw [ThreadLife.destroyed, other] at destructed
  have step :
      ItpPosix.pthreadJoin state = { state with other := .joinTake wants record.xSemaphore } := by
    simp only [ItpPosix.pthreadJoin, other, access, found]
  rw [step]
  refine inv.otherMove ?_ attached inv.joined destructed
  rw [other]
  exact ⟨by simp, by simp, by simp, by simp, by simp, rfl, rfl, rfl, rfl⟩

theorem Inv.joinReread (inv : state.Inv) (other : state.other = .joinReread) :
    (pthreadJoin state).Inv := by
  obtain ⟨asleep, record, found, recorded, -, -⟩ :=
    inv.record_of_took (by rw [other]; rfl) (by rw [other]; rfl)
  have attached := recorded.attached inv (by simp [other]) (by simp [other])
  have destructed := inv.destructed_of_asleep asleep
  rw [other] at destructed
  have step :
      ItpPosix.pthreadJoin state = { state with other := .joinDelete record.xSemaphore } := by
    simp only [ItpPosix.pthreadJoin, other, access, found]
  rw [step]
  refine inv.joinMove ?_ asleep attached inv.joined destructed
  rw [other]
  exact ⟨by simp, by simp, by simp, by simp, by simp, rfl, rfl, rfl, rfl⟩

theorem Inv.joinHandle (inv : state.Inv) (other : state.other = .joinHandle) :
    (pthreadJoin state).Inv := by
  obtain ⟨asleep, record, found, recorded, -, -⟩ :=
    inv.record_of_took (by rw [other]; rfl) (by rw [other]; rfl)
  have destructed := inv.destructed_of_asleep asleep
  rw [other] at destructed
  have step :
      ItpPosix.pthreadJoin state = { state with other := .joinFree record.xHandle } := by
    simp only [ItpPosix.pthreadJoin, other, access, found]
  rw [step]
  refine inv.joinMove ?_ asleep (recorded.xHandle (by rw [asleep]; rfl)) inv.joined destructed
  rw [other]
  exact ⟨by simp, by simp, by simp, by simp, by simp, rfl, rfl, rfl, rfl⟩

theorem Possible.join {joinable : Bool} {creator : CreatePc} {thread : ThreadPc}
    {other next : OtherPc} (possible : Possible joinable creator thread other)
    (called : other ≠ .idle) (asleep : thread = .sleeping)
    (detaches : next.detaches = false) (nextJoined : next ≠ .joined) :
    Possible joinable creator thread next where
  runs := possible.runs
  called := fun _ => possible.called called
  joins := fun _ => ⟨(possible.called called).2, detaches⟩
  detached := fun _ _ unjoined => by
    rw [asleep] at unjoined
    cases unjoined
  took := fun _ _ => asleep
  killed := fun joined => absurd joined nextJoined
  gone := fun gone => by
    rw [asleep] at gone
    cases gone

theorem Inv.joinDelete (inv : state.Inv) {found : Bool}
    (other : state.other = .joinDelete found) : (pthreadJoin state).Inv := by
  have fits := inv.otherFits
  rw [other] at fits
  obtain rfl : found = true := fits
  have called : state.other ≠ .idle := by simp [other]
  have took : state.other.took = true := by rw [other]; rfl
  obtain ⟨asleep, record, there, -, -, -⟩ := inv.record_of_took took (by rw [other]; rfl)
  obtain ⟨-, live⟩ := inv.live_of_called called (by rw [other]; rfl)
  obtain ⟨returned, -⟩ := inv.possible.called called
  have destructed := inv.destructed_of_asleep asleep
  rw [other] at destructed
  have step :
      ItpPosix.pthreadJoin state =
        { state with
          semaphore := .deleted
          deletes := state.deletes + 1
          other := .joinHandle } := by
    simp only [ItpPosix.pthreadJoin, other, deleteSemaphore, useSemaphore, live]
  rw [step]
  exact
    { inv with
      possible := inv.possible.join called asleep rfl (by simp)
      owned := by
        rw [inv.owned, ThreadLife.owned, ThreadLife.owned, other]
        rfl
      recorded := fun record found => by
        have recorded := inv.recorded record found
        exact
          { recorded with
            joinable := by
              rw [recorded.joinable, other]
              rfl
            xSemaphore := by
              rw [recorded.xSemaphore, other]
              rfl }
      live := fun wrong => by simp [ThreadLife.signals, OtherPc.dropped] at wrong
      dead := fun _ => rfl
      counted :=
        { inv.counted with
          semaphores := by
            have semaphores := inv.counted.semaphores
            rw [live] at semaphores
            exact semaphores }
      otherFits := trivial
      joined := fun value same => ⟨(inv.joined value same).1, rfl⟩
      destructed := by
        rw [ThreadLife.destroyed, asleep]
        exact destructed }

theorem Inv.joinFree (inv : state.Inv) {xHandle : Nat}
    (other : state.other = .joinFree xHandle) : (pthreadJoin state).Inv := by
  have fits := inv.otherFits
  rw [other] at fits
  have called : state.other ≠ .idle := by simp [other]
  have took : state.other.took = true := by rw [other]; rfl
  obtain ⟨asleep, record, found, -, -, -⟩ := inv.record_of_took took (by rw [other]; rfl)
  have destructed := inv.destructed_of_asleep asleep
  rw [other] at destructed
  have step :
      ItpPosix.pthreadJoin state =
        { state with
          record := none, frees := state.frees + 1, other := .joinKill xHandle } := by
    simp only [ItpPosix.pthreadJoin, other, freeRecord, access, found]
  have dead : state.semaphore.isLive = false := by
    refine inv.dead ?_
    rw [ThreadLife.signals, other]
    simp [OtherPc.dropped]
  rw [step]
  exact
    { inv with
      possible := inv.possible.join called asleep rfl (by simp)
      owned := by simp [ThreadLife.owned, OtherPc.freed]
      recorded := fun _ wrong => by cases wrong
      live := fun wrong => by simp [ThreadLife.signals, OtherPc.dropped] at wrong
      dead := fun _ => dead
      counted :=
        { inv.counted with
          records := by
            have records := inv.counted.records
            rw [found] at records
            exact records }
      otherFits := fits
      joined := fun value same => ⟨(inv.joined value same).1, rfl⟩
      destructed := by
        rw [ThreadLife.destroyed, asleep]
        exact destructed }

theorem Inv.joinKill (inv : state.Inv) {xHandle : Nat}
    (other : state.other = .joinKill xHandle) : (pthreadJoin state).Inv := by
  have fits := inv.otherFits
  rw [other] at fits
  obtain rfl : xHandle = threadHandle := fits
  have called : state.other ≠ .idle := by simp [other]
  obtain ⟨returned, joinable⟩ := inv.possible.called called
  have asleep := inv.possible.took (by rw [other]; rfl) (by simp [other])
  have destructed := inv.destructed_of_asleep asleep
  rw [other] at destructed
  have step :
      ItpPosix.pthreadJoin state = { state with thread := .deleted, other := .joined } := by
    simp only [ItpPosix.pthreadJoin, other, deleteTask, if_true]
  have missing : state.record.isSome = false := by
    rw [inv.owned, ThreadLife.owned, other]
    simp [OtherPc.freed]
  have dead : state.semaphore.isLive = false := by
    refine inv.dead ?_
    rw [ThreadLife.signals, other]
    simp [OtherPc.dropped]
  have ends := inv.ends
  rw [asleep] at ends
  rw [step]
  exact
    { inv with
      possible :=
        { runs := by simp [returned, CreatePc.runs]
          called := fun _ => ⟨returned, joinable⟩
          joins := fun wrong => by cases wrong
          detached := fun _ _ _ => .inr (.inr rfl)
          took := fun _ wrong => absurd rfl wrong
          killed := fun _ => rfl
          gone := fun _ => ⟨returned, fun wrong => by cases wrong⟩ }
      owned := by
        rw [missing, ThreadLife.owned, returned]
        rfl
      recorded := fun record found => by
        rw [show state.record = some record from found] at missing
        cases missing
      live := fun wrong => by simp [ThreadLife.signals, OtherPc.dropped] at wrong
      dead := fun _ => dead
      counted := { inv.counted with }
      threadFits := trivial
      otherFits := trivial
      ends := ends
      joined := fun value same => ⟨(inv.joined value same).1, rfl⟩
      destructed := destructed }

theorem Inv.pthreadJoin (inv : state.Inv) {pc : OtherPc} (other : state.other = pc) :
    (pthreadJoin state).Inv := by
  cases pc with
  | joinTag wants =>
    have step :
        ItpPosix.pthreadJoin state = { state with other := .joinRead wants } := by
      simp only [ItpPosix.pthreadJoin, other]
    have destructed := inv.destructed
    rw [ThreadLife.destroyed, other] at destructed
    rw [step]
    refine inv.otherMove ?_ trivial inv.joined destructed
    rw [other]
    exact ⟨by simp, by simp, by simp, by simp, by simp, rfl, rfl, rfl, rfl⟩
  | joinRead wants => exact inv.joinRead other
  | joinTake wants found => exact inv.joinTake other
  | joinDestroy wants key => exact inv.joinDestroy other
  | joinValue wants => exact inv.joinValue other
  | joinReread => exact inv.joinReread other
  | joinDelete found => exact inv.joinDelete other
  | joinHandle => exact inv.joinHandle other
  | joinFree xHandle => exact inv.joinFree other
  | joinKill xHandle => exact inv.joinKill other
  | _ =>
    have step : ItpPosix.pthreadJoin state = state := by simp only [ItpPosix.pthreadJoin, other]
    rw [step]
    exact inv

end ThreadLife

end IteSdk.ItpPosix
