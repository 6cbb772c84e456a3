import IteSdk.ItpPosix.ThreadTask

/-!
# Steps of the creator

While there is no thread the record belongs to `itpPthreadCreate`.
-/

namespace IteSdk.ItpPosix

open Lib

namespace ThreadLife

variable {state : ThreadLife}

section

variable (inv : state.Inv)

include inv

theorem Inv.alone (stops : state.creator.runs = false) :
    state.thread = .none ∧ state.other = .idle := by
  refine ⟨inv.possible.runs.mpr stops, ?_⟩
  by_contra called
  have returned := (inv.possible.called called).1
  rw [returned] at stops
  cases stops

theorem Inv.creates (stops : state.creator.runs = false) {creator : CreatePc}
    (nextStops : creator.runs = false) {record : Option ItpThread} {semaphore : NativeSemaphore}
    {allocs frees makes deletes : Nat} (owned : record.isSome = creator.owns)
    (recorded : ∀ found, record = some found → Recorded { state with creator := creator } found)
    (live : (state.joinable && creator.made) = true → semaphore = .live 0)
    (dead : (state.joinable && creator.made) = false → semaphore.isLive = false)
    (counted :
      Counted
        { state with
          creator := creator
          record := record
          semaphore := semaphore
          allocs := allocs
          frees := frees
          makes := makes
          deletes := deletes }) :
    Inv
      { state with
        creator := creator
        record := record
        semaphore := semaphore
        allocs := allocs
        frees := frees
        makes := makes
        deletes := deletes } := by
  obtain ⟨thread, other⟩ := inv.alone stops
  exact
    { inv with
      possible :=
        { inv.possible with
          runs := ⟨fun _ => nextStops, fun _ => thread⟩
          called := fun called => absurd other called
          gone := fun wrong => by
            rw [thread] at wrong
            cases wrong }
      owned := by
        rw [owned, ThreadLife.owned, thread, other]
        simp [ThreadPc.gone, OtherPc.freed]
      recorded := fun found same => { recorded found same with }
      live := fun signals => by
        rw [ThreadLife.signals, other] at signals
        rw [if_neg fun asleep => by rw [thread] at asleep; cases asleep.1]
        exact live (by simpa [OtherPc.dropped] using signals)
      dead := fun signals => by
        rw [ThreadLife.signals, other] at signals
        exact dead (by simpa [OtherPc.dropped] using signals)
      counted := counted }

theorem Inv.createStart (creator : state.creator = .start) (ok : Bool) :
    (itpPthreadCreate state ok).Inv := by
  have stops : state.creator.runs = false := by rw [creator]; rfl
  obtain ⟨thread, other⟩ := inv.alone stops
  have missing : state.record.isSome = false := by
    rw [inv.owned, ThreadLife.owned, creator]
    rfl
  have dead : state.semaphore.isLive = false := by
    refine inv.dead ?_
    rw [ThreadLife.signals, creator]
    simp [CreatePc.made]
  have unallocated := inv.counted.unallocated creator
  have unmade := inv.counted.unmade (.inl creator)
  have records := inv.counted.records
  rw [missing] at records
  cases ok with
  | true =>
    simp only [ItpPosix.itpPthreadCreate, creator, if_true]
    refine inv.creates stops rfl rfl ?_ (fun wrong => ?_) (fun _ => dead) ?_
    · intro found same
      obtain rfl := Option.some.inj same
      exact
        { joinable := by simp [other, OtherPc.detaches]
          xSemaphore := by simp [CreatePc.made]
          xHandle := fun handled => by
            rw [thread] at handled
            cases handled
          keys := List.length_replicate
          finished := fun finished => by
            rw [thread] at finished
            cases finished }
    · simp [CreatePc.made] at wrong
    · exact
        { inv.counted with
          records := congrArg (· + 1) records
          allocs := by simp [unallocated]
          unallocated := fun wrong => by cases wrong
          unmade := fun _ => unmade }
  | false =>
    have step :
        ItpPosix.itpPthreadCreate state false = { state with creator := .returned .enomem } := by
      simp [ItpPosix.itpPthreadCreate, creator]
    rw [step]
    refine inv.creates stops rfl missing (fun found same => ?_) (fun wrong => ?_) (fun _ => dead) ?_
    · rw [same] at missing
      cases missing
    · simp [CreatePc.made] at wrong
    · exact
        { inv.counted with
          unallocated := fun wrong => by cases wrong
          unmade := fun wrong => by rcases wrong with wrong | wrong <;> cases wrong }

theorem Inv.record_of_creator (stops : state.creator.runs = false)
    (owns : state.creator.owns = true) :
    ∃ record, state.record = some record ∧ state.Recorded record ∧
      record.joinable = state.joinable := by
  obtain ⟨thread, other⟩ := inv.alone stops
  have owned : state.record.isSome = true := by
    rw [inv.owned, ThreadLife.owned, owns, thread, other]
    rfl
  obtain ⟨record, found⟩ := Option.isSome_iff_exists.mp owned
  have recorded := inv.recorded record found
  refine ⟨record, found, recorded, ?_⟩
  rw [recorded.joinable, other]
  simp [OtherPc.detaches]

theorem Inv.createSemaphore (creator : state.creator = .makeSemaphore) (ok : Bool) :
    (itpPthreadCreate state ok).Inv := by
  have stops : state.creator.runs = false := by rw [creator]; rfl
  obtain ⟨thread, other⟩ := inv.alone stops
  obtain ⟨record, found, recorded, joinable⟩ := inv.record_of_creator stops (by rw [creator]; rfl)
  have dead : state.semaphore.isLive = false := by
    refine inv.dead ?_
    rw [ThreadLife.signals, creator]
    simp [CreatePc.made]
  have unmade := inv.counted.unmade (.inr creator)
  have records := inv.counted.records
  have semaphores := inv.counted.semaphores
  rw [found] at records
  rw [dead, unmade] at semaphores
  cases joins : state.joinable with
  | true =>
    rw [joins] at joinable
    cases ok with
    | true =>
      have step :
          ItpPosix.itpPthreadCreate state true =
            { state with
              record := some { record with xSemaphore := true }
              semaphore := .live 0
              makes := state.makes + 1
              creator := .makeTask } := by
        simp only [ItpPosix.itpPthreadCreate, creator, access, found, joinable, if_true]
      rw [step]
      refine inv.creates stops rfl rfl ?_ (fun _ => rfl) (fun wrong => ?_) ?_
      · intro next same
        obtain rfl := Option.some.inj same
        exact
          { recorded with
            xSemaphore := by simp [joins, other, CreatePc.made] }
      · rw [joins] at wrong
        cases wrong
      · exact
          { inv.counted with
            records := records
            semaphores := by simpa [unmade, NativeSemaphore.isLive] using semaphores.symm
            makes := by simp [unmade]
            unallocated := fun wrong => by cases wrong
            unmade := fun wrong => by rcases wrong with wrong | wrong <;> cases wrong }
    | false =>
      have step :
          ItpPosix.itpPthreadCreate state false =
            { state with
              record := none
              frees := state.frees + 1
              creator := .returned .enomem } := by
        simp [ItpPosix.itpPthreadCreate, creator, access, found, joinable, freeRecord]
      rw [step]
      refine inv.creates stops rfl rfl (fun found wrong => by cases wrong)
        (fun wrong => ?_) (fun _ => dead) ?_
      · simp [CreatePc.made] at wrong
      · exact
          { inv.counted with
            records := records
            unallocated := fun wrong => by cases wrong
            unmade := fun wrong => by rcases wrong with wrong | wrong <;> cases wrong }
  | false =>
    rw [joins] at joinable
    have step :
        ItpPosix.itpPthreadCreate state ok =
          { state with
            record := some { record with xSemaphore := false }
            creator := .makeTask } := by
      simp [ItpPosix.itpPthreadCreate, creator, access, found, joinable]
    rw [step]
    refine inv.creates stops rfl rfl ?_ (fun wrong => ?_) (fun _ => dead) ?_
    · intro other same
      obtain rfl := Option.some.inj same
      exact { recorded with xSemaphore := by simp [joins] }
    · rw [joins] at wrong
      cases wrong
    · exact
        { inv.counted with
          records := records
          unallocated := fun wrong => by cases wrong
          unmade := fun _ => unmade }

theorem Inv.createTask (creator : state.creator = .makeTask) (ok : Bool) :
    (itpPthreadCreate state ok).Inv := by
  have stops : state.creator.runs = false := by rw [creator]; rfl
  obtain ⟨thread, other⟩ := inv.alone stops
  obtain ⟨record, found, recorded, joinable⟩ := inv.record_of_creator stops (by rw [creator]; rfl)
  have made : state.creator.made = true := by rw [creator]; rfl
  have attached : record.xSemaphore = state.joinable := by
    rw [recorded.xSemaphore, made, other]
    simp
  have signals : state.signals = state.joinable := by
    rw [ThreadLife.signals, made, other]
    simp [OtherPc.dropped]
  have records := inv.counted.records
  have semaphores := inv.counted.semaphores
  rw [found] at records
  cases ok with
  | true =>
    have step :
        ItpPosix.itpPthreadCreate state true =
          { state with thread := .setHandle, creator := .publish } := by
      simp only [ItpPosix.itpPthreadCreate, creator, if_true]
    have same :
        ThreadLife.signals { state with thread := .setHandle, creator := .publish } =
          state.signals := by
      simp only [ThreadLife.signals, made]
      rfl
    rw [step]
    exact
      { inv with
        possible :=
          { runs := by simp [CreatePc.runs]
            called := fun called => absurd other called
            joins := fun wrong => by cases wrong
            detached := fun _ wrong => by cases wrong
            took := fun wrong => by
              rw [other] at wrong
              cases wrong
            killed := fun wrong => by
              rw [other] at wrong
              cases wrong
            gone := fun wrong => by cases wrong }
        owned := by
          rw [found, ThreadLife.owned, other]
          rfl
        recorded := by
          intro next same
          obtain rfl := Option.some.inj (found.symm.trans same)
          exact
            { recorded with
              xSemaphore := by simp [attached, other, CreatePc.made]
              xHandle := fun wrong => by cases wrong
              finished := fun wrong => by cases wrong }
        live := fun there => by
          have live := inv.live (same.symm.trans there)
          rw [if_neg fun asleep => by rw [thread] at asleep; cases asleep.1] at live
          rw [if_neg fun asleep => by cases asleep.1]
          exact live
        dead := fun there => inv.dead (same.symm.trans there)
        counted :=
          { inv.counted with
            unallocated := fun wrong => by cases wrong
            unmade := fun wrong => by rcases wrong with wrong | wrong <;> cases wrong }
        threadFits := trivial
        ends := by
          have ends := inv.ends
          rw [thread] at ends
          exact ends
        destructed := by
          have destructed := inv.destructed
          rw [ThreadLife.destroyed, thread, other] at destructed
          rw [ThreadLife.destroyed, other]
          exact destructed }
  | false =>
    have ended (records : state.allocs = state.frees + 1)
      {semaphore : NativeSemaphore} {deletes : Nat}
        (dead : semaphore.isLive = false) (semaphores : state.makes = deletes) :
        Inv
          { state with
            creator := .returned .eagain
            record := none
            semaphore := semaphore
            frees := state.frees + 1
            deletes := deletes } := by
      refine inv.creates stops rfl rfl (fun found wrong => by cases wrong)
        (fun wrong => ?_) (fun _ => dead) ?_
      · simp [CreatePc.made] at wrong
      · exact
          { inv.counted with
            records := records
            semaphores := by
              rw [dead]
              exact semaphores
            unallocated := fun wrong => by cases wrong
            unmade := fun wrong => by rcases wrong with wrong | wrong <;> cases wrong }
    cases joins : state.joinable with
    | true =>
      have live := inv.live (signals.trans joins)
      rw [if_neg fun asleep => by rw [thread] at asleep; cases asleep.1] at live
      have step :
          ItpPosix.itpPthreadCreate state false =
            { state with
              record := none
              semaphore := .deleted
              frees := state.frees + 1
              deletes := state.deletes + 1
              creator := .returned .eagain } := by
        simp [ItpPosix.itpPthreadCreate, creator, access, found, attached, joins,
          deleteSemaphore, useSemaphore, live, freeRecord]
      rw [live] at semaphores
      rw [step]
      exact ended records rfl semaphores
    | false =>
      have dead := inv.dead (signals.trans joins)
      have step :
          ItpPosix.itpPthreadCreate state false =
            { state with
              record := none
              frees := state.frees + 1
              creator := .returned .eagain } := by
        simp [ItpPosix.itpPthreadCreate, creator, access, found, attached, joins, freeRecord]
      rw [dead] at semaphores
      rw [step]
      exact ended records dead semaphores

theorem Inv.createPublish (creator : state.creator = .publish) (ok : Bool) :
    (itpPthreadCreate state ok).Inv := by
  have here : state.thread ≠ .none := by
    intro stops
    have wrong := inv.possible.runs.mp stops
    rw [creator] at wrong
    cases wrong
  have other : state.other = .idle := by
    by_contra called
    have returned := (inv.possible.called called).1
    rw [creator] at returned
    cases returned
  have alive : state.thread.gone = false := by
    by_contra gone
    have returned := (inv.possible.gone (by simpa using gone)).1
    rw [creator] at returned
    cases returned
  have owned : state.record.isSome = true := by
    rw [inv.owned, ThreadLife.owned, creator, alive, other]
    rfl
  obtain ⟨record, found⟩ := Option.isSome_iff_exists.mp owned
  have recorded := inv.recorded record found
  have made : state.creator.made = true := by rw [creator]; rfl
  have records := inv.counted.records
  rw [found] at records
  have step :
      ItpPosix.itpPthreadCreate state ok =
        { state with
          record := some { record with xHandle := threadHandle }
          creator := .returned .ok } := by
    simp only [ItpPosix.itpPthreadCreate, creator, access, found]
  have same :
      ThreadLife.signals { state with creator := .returned .ok } = state.signals := by
    simp only [ThreadLife.signals, made]
    rfl
  rw [step]
  exact
    { inv with
      possible :=
        { inv.possible with
          runs := ⟨fun stops => absurd stops here, fun wrong => by cases wrong⟩
          called := fun called => absurd other called
          gone := fun wrong => by
            rw [alive] at wrong
            cases wrong }
      owned := by
        rw [ThreadLife.owned, alive, other]
        rfl
      recorded := by
        intro next same
        obtain rfl := Option.some.inj same
        exact
          { recorded with
            xSemaphore := by
              have attached := recorded.xSemaphore
              rw [made] at attached
              exact attached
            xHandle := fun _ => rfl }
      live := fun there => inv.live (same.symm.trans there)
      dead := fun there => inv.dead (same.symm.trans there)
      counted :=
        { inv.counted with
          records := records
          unallocated := fun wrong => by cases wrong
          unmade := fun wrong => by rcases wrong with wrong | wrong <;> cases wrong } }

theorem Inv.itpPthreadCreate (ok : Bool) : (itpPthreadCreate state ok).Inv := by
  cases creator : state.creator with
  | returned result =>
    simpa only [ItpPosix.itpPthreadCreate, creator] using inv
  | start => exact inv.createStart creator ok
  | makeSemaphore => exact inv.createSemaphore creator ok
  | makeTask => exact inv.createTask creator ok
  | publish => exact inv.createPublish creator ok

end

end ThreadLife

end IteSdk.ItpPosix
