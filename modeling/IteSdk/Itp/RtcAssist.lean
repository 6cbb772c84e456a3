import IteSdk.Lib.Transition
import Mathlib.Data.BitVec

/-!
# The assisted clock

The seconds are counted by the interrupt of a timer, and the microseconds are read from the
timer's counter.  The interrupt may wait while a call is in its critical section, and the
counter goes on.
-/

namespace IteSdk.Itp

open Lib

/-- Where a call of `_timerGetTime` stands: it is about to read the counter, or about to
read the seconds with the microseconds it has. -/
inductive GetTime
  | entered
  | counted (usec : Nat)
  deriving DecidableEq

/-- `pending` is the interrupt that the timer has raised and that is not handled yet,
`call` the call in the critical section, and `times` are the results of the finished
calls. -/
structure RtcAssist where
  gTimerSec : BitVec 32
  counter : Nat
  pending : Bool
  call : Option GetTime
  times : List (Int × Nat)

def timerInit : RtcAssist := ⟨0, 0, false, none, []⟩

/-- The steps of the timer, of the interrupt and of the calls. -/
inductive RtcStep
  | count
  | timerIntrHandler
  | enterCritical
  | readCounter
  | readSeconds
  deriving DecidableEq

/-- `ithTimerGetTime`: the counter in microseconds. -/
def ithTimerGetTime (busClock counter : Nat) : Nat := counter * 1000000 / busClock % 2 ^ 32

/-- One step, where it can be taken.  The counter starts again at its match value and
raises the interrupt, which is handled outside the critical section only. -/
def rtcStep (busClock : Nat) (rtc : RtcAssist) : RtcStep → Option RtcAssist
  | .count =>
    some
      (if rtc.counter + 1 < busClock then { rtc with counter := rtc.counter + 1 }
      else { rtc with counter := 0, pending := true })
  | .timerIntrHandler =>
    if rtc.pending ∧ rtc.call = none then
      some { rtc with gTimerSec := rtc.gTimerSec + 1, pending := false }
    else none
  | .enterCritical => if rtc.call = none then some { rtc with call := some .entered } else none
  | .readCounter =>
    if rtc.call = some .entered then
      some { rtc with call := some (.counted (ithTimerGetTime busClock rtc.counter)) }
    else none
  | .readSeconds =>
    match rtc.call with
    | some (.counted usec) =>
      some { rtc with call := none, times := rtc.times ++ [(rtc.gTimerSec.toInt, usec)] }
    | _ => none

def NotAfter (time later : Int × Nat) : Prop :=
  time.1 < later.1 ∨ time.1 = later.1 ∧ time.2 ≤ later.2
deriving Decidable

/-- No second waits to be counted when the counter is read, and the seconds do not
overflow. -/
def RtcAllowed (rtc : RtcAssist) : RtcStep → Prop
  | .readCounter => rtc.pending = false
  | .timerIntrHandler => rtc.gTimerSec.toInt < 2 ^ 31 - 1
  | _ => True

instance RtcAllowed.decidable (rtc : RtcAssist) : ∀ event, Decidable (RtcAllowed rtc event)
  | .readCounter => inferInstanceAs (Decidable (_ = _))
  | .timerIntrHandler => inferInstanceAs (Decidable (_ < _))
  | .count | .enterCritical | .readSeconds => inferInstanceAs (Decidable True)

/-- No result is after what a call may still read: the microseconds of the counter, if
no second waits, or those that the running call has read. -/
structure RtcSound (busClock : Nat) (rtc : RtcAssist) : Prop where
  inside : rtc.counter < busClock
  ordered : rtc.times.Pairwise NotAfter
  seconds : ∀ time ∈ rtc.times, time.1 ≤ rtc.gTimerSec.toInt
  counter :
    rtc.pending = false →
      ∀ time ∈ rtc.times, NotAfter time (rtc.gTimerSec.toInt, ithTimerGetTime busClock rtc.counter)
  call :
    ∀ usec, rtc.call = some (.counted usec) →
      (∀ time ∈ rtc.times, NotAfter time (rtc.gTimerSec.toInt, usec)) ∧
        (rtc.pending = false → usec ≤ ithTimerGetTime busClock rtc.counter)

section Steps

variable {busClock : Nat} {rtc after : RtcAssist}

theorem ithTimerGetTime_le {counter later : Nat}
    (inside : later < busClock) (le : counter ≤ later) :
    ithTimerGetTime busClock counter ≤ ithTimerGetTime busClock later := by
  have small : ∀ count < busClock, count * 1000000 / busClock < 2 ^ 32 := fun count less =>
    Nat.lt_trans ((Nat.div_lt_iff_lt_mul (by omega)).mpr (by omega : _ < 1000000 * busClock))
      (by decide)
  rw [ithTimerGetTime, ithTimerGetTime, Nat.mod_eq_of_lt (small _ (by omega)),
    Nat.mod_eq_of_lt (small _ inside)]
  exact Nat.div_le_div_right (Nat.mul_le_mul_right _ le)

theorem NotAfter.le {time later : Int × Nat} {usec : Nat}
    (notAfter : NotAfter time later) (le : later.2 ≤ usec) : NotAfter time (later.1, usec) :=
  notAfter.imp_right fun same => ⟨same.1, Nat.le_trans same.2 le⟩

section

variable (sound : RtcSound busClock rtc)

include sound

theorem RtcSound.count (step : rtcStep busClock rtc .count = some after) :
    RtcSound busClock after := by
  obtain rfl := Option.some.inj step
  split
  · rename_i inside
    have le := ithTimerGetTime_le inside (Nat.le_succ rtc.counter)
    refine ⟨inside, sound.ordered, sound.seconds, fun handled time member => ?_,
      fun usec call => ⟨(sound.call usec call).1, fun handled => ?_⟩⟩
    · exact (sound.counter handled time member).le le
    · exact Nat.le_trans ((sound.call usec call).2 handled) le
  · refine ⟨Nat.zero_lt_of_lt sound.inside, sound.ordered, sound.seconds, ?_, ?_⟩
    · intro handled
      cases handled
    · exact fun usec call => ⟨(sound.call usec call).1, fun handled => by cases handled⟩

theorem RtcSound.timerIntrHandler (room : rtc.gTimerSec.toInt < 2 ^ 31 - 1)
    (step : rtcStep busClock rtc .timerIntrHandler = some after) : RtcSound busClock after := by
  obtain ⟨⟨-, idle⟩, handled⟩ := Option.ite_none_right_eq_some.mp step
  obtain rfl := Option.some.inj handled
  have next : (rtc.gTimerSec + 1).toInt = rtc.gTimerSec.toInt + 1 := by
    have low := rtc.gTimerSec.le_toInt
    rw [BitVec.toInt_add, show (1 : BitVec 32).toInt = 1 from rfl]
    exact Int.bmod_eq_of_le (by omega) (by omega)
  have before : ∀ time ∈ rtc.times, time.1 < (rtc.gTimerSec + 1).toInt := by
    intro time member
    rw [next]
    exact Int.lt_add_one_of_le (sound.seconds time member)
  refine ⟨sound.inside, sound.ordered, fun time member => Int.le_of_lt (before time member),
    fun _ time member => .inl (before time member), fun usec call => ?_⟩
  rw [show rtc.call = none from idle] at call
  cases call

theorem RtcSound.enterCritical (step : rtcStep busClock rtc .enterCritical = some after) :
    RtcSound busClock after := by
  obtain ⟨-, entered⟩ := Option.ite_none_right_eq_some.mp step
  obtain rfl := Option.some.inj entered
  refine ⟨sound.inside, sound.ordered, sound.seconds, sound.counter, fun usec call => ?_⟩
  cases call

theorem RtcSound.readCounter (handled : rtc.pending = false)
    (step : rtcStep busClock rtc .readCounter = some after) : RtcSound busClock after := by
  obtain ⟨-, counted⟩ := Option.ite_none_right_eq_some.mp step
  obtain rfl := Option.some.inj counted
  refine ⟨sound.inside, sound.ordered, sound.seconds, sound.counter, fun usec call => ?_⟩
  cases call
  exact ⟨sound.counter handled, fun _ => Nat.le_refl _⟩

theorem RtcSound.readSeconds (step : rtcStep busClock rtc .readSeconds = some after) :
    RtcSound busClock after := by
  simp only [rtcStep] at step
  split at step
  · rename_i usec counted
    obtain rfl := Option.some.inj step
    obtain ⟨behind, ahead⟩ := sound.call usec counted
    refine ⟨sound.inside, ?_, ?_, fun handled => ?_, fun _ call => by cases call⟩
    · rw [List.pairwise_append]
      refine ⟨sound.ordered, List.pairwise_singleton _ _, fun time member last isLast => ?_⟩
      rw [List.mem_singleton.mp isLast]
      exact behind time member
    · exact List.forall_mem_append.mpr ⟨sound.seconds, List.forall_mem_singleton.mpr (Int.le_refl _)⟩
    · exact List.forall_mem_append.mpr ⟨sound.counter handled,
        List.forall_mem_singleton.mpr (.inr ⟨rfl, ahead handled⟩)⟩
  · cases step

theorem RtcSound.step {event : RtcStep} (allowed : RtcAllowed rtc event)
    (step : rtcStep busClock rtc event = some after) : RtcSound busClock after := by
  cases event with
  | count => exact sound.count step
  | timerIntrHandler => exact sound.timerIntrHandler allowed step
  | enterCritical => exact sound.enterCritical step
  | readCounter => exact sound.readCounter allowed step
  | readSeconds => exact sound.readSeconds step

end

end Steps

/-- The clock does not go back in a run that reads the counter only while no second waits
to be counted. -/
theorem timerGetTime_ordered
    {busClock : Nat} {events : List RtcStep} {rtc : RtcAssist} (running : 0 < busClock)
    (run : Run (Guarded RtcAllowed (Enabled (rtcStep busClock))) timerInit events rtc) :
    rtc.times.Pairwise NotAfter := by
  have initial : RtcSound busClock timerInit :=
    ⟨running, .nil, fun _ member => absurd member (List.not_mem_nil),
      fun _ _ member => absurd member (List.not_mem_nil), fun _ call => by cases call⟩
  exact (run.invariant initial fun _ _ _ sound taken => sound.step taken.1 taken.2).ordered

/-- A second is counted between two calls. -/
theorem timerGetTime_ordered_second :
    ∃ rtc, Run (Guarded RtcAllowed (Enabled (rtcStep 2))) timerInit
        [.count, .enterCritical, .readCounter, .readSeconds, .count, .timerIntrHandler,
          .enterCritical, .readCounter, .readSeconds] rtc ∧
      rtc.times.Pairwise NotAfter := by
  have run : Run (Guarded RtcAllowed (Enabled (rtcStep 2))) timerInit
      [.count, .enterCritical, .readCounter, .readSeconds, .count, .timerIntrHandler,
        .enterCritical, .readCounter, .readSeconds]
      ⟨1, 0, false, none, [(0, 500000), (1, 0)]⟩ :=
    Run.guarded_foldlM rfl
  exact ⟨_, run, timerGetTime_ordered (by decide) run⟩

/-- The counter starts again behind a call's back, and the call reads the old second. -/
theorem timerGetTime_goesBack :
    ¬ ∀ (busClock : Nat) (events : List RtcStep) (rtc : RtcAssist), 0 < busClock →
        Run (Enabled (rtcStep busClock)) timerInit events rtc → rtc.times.Pairwise NotAfter := by
  intro ordered
  have run : Run (Enabled (rtcStep 2)) timerInit
      [.count, .enterCritical, .readCounter, .readSeconds, .enterCritical, .count,
        .readCounter, .readSeconds]
      ⟨0, 0, true, none, [(0, 500000), (0, 0)]⟩ :=
    Run.enabled_foldlM rfl
  exact absurd (ordered 2 _ _ (by decide) run) (by decide)

end IteSdk.Itp
