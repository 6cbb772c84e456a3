import Mathlib.Data.BitVec

/-!
# The ticks of a timed wait

`pthread_cond_timedwait`, `mq_timedsend` and `mq_timedreceive` turn an absolute deadline
into the ticks that the kernel waits.
-/

namespace IteSdk.ItpPosix

structure Timeval where
  tv_sec : Int
  tv_usec : Nat

structure Timespec where
  tv_sec : Int
  tv_nsec : Nat

/-- Where the time comes from: the clock device (`CFG_RTC_ENABLE`), or the kernel's tick
count and the time stamp of its start. -/
inductive Clock
  | rtc (tv : Timeval)
  | tickCount (timestamp : Int) (count : BitVec 32)

/-- The current time, with ticks of `portTickPeriodMs` milliseconds. -/
def Clock.now (portTickPeriodMs : BitVec 32) : Clock → Timeval
  | .rtc tv => tv
  | .tickCount timestamp count =>
    let ms := (count * portTickPeriodMs).toNat
    ⟨timestamp + ms / 1000, ms % 1000 * 1000⟩

/-- `(uint64_t)sec * 1000 + ms` -/
def milliseconds (sec : Int) (ms : Nat) : BitVec 64 :=
  BitVec.ofInt 64 sec * 1000 + BitVec.ofNat 64 ms

/-- The expression that the three functions share: `ms` is a `long` that is narrowed from
64 bits and then read as unsigned. -/
def ticksUntil (portTickPeriodMs : BitVec 32) (clock : Clock) (abstime : Timespec) : BitVec 32 :=
  let tv := clock.now portTickPeriodMs
  let start := milliseconds tv.tv_sec (tv.tv_usec / 1000)
  let finish := milliseconds abstime.tv_sec (abstime.tv_nsec / 1000000)
  let ms := (finish - start).setWidth 32
  ms * portTickPeriodMs

/-- The ticks for `xSemaphoreTake`. -/
def pthreadCondTimedwaitTicks := ticksUntil

/-- The ticks for `xQueueSend`; `nonblock` is the queue's `O_NONBLOCK`. -/
def mqTimedsendTicks (nonblock : Bool) (portTickPeriodMs : BitVec 32) (clock : Clock)
    (absTimeout : Timespec) : BitVec 32 :=
  if nonblock then 0 else ticksUntil portTickPeriodMs clock absTimeout

/-- The ticks for `xQueueReceive`. -/
def mqTimedreceiveTicks (nonblock : Bool) (portTickPeriodMs : BitVec 32) (clock : Clock)
    (absTimeout : Timespec) : BitVec 32 :=
  if nonblock then 0 else ticksUntil portTickPeriodMs clock absTimeout

inductive TimedWait
  | condTimedwait
  | timedsend (nonblock : Bool)
  | timedreceive (nonblock : Bool)

def TimedWait.ticks : TimedWait → BitVec 32 → Clock → Timespec → BitVec 32
  | .condTimedwait => pthreadCondTimedwaitTicks
  | .timedsend nonblock => mqTimedsendTicks nonblock
  | .timedreceive nonblock => mqTimedreceiveTicks nonblock

/-- A queue that was opened with `O_NONBLOCK`. -/
def TimedWait.nonblock : TimedWait → Bool
  | .condTimedwait => false
  | .timedsend nonblock => nonblock
  | .timedreceive nonblock => nonblock

/-! ## The ticks a deadline asks for -/

def Timespec.distance (deadline : Timespec) (now : Timeval) : Int :=
  (deadline.tv_sec - now.tv_sec) * 1000 + (deadline.tv_nsec / 1000000 : Nat) -
    (now.tv_usec / 1000 : Nat)

/-- `ticks` is the distance in ticks, rounded down or up and saturated, and zero for a
deadline that has passed. -/
def RoundedTicks (period : Nat) (distance : Int) (ticks : Nat) : Prop :=
  ticks = min (distance.toNat / period) (2 ^ 32 - 1) ∨
    ticks = min ((distance.toNat + (period - 1)) / period) (2 ^ 32 - 1)

/-- What the ticks are right for.  Where the product with the tick period stays in range,
that is a deadline that is now or ticks of one millisecond; elsewhere a multiple of
2 ^ 32 has to make up for the difference to the right number. -/
def TicksCondition (period : Nat) (distance : Int) : Prop :=
  if 0 ≤ distance ∧ distance * period < 2 ^ 32 then distance = 0 ∨ period = 1
  else ∃ ticks, RoundedTicks period distance ticks ∧ (2 ^ 32 : Int) ∣ distance * period - ticks

section Ticks

variable {period : Nat} {distance : Int} {ticks : Nat}

theorem ticksUntil_eq (portTickPeriodMs : BitVec 32) (clock : Clock) (abstime : Timespec) :
    ((ticksUntil portTickPeriodMs clock abstime).toNat : Int) =
      abstime.distance (clock.now portTickPeriodMs) * portTickPeriodMs.toNat % 2 ^ 32 := by
  have wide (sec : Int) (ms : Nat) : milliseconds sec ms = BitVec.ofInt 64 (sec * 1000 + ms) := by
    rw [milliseconds, BitVec.ofInt_add, BitVec.ofInt_mul, BitVec.ofInt_natCast]
    rfl
  have narrow (finish start : Int) :
      (BitVec.ofInt 64 finish - BitVec.ofInt 64 start).setWidth 32 =
        BitVec.ofInt 32 (finish - start) := by
    apply BitVec.eq_of_toNat_eq
    simp only [BitVec.toNat_setWidth, BitVec.toNat_sub, BitVec.toNat_ofInt]
    omega
  have scaled (value : Int) :
      ((BitVec.ofInt 32 value * portTickPeriodMs).toNat : Int) =
        value * portTickPeriodMs.toNat % 2 ^ 32 := by
    rw [BitVec.toNat_mul, BitVec.toNat_ofInt, Int.natCast_emod, Int.natCast_mul,
      Int.toNat_of_nonneg (Int.emod_nonneg _ (by decide)), Int.mul_emod, Int.emod_emod,
      ← Int.mul_emod]
    rfl
  simp only [ticksUntil, wide, narrow, scaled, Timespec.distance]
  congr 2
  omega

theorem RoundedTicks.lt (rounded : RoundedTicks period distance ticks) : ticks < 2 ^ 32 := by
  rcases rounded with rfl | rfl <;> omega

/-- Rounded ticks are no more than the milliseconds. -/
theorem RoundedTicks.le (rounded : RoundedTicks period distance ticks) :
    ticks ≤ distance.toNat := by
  rcases Nat.eq_zero_or_pos period with rfl | positive
  · rcases rounded with rfl | rfl <;> simp
  · have down := Nat.div_le_self distance.toNat period
    have up : (distance.toNat + (period - 1)) / period ≤ distance.toNat := by
      rcases Nat.eq_zero_or_pos distance.toNat with none_ | some_
      · rw [Nat.div_eq_of_lt (by omega)]
        exact Nat.zero_le _
      · refine Nat.div_le_of_le_mul ?_
        have more := Nat.mul_le_mul (by omega : 1 ≤ period) (by omega : 1 ≤ distance.toNat)
        obtain ⟨extra, rfl⟩ := Nat.exists_eq_add_of_le (by omega : 1 ≤ period)
        have expanded : (1 + extra) * distance.toNat = distance.toNat + extra * distance.toNat :=
          by rw [Nat.add_mul, Nat.one_mul]
        have wider := Nat.le_mul_of_pos_right extra some_
        omega
    rcases rounded with rfl | rfl <;> omega

theorem roundedTicks_product_iff (positive : 0 < period) :
    RoundedTicks period distance (distance * period % 2 ^ 32).toNat ↔
      TicksCondition period distance := by
  rw [TicksCondition]
  split
  · rename_i small
    have product : distance * period % 2 ^ 32 = distance * period :=
      Int.emod_eq_of_lt (Int.mul_nonneg small.1 (by omega)) small.2
    rw [product]
    constructor
    · intro rounded
      by_contra wrong
      obtain ⟨far, long⟩ := not_or.mp wrong
      have le := rounded.le
      have doubled : distance * 2 ≤ distance * period :=
        Int.mul_le_mul_of_nonneg_left (by omega) small.1
      omega
    · rintro (rfl | rfl)
      · simp [RoundedTicks]
      · refine .inl ?_
        rw [Nat.div_one]
        omega
  · constructor
    · refine fun rounded => ⟨_, rounded, ?_⟩
      rw [Int.toNat_of_nonneg (Int.emod_nonneg _ (by decide))]
      exact Int.dvd_self_sub_emod
    · rintro ⟨ticks, rounded, divides⟩
      have same : distance * period % 2 ^ 32 = ticks := by
        rw [Int.emod_eq_emod_iff_emod_sub_eq_zero.mpr (Int.emod_eq_zero_of_dvd divides)]
        exact Int.emod_eq_of_lt (by omega) (by have := rounded.lt; omega)
      rw [same, Int.toNat_natCast]
      exact rounded

end Ticks

/-- The deadlines that a function waits for as long as it should. -/
def TimedWait.Condition (call : TimedWait) (period : Nat) (distance : Int) : Prop :=
  if call.nonblock then distance < period else TicksCondition period distance

/-- A timed wait hands the right ticks to the kernel exactly under its condition. -/
theorem timedWait_ticks_iff
    {portTickPeriodMs : BitVec 32} (positive : 0 < portTickPeriodMs.toNat)
    (call : TimedWait) (clock : Clock) (deadline : Timespec) :
    RoundedTicks portTickPeriodMs.toNat (deadline.distance (clock.now portTickPeriodMs))
        (call.ticks portTickPeriodMs clock deadline).toNat ↔
      call.Condition portTickPeriodMs.toNat (deadline.distance (clock.now portTickPeriodMs)) := by
  have ticks : ∀ nonblock : Bool,
      (if nonblock then 0 else ticksUntil portTickPeriodMs clock deadline).toNat =
        if nonblock then 0
        else (deadline.distance (clock.now portTickPeriodMs) *
          portTickPeriodMs.toNat % 2 ^ 32).toNat := by
    intro nonblock
    rw [← ticksUntil_eq]
    cases nonblock <;> simp
  have same : (call.ticks portTickPeriodMs clock deadline).toNat =
      if call.nonblock then 0
      else (deadline.distance (clock.now portTickPeriodMs) *
        portTickPeriodMs.toNat % 2 ^ 32).toNat := by
    cases call with
    | condTimedwait => exact ticks false
    | timedsend nonblock | timedreceive nonblock => exact ticks nonblock
  rw [same, TimedWait.Condition]
  split
  · constructor
    · intro rounded
      by_contra far
      have ticks : 1 ≤ (deadline.distance (clock.now portTickPeriodMs)).toNat /
          portTickPeriodMs.toNat := (Nat.le_div_iff_mul_le positive).mpr (by omega)
      have up : (deadline.distance (clock.now portTickPeriodMs)).toNat / portTickPeriodMs.toNat ≤
          ((deadline.distance (clock.now portTickPeriodMs)).toNat +
            (portTickPeriodMs.toNat - 1)) / portTickPeriodMs.toNat :=
        Nat.div_le_div_right (Nat.le_add_right _ _)
      rcases rounded with zero | zero <;> omega
    · intro near
      left
      rw [Nat.div_eq_of_lt (by omega)]
      rfl
  · exact roundedTicks_product_iff positive

/-- A condition is waited for until ten seconds from now, in ticks of a millisecond. -/
theorem timedWait_ticks_iff_tenSeconds :
    RoundedTicks 1 10000 10000 ↔ TimedWait.condTimedwait.Condition 1 10000 :=
  @timedWait_ticks_iff 1 (by decide) .condTimedwait (.rtc ⟨0, 0⟩) ⟨10, 0⟩

/-- A deadline that passed a millisecond ago is waited for for 2 ^ 32 - 1 ticks. -/
theorem timedWait_pastDeadline :
    ¬ ∀ (portTickPeriodMs : BitVec 32) (call : TimedWait) (clock : Clock) (deadline : Timespec),
        0 < portTickPeriodMs.toNat → deadline.tv_nsec < 1000000000 →
          RoundedTicks portTickPeriodMs.toNat (deadline.distance (clock.now portTickPeriodMs))
            (call.ticks portTickPeriodMs clock deadline).toNat := by
  intro right
  have rounded := right 1 .condTimedwait (.rtc ⟨1, 1000⟩) ⟨1, 0⟩ (by decide) (by decide)
  have atMost := rounded.le
  exact absurd atMost (by decide)

end IteSdk.ItpPosix
