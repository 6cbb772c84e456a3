import IteSdk.Lib.Calendar
import IteSdk.TsDemuxer.PsiTime
import Mathlib.Tactic.IntervalCases

/-!
# Dates and differences of times

`psiTime_MJDToYMD`, `psiTime_MjdBcdToYmdHms` and `psiTime_TimeDiffInMinute`.  The first
one counts years from March on: the year `y1` of the calculation begins with March of
1900 + `y1`, and its months 14 and 15 are January and February.
-/

namespace IteSdk.TsDemuxer.PsiTime

open Lib

/-- The dividends are unsigned, the quotients signed. -/
def psiTimeMJDToYMD (mjd : BitVec 32) : BitVec 32 :=
  let y1 : Int := (mjd.toNat * 20 - 301564) % 2 ^ 32 / 7305
  let days := y1 * 1461 / 4
  let m1 := (mjd.toNat * 10000 - 149561000 - days * 10000) % 2 ^ 32 / 306001
  let k := if m1 = 14 ∨ m1 = 15 then 1 else 0
  let y := y1 + k + 1900
  let m := m1 - 1 - k * 12
  let d := mjd.toNat - 14956 - days - m1 * 125338 / 4096
  BitVec.ofInt 32 (y * 65536) ||| BitVec.ofInt 32 (m * 256) ||| BitVec.ofInt 32 d

/-- `PSI_YMDHMS_TIME`. -/
structure YmdHmsTime where
  year : BitVec 16
  month : BitVec 8
  day : BitVec 8
  dayOfWeek : BitVec 8
  hour : Int
  minute : Int
  second : Int

def psiTimeMjdBcdToYmdHms (tMjdBcdTime : MjdBcdTime) : YmdHmsTime :=
  let hour := bcd2Dec (BCD_HOUR tMjdBcdTime.low24)
  let minute := bcd2Dec (BCD_MINU tMjdBcdTime.low24)
  let second := bcd2Dec (BCD_SEC tMjdBcdTime.low24)
  if hour < 24 ∧ minute < 60 ∧ second < 60 then
    let ymd := psiTimeMJDToYMD tMjdBcdTime.high16
    { year := (ymd >>> 16).setWidth 16
      month := ((ymd &&& 0xFF00#32) >>> 8).setWidth 8
      day := (ymd &&& 0x00FF#32).setWidth 8
      dayOfWeek := ((tMjdBcdTime.high16 + 2#32) % 7#32 + 1#32).setWidth 8
      hour := hour
      minute := minute
      second := second }
  else
    ⟨0, 0, 0, 0, 0, 0, 0⟩

def psiTimeTimeDiffInMinute (tTimeA tTimeB : MjdBcdTime) : Int :=
  let days := (tTimeA.high16 - tTimeB.high16) * 24#32 * 60#32
  let minutes :=
    (bcd2Dec (BCD_HOUR tTimeA.low24) - bcd2Dec (BCD_HOUR tTimeB.low24)) * 60 +
      (bcd2Dec (BCD_MINU tTimeA.low24) - bcd2Dec (BCD_MINU tTimeB.low24))
  (if tTimeA.high16 ≠ tTimeB.high16 then days.toInt else 0) +
    if tTimeA.low24 ≠ tTimeB.low24 then minutes else 0

/-! ## Days -/

theorem packYmd_eq {y m d : Nat} (month : m < 256) (day : d < 256) :
    BitVec.ofNat 32 (y * 65536) ||| BitVec.ofNat 32 (m * 256) ||| BitVec.ofNat 32 d =
      BitVec.ofNat 32 ((y * 256 + m) * 256 + d) := by
  have upper : y <<< 8 ||| m = y * 256 + m := by
    rw [← Nat.shiftLeft_add_eq_or_of_lt month, Nat.shiftLeft_eq]
  have lower : (y * 256 + m) <<< 8 ||| d = (y * 256 + m) * 256 + d := by
    rw [← Nat.shiftLeft_add_eq_or_of_lt day, Nat.shiftLeft_eq]
  rw [← lower, ← upper, Nat.shiftLeft_or_distrib, ← Nat.shiftLeft_add, BitVec.ofNat_or,
    BitVec.ofNat_or, Nat.shiftLeft_eq, Nat.shiftLeft_eq]

/-- The number of day 0, 17 November 1858. -/
def mjdEpoch : Nat := 678941

theorem quarter (years : Nat) : years * 1461 / 4 = 365 * years + years / 4 := by omega

/-- 1 March of the year 1900 + `y1`. -/
theorem march_number (y1 : Nat) (small : y1 < 200) :
    daysBeforeYear (y1 + 1900) + leapDay (y1 + 1900) + 59 = y1 * 1461 / 4 + 694020 := by
  induction y1 with
  | zero =>
    rw [daysBeforeYear_eq]
    decide
  | succ y1 ih =>
    have leap := leapDay_cases (y1 + 1 + 1900)
    have next := daysBeforeYear_succ (y1 + 1900)
    rw [Nat.add_right_comm] at next
    rw [quarter] at ih ⊢
    have before := ih (by omega)
    clear ih
    omega

section

variable {mjd y1 days m1 k : Nat} (low : 15079 ≤ mjd) (high : mjd ≤ 65535)
  (year : y1 = (mjd * 20 - 301564) / 7305) (before : days = y1 * 1461 / 4)
  (month : m1 = (mjd * 10000 - 149561000 - days * 10000) / 306001)
  (carry : k = if m1 = 14 ∨ m1 = 15 then 1 else 0)

def civilDate (mjd y1 days m1 k : Nat) : Date :=
  ⟨y1 + k + 1900, m1 - 1 - k * 12, mjd - 14956 - days - m1 * 125338 / 4096⟩

include low high year before month carry

theorem civilDate_number :
    (civilDate mjd y1 days m1 k).Valid ∧ (civilDate mjd y1 days m1 k).number = mjd + mjdEpoch := by
  have months : 4 ≤ m1 ∧ m1 ≤ 15 := by omega
  obtain ⟨first, last⟩ := months
  have here := march_number y1 (by omega)
  have following := march_number (y1 + 1) (by omega)
  have next := daysBeforeYear_succ (y1 + 1900)
  rw [Nat.add_right_comm] at next
  dsimp only [civilDate, Date.Valid, Date.number, mjdEpoch]
  interval_cases m1
  all_goals
    simp [carry, daysBeforeMonth, monthDays]
    omega

theorem psiTimeMJDToYMD_eq :
    psiTimeMJDToYMD (BitVec.ofNat 32 mjd) =
      BitVec.ofNat 32
        (((civilDate mjd y1 days m1 k).year * 256 + (civilDate mjd y1 days m1 k).month) * 256 +
          (civilDate mjd y1 days m1 k).day) := by
  have months : 4 ≤ m1 ∧ m1 ≤ 15 := by omega
  obtain ⟨⟨-, positive, inMonth⟩, -⟩ := civilDate_number low high year before month carry
  have day := inMonth.trans (monthDays_bounds _ _).2
  have value : (BitVec.ofNat 32 mjd).toNat = mjd := by
    rw [BitVec.toNat_ofNat]
    omega
  have y1Value : ((mjd : Int) * 20 - 301564) % 2 ^ 32 / 7305 = y1 := by
    rw [Int.emod_eq_of_lt (by omega) (by omega)]
    omega
  have daysValue : (y1 : Int) * 1461 / 4 = days := by omega
  have m1Value :
      ((mjd : Int) * 10000 - 149561000 - days * 10000) % 2 ^ 32 / 306001 = m1 := by
    rw [Int.emod_eq_of_lt (by omega) (by omega)]
    omega
  have kValue : (if (m1 : Int) = 14 ∨ (m1 : Int) = 15 then (1 : Int) else 0) = k := by
    split at carry <;> split <;> omega
  have yValue :
      ((y1 : Int) + k + 1900) * 65536 = ((civilDate mjd y1 days m1 k).year * 65536 : Nat) := by
    dsimp only [civilDate]
    omega
  have mValue :
      ((m1 : Int) - 1 - k * 12) * 256 = ((civilDate mjd y1 days m1 k).month * 256 : Nat) := by
    dsimp only [civilDate]
    split at carry <;> omega
  have dValue :
      (mjd : Int) - 14956 - days - m1 * 125338 / 4096 = (civilDate mjd y1 days m1 k).day := by
    dsimp only [civilDate] at positive ⊢
    omega
  have month : (civilDate mjd y1 days m1 k).month < 256 := by
    dsimp only [civilDate]
    omega
  dsimp only [psiTimeMJDToYMD]
  rw [value, y1Value, daysValue, m1Value, kValue, yValue, mValue, dValue,
    BitVec.ofInt_natCast, BitVec.ofInt_natCast, BitVec.ofInt_natCast,
    packYmd_eq month (by omega)]

end

/-- The date of a day that `psiTime_IsValidUtcTime` accepts. -/
theorem exists_date (mjd : Nat) (low : 15079 ≤ mjd) (high : mjd ≤ 65535) :
    ∃ date : Date, date.Valid ∧ date.year < 65536 ∧ date.number = mjd + mjdEpoch ∧
      psiTimeMJDToYMD (BitVec.ofNat 32 mjd) =
        BitVec.ofNat 32 ((date.year * 256 + date.month) * 256 + date.day) := by
  obtain ⟨valid, number⟩ := civilDate_number low high rfl rfl rfl rfl
  refine ⟨_, valid, ?_, number, psiTimeMJDToYMD_eq low high rfl rfl rfl rfl⟩
  dsimp only [civilDate]
  split <;> omega

/-! ## Times -/

/-- The fields hold a date, its day of the week with Sunday as 7, and a time of day. -/
structure Shows (time : YmdHmsTime) (date : Date) (clock : Clock 24) : Prop where
  year : time.year.toNat = date.year
  month : time.month.toNat = date.month
  day : time.day.toNat = date.day
  dayOfWeek :
    (1 ≤ time.dayOfWeek.toNat ∧ time.dayOfWeek.toNat ≤ 7) ∧ time.dayOfWeek.toNat % 7 = date.weekday
  hour : time.hour = clock.hour
  minute : time.minute = clock.minute
  second : time.second = clock.second

theorem shows_ymd {date : Date} (valid : date.Valid) (year : date.year < 65536) {ymd : BitVec 32}
    (word : ymd = BitVec.ofNat 32 ((date.year * 256 + date.month) * 256 + date.day)) :
    ((ymd >>> 16).setWidth 16).toNat = date.year ∧
      (((ymd &&& 0xFF00#32) >>> 8).setWidth 8).toNat = date.month ∧
      ((ymd &&& 0x00FF#32).setWidth 8).toNat = date.day := by
  obtain ⟨⟨-, month⟩, -, inMonth⟩ := valid
  have day := inMonth.trans (monthDays_bounds _ _).2
  have value : ymd.toNat = (date.year * 256 + date.month) * 256 + date.day := by
    rw [word, BitVec.toNat_ofNat]
    omega
  have minute := toNat_bcd_minu ymd
  have second := toNat_bcd_sec ymd
  unfold BCD_MINU at minute
  unfold BCD_SEC at second
  rw [minute, second, BitVec.toNat_setWidth, BitVec.toNat_ushiftRight,
    Nat.shiftRight_eq_div_pow, value]
  omega

/-- A valid time shows the date and the time of day of its second. -/
theorem psiTimeMjdBcdToYmdHms_shows {time : MjdBcdTime} {seconds : Nat}
    (denotes : Denotes time seconds) (low : 15079 * 86400 ≤ seconds) :
    ∃ date clock, date.Valid ∧ Shows (psiTimeMjdBcdToYmdHms time) date clock ∧
      date.number * 86400 + clock.seconds = seconds + mjdEpoch * 86400 := by
  obtain ⟨mjd, clock, high, rfl, rfl⟩ := denotes
  have inDay := clock.seconds_lt
  obtain ⟨date, valid, year, number, word⟩ := exists_date mjd (by omega) (by omega)
  have hour := clock.hour_lt
  have minute := clock.minute_lt
  have second := clock.second_lt
  refine ⟨date, clock, valid, ?_, ?_⟩
  · have weekday :
        (((BitVec.ofNat 32 mjd + 2#32) % 7#32 + 1#32).setWidth 8).toNat = (mjd + 2) % 7 + 1 := by
      rw [BitVec.toNat_setWidth, BitVec.toNat_add, BitVec.toNat_umod, BitVec.toNat_add]
      simp only [BitVec.toNat_ofNat, Nat.reducePow, Nat.reduceMod]
      omega
    have fields := shows_ymd valid year word
    rw [psiTimeMjdBcdToYmdHms, Clock.bcd, bcd2Dec_hour (by omega) (by omega) (by omega),
      bcd2Dec_minute (by omega) (by omega) (by omega),
      bcd2Dec_second (by omega) (by omega) (by omega)]
    rw [if_pos ⟨by omega, by omega, by omega⟩]
    refine ⟨fields.1, fields.2.1, fields.2.2, ?_, rfl, rfl, rfl⟩
    dsimp only
    rw [weekday, Date.weekday, number, mjdEpoch]
    omega
  · rw [number]
    omega

theorem psiTimeMjdBcdToYmdHms_shows_lateEvening :
    ∃ date clock, date.Valid ∧ Shows (psiTimeMjdBcdToYmdHms lateEvening) date clock ∧
      date.number * 86400 + clock.seconds = 60000 * 86400 + 23 * 3600 + mjdEpoch * 86400 :=
  psiTimeMjdBcdToYmdHms_shows denotes_lateEvening (by decide)

/-- The difference of two valid times in whole minutes, in either order. -/
theorem psiTimeTimeDiffInMinute_eq {timeA timeB : MjdBcdTime} {secondsA secondsB : Nat}
    (denotesA : Denotes timeA secondsA) (denotesB : Denotes timeB secondsB) :
    psiTimeTimeDiffInMinute timeA timeB = (secondsA / 60 : Nat) - (secondsB / 60 : Nat) := by
  obtain ⟨dayA, secondA, fitsA, withinA, rfl, rfl⟩ := denotes_iff.mp denotesA
  obtain ⟨dayB, secondB, fitsB, withinB, rfl, rfl⟩ := denotes_iff.mp denotesB
  have small (day : Nat) (fits : day < 65536) : (BitVec.ofNat 32 day).toNat = day := by
    rw [BitVec.toNat_ofNat]
    omega
  have valueA := small dayA fitsA
  have valueB := small dayB fitsB
  have days :
      ((BitVec.ofNat 32 dayA - BitVec.ofNat 32 dayB) * 24#32 * 60#32).toInt =
        ((dayA : Int) - dayB) * 1440 := by
    have factor : (24#32 * 60#32).toInt = 1440 := rfl
    rw [BitVec.mul_assoc, BitVec.toInt_mul, factor,
      toInt_sub_of_small (by omega) (by omega), valueA, valueB]
    exact Int.bmod_eq_of_le (by omega) (by omega)
  dsimp only [psiTimeTimeDiffInMinute]
  rw [ite_eq_left_iff.mpr fun same => ?_, ite_eq_left_iff.mpr fun same => ?_, days,
    bcd2Dec_hour_digits (by omega), bcd2Dec_hour_digits (by omega),
    bcd2Dec_minute_digits (by omega), bcd2Dec_minute_digits (by omega)]
  · have hourA : secondA / 60 / 60 = secondA / 3600 := Nat.div_div_eq_div_mul _ _ _
    have hourB : secondB / 60 / 60 = secondB / 3600 := Nat.div_div_eq_div_mul _ _ _
    omega
  · rw [not_not.mp same]
    omega
  · rw [not_not.mp same, BitVec.sub_self]
    rfl

theorem psiTimeTimeDiffInMinute_eq_earlier :
    psiTimeTimeDiffInMinute ⟨0#32, 60000#32⟩ lateEvening = -1380 :=
  psiTimeTimeDiffInMinute_eq (denotes_iff.mpr ⟨60000, 0, by decide, by decide, by decide, rfl⟩)
    denotes_lateEvening

end IteSdk.TsDemuxer.PsiTime
