import Mathlib.Data.BitVec
import Mathlib.Tactic.Linarith

/-!
# Times of day and durations in BCD

`psi_time.c` adds a duration to a time given by a Modified Julian Date and six BCD
digits.  `Clock hours` is what the digits stand for; a `Clock 24` is a time of day, a
`Clock 100` a duration.  The sum carries into the day once, so the digits are those of
a time of day exactly for sums below two days.
-/

namespace IteSdk.TsDemuxer.PsiTime

/-- `PSI_MJDBCD_TIME`. -/
structure MjdBcdTime where
  low24 : BitVec 32
  high16 : BitVec 32
  deriving DecidableEq

def BCD_HOUR (bcdHMS : BitVec 32) : BitVec 8 := ((bcdHMS &&& 0xFF0000#32) >>> 16).setWidth 8

def BCD_MINU (bcdHMS : BitVec 32) : BitVec 8 := ((bcdHMS &&& 0x00FF00#32) >>> 8).setWidth 8

def BCD_SEC (bcdHMS : BitVec 32) : BitVec 8 := (bcdHMS &&& 0x0000FF#32).setWidth 8

/-- `_Bcd2Dec`: an `MMP_INT8` made of a byte. -/
def bcd2Dec (bcd : BitVec 8) : Int := ((bcd >>> 4) * 10#8 + (bcd &&& 0xF#8)).toInt

/-- `_Dec2Bcd`: the tens by a multiplication and a shift. -/
def dec2Bcd (dec : BitVec 8) : BitVec 8 :=
  let tens := (dec.setWidth 32 * 6554#32) >>> 16
  let units := dec.setWidth 32 - tens * 10#32
  ((tens <<< 4).setWidth 8).setWidth 32 + units |>.setWidth 8

def packHms (hour min sec : Int) : BitVec 32 :=
  ((dec2Bcd (BitVec.ofInt 8 hour)).setWidth 32 <<< 16) +
    ((dec2Bcd (BitVec.ofInt 8 min)).setWidth 32 <<< 8) +
    (dec2Bcd (BitVec.ofInt 8 sec)).setWidth 32

def psiTimeSub (tMjdBcdTime : MjdBcdTime) (bcdHMS : BitVec 32) : MjdBcdTime :=
  let hour := bcd2Dec (BCD_HOUR tMjdBcdTime.low24) - bcd2Dec (BCD_HOUR bcdHMS)
  let min := bcd2Dec (BCD_MINU tMjdBcdTime.low24) - bcd2Dec (BCD_MINU bcdHMS)
  let sec := bcd2Dec (BCD_SEC tMjdBcdTime.low24) - bcd2Dec (BCD_SEC bcdHMS)
  let (min, sec) := if sec < 0 then (min - 1, sec + 60) else (min, sec)
  let (hour, min) := if min < 0 then (hour - 1, min + 60) else (hour, min)
  let (high16, hour) :=
    if hour < 0 then (tMjdBcdTime.high16 - 1, hour + 24) else (tMjdBcdTime.high16, hour)
  ⟨packHms hour min sec, high16⟩

def psiTimeAdd (tMjdBcdTime : MjdBcdTime) (bcdHMS : BitVec 32) : MjdBcdTime :=
  if 0 < bcdHMS.toInt then
    let hour := bcd2Dec (BCD_HOUR tMjdBcdTime.low24) + bcd2Dec (BCD_HOUR bcdHMS)
    let min := bcd2Dec (BCD_MINU tMjdBcdTime.low24) + bcd2Dec (BCD_MINU bcdHMS)
    let sec := bcd2Dec (BCD_SEC tMjdBcdTime.low24) + bcd2Dec (BCD_SEC bcdHMS)
    let (min, sec) := if 60 ≤ sec then (min + 1, sec - 60) else (min, sec)
    let (hour, min) := if 60 ≤ min then (hour + 1, min - 60) else (hour, min)
    let (high16, hour) :=
      if 24 ≤ hour then (tMjdBcdTime.high16 + 1, hour - 24)
      else (tMjdBcdTime.high16, hour)
    ⟨packHms hour min sec, high16⟩
  else if bcdHMS.toInt < 0 then psiTimeSub tMjdBcdTime (-bcdHMS)
  else tMjdBcdTime

/-- `psiTime_Compare`: a difference of `MMP_INT32` values. -/
def psiTimeCompare (tTimeA tTimeB : MjdBcdTime) : Int :=
  let result := (tTimeA.high16 - tTimeB.high16).toInt
  if result = 0 then (tTimeA.low24 - tTimeB.low24).toInt else result

/-! ## The numbers behind the digits -/

/-- A clock with its hours below `hours`. -/
structure Clock (hours : Nat) where
  hour : Nat
  minute : Nat
  second : Nat
  hour_lt : hour < hours
  minute_lt : minute < 60
  second_lt : second < 60

def bcdByte (number : Nat) : Nat := number / 10 * 16 + number % 10

def bcdOf (hour minute second : Nat) : Nat :=
  bcdByte hour * 65536 + bcdByte minute * 256 + bcdByte second

namespace Clock

variable {hours : Nat}

def bcd (clock : Clock hours) : BitVec 32 :=
  BitVec.ofNat 32 (bcdOf clock.hour clock.minute clock.second)

def seconds (clock : Clock hours) : Nat := clock.hour * 3600 + clock.minute * 60 + clock.second

end Clock

/-- A valid time is a day of sixteen bits with the digits of a time of day; `seconds`
counts from the beginning of day 0. -/
def Denotes (time : MjdBcdTime) (seconds : Nat) : Prop :=
  ∃ (day : Nat) (clock : Clock 24), day < 65536 ∧
    time = ⟨clock.bcd, BitVec.ofNat 32 day⟩ ∧ seconds = day * 86400 + clock.seconds

variable {number : Nat}

theorem bcdByte_lt (twoDigits : number < 100) : bcdByte number < 160 := by
  rw [bcdByte]
  omega

theorem bcd2Dec_bcdByte (twoDigits : number < 100) :
    bcd2Dec (BitVec.ofNat 8 (bcdByte number)) = number := by
  have small := bcdByte_lt twoDigits
  have low : (15#8).toNat = 2 ^ 4 - 1 := rfl
  have ten : (10#8).toNat = 10 := rfl
  have value :
      (BitVec.ofNat 8 (bcdByte number) >>> 4 * 10#8 +
        (BitVec.ofNat 8 (bcdByte number) &&& 15#8)).toNat = number := by
    rw [BitVec.toNat_add, BitVec.toNat_mul, BitVec.toNat_ushiftRight, BitVec.toNat_and,
      low, Nat.and_two_pow_sub_one_eq_mod, Nat.shiftRight_eq_div_pow, ten,
      BitVec.toNat_ofNat, Nat.mod_eq_of_lt (by omega : bcdByte number < 2 ^ 8), bcdByte]
    have high : (number / 10 * 16 + number % 10) / 2 ^ 4 = number / 10 := by omega
    have units : (number / 10 * 16 + number % 10) % 2 ^ 4 = number % 10 := by omega
    rw [high, units]
    omega
  rw [bcd2Dec, BitVec.toInt_eq_toNat_of_lt, value]
  rw [value]
  omega

theorem dec2Bcd_ofInt (twoDigits : number < 100) :
    dec2Bcd (BitVec.ofInt 8 number) = BitVec.ofNat 8 (bcdByte number) := by
  have wide : (BitVec.setWidth 32 (BitVec.ofNat 8 number)).toNat = number := by
    rw [BitVec.toNat_setWidth, BitVec.toNat_ofNat]
    omega
  have tens :
      ((BitVec.setWidth 32 (BitVec.ofNat 8 number) * 6554#32) >>> 16).toNat = number / 10 := by
    have factor : (6554#32).toNat = 6554 := rfl
    rw [BitVec.toNat_ushiftRight, BitVec.toNat_mul, wide, factor,
      Nat.shiftRight_eq_div_pow, Nat.mod_eq_of_lt (by omega)]
    exact Nat.div_eq_of_lt_le (by omega) (by omega)
  have ten : (10#32).toNat = 10 := rfl
  rw [BitVec.ofInt_natCast, dec2Bcd]
  apply BitVec.eq_of_toNat_eq
  simp only [BitVec.toNat_setWidth, BitVec.toNat_add, BitVec.toNat_sub, BitVec.toNat_mul,
    BitVec.toNat_shiftLeft, tens, wide, ten, Nat.shiftLeft_eq, BitVec.toNat_ofNat, bcdByte]
  omega

theorem toNat_bcd_field (bcdHMS mask : BitVec 32) (place : Nat)
    (field : mask.toNat >>> place = 2 ^ 8 - 1) :
    (((bcdHMS &&& mask) >>> place).setWidth 8).toNat = bcdHMS.toNat / 2 ^ place % 256 := by
  rw [BitVec.toNat_setWidth, BitVec.toNat_ushiftRight, BitVec.toNat_and,
    Nat.shiftRight_and_distrib, field, Nat.and_two_pow_sub_one_eq_mod, Nat.mod_mod,
    Nat.shiftRight_eq_div_pow]

theorem toNat_bcd_hour (bcdHMS : BitVec 32) :
    (BCD_HOUR bcdHMS).toNat = bcdHMS.toNat / 65536 % 256 :=
  toNat_bcd_field bcdHMS _ _ rfl

theorem toNat_bcd_minu (bcdHMS : BitVec 32) : (BCD_MINU bcdHMS).toNat = bcdHMS.toNat / 256 % 256 :=
  toNat_bcd_field bcdHMS _ _ rfl

theorem toNat_bcd_sec (bcdHMS : BitVec 32) : (BCD_SEC bcdHMS).toNat = bcdHMS.toNat % 256 := by
  have whole := toNat_bcd_field bcdHMS 0x0000FF#32 0 rfl
  rwa [BitVec.ushiftRight_zero, Nat.pow_zero, Nat.div_one] at whole

section Digits

variable {hour minute second : Nat}
  (hourDigits : hour < 100) (minuteDigits : minute < 100) (secondDigits : second < 100)

include hourDigits minuteDigits secondDigits

theorem bcdOf_lt : bcdOf hour minute second < 160 * 65536 := by
  have hourByte := bcdByte_lt hourDigits
  have minuteByte := bcdByte_lt minuteDigits
  have secondByte := bcdByte_lt secondDigits
  rw [bcdOf]
  omega

theorem toNat_ofNat_bcdOf :
    (BitVec.ofNat 32 (bcdOf hour minute second)).toNat = bcdOf hour minute second := by
  have small := bcdOf_lt hourDigits minuteDigits secondDigits
  rw [BitVec.toNat_ofNat, Nat.mod_eq_of_lt (by omega)]

omit minuteDigits secondDigits in
theorem bcd2Dec_field {field : BitVec 8} (byte : field.toNat = bcdByte hour) :
    bcd2Dec field = hour := by
  rw [← bcd2Dec_bcdByte hourDigits, ← byte, BitVec.ofNat_toNat, BitVec.setWidth_eq]

theorem bcd2Dec_hour : bcd2Dec (BCD_HOUR (BitVec.ofNat 32 (bcdOf hour minute second))) = hour := by
  have hourByte := bcdByte_lt hourDigits
  have minuteByte := bcdByte_lt minuteDigits
  have secondByte := bcdByte_lt secondDigits
  apply bcd2Dec_field hourDigits
  rw [toNat_bcd_hour, toNat_ofNat_bcdOf hourDigits minuteDigits secondDigits, bcdOf]
  omega

theorem bcd2Dec_minute :
    bcd2Dec (BCD_MINU (BitVec.ofNat 32 (bcdOf hour minute second))) = minute := by
  have minuteByte := bcdByte_lt minuteDigits
  have secondByte := bcdByte_lt secondDigits
  apply bcd2Dec_field minuteDigits
  rw [toNat_bcd_minu, toNat_ofNat_bcdOf hourDigits minuteDigits secondDigits, bcdOf]
  omega

theorem bcd2Dec_second :
    bcd2Dec (BCD_SEC (BitVec.ofNat 32 (bcdOf hour minute second))) = second := by
  have secondByte := bcdByte_lt secondDigits
  apply bcd2Dec_field secondDigits
  rw [toNat_bcd_sec, toNat_ofNat_bcdOf hourDigits minuteDigits secondDigits, bcdOf]
  omega

theorem packHms_eq : packHms hour minute second = BitVec.ofNat 32 (bcdOf hour minute second) := by
  have hourByte := bcdByte_lt hourDigits
  have minuteByte := bcdByte_lt minuteDigits
  have secondByte := bcdByte_lt secondDigits
  rw [packHms, dec2Bcd_ofInt hourDigits, dec2Bcd_ofInt minuteDigits, dec2Bcd_ofInt secondDigits]
  apply BitVec.eq_of_toNat_eq
  rw [toNat_ofNat_bcdOf hourDigits minuteDigits secondDigits, bcdOf]
  simp only [BitVec.toNat_add, BitVec.toNat_shiftLeft, BitVec.toNat_setWidth,
    BitVec.toNat_ofNat, Nat.shiftLeft_eq]
  omega

end Digits

/-! ## The digits of a number of seconds -/

/-- The six digits of `seconds`. -/
def digits (seconds : Nat) : BitVec 32 :=
  BitVec.ofNat 32 (bcdOf (seconds / 3600) (seconds / 60 % 60) (seconds % 60))

theorem Clock.bcd_eq_digits {hours : Nat} (clock : Clock hours) :
    clock.bcd = digits clock.seconds := by
  have minuteSmall := clock.minute_lt
  have secondSmall := clock.second_lt
  have hourField : clock.seconds / 3600 = clock.hour := by
    rw [Clock.seconds]
    omega
  have minuteField : clock.seconds / 60 % 60 = clock.minute := by
    rw [Clock.seconds]
    omega
  have secondField : clock.seconds % 60 = clock.second := by
    rw [Clock.seconds]
    omega
  rw [digits, hourField, minuteField, secondField, Clock.bcd]

theorem Clock.seconds_lt {hours : Nat} (clock : Clock hours) : clock.seconds < hours * 3600 := by
  have hourSmall := clock.hour_lt
  have minuteSmall := clock.minute_lt
  have secondSmall := clock.second_lt
  rw [Clock.seconds]
  omega

/-- The time of day after `seconds`. -/
def Clock.ofSeconds (seconds : Nat) (withinDay : seconds < 86400) : Clock 24 where
  hour := seconds / 3600
  minute := seconds / 60 % 60
  second := seconds % 60
  hour_lt := by omega
  minute_lt := by omega
  second_lt := by omega

variable {seconds : Nat}

theorem Clock.seconds_ofSeconds (withinDay : seconds < 86400) :
    (Clock.ofSeconds seconds withinDay).seconds = seconds := by
  change seconds / 3600 * 3600 + seconds / 60 % 60 * 60 + seconds % 60 = seconds
  omega

theorem denotes_iff {time : MjdBcdTime} :
    Denotes time seconds ↔
      ∃ day second, day < 65536 ∧ second < 86400 ∧ time = ⟨digits second, BitVec.ofNat 32 day⟩ ∧
        seconds = day * 86400 + second := by
  constructor
  · rintro ⟨day, clock, dayFits, same, total⟩
    refine ⟨day, clock.seconds, dayFits, clock.seconds_lt, ?_, total⟩
    rw [same, clock.bcd_eq_digits]
  · rintro ⟨day, second, dayFits, withinDay, same, total⟩
    refine ⟨day, Clock.ofSeconds second withinDay, dayFits, ?_, ?_⟩
    · rw [same, Clock.bcd_eq_digits, Clock.seconds_ofSeconds]
    · rw [total, Clock.seconds_ofSeconds]

section Fields

variable {seconds : Nat} (twoDigits : seconds < 360000)

include twoDigits

theorem bcd2Dec_hour_digits : bcd2Dec (BCD_HOUR (digits seconds)) = (seconds / 3600 : Nat) :=
  bcd2Dec_hour (by omega) (by omega) (by omega)

theorem bcd2Dec_minute_digits : bcd2Dec (BCD_MINU (digits seconds)) = (seconds / 60 % 60 : Nat) :=
  bcd2Dec_minute (by omega) (by omega) (by omega)

theorem bcd2Dec_second_digits : bcd2Dec (BCD_SEC (digits seconds)) = (seconds % 60 : Nat) :=
  bcd2Dec_second (by omega) (by omega) (by omega)

theorem packHms_eq_digits {hour min sec : Int} (hourField : hour = (seconds / 3600 : Nat))
    (minField : min = (seconds / 60 % 60 : Nat)) (secField : sec = (seconds % 60 : Nat)) :
    packHms hour min sec = digits seconds := by
  rw [hourField, minField, secField, digits]
  exact packHms_eq (by omega) (by omega) (by omega)

theorem packHms_of_sum {hour min sec : Int} (sum : hour * 3600 + min * 60 + sec = seconds)
    (minField : 0 ≤ min ∧ min < 60) (secField : 0 ≤ sec ∧ sec < 60) :
    packHms hour min sec = digits seconds := by
  obtain ⟨minPositive, minSmall⟩ := minField
  obtain ⟨secPositive, secSmall⟩ := secField
  exact packHms_eq_digits twoDigits (by omega) (by omega) (by omega)

theorem toNat_digits :
    (digits seconds).toNat = bcdOf (seconds / 3600) (seconds / 60 % 60) (seconds % 60) :=
  toNat_ofNat_bcdOf (by omega) (by omega) (by omega)

theorem toNat_digits_lt : (digits seconds).toNat < 160 * 65536 := by
  rw [toNat_digits twoDigits]
  exact bcdOf_lt (by omega) (by omega) (by omega)

end Fields

theorem bcdByte_mono {first second : Nat} (less : first < second) :
    bcdByte first < bcdByte second := by
  rw [bcdByte, bcdByte]
  omega

theorem toNat_digits_strictMono
    {first second : Nat} (less : first < second) (twoDigits : second < 360000) :
    (digits first).toNat < (digits second).toNat := by
  rw [toNat_digits (by omega), toNat_digits twoDigits, bcdOf, bcdOf]
  have firstMinute := bcdByte_lt (show first / 60 % 60 < 100 by omega)
  have firstSecond := bcdByte_lt (show first % 60 < 100 by omega)
  by_cases hours : first / 3600 < second / 3600
  · have hourBytes := bcdByte_mono hours
    omega
  · have sameHour : first / 3600 = second / 3600 := by omega
    rw [sameHour]
    by_cases minutes : first / 60 % 60 < second / 60 % 60
    · have minuteBytes := bcdByte_mono minutes
      omega
    · have sameMinute : first / 60 % 60 = second / 60 % 60 := by omega
      rw [sameMinute]
      have secondBytes := bcdByte_mono (show first % 60 < second % 60 by omega)
      omega

theorem fields_sum (seconds : Nat) :
    (seconds : Int) =
        (seconds / 3600 : Nat) * 3600 + (seconds / 60 % 60 : Nat) * 60 + (seconds % 60 : Nat) ∧
      seconds / 60 % 60 < 60 ∧ seconds % 60 < 60 := by
  omega

/-! ## What the two operations do to the seconds -/

theorem borrow_eq (high : Int) {low : Int} (above : -60 ≤ low) (below : low < 60) :
    ∃ high' low',
      (if low < 0 then (high - 1, low + 60) else (high, low)) = (high', low') ∧
        high' * 60 + low' = high * 60 + low ∧ 0 ≤ low' ∧ low' < 60 ∧
        high - 1 ≤ high' ∧ high' ≤ high := by
  split
  · exact ⟨high - 1, low + 60, rfl, by omega, by omega, by omega, by omega, by omega⟩
  · exact ⟨high, low, rfl, rfl, by omega, below, by omega, Int.le_refl _⟩

theorem carry_eq (high : Int) {low : Int} (above : 0 ≤ low) (below : low < 120) :
    ∃ high' low',
      (if 60 ≤ low then (high + 1, low - 60) else (high, low)) = (high', low') ∧
        high' * 60 + low' = high * 60 + low ∧ 0 ≤ low' ∧ low' < 60 ∧
        high ≤ high' ∧ high' ≤ high + 1 := by
  split
  · exact ⟨high + 1, low - 60, rfl, by omega, by omega, by omega, by omega, Int.le_refl _⟩
  · exact ⟨high, low, rfl, rfl, above, by omega, Int.le_refl _, by omega⟩

variable {high16 : BitVec 32} {second duration : Nat}

theorem psiTimeSub_eq (timeDigits : second < 360000) (durationDigits : duration < 360000)
    (oneBorrow : duration ≤ second + 86400) :
    psiTimeSub ⟨digits second, high16⟩ (digits duration) =
      if duration ≤ second then ⟨digits (second - duration), high16⟩
      else ⟨digits (second + 86400 - duration), high16 - 1⟩ := by
  obtain ⟨timeSum, minuteSmall, secondSmall⟩ := fields_sum second
  obtain ⟨durationSum, minutesSmall, secondsSmall⟩ := fields_sum duration
  generalize same : (⟨digits second, high16⟩ : MjdBcdTime) = time
  have low : time.low24 = digits second := by rw [← same]
  have high : time.high16 = high16 := by rw [← same]
  rw [psiTimeSub, low, high, bcd2Dec_hour_digits timeDigits, bcd2Dec_minute_digits timeDigits,
    bcd2Dec_second_digits timeDigits, bcd2Dec_hour_digits durationDigits,
    bcd2Dec_minute_digits durationDigits, bcd2Dec_second_digits durationDigits]
  generalize second / 3600 = hour, second / 60 % 60 = minute, second % 60 = rest at *
  generalize duration / 3600 = hours, duration / 60 % 60 = minutes, duration % 60 = seconds at *
  dsimp only
  obtain ⟨min, sec, borrowed, secSum, secPositive, secSmall, minAbove, minBelow⟩ :=
    borrow_eq (minute - minutes) (by omega : -60 ≤ (rest : Int) - seconds) (by omega)
  rw [borrowed]
  dsimp only
  obtain ⟨hour', min', hourBorrowed, minSum, minPositive, minSmall, -, -⟩ :=
    borrow_eq (hour - hours) (by omega : -60 ≤ min) (by omega)
  rw [hourBorrowed]
  dsimp only
  have total : hour' * 3600 + min' * 60 + sec = (second : Int) - duration := by
    rw [timeSum, durationSum]
    linarith
  -- The hours go below zero exactly when the duration is the longer one.
  by_cases enough : duration ≤ second
  · have noBorrow : ¬ hour' < 0 := by omega
    rw [if_neg noBorrow, if_pos enough]
    exact congrArg₂ MjdBcdTime.mk
      (packHms_of_sum (by omega) (by omega) ⟨minPositive, minSmall⟩ ⟨secPositive, secSmall⟩)
      rfl
  · have dayBorrow : hour' < 0 := by omega
    rw [if_pos dayBorrow, if_neg enough]
    exact congrArg₂ MjdBcdTime.mk
      (packHms_of_sum (by omega) (by omega) ⟨minPositive, minSmall⟩ ⟨secPositive, secSmall⟩)
      rfl

theorem psiTimeAdd_eq (withinDay : second < 86400) (durationDigits : duration < 360000) :
    psiTimeAdd ⟨digits second, high16⟩ (digits duration) =
      if second + duration < 86400 then ⟨digits (second + duration), high16⟩
      else ⟨digits (second + duration - 86400), high16 + 1⟩ := by
  have timeDigits : second < 360000 := by omega
  have small := toNat_digits_lt durationDigits
  have signed : (digits duration).toInt = (digits duration).toNat :=
    BitVec.toInt_eq_toNat_of_lt (by omega)
  rcases Nat.eq_zero_or_pos duration with none_ | some_
  · subst none_
    have zero : ¬ 0 < (digits 0).toInt ∧ ¬ (digits 0).toInt < 0 := by decide
    rw [psiTimeAdd, if_neg zero.1, if_neg zero.2, Nat.add_zero, if_pos withinDay]
  · have positive : 0 < (digits duration).toInt := by
      have more := toNat_digits_strictMono some_ durationDigits
      omega
    obtain ⟨timeSum, minuteSmall, secondSmall⟩ := fields_sum second
    obtain ⟨durationSum, minutesSmall, secondsSmall⟩ := fields_sum duration
    generalize same : (⟨digits second, high16⟩ : MjdBcdTime) = time
    have low : time.low24 = digits second := by rw [← same]
    have high : time.high16 = high16 := by rw [← same]
    rw [psiTimeAdd, if_pos positive, low, high,
      bcd2Dec_hour_digits timeDigits, bcd2Dec_minute_digits timeDigits,
      bcd2Dec_second_digits timeDigits, bcd2Dec_hour_digits durationDigits,
      bcd2Dec_minute_digits durationDigits, bcd2Dec_second_digits durationDigits]
    clear signed small positive
    generalize second / 3600 = hour, second / 60 % 60 = minute, second % 60 = rest at *
    generalize duration / 3600 = hours, duration / 60 % 60 = minutes, duration % 60 = seconds at *
    dsimp only
    obtain ⟨min, sec, carried, secSum, secPositive, secSmall, minAbove, minBelow⟩ :=
      carry_eq (minute + minutes) (by omega : 0 ≤ (rest : Int) + seconds) (by omega)
    rw [carried]
    dsimp only
    obtain ⟨hour', min', hourCarried, minSum, minPositive, minSmall, -, -⟩ :=
      carry_eq (hour + hours) (by omega : 0 ≤ min) (by omega)
    rw [hourCarried]
    dsimp only
    have total : hour' * 3600 + min' * 60 + sec = (second : Int) + duration := by
      rw [timeSum, durationSum]
      linarith
    by_cases sameDay : second + duration < 86400
    · have noCarry : ¬ 24 ≤ hour' := by omega
      rw [if_neg noCarry, if_pos sameDay]
      exact congrArg₂ MjdBcdTime.mk
        (packHms_of_sum (by omega) (by omega) ⟨minPositive, minSmall⟩ ⟨secPositive, secSmall⟩)
        rfl
    · have dayCarry : 24 ≤ hour' := by omega
      rw [if_pos dayCarry, if_neg sameDay]
      exact congrArg₂ MjdBcdTime.mk
        (packHms_of_sum (by omega) (by omega) ⟨minPositive, minSmall⟩ ⟨secPositive, secSmall⟩)
        rfl

theorem psiTimeSub_psiTimeAdd (withinDay : second < 86400) (durationDigits : duration < 360000) :
    psiTimeSub (psiTimeAdd ⟨digits second, high16⟩ (digits duration)) (digits duration) =
      ⟨digits second, high16⟩ := by
  rw [psiTimeAdd_eq withinDay durationDigits]
  split
  · rw [psiTimeSub_eq (by omega) durationDigits (by omega), if_pos (by omega), Nat.add_sub_cancel]
  · rw [psiTimeSub_eq (by omega) durationDigits (by omega)]
    have afterMidnight : ¬ duration ≤ second + duration - 86400 := by omega
    have back : second + duration - 86400 + 86400 - duration = second := by omega
    rw [if_neg afterMidnight, back, BitVec.add_sub_cancel]

theorem toInt_sub_of_small {first second : BitVec 32} (firstSmall : first.toNat < 2 ^ 31)
    (secondSmall : second.toNat < 2 ^ 31) :
    (first - second).toInt = (first.toNat : Int) - second.toNat := by
  rw [BitVec.toInt_sub, BitVec.toInt_eq_toNat_of_lt (by omega),
    BitVec.toInt_eq_toNat_of_lt (by omega)]
  exact Int.bmod_eq_of_le (by omega) (by omega)

variable {timeA timeB : MjdBcdTime}

theorem psiTimeCompare_of_lt {secondsA secondsB : Nat} (denotesA : Denotes timeA secondsA)
    (denotesB : Denotes timeB secondsB) (earlier : secondsA < secondsB) :
    psiTimeCompare timeA timeB < 0 ∧ 0 < psiTimeCompare timeB timeA := by
  obtain ⟨dayA, secondA, fitsA, withinA, sameA, totalA⟩ := denotes_iff.mp denotesA
  obtain ⟨dayB, secondB, fitsB, withinB, sameB, totalB⟩ := denotes_iff.mp denotesB
  subst sameA sameB
  have smallA := toNat_digits_lt (show secondA < 360000 by omega)
  have smallB := toNat_digits_lt (show secondB < 360000 by omega)
  have dayNatA : (BitVec.ofNat 32 dayA).toNat = dayA := by
    rw [BitVec.toNat_ofNat, Nat.mod_eq_of_lt (by omega)]
  have dayNatB : (BitVec.ofNat 32 dayB).toNat = dayB := by
    rw [BitVec.toNat_ofNat, Nat.mod_eq_of_lt (by omega)]
  simp only [psiTimeCompare,
    toInt_sub_of_small (show (BitVec.ofNat 32 dayA).toNat < 2 ^ 31 by omega)
      (show (BitVec.ofNat 32 dayB).toNat < 2 ^ 31 by omega),
    toInt_sub_of_small (show (BitVec.ofNat 32 dayB).toNat < 2 ^ 31 by omega)
      (show (BitVec.ofNat 32 dayA).toNat < 2 ^ 31 by omega), dayNatA, dayNatB]
  by_cases days : dayA = dayB
  · have digitsLess := toNat_digits_strictMono (show secondA < secondB by omega) (by omega)
    rw [if_pos (by omega), if_pos (by omega),
      toInt_sub_of_small (by omega) (by omega), toInt_sub_of_small (by omega) (by omega)]
    omega
  · rw [if_neg (by omega), if_neg (by omega)]
    omega

theorem psiTimeCompare_self (time : MjdBcdTime) : psiTimeCompare time time = 0 := by
  rw [psiTimeCompare, BitVec.sub_self, BitVec.sub_self, BitVec.toInt_zero]
  exact if_pos rfl

theorem Denotes.injective (denotesA : Denotes timeA seconds) (denotesB : Denotes timeB seconds) :
    timeA = timeB := by
  obtain ⟨dayA, secondA, -, withinA, sameA, totalA⟩ := denotes_iff.mp denotesA
  obtain ⟨dayB, secondB, -, withinB, sameB, totalB⟩ := denotes_iff.mp denotesB
  have days : dayA = dayB := by omega
  have inDay : secondA = secondB := by omega
  rw [sameA, sameB, days, inDay]

/-- `psiTime_Compare` orders valid times as their seconds. -/
def ComparesSeconds : Prop :=
  ∀ timeA timeB secondsA secondsB,
    Denotes timeA secondsA → Denotes timeB secondsB →
      (psiTimeCompare timeA timeB < 0 ↔ secondsA < secondsB) ∧
      (psiTimeCompare timeA timeB = 0 ↔ secondsA = secondsB) ∧
      (0 < psiTimeCompare timeA timeB ↔ secondsB < secondsA)

theorem comparesSeconds : ComparesSeconds := by
  intro timeA timeB secondsA secondsB denotesA denotesB
  rcases Nat.lt_trichotomy secondsA secondsB with less | same | more
  · have signs := psiTimeCompare_of_lt denotesA denotesB less
    omega
  · subst same
    rw [denotesA.injective denotesB, psiTimeCompare_self]
    omega
  · have signs := psiTimeCompare_of_lt denotesB denotesA more
    omega

/-- The sum denotes a valid time as long as it ends on the day of the time or on the
next one. -/
theorem denotes_psiTimeAdd_iff {day second duration : Nat} (withinDay : second < 86400)
    (durationDigits : duration < 360000)
    (inRange : day * 86400 + second + duration < 65536 * 86400) :
    Denotes (psiTimeAdd ⟨digits second, BitVec.ofNat 32 day⟩ (digits duration))
        (day * 86400 + second + duration) ↔
      second + duration < 2 * 86400 := by
  rw [psiTimeAdd_eq withinDay durationDigits, denotes_iff]
  constructor
  · rintro ⟨day', second', dayFits, withinDay', same, total⟩
    by_contra beyond
    rw [if_neg (by omega), MjdBcdTime.mk.injEq] at same
    -- The digits left after one carry are not those of a time of day.
    have tooMany :=
      toNat_digits_strictMono (show second' < second + duration - 86400 by omega) (by omega)
    rw [same.1] at tooMany
    exact Nat.lt_irrefl _ tooMany
  · intro twoDays
    split
    · exact ⟨day, second + duration, by omega, by omega, rfl, by omega⟩
    · refine ⟨day + 1, second + duration - 86400, by omega, by omega, ?_, by omega⟩
      rw [BitVec.ofNat_add]
      rfl

/-- Adding is right up to the end of the next day; subtracting again and comparing are
right for every duration. -/
theorem psiTimeAdd_iff
    {time : MjdBcdTime} {seconds : Nat} (duration : Clock 100)
    (denotes : Denotes time seconds)
    (inRange : seconds + duration.seconds < 65536 * 86400) :
    (Denotes (psiTimeAdd time duration.bcd) (seconds + duration.seconds) ∧
        psiTimeSub (psiTimeAdd time duration.bcd) duration.bcd = time ∧
        ComparesSeconds) ↔
      seconds % 86400 + duration.seconds < 2 * 86400 := by
  have durationDigits := duration.seconds_lt
  obtain ⟨day, second, dayFits, withinDay, same, total⟩ := denotes_iff.mp denotes
  have timeOfDay : seconds % 86400 = second := by omega
  rw [timeOfDay, total, same, duration.bcd_eq_digits,
    denotes_psiTimeAdd_iff withinDay durationDigits (by omega)]
  constructor
  · intro right
    exact right.1
  · intro twoDays
    exact ⟨twoDays, psiTimeSub_psiTimeAdd withinDay durationDigits, comparesSeconds⟩

def lateEvening : MjdBcdTime := ⟨0x230000#32, 60000#32⟩

theorem denotes_lateEvening : Denotes lateEvening (60000 * 86400 + 23 * 3600) :=
  ⟨60000, ⟨23, 0, 0, by decide, by decide, by decide⟩, by decide, by decide, by decide⟩

def twoHours : Clock 100 := ⟨2, 0, 0, by decide, by decide, by decide⟩

theorem psiTimeAdd_iff_lateEvening :
    (Denotes (psiTimeAdd lateEvening twoHours.bcd)
          (60000 * 86400 + 23 * 3600 + twoHours.seconds) ∧
        psiTimeSub (psiTimeAdd lateEvening twoHours.bcd) twoHours.bcd = lateEvening ∧
        ComparesSeconds) ↔
      (60000 * 86400 + 23 * 3600) % 86400 + twoHours.seconds < 2 * 86400 :=
  psiTimeAdd_iff twoHours denotes_lateEvening (by decide)

/-- Twenty-five hours after 23:00:00 the digits read 24:00:00 of the next day. -/
theorem psiTimeAdd_lateEvening :
    Denotes lateEvening (60000 * 86400 + 23 * 3600) ∧
      psiTimeAdd lateEvening 0x250000#32 = ⟨0x240000#32, 60001#32⟩ ∧
      ¬ Denotes (psiTimeAdd lateEvening 0x250000#32) (60000 * 86400 + 23 * 3600 + 25 * 3600) := by
  refine ⟨denotes_lateEvening, by decide, ?_⟩
  have day : lateEvening = ⟨digits (23 * 3600), BitVec.ofNat 32 60000⟩ := by decide
  have duration : (0x250000#32) = digits (25 * 3600) := by decide
  rw [day, duration, denotes_psiTimeAdd_iff (by decide) (by decide) (by decide)]
  decide

end IteSdk.TsDemuxer.PsiTime
