import Pintos.Library.Words

/-!
# The real-time clock

`rtc_get_time` of `devices/rtc.c`, for registers that are stable across the reads. It adds the days
of the current month to those of the months before it, and takes for leap years those that are
a multiple of four years after 1970. No date and time comes out right.
-/

namespace Pintos.Rtc

/-- The registers of the clock that `cmos_read` returns. -/
structure Registers where
  sec : Byte
  min : Byte
  hour : Byte
  mday : Byte
  mon : Byte
  year : Byte

def bcdToBin (x : Byte) : ℕ := (x &&& 0x0f).toNat + (x >>> 4).toNat * 10

def daysPerMonth (month : ℕ) : ℕ := [31, 28, 31, 30, 31, 30, 31, 31, 30, 31, 30, 31].getD month 0

/-- The days before the current month, as the function counts them, for a year after 1970. -/
def daysBefore (year mon : ℕ) : ℕ :=
  let days := year * 365 + (year - 1) / 4
  let days := (List.range mon).foldl (fun days i => days + daysPerMonth i) days
  if mon > 2 ∧ year % 4 = 0 then days + 1 else days

def rtcGetTime (regs : Registers) : ℕ :=
  let year := bcdToBin regs.year
  let year := (if year < 70 then year + 100 else year) - 70
  daysBefore year (bcdToBin regs.mon) * 24 * 60 * 60 + (bcdToBin regs.mday - 1) * 24 * 60 * 60 +
    bcdToBin regs.hour * 60 * 60 + bcdToBin regs.min * 60 + bcdToBin regs.sec

/-- A date and time, the year counted from 1970 and the month and day from 0. -/
structure Moment where
  year : ℕ
  month : ℕ
  day : ℕ
  hour : ℕ
  minute : ℕ
  second : ℕ

namespace Moment

def isLeap (year : ℕ) : Bool := year % 4 = 0 && (year % 100 ≠ 0 || year % 400 = 0)

def monthLength (year month : ℕ) : ℕ :=
  daysPerMonth month + if month = 1 ∧ isLeap (1970 + year) then 1 else 0

def Valid (moment : Moment) : Prop :=
  moment.year ≤ 67 ∧ moment.month < 12 ∧ moment.day < monthLength moment.year moment.month ∧
    moment.hour < 24 ∧ moment.minute < 60 ∧ moment.second < 60

/-- The days from 1970-01-01 to the first day of a month in the Gregorian calendar. -/
def calendarDays (year month : ℕ) : ℕ :=
  ((List.range year).map fun past => 365 + if isLeap (1970 + past) then 1 else 0).sum +
    ((List.range month).map (monthLength year)).sum

def seconds (moment : Moment) : ℕ :=
  (((calendarDays moment.year moment.month + moment.day) * 24 + moment.hour) * 60 +
    moment.minute) * 60 + moment.second

def bcd (number : ℕ) : Byte := .ofNat 8 (number / 10 * 16 + number % 10)

def registers (moment : Moment) : Registers :=
  ⟨bcd moment.second, bcd moment.minute, bcd moment.hour, bcd (moment.day + 1),
    bcd (moment.month + 1), bcd ((1970 + moment.year) % 100)⟩

end Moment

open Moment

lemma bcdToBin_bcd : ∀ number < 100, bcdToBin (bcd number) = number := by
  decide

lemma monthLength_le : ∀ year ≤ 67, ∀ month < 12, monthLength year month ≤ 31 := by
  decide +kernel

lemma calendarDays_lt : ∀ year ≤ 67, ∀ month < 12,
  calendarDays year month < daysBefore year (month + 1) := by
  decide +kernel

theorem rtcGetTime_ne_seconds (moment : Moment) (valid : moment.Valid) :
    rtcGetTime moment.registers ≠ moment.seconds := by
  rcases moment with ⟨year, month, day, hour, minute, second⟩
  rcases valid with ⟨yearLe, monthLt, dayLt, hourLt, minuteLt, secondLt⟩
  simp only at yearLe monthLt dayLt hourLt minuteLt secondLt
  have short := monthLength_le year yearLe month monthLt
  have later := calendarDays_lt year yearLe month monthLt
  have isYear : (if (1970 + year) % 100 < 70 then (1970 + year) % 100 + 100
      else (1970 + year) % 100) - 70 = year := by
    split <;> omega
  simp only [rtcGetTime, registers, seconds, bcdToBin_bcd second (by omega),
    bcdToBin_bcd minute (by omega), bcdToBin_bcd hour (by omega),
    bcdToBin_bcd (day + 1) (by omega), bcdToBin_bcd (month + 1) (by omega),
    bcdToBin_bcd ((1970 + year) % 100) (by omega), isYear]
  omega

/-- The first second of 1970 comes out as the first one of February. -/
theorem rtcGetTime_epoch : rtcGetTime (registers ⟨0, 0, 0, 0, 0, 0⟩) = 31 * 24 * 60 * 60 ∧
    seconds ⟨0, 0, 0, 0, 0, 0⟩ = 0 := by
  decide +kernel

theorem rtcGetTime_ne_seconds_2000 :
    Valid ⟨30, 1, 28, 12, 30, 15⟩ ∧
      rtcGetTime (registers ⟨30, 1, 28, 12, 30, 15⟩) ≠ seconds ⟨30, 1, 28, 12, 30, 15⟩ := by
  have valid : Valid ⟨30, 1, 28, 12, 30, 15⟩ := by
    unfold Valid
    decide
  exact ⟨valid, rtcGetTime_ne_seconds _ valid⟩

end Pintos.Rtc
