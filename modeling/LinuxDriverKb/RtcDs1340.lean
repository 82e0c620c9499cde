import Mathlib.Data.Fin.VecNotation
import LinuxDriverKb.Lib.Bcd

/-!
# The DS1340 clock

The driver keeps seconds, minutes, hours, weekday, day, month and year in seven registers,
in BCD. The weekday and the month are stored from 1, and the year as its distance to 2000,
in a byte : the driver takes years before 2000 and far after it as well.

`setTime_iff` : a time that is set comes back exactly if it is of the years 2000 to 2159,
that is `tm_year` from 100 to 259.
-/

set_option autoImplicit false

namespace LinuxDriverKb

namespace RtcDs1340

open Bcd

/-! ## Times -/

/-- The fields of `struct rtc_time` that the driver reads and writes, all of type `int`. -/
@[ext] structure RtcTime where
  tmSec : ℤ
  tmMin : ℤ
  tmHour : ℤ
  tmWday : ℤ
  tmMday : ℤ
  tmMon : ℤ
  tmYear : ℤ
  deriving DecidableEq

/-- `is_leap_year`. -/
def isLeapYear (year : ℤ) : Bool :=
  (year % 4 = 0 && year % 100 ≠ 0) || year % 400 = 0

/-- `rtc_days_in_month`. -/
def rtcDaysInMonth (month : ℤ) : ℤ :=
  if month = 1 then 28 else if month = 3 ∨ month = 5 ∨ month = 8 ∨ month = 10 then 30 else 31

/-- `rtc_month_days`. -/
def rtcMonthDays (month year : ℤ) : ℤ :=
  rtcDaysInMonth month + if isLeapYear year ∧ month = 1 then 1 else 0

/-- What the RTC core checks before it sets a time, and the weekday. -/
structure RtcTime.Valid (t : RtcTime) : Prop where
  sec : 0 ≤ t.tmSec ∧ t.tmSec < 60
  min : 0 ≤ t.tmMin ∧ t.tmMin < 60
  hour : 0 ≤ t.tmHour ∧ t.tmHour < 24
  wday : 0 ≤ t.tmWday ∧ t.tmWday < 7
  mon : 0 ≤ t.tmMon ∧ t.tmMon < 12
  mday : 1 ≤ t.tmMday ∧ t.tmMday ≤ rtcMonthDays t.tmMon (t.tmYear + 1900)
  year : 70 ≤ t.tmYear ∧ t.tmYear < 2 ^ 31

/-! ## The driver -/

/-- `REG_DS1340_SECS`. -/
def regDs1340Secs : Fin 7 := 0

/-- `REG_DS1340_MIN`. -/
def regDs1340Min : Fin 7 := 1

/-- `REG_DS1340_HOUR`. -/
def regDs1340Hour : Fin 7 := 2

/-- `REG_DS1340_WDAY`. -/
def regDs1340Wday : Fin 7 := 3

/-- `REG_DS1340_MDAY`. -/
def regDs1340Mday : Fin 7 := 4

/-- `REG_DS1340_MONTH`. -/
def regDs1340Month : Fin 7 := 5

/-- `REG_DS1340_YEAR`. -/
def regDs1340Year : Fin 7 := 6

/-- The seven time registers, and the buffer for them. -/
abbrev Buf := Fin 7 → BitVec 8

/-- How a bulk transfer ends : all of it is done, or it fails with a negative error after
`sent` of the bytes. -/
inductive Transfer
  | done
  | failed (err : ℤ) (neg : err < 0) (sent : ℕ)

/-- What the transfer returns. -/
def Transfer.ret : Transfer → ℤ
  | .done => 0
  | .failed err _ _ => err

/-- `regmap_bulk_read` of the time registers into `buf`; they are volatile. -/
def regmapBulkRead (o : Transfer) (regs buf : Buf) : Buf :=
  match o with
  | .done => regs
  | .failed _ _ sent => fun i => if i.val < sent then regs i else buf i

/-- `regmap_bulk_write` of `buf` to the time registers. -/
def regmapBulkWrite (o : Transfer) (buf regs : Buf) : Buf :=
  match o with
  | .done => buf
  | .failed _ _ sent => fun i => if i.val < sent then buf i else regs i

/-- `ds1340_get_time`; `buf` is what its buffer holds at first. -/
def ds1340GetTime (o : Transfer) (regs buf : Buf) (t : RtcTime) : ℤ × RtcTime :=
  let buf := regmapBulkRead o regs buf
  if o.ret < 0 then (o.ret, t)
  else
    (0, { tmSec := (bcd2bin (buf regDs1340Secs &&& 0x7f)).toInt
          tmMin := (bcd2bin (buf regDs1340Min &&& 0x7f)).toInt
          tmHour := (bcd2bin (buf regDs1340Hour &&& 0x3f)).toInt
          tmWday := (bcd2bin (buf regDs1340Wday &&& 0x07) - 1).toInt
          tmMday := (bcd2bin (buf regDs1340Mday &&& 0x3f)).toInt
          tmMon := (bcd2bin (buf regDs1340Month &&& 0x1f) - 1).toInt
          tmYear := (bcd2bin (buf regDs1340Year) + 100).toInt })

/-- The buffer `ds1340_set_time` fills. -/
def setTimeBuf (t : RtcTime) : Buf :=
  ![byte (.ofInt 32 t.tmSec), byte (.ofInt 32 t.tmMin), byte (.ofInt 32 t.tmHour),
    byte (.ofInt 32 (t.tmWday + 1)), byte (.ofInt 32 t.tmMday), byte (.ofInt 32 (t.tmMon + 1)),
    byte (.ofInt 32 (t.tmYear - 100))]

/-- `ds1340_set_time`. -/
def ds1340SetTime (o : Transfer) (t : RtcTime) (regs : Buf) : ℤ × Buf :=
  let regs := regmapBulkWrite o (setTimeBuf t) regs
  if o.ret < 0 then (o.ret, regs) else (0, regs)

/-- Setting `t` fails, or the time read back is `t`. -/
def RoundTrip (o : Transfer) (t : RtcTime) (regs : Buf) : Prop :=
  (ds1340SetTime o t regs).1 < 0 ∨
    ∀ buf t₀, ds1340GetTime .done (ds1340SetTime o t regs).2 buf t₀ = (0, t)

/-! ## The fields -/

theorem toNat_ofInt {x : ℤ} (h0 : 0 ≤ x) (h : x < 2 ^ 31) :
    (BitVec.ofInt 32 x).toNat = x.toNat := by
  rw [BitVec.toNat_ofInt]
  omega

theorem toInt_ofInt {x : ℤ} (h0 : -2 ^ 31 ≤ x) (h : x < 2 ^ 31) :
    (BitVec.ofInt 32 x).toInt = x := by
  rw [BitVec.toInt_ofInt]
  exact CInt.toInt32_eq h0 h

/-- A field of `k` bits whose code fits comes back. -/
theorem field {x : ℤ} {m : BitVec 8} {k : ℕ} (hm : m.toNat = 2 ^ k - 1) (h0 : 0 ≤ x)
    (h : x < 100) (hk : x.toNat / 10 * 16 + x.toNat % 10 < 2 ^ k) :
    bcd2bin (byte (.ofInt 32 x) &&& m) = .ofInt 32 x := by
  have hx : (BitVec.ofInt 32 x).toNat = x.toNat := toNat_ofInt h0 (by omega)
  exact bcd2bin_byte_and hm (by omega) (by omega)

/-- A field that is stored from 1. -/
theorem field_sub_one {x : ℤ} {m : BitVec 8} {k : ℕ} (hm : m.toNat = 2 ^ k - 1) (h0 : 0 ≤ x)
    (h : x < 99) (hk : (x + 1).toNat / 10 * 16 + (x + 1).toNat % 10 < 2 ^ k) :
    bcd2bin (byte (.ofInt 32 (x + 1)) &&& m) - 1 = .ofInt 32 x := by
  rw [field hm (by omega) (by omega) hk, BitVec.ofInt_add, BitVec.ofInt_ofNat]
  exact BitVec.add_sub_cancel _ _

/-- The year comes back exactly from 2000 to 2159. -/
theorem year_iff {y : ℤ} (h0 : 70 ≤ y) (h : y < 2 ^ 31) :
    (bcd2bin (byte (.ofInt 32 (y - 100))) + 100).toInt = y ↔ 100 ≤ y ∧ y < 260 := by
  have hv : ((BitVec.ofInt 32 (y - 100)).toNat : ℤ) = (y - 100) % 2 ^ 32 := by
    rw [BitVec.toNat_ofInt]
    omega
  have hback := bcd2bin_byte (.ofInt 32 (y - 100))
  generalize BitVec.ofInt 32 (y - 100) = v at hv hback ⊢
  have hsum : (bcd2bin (byte v) + 100).toNat = (bcd2bin (byte v)).toNat + 100 := by
    rw [BitVec.toNat_add]
    simp only [BitVec.reduceToNat]
    exact Nat.mod_eq_of_lt (by omega)
  have hint : (bcd2bin (byte v) + 100).toInt = ((bcd2bin (byte v)).toNat : ℤ) + 100 := by
    rw [BitVec.toInt_eq_toNat_of_lt (by omega), hsum]
    rfl
  rw [hint, hback]
  by_cases hy : 100 ≤ y
  · have hn : (v.toNat : ℤ) = y - 100 := by omega
    omega
  · have hn : (v.toNat : ℤ) = y - 100 + 4294967296 := by omega
    omega

theorem rtcMonthDays_le (month year : ℤ) : rtcMonthDays month year ≤ 31 := by
  unfold rtcMonthDays rtcDaysInMonth
  split_ifs <;> omega

/-- What is read back of a buffer once the bus works. -/
theorem getTime_done (regs buf : Buf) (t₀ : RtcTime) :
    ds1340GetTime .done regs buf t₀ =
      (0, { tmSec := (bcd2bin (regs regDs1340Secs &&& 0x7f)).toInt
            tmMin := (bcd2bin (regs regDs1340Min &&& 0x7f)).toInt
            tmHour := (bcd2bin (regs regDs1340Hour &&& 0x3f)).toInt
            tmWday := (bcd2bin (regs regDs1340Wday &&& 0x07) - 1).toInt
            tmMday := (bcd2bin (regs regDs1340Mday &&& 0x3f)).toInt
            tmMon := (bcd2bin (regs regDs1340Month &&& 0x1f) - 1).toInt
            tmYear := (bcd2bin (regs regDs1340Year) + 100).toInt }) :=
  rfl

/-- The time that is read back : all fields are those set, the year possibly not. -/
theorem getTime_setTimeBuf {t : RtcTime} (ht : t.Valid) (buf : Buf) (t₀ : RtcTime) :
    ds1340GetTime .done (setTimeBuf t) buf t₀ =
      (0, { t with tmYear := (bcd2bin (byte (.ofInt 32 (t.tmYear - 100))) + 100).toInt }) := by
  obtain ⟨hsec, hmin, hhour, hwday, hmon, hmday, -⟩ := ht
  have hdays := rtcMonthDays_le t.tmMon (t.tmYear + 1900)
  have hs : bcd2bin (setTimeBuf t regDs1340Secs &&& 0x7f) = .ofInt 32 t.tmSec :=
    field (k := 7) rfl hsec.1 (by omega) (by omega)
  have hm : bcd2bin (setTimeBuf t regDs1340Min &&& 0x7f) = .ofInt 32 t.tmMin :=
    field (k := 7) rfl hmin.1 (by omega) (by omega)
  have hh : bcd2bin (setTimeBuf t regDs1340Hour &&& 0x3f) = .ofInt 32 t.tmHour :=
    field (k := 6) rfl hhour.1 (by omega) (by omega)
  have hw : bcd2bin (setTimeBuf t regDs1340Wday &&& 0x07) - 1 = .ofInt 32 t.tmWday :=
    field_sub_one (k := 3) rfl hwday.1 (by omega) (by omega)
  have hd : bcd2bin (setTimeBuf t regDs1340Mday &&& 0x3f) = .ofInt 32 t.tmMday :=
    field (k := 6) rfl (by omega) (by omega) (by omega)
  have hn : bcd2bin (setTimeBuf t regDs1340Month &&& 0x1f) - 1 = .ofInt 32 t.tmMon :=
    field_sub_one (k := 5) rfl hmon.1 (by omega) (by omega)
  rw [getTime_done, hs, hm, hh, hw, hd, hn, toInt_ofInt, toInt_ofInt, toInt_ofInt, toInt_ofInt,
    toInt_ofInt, toInt_ofInt]
  · rfl
  all_goals omega

/-! ## Setting and reading back -/

/-- For every valid time and every outcome of the transfer : setting it fails or the time
comes back, exactly if the transfer fails or the year is of 2000 to 2159. -/
theorem setTime_iff (o : Transfer) (t : RtcTime) (regs : Buf) (ht : t.Valid) :
    RoundTrip o t regs ↔ o.ret < 0 ∨ (100 ≤ t.tmYear ∧ t.tmYear < 260) := by
  cases o with
  | failed err neg sent => simp [RoundTrip, ds1340SetTime, Transfer.ret, neg]
  | done =>
    have hnot : ¬ Transfer.done.ret < 0 := by decide
    have hset : ds1340SetTime .done t regs = (0, setTimeBuf t) := rfl
    rw [or_iff_right hnot, ← year_iff ht.year.1 ht.year.2, RoundTrip, hset,
      or_iff_right (by decide : ¬ (0 : ℤ) < 0)]
    constructor
    · intro h
      have hback := (getTime_setTimeBuf ht regs t).symm.trans (h regs t)
      exact congrArg (fun r => r.2.tmYear) hback
    · intro h buf t₀
      rw [getTime_setTimeBuf ht, h]

/-- 4 July 2026, 12:30:45, a Saturday. -/
def sample : RtcTime where
  tmSec := 45
  tmMin := 30
  tmHour := 12
  tmWday := 6
  tmMday := 4
  tmMon := 6
  tmYear := 126

theorem setTime_sample : RoundTrip .done sample (fun _ => 0) :=
  (setTime_iff .done sample (fun _ => 0)
    ⟨by decide, by decide, by decide, by decide, by decide, by decide, by decide⟩).mpr
    (Or.inr (by decide))

/-- 31 December 1999 is stored and comes back as a day of 2095. -/
theorem year1999_lost :
    (⟨59, 59, 23, 5, 31, 11, 99⟩ : RtcTime).Valid ∧
      (ds1340SetTime .done ⟨59, 59, 23, 5, 31, 11, 99⟩ (fun _ => 0)).1 = 0 ∧
      ds1340GetTime .done (ds1340SetTime .done ⟨59, 59, 23, 5, 31, 11, 99⟩ (fun _ => 0)).2
        (fun _ => 0) ⟨0, 0, 0, 0, 0, 0, 0⟩ = (0, ⟨59, 59, 23, 5, 31, 11, 195⟩) ∧
      ¬ RoundTrip .done ⟨59, 59, 23, 5, 31, 11, 99⟩ (fun _ => 0) := by
  refine ⟨⟨by decide, by decide, by decide, by decide, by decide, by decide, by decide⟩,
    by decide, by decide, ?_⟩
  rintro (h | h)
  · exact absurd h (by decide)
  · exact absurd (h (fun _ => 0) ⟨0, 0, 0, 0, 0, 0, 0⟩) (by decide)

end RtcDs1340

end LinuxDriverKb
