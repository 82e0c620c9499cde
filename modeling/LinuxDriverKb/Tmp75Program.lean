import LinuxDriverKb.Lib.FloatFormat
import LinuxDriverKb.Tmp75Hwmon
import LinuxDriverKb.Tmp75Messages

/-!
# The TMP75 program beside the driver

The test program of chapter 15 talks to the chip over `/dev/i2c-2`, whatever the driver does
with the same chip meanwhile. It sets 12 bits once, and then shows the temperature every
second with four decimals, a `float` computed in `double` for the resolution it believes in.
Its setting is sent without its payload.

`tmp75_program_run` : whatever the program does, the driver and the chip run as they do
without it. The `float` is the register in 1/256 degrees, at every resolution and without a
rounding, and so are the decimals of a register of 12 bits; a number of the driver at the
time is that cut to the driver's resolution.
-/

set_option autoImplicit false

namespace LinuxDriverKb

namespace Tmp75Program

open FixedPoint (Decimals val)
open FloatFormat (Rounding binary32 binary64)
open Tmp75 (Chip ResolutionCfg Transfer bit9 bit12 regTmp75Temp)
open Tmp75I2c (resolution)
open Tmp75Messages (I2cMsg tmp75Address exec)

/-! ## The program -/

/-- `ioctl(fd, I2C_RDWR, &data)` : the number of messages, or an error. -/
def i2cRdwr (bus : Transfer) (msgs : List I2cMsg) (chip : Chip) : ℤ × Chip :=
  match bus with
  | .done => (msgs.length, exec tmp75Address msgs chip)
  | .failed err _ => (err, chip)

/-- `tmp75_set_resolution`; `temp` is what is in the array of `i2c_write` at first. -/
def tmp75SetResolution (bus : Transfer) (temp : ℕ → BitVec 8) (resCfg : ResolutionCfg)
    (chip : Chip) : ℤ × Chip :=
  let r := i2cRdwr bus (Tmp75Messages.Test.tmp75SetResolution temp resCfg) chip
  if r.1 < 0 then r else (0, r.2)

/-- `i2c_read` of two bytes, into `buf`. -/
def i2cRead (bus : Transfer) (reg : BitVec 8) (buf : BitVec 8 × BitVec 8) (chip : Chip) :
    ℤ × (BitVec 8 × BitVec 8) :=
  let msgs := Tmp75Messages.i2cRead tmp75Address reg (fun i => if i = 0 then buf.1 else buf.2) 2
  match bus with
  | .done => ((i2cRdwr bus msgs chip).1, chip.read buf.2 reg)
  | .failed _ _ => ((i2cRdwr bus msgs chip).1, buf)

variable (D : Rounding binary64) (S : Rounding binary32) (P : Decimals 4)

/-- `temp * 1.0 / pow(2, 16 - bits) / pow(2, bits - 8)`, stored to a `float`. -/
def celsius (temp : BitVec 16) (bits : ℕ) : ℚ :=
  S.round (D.div (D.div (D.mul temp.toInt 1) (D.pow 2 (16 - bits))) (D.pow 2 (bits - 8)))

/-- `tmp75_get_temperature`; `none` if it reads outside `resolution`. -/
def tmp75GetTemperature (bus : Transfer) (resCfg : ResolutionCfg) (buf : BitVec 8 × BitVec 8)
    (chip : Chip) : Option (Except ℤ ℚ) :=
  let r := i2cRead bus regTmp75Temp buf chip
  if r.1 < 0 then some (.error r.1)
  else resolution[resCfg.toNat]?.map fun bits => .ok (celsius D S (r.2.1 ++ r.2.2) bits)

/-- Where `main` is : before `tmp75_set_resolution`, in its loop, or behind `exit`. -/
inductive Place
  | setting
  | polling
  | exited
  deriving DecidableEq

/-- The driver with the chip, and the program with the numbers it has shown, in 1/10000
degrees. -/
structure State where
  driver : Tmp75I2c.State
  place : Place
  shown : List ℤ

/-- The next transfer of `main` and what follows from it, `printf` with `%.4f` included; `stack`
is what is in the arrays of its functions at first. -/
def main (bus : Transfer) (stack : ℕ → BitVec 8) (s : State) : Option State :=
  match s.place with
  | .setting =>
    let r := tmp75SetResolution bus stack bit12 s.driver.chip
    some { s with
      driver := { s.driver with chip := r.2 }
      place := if r.1 < 0 then .exited else .polling }
  | .polling =>
    (tmp75GetTemperature D S bus bit12 (stack 0, stack 1) s.driver.chip).map fun
      | .error _ => { s with place := .exited }
      | .ok temperature => { s with shown := s.shown ++ [P.toInt temperature] }
  | .exited => none

/-- The chip or an ioctl of the driver, or the program. -/
inductive Action
  | driver (a : Tmp75I2c.Action)
  | program (bus : Transfer) (stack : ℕ → BitVec 8)

/-- One action. -/
def step (s : State) : Action → Option State
  | .driver a => (Tmp75I2c.step s.driver a).map fun driver => { s with driver := driver }
  | .program bus stack => main D S P bus stack s

/-- The driver is loaded, and the program has started. -/
def init (chip : Chip) : State :=
  ⟨Tmp75I2c.init chip, .setting, []⟩

/-- The action without the program. -/
def Action.driver? : Action → Option Tmp75I2c.Action
  | .driver a => some a
  | .program _ _ => none

/-! ## What the program is for -/

/-- A thermometer : the register, where its program is, and what it has shown. -/
structure Thermometer where
  temp : BitVec 16
  place : Place
  shown : List ℤ

/-- It shows the register in 1/256 degrees, with four decimals, until a transfer fails. -/
def Thermometer.step (t : Thermometer) : Action → Option Thermometer
  | .driver (.convert temp) => some { t with temp := temp }
  | .driver (.ioctl _) => some t
  | .program bus _ =>
    match t.place, bus with
    | .exited, _ => none
    | _, .failed _ _ => some { t with place := .exited }
    | .setting, .done => some { t with place := .polling }
    | .polling, .done => some { t with shown := t.shown ++ [P.toInt (val t.temp.toInt 8)] }

/-- The thermometer that the program is. -/
def State.thermometer (s : State) : Thermometer :=
  ⟨s.driver.chip.temp, s.place, s.shown⟩

/-! ## The temperature -/

/-- Four decimals show a register of 12 bits as it is. -/
theorem toInt_register (temp : BitVec 16) (h : 16 ∣ temp.toInt) :
    (P.toInt (val temp.toInt 8) : ℚ) = 10 ^ 4 * val temp.toInt 8 := by
  obtain ⟨k, hk⟩ := h
  have hval : 10 ^ 4 * val temp.toInt 8 = (625 * k : ℤ) := by
    rw [hk, val]
    push_cast
    ring
  rw [P.toInt_eq hval, hval]

/-- No operation rounds, and the resolution cancels. -/
theorem celsius_eq (temp : BitVec 16) {bits : ℕ} (h : 8 ≤ bits) (h' : bits ≤ 16) :
    celsius D S temp bits = val temp.toInt 8 := by
  have hlow := BitVec.le_toInt temp
  have hhigh := BitVec.toInt_lt (x := temp)
  have habs : |temp.toInt| ≤ 2 ^ 15 := abs_le.mpr ⟨by omega, by omega⟩
  have hD : |temp.toInt| < 2 ^ binary64.precision := lt_of_le_of_lt habs (by decide)
  have hS : |temp.toInt| < 2 ^ binary32.precision := lt_of_le_of_lt habs (by decide)
  have hmax : 0 ≤ binary64.emax := by decide
  have hmin : ∀ n : ℕ, n ≤ 16 → binary64.emin ≤ n ∧ n ≤ binary64.emax := by
    intro n hn
    simp only [binary64]
    omega
  have hmin' : ∀ n : ℕ, n ≤ 16 → binary64.emin ≤ -n := by
    intro n hn
    simp only [binary64]
    omega
  have hone : D.mul temp.toInt 1 = val temp.toInt 0 := by
    have hzero : (temp.toInt : ℚ) = val temp.toInt 0 := by rw [val, pow_zero, Nat.cast_one, div_one]
    rw [hzero]
    exact D.mul_one_eq (FloatFormat.fits_val hD (by decide) hmax)
  have hfst := D.div_two_pow_eq (f := 0) (g := 16 - bits) hD (hmin' _ (by omega)) hmax
  have hsnd := D.div_two_pow_eq (f := 0 + (16 - bits)) (g := bits - 8) hD (hmin' _ (by omega)) hmax
  have hsum : 0 + (16 - bits) + (bits - 8) = 8 := by omega
  obtain ⟨hn, hx⟩ := hmin (16 - bits) (by omega)
  obtain ⟨hn', hx'⟩ := hmin (bits - 8) (by omega)
  rw [celsius, hone, D.pow_two_eq (by decide) hn hx, hfst, D.pow_two_eq (by decide) hn' hx', hsnd,
    hsum]
  exact S.round_eq _ (FloatFormat.fits_val hS (by decide) (by decide))

/-! ## One step of the driver -/

theorem temp_write (chip : Chip) (bytes : List (BitVec 8)) :
    (chip.write bytes).temp = chip.temp := by
  unfold Chip.write
  split
  · split_ifs <;> rfl
  · rfl

/-- The resolution that the driver remembers is in range. -/
def InRange (d : Tmp75I2c.State) : Prop :=
  d.resolutionCfg ≤ bit12

/-- A temperature that the driver gets is the register cut to its resolution. -/
theorem tmp75GetTemperature_driver {d : Tmp75I2c.State} (h : InRange d)
    (buf : BitVec 8 × BitVec 8) :
    ∃ v, Tmp75I2c.tmp75GetTemperature .done d.resolutionCfg buf d.chip = some (.ok v) ∧
      Tmp75Hwmon.Reads d.chip.temp d.resolutionCfg v := by
  obtain ⟨bits, hbits, hreads⟩ := Tmp75Hwmon.reads_of_le h d.chip.temp
  refine ⟨_, ?_, hreads⟩
  rw [← Tmp75I2c.read_temp d.chip buf.2, Tmp75I2c.tmp75GetTemperature, hbits]
  rfl

/-- Getting the temperature does not change the state. -/
theorem getTemperature_state {d : Tmp75I2c.State} (h : InRange d) (c : Tmp75I2c.Call) :
    ∃ r, Tmp75I2c.getTemperature c d = some r ∧ r.state = d := by
  unfold Tmp75I2c.getTemperature
  cases c.bus with
  | done =>
    obtain ⟨v, hv, -⟩ := tmp75GetTemperature_driver h c.buf
    rw [hv]
    refine ⟨_, rfl, ?_⟩
    dsimp only
    split_ifs <;> rfl
  | failed err neg =>
    have hrun : Tmp75I2c.tmp75GetTemperature (.failed err neg) d.resolutionCfg c.buf d.chip =
        some (.error err) := if_pos neg
    rw [hrun]
    exact ⟨_, rfl, rfl⟩

/-- A setting keeps the resolution in range, and does not touch the register. -/
theorem setResolution_state {d : Tmp75I2c.State} (h : InRange d) (c : Tmp75I2c.Call) :
    InRange (Tmp75I2c.setResolution c d).state ∧
      (Tmp75I2c.setResolution c d).state.chip.temp = d.chip.temp := by
  unfold Tmp75I2c.setResolution
  split_ifs with hrange
  · exact ⟨h, rfl⟩
  · cases c.bus with
    | done => exact ⟨BitVec.not_lt.mp hrange, temp_write d.chip _⟩
    | failed err neg =>
      have hrun : Tmp75I2c.tmp75SetResolution (.failed err neg) c.arg d.chip = (err, d.chip) := rfl
      rw [hrun, if_pos neg]
      exact ⟨h, rfl⟩

/-- The register, as the chip's own steps leave it. -/
def register (temp : BitVec 16) : Tmp75I2c.Action → BitVec 16
  | .convert temp => temp
  | .ioctl _ => temp

theorem step_driver {d : Tmp75I2c.State} (h : InRange d) (a : Tmp75I2c.Action) :
    ∃ d', Tmp75I2c.step d a = some d' ∧ InRange d' ∧ d'.chip.temp = register d.chip.temp a := by
  cases a with
  | convert temp => exact ⟨_, rfl, h, rfl⟩
  | ioctl c =>
    rw [Tmp75I2c.step, Tmp75I2c.tmp75Ioctl]
    split_ifs
    · obtain ⟨hrange, htemp⟩ := setResolution_state h c
      exact ⟨_, rfl, hrange, htemp⟩
    · obtain ⟨r, hr, hstate⟩ := getTemperature_state h c
      rw [hr]
      exact ⟨_, rfl, hstate ▸ h, hstate ▸ rfl⟩
    · exact ⟨_, rfl, h, rfl⟩

/-! ## One step of the program -/

/-- The setting does not reach the configuration register. -/
theorem tmp75SetResolution_done (temp : ℕ → BitVec 8) (resCfg : ResolutionCfg) (chip : Chip) :
    tmp75SetResolution .done temp resCfg chip = (0, chip) := by
  have hchip := Tmp75Messages.exec_test_tmp75SetResolution tmp75Address temp resCfg chip
  simp only [tmp75SetResolution, i2cRdwr, hchip]
  exact if_neg (Int.not_lt.mpr (Int.natCast_nonneg _))

theorem tmp75SetResolution_failed {err : ℤ} (neg : err < 0) (temp : ℕ → BitVec 8)
    (resCfg : ResolutionCfg) (chip : Chip) :
    tmp75SetResolution (.failed err neg) temp resCfg chip = (err, chip) :=
  if_pos neg

/-- A temperature that the program gets is the register. -/
theorem tmp75GetTemperature_done {resCfg : ResolutionCfg} (h : resCfg ≤ bit12)
    (buf : BitVec 8 × BitVec 8) (chip : Chip) :
    tmp75GetTemperature D S .done resCfg buf chip = some (.ok (val chip.temp.toInt 8)) := by
  have hlt : resCfg.toNat < 4 := Nat.lt_succ_of_le h
  have hall : ∀ n < 4, resolution[n]? = some (9 + n) := by decide
  have hcelsius : celsius D S chip.temp (9 + resCfg.toNat) = val chip.temp.toInt 8 :=
    celsius_eq D S chip.temp (by omega) (by omega)
  rw [← hcelsius, ← Tmp75I2c.read_temp chip buf.2, tmp75GetTemperature, hall _ hlt]
  rfl

theorem tmp75GetTemperature_failed {err : ℤ} (neg : err < 0) (resCfg : ResolutionCfg)
    (buf : BitVec 8 × BitVec 8) (chip : Chip) :
    tmp75GetTemperature D S (.failed err neg) resCfg buf chip = some (.error err) :=
  if_pos neg

/-- The program leaves the driver and the chip. -/
theorem driver_main {bus : Transfer} {stack : ℕ → BitVec 8} {s s' : State}
    (h : main D S P bus stack s = some s') : s'.driver = s.driver := by
  unfold main at h
  split at h
  · obtain rfl := Option.some.inj h
    cases bus with
    | done => rw [tmp75SetResolution_done]
    | failed err neg => rw [tmp75SetResolution_failed]
  · obtain ⟨r, -, rfl⟩ := Option.map_eq_some_iff.mp h
    cases r <;> rfl
  · cases h

/-- The program is that of a thermometer. -/
theorem thermometer_main (bus : Transfer) (stack : ℕ → BitVec 8) (s : State) :
    (main D S P bus stack s).map State.thermometer =
      s.thermometer.step P (.program bus stack) := by
  obtain ⟨driver, place, shown⟩ := s
  cases place with
  | setting =>
    simp only [main, State.thermometer, Option.map_some]
    cases bus with
    | done =>
      rw [tmp75SetResolution_done]
      rfl
    | failed err neg =>
      rw [tmp75SetResolution_failed, if_pos neg]
      rfl
  | polling =>
    simp only [main, State.thermometer]
    cases bus with
    | done =>
      rw [tmp75GetTemperature_done D S (by decide)]
      rfl
    | failed err neg =>
      rw [tmp75GetTemperature_failed]
      rfl
  | exited => rfl

/-! ## Runs -/

theorem inRange_step {s s' : State} {a : Action} (h : InRange s.driver)
    (hstep : step D S P s a = some s') : InRange s'.driver := by
  cases a with
  | driver a =>
    obtain ⟨d, hd, rfl⟩ := Option.map_eq_some_iff.mp hstep
    obtain ⟨d', hd', hrange, -⟩ := step_driver h a
    obtain rfl := Option.some.inj (hd.symm.trans hd')
    exact hrange
  | program bus stack => exact driver_main D S P hstep ▸ h

theorem thermometer_step {s : State} (h : InRange s.driver) (a : Action) :
    (step D S P s a).map State.thermometer = s.thermometer.step P a := by
  cases a with
  | driver a =>
    obtain ⟨d, hd, -, htemp⟩ := step_driver h a
    simp only [step, hd, Option.map_some, State.thermometer, htemp]
    cases a <;> rfl
  | program bus stack => exact thermometer_main D S P bus stack s

/-- Over any run of the chip, of ioctls of the driver and of the program, with any failed
transfers and whatever the arithmetic does to numbers that do not fit : the program is a
thermometer that shows the register in 1/256 degrees with four decimals until a transfer
fails, and those are exact for a register of 12 bits. The driver and the chip run as they do
without it; and a number that the driver gets then is what the program gets then, cut to the
resolution of the driver, in 1/1000 degrees. -/
theorem tmp75_program_run (chip : Chip) (as : List Action) :
    (Transition.run (step D S P) (init chip) as).map State.thermometer =
        Transition.run (Thermometer.step P) ⟨chip.temp, .setting, []⟩ as ∧
      (∀ temp : BitVec 16, 16 ∣ temp.toInt →
        (P.toInt (val temp.toInt 8) : ℚ) = 10 ^ 4 * val temp.toInt 8) ∧
      ∀ s, Transition.run (step D S P) (init chip) as = some s →
        Transition.run Tmp75I2c.step (Tmp75I2c.init chip) (as.filterMap Action.driver?) =
            some s.driver ∧
          ∀ buf, tmp75GetTemperature D S .done bit12 buf s.driver.chip =
              some (.ok (val s.driver.chip.temp.toInt 8)) ∧
            ∃ v, Tmp75I2c.tmp75GetTemperature .done s.driver.resolutionCfg buf s.driver.chip =
                some (.ok v) ∧
              Tmp75Hwmon.Reads s.driver.chip.temp s.driver.resolutionCfg v := by
  have hinit : InRange (init chip).driver := show bit9 ≤ bit12 by decide
  refine ⟨?_, toInt_register P, fun s hrun => ⟨?_, fun buf => ⟨?_, ?_⟩⟩⟩
  · exact Transition.map_run (I := fun s => InRange s.driver)
      (fun _ _ _ => inRange_step D S P) (fun _ a h => thermometer_step D S P h a) as hinit
  · refine Transition.run_filterMap (f := State.driver) ?_ ?_ hrun
    · rintro s (a | _) s' b hb hstep
      · obtain rfl := Option.some.inj hb
        obtain ⟨d, hd, rfl⟩ := Option.map_eq_some_iff.mp hstep
        exact hd
      · cases hb
    · rintro s (a | ⟨bus, stack⟩) s' hnone hstep
      · cases hnone
      · exact driver_main D S P hstep
  · exact tmp75GetTemperature_done D S (by decide) buf s.driver.chip
  · refine tmp75GetTemperature_driver ?_ buf
    exact Transition.inv_run (I := fun s => InRange s.driver) (fun _ _ _ => inRange_step D S P)
      hinit hrun

/-- The program sets 12 bits and shows 25.0625 degrees of a register that has them, but the
chip stays at 9 bits, and the driver has 25000. -/
theorem program_without_setting :
    let D : Rounding binary64 := ⟨id, fun _ _ => rfl⟩
    let S : Rounding binary32 := ⟨id, fun _ _ => rfl⟩
    let P : Decimals 4 := .floor
    ∃ s, Transition.run (step D S P) (init ⟨0, 0⟩)
        [.program .done fun _ => 0, .driver (.convert 0x1910), .program .done fun _ => 0] = some s ∧
      s.shown = [250625] ∧ s.driver.chip.resolution = 0 ∧
      (Tmp75I2c.tmp75GetTemperature .done s.driver.resolutionCfg (0, 0) s.driver.chip).map
        (Except.map BitVec.toInt) = some (.ok 25000) := by
  intro D S P
  obtain ⟨hmap, hexact, hrun⟩ := tmp75_program_run D S P ⟨0, 0⟩
    [.program .done fun _ => 0, .driver (.convert 0x1910), .program .done fun _ => 0]
  obtain ⟨s, hs, hview⟩ := Option.map_eq_some_iff.mp hmap
  obtain ⟨hdriver, -⟩ := hrun s hs
  have hd : s.driver = ⟨⟨0x1910, 0⟩, bit9⟩ := (Option.some.inj hdriver).symm
  have hshown : s.shown = [P.toInt (val (0x1910 : BitVec 16).toInt 8)] :=
    congrArg Thermometer.shown hview
  have hint : (0x1910 : BitVec 16).toInt = 6416 := by decide
  have hval : P.toInt (val (0x1910 : BitVec 16).toInt 8) = 250625 := by
    have hreg := hexact 0x1910 (by decide)
    have hunits : 10 ^ 4 * val 6416 8 = (250625 : ℚ) := by
      rw [val]
      norm_num
    rw [hint] at hreg ⊢
    exact_mod_cast hreg.trans hunits
  refine ⟨s, hs, by rw [hshown, hval], ?_, ?_⟩
  · rw [hd]
    decide
  · rw [hd]
    decide

end Tmp75Program

end LinuxDriverKb
