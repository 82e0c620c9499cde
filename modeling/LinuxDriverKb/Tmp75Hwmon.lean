import LinuxDriverKb.DecimalAttr
import LinuxDriverKb.Tmp75I2c

/-!
# The TMP75 as a hardware monitor

The hwmon core asks the driver of chapter 18 for the temperature and prints it into
`temp1_input`; the test program reads the line back with `atoi`. The driver cuts the
register to the resolution it remembers, and remembers what was last set through its
attribute `resolution`. The register is volatile : regmap reads it from the chip each time.

`hwmon_temperature` : over any run, with any failed transfers, the number that the program
has is the register of the moment in 1/1000 degrees, cut to the resolution last reported as
set.
-/

set_option autoImplicit false

namespace LinuxDriverKb

namespace Tmp75Hwmon

open Tmp75
open Tmp75I2c (resolution shifted)

/-! ## The driver -/

/-- `tmp75_get_temperature`, the same in chapter 16; `none` if it reads outside
`resolution`. -/
def tmp75GetTemperature (bus : Bus) (resCfg : ResolutionCfg) (m : Regmap.State Chip) :
    Option (Except ℤ (BitVec 32) × Regmap.State Chip) :=
  match Regmap.read tmp75RegmapConfig (i2cBus bus) regTmp75Temp m with
  | (.error err, m) => some (.error err, m)
  | (.ok temp, m) => resolution[resCfg.toNat]?.map fun bits =>
    (.ok ((shifted temp bits * 1000).sshiftRight (bits - 8)), m)

/-- `enum hwmon_sensor_types`, as far as the driver tells them apart. -/
inductive SensorType
  | temp
  | other

/-- The attributes of a temperature sensor. -/
inductive TempAttr
  | input
  | other

/-- `tmp75_is_visible` : the mode of an attribute, 0 if there is none. -/
def tmp75IsVisible : SensorType → TempAttr → ℕ
  | .temp, .input => 0o444
  | _, _ => 0

/-- `tmp75_read`. -/
def tmp75Read (type : SensorType) (attr : TempAttr) (bus : Bus) (s : State) :
    Option (Except ℤ ℤ × State) :=
  match type, attr with
  | .temp, .input =>
    (tmp75GetTemperature bus s.resolutionCfg s.regmap).map fun
      | (.error err, m) => (.error err, { s with regmap := m })
      | (.ok temp, m) => (.ok temp.toInt, { s with regmap := m })
  | _, _ => some (.error (-einval), s)

/-- `ENOENT`. -/
def enoent : ℤ := 2

/-- A read of an attribute through the hwmon core, which makes a file only of what is visible
and prints `%ld` and a newline into it. -/
def hwmonAttrShow (type : SensorType) (attr : TempAttr) (bus : Bus) (s : State) :
    Option (Except ℤ (List UInt8) × State) :=
  if tmp75IsVisible type attr = 0 then some (.error (-enoent), s)
  else (tmp75Read type attr bus s).map fun
    | (.error err, s) => (.error err, s)
    | (.ok val, s) => (.ok (DecimalAttr.sprintf val), s)

/-! ## The test program -/

/-- `ATTR_MAX`. -/
def attrMax : ℕ := 128

/-- `fgets` into `size` bytes : what fits of the first line, `none` at the end of the file. -/
def fgets (size : ℕ) (file : List UInt8) : Option (List UInt8) :=
  if file = [] then none
  else some ((file.take (file.findIdx (· == 10) + 1)).take (size - 1))

/-- `sysfs_read_attr` : the line without its last byte. -/
def sysfsReadAttr (file : List UInt8) : Option (List UInt8) :=
  (fgets attrMax file).map fun p => (p.takeWhile (· != 0)).dropLast

/-- `isspace` of the C library. -/
def isspace (b : UInt8) : Bool :=
  (9 ≤ b && b ≤ 13) || b == 32

/-- `atoi` : a `long`, which saturates, as an `int`. -/
def atoi (text : List UInt8) : BitVec 32 :=
  match Decimal.integer true (text.dropWhile isspace) with
  | none => 0
  | some v => .ofInt 32 (max (-2 ^ 63) (min v (2 ^ 63 - 1)))

/-- `tmp75_get_temperature` of the program; `none` in the result is -1. The division of the
number by 1000.0 is left out. -/
def getTemperature (bus : Bus) (s : State) : Option (Option (BitVec 32) × State) :=
  (hwmonAttrShow .temp .input bus s).map fun
    | (.error _, s) => (none, s)
    | (.ok file, s) => ((sysfsReadAttr file).map atoi, s)

/-- What `snprintf` leaves in the 10 bytes of `buf`. -/
def resolutionText (resCfg : ResolutionCfg) : List UInt8 :=
  (Decimal.print resCfg.toInt).take 9

/-- `tmp75_set_resolution` of the program. -/
def setResolution (plus : Bool) (resCfg cfg : ResolutionCfg) (bus : Bus) (s : State) : ℤ × State :=
  let r := DecimalAttr.tmp75ResolutionStore plus (resolutionText resCfg) cfg bus s
  (if r.1 < 0 then -1 else 0, r.2)

/-! ## The system -/

/-- The chip has a new temperature, someone writes a text to `resolution`, or the program
sets the resolution or gets the temperature. -/
inductive Action
  | convert (temp : BitVec 16)
  | store (buf : List UInt8) (cfg : ResolutionCfg) (bus : Bus)
  | set (resCfg cfg : ResolutionCfg) (bus : Bus)
  | get (bus : Bus)

/-- The driver with its chip, and the resolution that was last reported as set. -/
structure System where
  drv : State
  reported : ResolutionCfg

/-- A conversion of the chip. -/
def convert (temp : BitVec 16) (s : State) : State :=
  { s with regmap := { s.regmap with dev := { s.regmap.dev with temp := temp } } }

/-- One action; a setting is reported as set if it returns no error. -/
def step (plus : Bool) (s : System) : Action → Option System
  | .convert temp => some { s with drv := convert temp s.drv }
  | .store buf cfg bus =>
    let r := DecimalAttr.tmp75ResolutionStore plus buf cfg bus s.drv
    some ⟨r.2, if r.1 < 0 then s.reported else DecimalAttr.sscanf plus buf cfg⟩
  | .set resCfg cfg bus =>
    let r := setResolution plus resCfg cfg bus s.drv
    some ⟨r.2, if r.1 < 0 then s.reported else resCfg⟩
  | .get bus => (getTemperature bus s.drv).map fun r => { s with drv := r.2 }

/-- The driver as probed. -/
def start (chip : Chip) : System :=
  ⟨init chip, bit9⟩

/-! ## What a run should do -/

/-- A number in 1/1000 degrees for a register : the register cut to the resolution, rounded
down. So it is not above the temperature, and below it by less than the last bit and 1. -/
structure Reads (temp : BitVec 16) (resCfg : ResolutionCfg) (v : BitVec 32) : Prop where
  toInt : v.toInt =
    ⌊(1000 : ℚ) * FixedPoint.truncate (FixedPoint.val temp.toInt 8) (1 + resCfg.toNat)⌋
  le : (v.toInt : ℚ) ≤ 1000 * FixedPoint.val temp.toInt 8
  lt : 1000 * FixedPoint.val temp.toInt 8 < v.toInt + 1 + 1000 / (2 ^ (1 + resCfg.toNat) : ℕ)

/-- The register after an action, by the conversions alone. -/
def temperature (temp : BitVec 16) : Action → BitVec 16
  | .convert temp => temp
  | _ => temp

theorem mem_print {v : ℤ} {b : UInt8} (h : b ∈ Decimal.print v) :
    Decimal.isDigit b = true ∨ b = Decimal.minusSign := by
  have hd := (Decimal.digits_printNat_self v.natAbs).digits b
  unfold Decimal.print at h
  split_ifs at h
  · rcases List.mem_cons.mp h with rfl | h
    · exact .inr rfl
    · exact .inl (hd h)
  · exact .inl (hd h)

/-- A byte of an integer ends no line and no string, and is no space. -/
theorem print_byte {v : ℤ} {b : UInt8} (h : b ∈ Decimal.print v) :
    b ≠ 10 ∧ b ≠ 0 ∧ isspace b = false := by
  rcases mem_print h with hd | rfl
  · unfold Decimal.isDigit at hd
    unfold isspace
    grind
  · decide

/-- The program gets the line without its end, if it fits. -/
theorem sysfsReadAttr_sprintf {v : ℤ} (h : (Decimal.print v).length + 1 < attrMax) :
    sysfsReadAttr (DecimalAttr.sprintf v) = some (Decimal.print v) := by
  have hno : ¬(Decimal.print v).findIdx (· == 10) < (Decimal.print v).length := by
    rw [List.findIdx_lt_length]
    rintro ⟨b, hb, hnl⟩
    exact (print_byte hb).1 (beq_iff_eq.mp hnl)
  have hidx : (DecimalAttr.sprintf v).findIdx (· == 10) = (Decimal.print v).length := by
    rw [DecimalAttr.sprintf, List.findIdx_append, if_neg hno]
    exact Nat.zero_add _
  have hlen : (DecimalAttr.sprintf v).length = (Decimal.print v).length + 1 := List.length_append
  have hline : fgets attrMax (DecimalAttr.sprintf v) = some (DecimalAttr.sprintf v) := by
    rw [fgets, if_neg (by simp [DecimalAttr.sprintf]), hidx, ← hlen, List.take_length,
      List.take_of_length_le (by omega)]
  have hstr : (DecimalAttr.sprintf v).takeWhile (· != 0) = DecimalAttr.sprintf v := by
    rw [List.takeWhile_eq_self_iff]
    intro b hb
    rcases List.mem_append.mp hb with hb | hb
    · exact bne_iff_ne.mpr (print_byte hb).2.1
    · rw [List.mem_singleton.mp hb]
      rfl
  rw [sysfsReadAttr, hline, Option.map_some, hstr, DecimalAttr.sprintf, List.dropLast_concat]

/-- `atoi` reads an `int` back. -/
theorem atoi_print (v : BitVec 32) : atoi (Decimal.print v.toInt) = v := by
  have hspace : (Decimal.print v.toInt).dropWhile isspace = Decimal.print v.toInt := by
    cases h : Decimal.print v.toInt with
    | nil => rfl
    | cons b bs =>
      have hb : isspace b = false := (print_byte (h ▸ List.mem_cons_self)).2.2
      rw [List.dropWhile_cons_of_neg (by simp [hb])]
  have hlow := BitVec.le_toInt v
  have hhigh := BitVec.toInt_lt (x := v)
  have hclamp : max (-2 ^ 63) (min v.toInt (2 ^ 63 - 1)) = v.toInt := by omega
  rw [atoi, hspace, Decimal.integer_print_self]
  dsimp only
  rw [hclamp, BitVec.ofInt_toInt]

theorem getTemperature_text (v : BitVec 32) :
    (sysfsReadAttr (DecimalAttr.sprintf v.toInt)).map atoi = some v := by
  have hlow := BitVec.le_toInt v
  have hhigh := BitVec.toInt_lt (x := v)
  have hlen : (Decimal.print v.toInt).length ≤ 10 + 1 :=
    Decimal.length_print (by decide) (by omega)
  have hfits : (Decimal.print v.toInt).length + 1 < attrMax := by
    unfold attrMax
    omega
  rw [sysfsReadAttr_sprintf hfits, Option.map_some, atoi_print]

/-! ## The resolution -/

theorem startsWith_of_starts {plus : Bool} {text : List UInt8} {v : ℤ}
    (h : Decimal.Starts plus text v) : DecimalAttr.StartsWith plus text v :=
  ⟨[], text, rfl, by simp, h⟩

theorem toNat_ofInt (v : ℤ) : (BitVec.ofInt 32 v).toNat = (v % 2 ^ 32).toNat := by
  rw [BitVec.toNat_ofInt]
  rfl

/-- A resolution in range is written as it is. -/
theorem sscanf_resolutionText (plus : Bool) {resCfg : ResolutionCfg} (h : resCfg ≤ bit12)
    (cfg : ResolutionCfg) : DecimalAttr.sscanf plus (resolutionText resCfg) cfg = resCfg := by
  have hnat : resCfg.toNat ≤ 3 := h
  have hint : resCfg.toInt = resCfg.toNat := BitVec.toInt_eq_toNat_of_lt (by omega)
  have hlen : (Decimal.print resCfg.toInt).length ≤ 1 + 1 :=
    Decimal.length_print (by decide) (by omega)
  have hread := Decimal.integer_print_self plus resCfg.toInt
  rw [resolutionText, List.take_of_length_le (by omega),
    DecimalAttr.sscanf_of_startsWith (startsWith_of_starts (Decimal.integer_eq_some_iff.mp hread)),
    BitVec.ofInt_toInt]

/-- What is written for a resolution out of range is out of range too, though the buffer
cuts it. -/
theorem lt_sscanf_resolutionText (plus : Bool) {resCfg : ResolutionCfg} (h : bit12 < resCfg)
    (cfg : ResolutionCfg) : bit12 < DecimalAttr.sscanf plus (resolutionText resCfg) cfg := by
  have hnat : 3 < resCfg.toNat := h
  have htop := resCfg.isLt
  have hint := BitVec.toInt_eq_toNat_cond resCfg
  rw [BitVec.lt_def, resolutionText]
  split_ifs at hint with hsmall
  · obtain ⟨n, hlow, hhigh, hstarts⟩ := Decimal.starts_take_print plus
      (v := resCfg.toInt) (k := 8) (m := 4) (by omega) (by decide) (by decide)
    rw [if_neg (by omega)] at hstarts
    rw [DecimalAttr.sscanf_of_startsWith (startsWith_of_starts hstarts), toNat_ofInt]
    show 3 < _
    omega
  · obtain ⟨n, hlow, hhigh, hstarts⟩ := Decimal.starts_take_print plus
      (v := resCfg.toInt) (k := 8) (m := 1) (by omega) (by decide) (by decide)
    rw [if_pos (by omega)] at hstarts
    rw [DecimalAttr.sscanf_of_startsWith (startsWith_of_starts hstarts), toNat_ofInt]
    show 3 < _
    omega

/-- The program's setting is accepted exactly if it is in range. -/
theorem sscanf_resolutionText_le (plus : Bool) (resCfg cfg : ResolutionCfg) :
    DecimalAttr.sscanf plus (resolutionText resCfg) cfg ≤ bit12 ↔ resCfg ≤ bit12 := by
  constructor
  · intro h
    by_contra hc
    exact BitVec.not_le.mpr (lt_sscanf_resolutionText plus (BitVec.not_le.mp hc) cfg) h
  · intro h
    rwa [sscanf_resolutionText plus h]

/-! ## One step -/

/-- The resolution is in range, and the temperature is not cached. -/
structure Valid (s : State) : Prop where
  resolutionCfg : s.resolutionCfg ≤ bit12
  cache : s.regmap.cache regTmp75Temp = none

/-- Setting the resolution leaves the temperature, in the chip and in the cache. -/
theorem tmp75SetResolution_temp (resCfg : ResolutionCfg) (bus : Bus) (m : Regmap.State Chip) :
    (tmp75SetResolution resCfg bus m).2.dev.temp = m.dev.temp ∧
      (tmp75SetResolution resCfg bus m).2.cache regTmp75Temp = m.cache regTmp75Temp := by
  have hne : regTmp75Temp ≠ regTmp75Conf := by decide
  obtain ⟨hdev, hcache⟩ := Regmap.updateBits_frame tmp75RegmapConfig (i2cBus bus) regTmp75Conf
    (regTmp75ConfResolution bit12) (regTmp75ConfResolution resCfg) m
  refine ⟨?_, hcache _ hne⟩
  rcases hdev with hdev | ⟨bytes, hdev⟩
  · exact congrArg Chip.temp hdev
  · refine (congrArg Chip.temp hdev).trans ?_
    cases hw : bus.write with
    | failed err neg => simp only [i2cBus, hw]
    | done =>
      simp only [i2cBus, hw]
      cases bytes <;> rfl

theorem tmp75ResolutionStore_temp (count : ℕ) (resCfg : ResolutionCfg) (bus : Bus) (s : State) :
    let r := Tmp75.tmp75ResolutionStore count resCfg bus s
    r.2.regmap.dev.temp = s.regmap.dev.temp ∧
      r.2.regmap.cache regTmp75Temp = s.regmap.cache regTmp75Temp := by
  have hset := tmp75SetResolution_temp resCfg bus s.regmap
  unfold Tmp75.tmp75ResolutionStore setAndStore
  split_ifs
  · exact ⟨rfl, rfl⟩
  · dsimp only
    split_ifs
    · exact hset
    · exact hset

/-- A store with an error leaves the resolution, and else it is what was checked; the
temperature stays. -/
theorem store_valid {s : State} (h : Valid s) (count : ℕ) (resCfg : ResolutionCfg) (bus : Bus) :
    let r := Tmp75.tmp75ResolutionStore count resCfg bus s
    Valid r.2 ∧ r.2.regmap.dev.temp = s.regmap.dev.temp ∧
      (0 ≤ r.1 ↔ resCfg ≤ bit12 ∧ s.Works resCfg bus) ∧
      r.2.resolutionCfg = if r.1 < 0 then s.resolutionCfg else resCfg := by
  have hcases := DecimalAttr.tmp75ResolutionStore_cases count resCfg bus s
  obtain ⟨htemp, hcache⟩ := tmp75ResolutionStore_temp count resCfg bus s
  rw [h.cache] at hcache
  have hneg : -einval < 0 := by decide
  dsimp only at hcases ⊢
  generalize Tmp75.tmp75ResolutionStore count resCfg bus s = r at hcases htemp hcache ⊢
  obtain ⟨hc, rfl⟩ | ⟨hc, hf, err, neg, rfl⟩ | ⟨hc, hf, err, neg, m, rfl, -⟩ | ⟨hc, hf, m, rfl⟩ :=
    hcases
  · exact ⟨h, rfl, iff_of_false (Int.not_le.mpr hneg) fun hok => BitVec.not_le.mpr hc hok.1,
      (if_pos hneg).symm⟩
  · exact ⟨h, rfl, iff_of_false (Int.not_le.mpr neg) fun hok => hok.2.1 hf, (if_pos neg).symm⟩
  · exact ⟨⟨h.resolutionCfg, hcache⟩, htemp,
      iff_of_false (Int.not_le.mpr neg) fun hok => hok.2.2 hf, (if_pos neg).symm⟩
  · have hcount : 0 ≤ (count : ℤ) := Int.natCast_nonneg count
    exact ⟨⟨hc, hcache⟩, htemp, iff_of_true hcount ⟨hc, hf⟩, (if_neg (Int.not_lt.mpr hcount)).symm⟩

/-- For every resolution in range, the driver's number is right. -/
theorem reads_of_le {resCfg : ResolutionCfg} (h : resCfg ≤ bit12) (temp : BitVec 16) :
    ∃ bits, resolution[resCfg.toNat]? = some bits ∧
      Reads temp resCfg ((shifted temp bits * 1000).sshiftRight (bits - 8)) := by
  let chip : Chip :=
    (⟨temp, 0⟩ : Chip).write [regTmp75Conf, (regTmp75ConfResolution resCfg).setWidth 8]
  have hchip : chip.resolution.toNat = resCfg.toNat := Tmp75I2c.resolution_write h ⟨temp, 0⟩
  have hagrees : Tmp75I2c.Agrees ⟨chip, resCfg⟩ := ⟨hchip, Nat.lt_succ_of_le h⟩
  obtain ⟨bits, hbits, hstores⟩ := Tmp75I2c.stores_of_agrees hagrees
  have hint : ((shifted temp bits * 1000).sshiftRight (bits - 8)).toInt =
      ⌊(1000 : ℚ) * FixedPoint.truncate (FixedPoint.val temp.toInt 8) (1 + resCfg.toNat)⌋ := by
    rw [← hchip]
    exact hstores.toInt
  obtain ⟨hle, hlt⟩ := FixedPoint.floor_mul_truncate (k := 1000) (by decide)
    (FixedPoint.val temp.toInt 8) (1 + resCfg.toNat)
  rw [← hint] at hle hlt
  exact ⟨bits, hbits, hint, hle, hlt⟩

/-- The attribute of the temperature is a file. -/
theorem hwmonAttrShow_input (bus : Bus) (s : State) :
    hwmonAttrShow .temp .input bus s = (tmp75Read .temp .input bus s).map fun
      | (.error err, s) => (.error err, s)
      | (.ok val, s) => (.ok (DecimalAttr.sprintf val), s) :=
  if_neg (show ¬0o444 = 0 by decide)

/-- The register is read from the chip each time. -/
theorem read_temp {s : State} (h : Valid s) (bus : Bus) :
    Regmap.read tmp75RegmapConfig (i2cBus bus) regTmp75Temp s.regmap =
      (match bus.read with
        | .done => .ok s.regmap.dev.temp
        | .failed err _ => .error err, s.regmap) := by
  have hvol : tmp75RegmapConfig.volatileReg regTmp75Temp = true := rfl
  rw [Regmap.read_volatile hvol h.cache]
  cases hr : bus.read with
  | failed err neg => simp only [i2cBus, hr, Except.map]
  | done =>
    simp only [i2cBus, hr, Except.map, Tmp75I2c.read_temp]

theorem getTemperature_failed {s : State} (h : Valid s) (bus : Bus) (hbus : bus.read ≠ .done) :
    getTemperature bus s = some (none, s) := by
  have hread := read_temp h bus
  cases hr : bus.read with
  | done => exact absurd hr hbus
  | failed err neg =>
    rw [hr] at hread
    simp only [getTemperature, hwmonAttrShow_input, tmp75Read, tmp75GetTemperature, hread,
      Option.map_some]

/-- A temperature that is got is the register's, and nothing changes. -/
theorem getTemperature_done {s : State} (h : Valid s) (bus : Bus) (hbus : bus.read = .done) :
    ∃ v, getTemperature bus s = some (some v, s) ∧
      Reads s.regmap.dev.temp s.resolutionCfg v := by
  obtain ⟨bits, hbits, hreads⟩ := reads_of_le h.resolutionCfg s.regmap.dev.temp
  have hread := read_temp h bus
  rw [hbus] at hread
  refine ⟨_, ?_, hreads⟩
  simp only [getTemperature, hwmonAttrShow_input, tmp75Read, tmp75GetTemperature, hread, hbits,
    Option.map_some, getTemperature_text]

/-- The program's setting succeeds exactly if it is in range and the transfers that it needs
work, and is what the driver then remembers. -/
theorem setResolution_valid (plus : Bool) {s : State} (h : Valid s) (new cfg : ResolutionCfg)
    (bus : Bus) :
    let r := setResolution plus new cfg bus s
    Valid r.2 ∧ r.2.regmap.dev.temp = s.regmap.dev.temp ∧
      (new ≤ bit12 ∧ s.Works new bus ∧ r.1 = 0 ∧ r.2.resolutionCfg = new ∨
        ¬(new ≤ bit12 ∧ s.Works new bus) ∧ r.1 = -1 ∧ r.2.resolutionCfg = s.resolutionCfg) := by
  intro r
  obtain ⟨hvalid, htemp, hret, hcfg⟩ := store_valid h (resolutionText new).length
    (DecimalAttr.sscanf plus (resolutionText new) cfg) bus
  have htext : DecimalAttr.sscanf plus (resolutionText new) cfg ≤ bit12 ∧
      s.Works (DecimalAttr.sscanf plus (resolutionText new) cfg) bus ↔
        new ≤ bit12 ∧ s.Works new bus := by
    rw [sscanf_resolutionText_le]
    exact and_congr_right fun hle => by rw [sscanf_resolutionText plus hle]
  rw [htext] at hret
  refine ⟨hvalid, htemp, ?_⟩
  by_cases hok : new ≤ bit12 ∧ s.Works new bus
  · have hnot := Int.not_lt.mpr (hret.mpr hok)
    rw [if_neg hnot] at hcfg
    exact .inl ⟨hok.1, hok.2, if_neg hnot, hcfg.trans (sscanf_resolutionText plus hok.1 cfg)⟩
  · have hneg := Int.not_le.mp (mt hret.mp hok)
    rw [if_pos hneg] at hcfg
    exact .inr ⟨hok, if_pos hneg, hcfg⟩

/-- The driver is valid, and remembers what was last reported as set. -/
structure Inv (s : System) : Prop where
  valid : Valid s.drv
  reported : s.drv.resolutionCfg = s.reported

theorem Inv.step (plus : Bool) {s : System} (h : Inv s) (a : Action) :
    ∃ s', step plus s a = some s' ∧ Inv s' ∧
      s'.drv.regmap.dev.temp = temperature s.drv.regmap.dev.temp a := by
  cases a with
  | convert temp =>
    exact ⟨_, rfl, ⟨⟨h.valid.resolutionCfg, h.valid.cache⟩, h.reported⟩, rfl⟩
  | store buf cfg bus =>
    obtain ⟨hvalid, htemp, -, hcfg⟩ :=
      store_valid h.valid buf.length (DecimalAttr.sscanf plus buf cfg) bus
    rw [h.reported] at hcfg
    exact ⟨_, rfl, ⟨hvalid, hcfg⟩, htemp⟩
  | set new cfg bus =>
    obtain ⟨hvalid, htemp, ⟨-, -, hret, hcfg⟩ | ⟨-, hret, hcfg⟩⟩ :=
      setResolution_valid plus h.valid new cfg bus
    · have hnot : ¬(setResolution plus new cfg bus s.drv).1 < 0 := by omega
      exact ⟨_, rfl, ⟨hvalid, hcfg.trans (if_neg hnot).symm⟩, htemp⟩
    · have hneg : (setResolution plus new cfg bus s.drv).1 < 0 := by omega
      exact ⟨_, rfl, ⟨hvalid, (hcfg.trans h.reported).trans (if_pos hneg).symm⟩, htemp⟩
  | get bus =>
    refine ⟨s, ?_, h, rfl⟩
    by_cases hbus : bus.read = .done
    · obtain ⟨v, hget, -⟩ := getTemperature_done h.valid bus hbus
      simp only [Tmp75Hwmon.step, hget, Option.map_some]
    · simp only [Tmp75Hwmon.step, getTemperature_failed h.valid bus hbus, Option.map_some]

/-! ## Runs -/

theorem Inv.run (plus : Bool) :
    ∀ (as : List Action) {s : System}, Inv s →
      ∃ s', Transition.run (Tmp75Hwmon.step plus) s as = some s' ∧ Inv s' ∧
        s'.drv.regmap.dev.temp = as.foldl temperature s.drv.regmap.dev.temp
  | [], s, h => ⟨s, rfl, h, rfl⟩
  | a :: as, s, h => by
    obtain ⟨t, hstep, ht, htemp⟩ := h.step plus a
    obtain ⟨s', hrun, hs', htemp'⟩ := Inv.run plus as ht
    refine ⟨s', by simp [hstep, hrun], hs', ?_⟩
    rw [htemp', htemp, List.foldl_cons]

/-- 12 bits are set after a setting that failed at the chip, the register reads -0.0625
degrees, and the program has -63. -/
example : (Transition.run (step true) (start ⟨0, 0⟩)
    [.set bit11 0 ⟨.failed (-5) (by decide), .done, 0⟩, .set bit12 0 (.works 0),
      .convert 0xfff0]).bind
    (fun s => (getTemperature (.works 0) s.drv).map fun r => r.1.map BitVec.toInt) =
      some (some (-63)) := by
  decide

end Tmp75Hwmon

end LinuxDriverKb
