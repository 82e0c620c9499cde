import LinuxDriverKb.Lib.FixedPoint
import LinuxDriverKb.Tmp75Regmap

/-!
# The TMP75 driver on raw I2C

The driver of chapter 15 writes the configuration register itself, one byte with the
resolution in the bits 6..5, and remembers the resolution once the transfer has worked. A
temperature is the 16-bit register as a signed number of 1/256 degrees, cut to the
resolution and scaled to 1/1000 degrees.

`tmp75_agrees` : over any run of ioctls with any failures, what the driver remembers is what
was last set and what the chip has, and a temperature is the register's, truncated to the
resolution.
-/

set_option autoImplicit false

namespace LinuxDriverKb

namespace Tmp75I2c

open Tmp75 (Chip ResolutionCfg Transfer bit9 bit12 regTmp75Temp regTmp75Conf regTmp75ConfResolution
  einval)

/-! ## The driver -/

/-- `EFAULT`. -/
def efault : ℤ := 14

/-- `ENOTTY`. -/
def enotty : ℤ := 25

/-- `resolution`, the bits of each setting. -/
def resolution : List ℕ := [9, 10, 11, 12]

/-- `_IOW('t', 1, int)`. -/
def tmp75SetResolutionCmd : BitVec 32 := 0x40047401

/-- `_IOW('t', 2, int)`. -/
def tmp75GetTemperatureCmd : BitVec 32 := 0x40047402

/-- `i2c_master_send`. -/
def i2cMasterSend (o : Transfer) (bytes : List (BitVec 8)) (chip : Chip) : ℤ × Chip :=
  match o with
  | .done => (bytes.length, chip.write bytes)
  | .failed err _ => (err, chip)

/-- `tmp75_write_reg`. -/
def tmp75WriteReg (o : Transfer) (reg : BitVec 8) (buf : List (BitVec 8)) (chip : Chip) :
    ℤ × Chip :=
  i2cMasterSend o (reg :: buf) chip

/-- `tmp75_read_reg` of two bytes into `buf`; it returns the number of messages. -/
def tmp75ReadReg (o : Transfer) (reg : BitVec 8) (buf : BitVec 8 × BitVec 8) (chip : Chip) :
    ℤ × (BitVec 8 × BitVec 8) :=
  match o with
  | .done => (2, chip.read buf.2 reg)
  | .failed err _ => (err, buf)

/-- `tmp75_set_resolution`. -/
def tmp75SetResolution (o : Transfer) (resCfg : ResolutionCfg) (chip : Chip) : ℤ × Chip :=
  tmp75WriteReg o regTmp75Conf [(regTmp75ConfResolution resCfg).setWidth 8] chip

/-- `temp >> (16 - bits)`, in `int`. -/
def shifted (temp : BitVec 16) (bits : ℕ) : BitVec 32 :=
  (temp.signExtend 32).sshiftRight (16 - bits)

/-- `tmp75_get_temperature`; `none` if it reads outside `resolution`. -/
def tmp75GetTemperature (o : Transfer) (resCfg : ResolutionCfg) (buf : BitVec 8 × BitVec 8)
    (chip : Chip) : Option (Except ℤ (BitVec 32)) :=
  let r := tmp75ReadReg o regTmp75Temp buf chip
  if r.1 < 0 then some (.error r.1)
  else resolution[resCfg.toNat]?.map fun bits =>
    .ok ((shifted (r.2.1 ++ r.2.2) bits * 1000).sshiftRight (bits - 8))

/-- `priv->resolution_cfg`, and the chip. -/
structure State where
  chip : Chip
  resolutionCfg : ResolutionCfg

/-- An ioctl with what it meets : the transfer, the first content of the buffer, and whether
`put_user` can store. -/
structure Call where
  cmd : BitVec 32
  arg : BitVec 32
  bus : Transfer
  buf : BitVec 8 × BitVec 8
  writable : Bool

/-- What an ioctl returns, the state it leaves, and the number `put_user` has stored. -/
structure Result where
  ret : ℤ
  state : State
  user : Option (BitVec 32)

/-- The case `TMP75_SET_RESOLUTION` of `tmp75_ioctl`. -/
def setResolution (c : Call) (s : State) : Result :=
  if c.arg > bit12 then ⟨-einval, s, none⟩
  else
    let r := tmp75SetResolution c.bus c.arg s.chip
    if r.1 < 0 then ⟨r.1, { s with chip := r.2 }, none⟩
    else ⟨0, ⟨r.2, c.arg⟩, none⟩

/-- The case `TMP75_GET_TEMPERATURE` of `tmp75_ioctl`. -/
def getTemperature (c : Call) (s : State) : Option Result :=
  (tmp75GetTemperature c.bus s.resolutionCfg c.buf s.chip).map fun
    | .error err => ⟨err, s, none⟩
    | .ok temperature =>
      if c.writable then ⟨0, s, some temperature⟩ else ⟨-efault, s, none⟩

/-- `tmp75_ioctl`. -/
def tmp75Ioctl (c : Call) (s : State) : Option Result :=
  if c.cmd = tmp75SetResolutionCmd then some (setResolution c s)
  else if c.cmd = tmp75GetTemperatureCmd then getTemperature c s
  else some ⟨-enotty, s, none⟩

/-- The chip has a new temperature, or an ioctl runs. -/
inductive Action
  | convert (temp : BitVec 16)
  | ioctl (c : Call)

/-- One action. -/
def step (s : State) : Action → Option State
  | .convert temp => some { s with chip := { s.chip with temp := temp } }
  | .ioctl c => (tmp75Ioctl c s).map Result.state

/-- After `tmp75_probe`, which leaves the chip as it is. -/
def init (chip : Chip) : State :=
  ⟨chip, bit9⟩

/-! ## What a run should do -/

/-- The chip has the resolution that the driver remembers, an index of `resolution`. -/
structure Agrees (s : State) : Prop where
  resolution_eq : s.chip.resolution.toNat = s.resolutionCfg.toNat
  lt_length : s.resolutionCfg.toNat < resolution.length

/-- The temperature in degrees, truncated to the chip's resolution of 9 to 12 bits. -/
def degrees (chip : Chip) : ℚ :=
  FixedPoint.truncate (FixedPoint.val chip.temp.toInt 8) (1 + chip.resolution.toNat)

/-- A number that is stored is 1000 times the temperature, rounded down, and no `int`
overflows on the way to it. -/
structure Stores (chip : Chip) (v : BitVec 32) : Prop where
  toInt : v.toInt = ⌊(1000 : ℚ) * degrees chip⌋
  no_overflow : ¬ (shifted chip.temp (9 + chip.resolution.toNat)).smulOverflow 1000

/-- A setting works exactly if it is in range and the transfer works, and is remembered. -/
structure Sets (c : Call) (r : Result) : Prop where
  ret : 0 ≤ r.ret ↔ c.arg ≤ bit12 ∧ c.bus = .done
  stored : 0 ≤ r.ret → r.state.resolutionCfg = c.arg

/-- An error changes nothing, a setting that works is remembered, and a temperature that is
got is right. -/
def Holds (s : State) (a : Action) (s' : State) : Prop :=
  ∀ c, a = .ioctl c → ∃ r, tmp75Ioctl c s = some r ∧ r.state = s' ∧
    (r.ret < 0 → s' = s ∧ r.user = none) ∧
    (c.cmd = tmp75SetResolutionCmd → Sets c r) ∧
    (c.cmd = tmp75GetTemperatureCmd → 0 ≤ r.ret → ∃ v, r.user = some v ∧ Stores s.chip v)

/-! ## The chip -/

/-- The two bytes of the temperature register. -/
theorem read_temp (chip : Chip) (junk : BitVec 8) :
    (chip.read junk regTmp75Temp).1 ++ (chip.read junk regTmp75Temp).2 = chip.temp := by
  have hread : chip.read junk regTmp75Temp =
      (chip.temp.extractLsb' 8 8, chip.temp.extractLsb' 0 8) := rfl
  rw [hread]
  apply BitVec.eq_of_getLsbD_eq
  intro i hi
  rw [BitVec.getLsbD_append]
  by_cases h : i < 8
  · simp [h]
  · have hsum : 8 + (i - 8) = i := by omega
    simp [h, hsum]
    omega

/-- A valid resolution written to the chip is the one it has. -/
theorem resolution_write {resCfg : ResolutionCfg} (h : resCfg ≤ bit12) (chip : Chip) :
    (chip.write [regTmp75Conf, (regTmp75ConfResolution resCfg).setWidth 8]).resolution.toNat =
      resCfg.toNat := by
  have hle : resCfg.toNat ≤ 3 := h
  have hall : ∀ n ≤ 3, (((regTmp75ConfResolution (.ofNat 32 n)).setWidth 8).extractLsb' 5 2).toNat
      = n := by decide
  have hn := hall resCfg.toNat hle
  rwa [BitVec.ofNat_toNat, BitVec.setWidth_eq] at hn

/-! ## Temperatures -/

/-- `temp >> (16 - bits)` as an integer. -/
theorem toInt_shifted (temp : BitVec 16) (bits : ℕ) :
    (shifted temp bits).toInt = temp.toInt / (2 ^ (16 - bits) : ℕ) := by
  rw [shifted, BitVec.toInt_sshiftRight, BitVec.toInt_signExtend_of_le (by decide),
    Int.shiftRight_eq_div_pow]

/-- The shifted temperature has 12 bits. -/
theorem shifted_bounds (temp : BitVec 16) {bits : ℕ} (h : 9 ≤ bits) (h' : bits ≤ 12) :
    -2048 ≤ (shifted temp bits).toInt ∧ (shifted temp bits).toInt < 2048 := by
  rw [toInt_shifted]
  have hlow := BitVec.le_toInt temp
  have hhigh := BitVec.toInt_lt (x := temp)
  obtain rfl | rfl | rfl | rfl : bits = 9 ∨ bits = 10 ∨ bits = 11 ∨ bits = 12 := by omega
  all_goals simp only [Nat.reduceSub, Nat.reducePow] at hlow hhigh ⊢; omega

theorem toInt_mul_thousand {x : BitVec 32} (h : -2048 ≤ x.toInt) (h' : x.toInt < 2048) :
    (x * 1000).toInt = x.toInt * 1000 := by
  have hthousand : (1000 : BitVec 32).toInt = 1000 := by decide
  rw [BitVec.toInt_mul, hthousand]
  exact Int.bmod_eq_of_le (by omega) (by omega)

/-- The number computed is the truncated temperature times 1000, rounded down. -/
theorem stores_of_agrees {s : State} (h : Agrees s) :
    ∃ bits, resolution[s.resolutionCfg.toNat]? = some bits ∧
      Stores s.chip ((shifted s.chip.temp bits * 1000).sshiftRight (bits - 8)) := by
  obtain ⟨heq, hlt⟩ := h
  have hlen : s.resolutionCfg.toNat < 4 := hlt
  have hall : ∀ n < 4, resolution[n]? = some (9 + n) := by decide
  refine ⟨9 + s.resolutionCfg.toNat, hall _ hlen, ?_⟩
  obtain ⟨hlow, hhigh⟩ : -2048 ≤ (shifted s.chip.temp (9 + s.resolutionCfg.toNat)).toInt ∧
      (shifted s.chip.temp (9 + s.resolutionCfg.toNat)).toInt < 2048 :=
    shifted_bounds s.chip.temp (by omega) (by omega)
  constructor
  · have hbits : 9 + s.resolutionCfg.toNat - 8 = 1 + s.resolutionCfg.toNat := by omega
    have hfrac : 16 - (9 + s.resolutionCfg.toNat) = 8 - (1 + s.resolutionCfg.toNat) := by omega
    rw [BitVec.toInt_sshiftRight, toInt_mul_thousand hlow hhigh, Int.shiftRight_eq_div_pow,
      toInt_shifted, hbits, hfrac, degrees, heq,
      FixedPoint.truncate_val _ (by omega), Int.mul_comm]
    exact (FixedPoint.floor_mul_val 1000 _ _).symm
  · have hthousand : (1000 : BitVec 32).toInt = 1000 := by decide
    rw [heq, BitVec.smulOverflow, hthousand, Bool.not_eq_true, Bool.or_eq_false_iff,
      decide_eq_false_iff_not, decide_eq_false_iff_not]
    constructor <;> omega

/-! ## One ioctl -/

/-- A setting works, or returns an error and leaves everything as it is. -/
theorem setResolution_agrees {s : State} (h : Agrees s) (c : Call) :
    Agrees (setResolution c s).state ∧
      ((setResolution c s).ret < 0 → (setResolution c s).state = s) ∧
      (setResolution c s).user = none ∧ Sets c (setResolution c s) := by
  unfold setResolution
  split_ifs with hrange
  · exact ⟨h, fun _ => rfl, rfl, iff_of_false (by simp [einval]) fun hc =>
      BitVec.not_le.mpr hrange hc.1, fun hret => absurd hret (by simp [einval])⟩
  · have hle : c.arg ≤ bit12 := BitVec.not_lt.mp hrange
    have hnat : c.arg.toNat ≤ 3 := hle
    cases hbus : c.bus with
    | done => exact ⟨⟨resolution_write hle s.chip, Nat.lt_succ_of_le hnat⟩,
        fun hneg => absurd hneg (Int.lt_irrefl 0), rfl,
        iff_of_true (Int.le_refl 0) ⟨hle, hbus⟩, fun _ => rfl⟩
    | failed err neg =>
      have hrun : tmp75SetResolution (.failed err neg) c.arg s.chip = (err, s.chip) := rfl
      rw [hrun, if_pos neg]
      have hret : ¬0 ≤ err := Int.not_le.mpr neg
      exact ⟨h, fun _ => rfl, rfl, iff_of_false hret fun hc => by simp [hbus] at hc,
        fun hle => absurd hle hret⟩

/-- Getting the temperature returns it, or an error; it changes nothing. -/
theorem getTemperature_agrees {s : State} (h : Agrees s) (c : Call) :
    ∃ r, getTemperature c s = some r ∧ r.state = s ∧ (r.ret < 0 → r.user = none) ∧
      (0 ≤ r.ret → ∃ v, r.user = some v ∧ Stores s.chip v) := by
  obtain ⟨bits, hbits, hstores⟩ := stores_of_agrees h
  unfold getTemperature
  cases c.bus with
  | failed err neg =>
    have hrun : tmp75GetTemperature (.failed err neg) s.resolutionCfg c.buf s.chip =
        some (.error err) := if_pos neg
    rw [hrun]
    exact ⟨_, rfl, rfl, fun _ => rfl, fun hret => absurd neg (Int.not_lt.mpr hret)⟩
  | done =>
    have hrun : tmp75GetTemperature .done s.resolutionCfg c.buf s.chip =
        some (.ok ((shifted s.chip.temp bits * 1000).sshiftRight (bits - 8))) := by
      rw [← read_temp s.chip c.buf.2, tmp75GetTemperature, hbits]
      rfl
    rw [hrun]
    cases hw : c.writable
    · exact ⟨⟨-efault, s, none⟩, by simp, rfl, fun _ => rfl, fun hret => by simp [efault] at hret⟩
    · exact ⟨⟨0, s, some _⟩, by simp, rfl, fun hneg => absurd hneg (Int.lt_irrefl 0),
        fun _ => ⟨_, rfl, hstores⟩⟩

/-- An error leaves the state, a setting is remembered, and a temperature is right. -/
theorem tmp75Ioctl_agrees {s : State} (h : Agrees s) (c : Call) :
    ∃ r, tmp75Ioctl c s = some r ∧ Agrees r.state ∧ (r.ret < 0 → r.state = s ∧ r.user = none) ∧
      (c.cmd = tmp75SetResolutionCmd → Sets c r) ∧
      (c.cmd = tmp75GetTemperatureCmd → 0 ≤ r.ret → ∃ v, r.user = some v ∧ Stores s.chip v) := by
  have hne : tmp75SetResolutionCmd ≠ tmp75GetTemperatureCmd := by decide
  unfold tmp75Ioctl
  split_ifs with hset hget
  · obtain ⟨hagrees, herr, huser, hsets⟩ := setResolution_agrees h c
    exact ⟨_, rfl, hagrees, fun hneg => ⟨herr hneg, huser⟩, fun _ => hsets,
      fun hget => absurd (hset.symm.trans hget) hne⟩
  · obtain ⟨r, hr, hstate, herr, hstores⟩ := getTemperature_agrees h c
    exact ⟨r, hr, hstate ▸ h, fun hneg => ⟨hstate, herr hneg⟩, fun hs => absurd hs hset,
      fun _ => hstores⟩
  · exact ⟨_, rfl, h, fun _ => ⟨rfl, rfl⟩, fun hs => absurd hs hset, fun hg => absurd hg hget⟩

theorem agrees_step {s : State} (h : Agrees s) (a : Action) :
    ∃ s', step s a = some s' ∧ Agrees s' ∧ Holds s a s' := by
  cases a with
  | convert temp => exact ⟨_, rfl, ⟨h.1, h.2⟩, fun c hc => nomatch hc⟩
  | ioctl c =>
    obtain ⟨r, hr, hagrees, herr, hget⟩ := tmp75Ioctl_agrees h c
    refine ⟨r.state, by simp [step, hr], hagrees, fun c' hc => ?_⟩
    obtain rfl := Action.ioctl.inj hc
    exact ⟨r, hr, rfl, herr, hget⟩

/-! ## Runs -/

/-- Over any run of ioctls and conversions on a chip of 9 bits at first : no access is
outside `resolution`, the driver and the chip agree, errors change nothing, a setting works
exactly if it is in range and transferred and is remembered, and every temperature is right. -/
theorem tmp75_agrees (chip : Chip) (hchip : chip.resolution = 0) (as : List Action) :
    (∃ s, Transition.run step (init chip) as = some s ∧ Agrees s) ∧
      Transition.Always step Holds (init chip) as := by
  have hinit : Agrees (init chip) :=
    ⟨(congrArg BitVec.toNat hchip : chip.resolution.toNat = 0), Nat.zero_lt_succ 3⟩
  constructor
  · refine Transition.exists_run (fun s a hs => ?_) as hinit
    obtain ⟨s', hstep, hs', -⟩ := agrees_step hs a
    exact ⟨s', hstep, hs'⟩
  · refine Transition.always_of_inv (fun s a s' hs hstep => ?_) hinit
    obtain ⟨t, ht, hagrees, hholds⟩ := agrees_step hs a
    obtain rfl := Option.some.inj (hstep.symm.trans ht)
    exact ⟨hagrees, hholds⟩

/-- 12 bits are set, the chip reads -0.0625 degrees, and the caller gets -63. -/
theorem tmp75_agrees_negative :
    (∃ s, Transition.run step (init ⟨0, 0⟩)
      [.ioctl ⟨tmp75SetResolutionCmd, bit12, .done, (0, 0), true⟩, .convert 0xfff0,
        .ioctl ⟨tmp75GetTemperatureCmd, 0, .done, (0, 0), true⟩] = some s ∧ Agrees s) ∧
      Transition.Always step Holds (init ⟨0, 0⟩)
        [.ioctl ⟨tmp75SetResolutionCmd, bit12, .done, (0, 0), true⟩, .convert 0xfff0,
          .ioctl ⟨tmp75GetTemperatureCmd, 0, .done, (0, 0), true⟩] :=
  tmp75_agrees ⟨0, 0⟩ rfl _

example : (tmp75Ioctl ⟨tmp75GetTemperatureCmd, 0, .done, (0, 0), true⟩
    ⟨⟨0xfff0, 0x60⟩, bit12⟩).bind (fun r => r.user.map BitVec.toInt) = some (-63) := by
  decide

end Tmp75I2c

end LinuxDriverKb
