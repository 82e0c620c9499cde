import LinuxDriverKb.Lib.Regmap
import LinuxDriverKb.Lib.Transition

/-!
# The TMP75 drivers over regmap

The drivers of chapters 16 and 18 describe the chip to regmap as having 16-bit big-endian
registers, and set the resolution by a masked update of the bits 6..5 of register 1. The
configuration register has 8 bits : it is the high byte of what regmap reads, and the chip
takes the first byte of a write, the high one. The update is of the low byte.

`setResolution_iff` : the chip keeps its resolution for ever, so that a run of settings
does what it should exactly if they all are the resolution the chip had at first.
-/

set_option autoImplicit false

namespace LinuxDriverKb

namespace Tmp75

/-! ## The chip -/

/-- The temperature and the configuration register. -/
structure Chip where
  temp : BitVec 16
  conf : BitVec 8

/-- `REG_TMP75_TEMP`. -/
def regTmp75Temp : BitVec 8 := 0x00

/-- `REG_TMP75_CONF`. -/
def regTmp75Conf : BitVec 8 := 0x01

/-- `REG_TMP75_MAX`. -/
def regTmp75Max : ℕ := 0x02

/-- A write transaction : the register byte, then the first byte for register 1. The chip
ignores the others. -/
def Chip.write (chip : Chip) : List (BitVec 8) → Chip
  | reg :: b :: _ => if reg = regTmp75Conf then { chip with conf := b } else chip
  | _ => chip

/-- A two-byte read; the second byte of an 8-bit register is `junk`. -/
def Chip.read (chip : Chip) (junk : BitVec 8) (reg : BitVec 8) : BitVec 8 × BitVec 8 :=
  if reg = regTmp75Temp then (chip.temp.extractLsb' 8 8, chip.temp.extractLsb' 0 8)
  else if reg = regTmp75Conf then (chip.conf, junk)
  else (junk, junk)

/-- `R1R0`. -/
def Chip.resolution (chip : Chip) : BitVec 2 :=
  chip.conf.extractLsb' 5 2

/-! ## The drivers -/

/-- `EINVAL`. -/
def einval : ℤ := 22

/-- `resolution_cfg`, an unsigned enumeration. -/
abbrev ResolutionCfg := BitVec 32

/-- `bit_9`, the default. -/
def bit9 : ResolutionCfg := 0

/-- `bit_10`. -/
def bit10 : ResolutionCfg := 1

/-- `bit_11`. -/
def bit11 : ResolutionCfg := 2

/-- `bit_12`, the last of the enumeration. -/
def bit12 : ResolutionCfg := 3

/-- `REG_TMP75_CONF_RESOLUTION`. -/
def regTmp75ConfResolution (x : ResolutionCfg) : BitVec 32 :=
  (x &&& 0x3) <<< 5

/-- `tmp75_regmap_config`, the same in both drivers. -/
def tmp75RegmapConfig : Regmap.Config where
  maxRegister := regTmp75Max
  writeableReg reg := reg != regTmp75Temp
  volatileReg reg := reg == regTmp75Temp

/-- An I2C transfer works, or returns a negative error without effect on the chip. -/
inductive Transfer
  | done
  | failed (err : ℤ) (neg : err < 0)

/-- What an access meets on the bus : the outcomes of a read and of a write, and the second
byte the chip sends for an 8-bit register. -/
structure Bus where
  read : Transfer
  write : Transfer
  junk : BitVec 8

/-- A bus on which the transfers work. -/
def Bus.works (junk : BitVec 8) : Bus :=
  ⟨.done, .done, junk⟩

/-- The I2C bus of regmap. -/
def i2cBus (bus : Bus) : Regmap.Bus Chip where
  read reg chip :=
    match bus.read with
    | .done => .ok (chip.read bus.junk reg)
    | .failed err _ => .error err
  write bytes chip :=
    match bus.write with
    | .done => (0, chip.write bytes)
    | .failed err _ => (err, chip)

/-- `priv->resolution_cfg`, and the register map with the chip behind it. -/
structure State where
  resolutionCfg : ResolutionCfg
  regmap : Regmap.State Chip

/-- `tmp75_set_resolution`, the same in both drivers. -/
def tmp75SetResolution (resCfg : ResolutionCfg) (bus : Bus) (m : Regmap.State Chip) :
    ℤ × Regmap.State Chip :=
  Regmap.updateBits tmp75RegmapConfig (i2cBus bus) regTmp75Conf (regTmp75ConfResolution bit12)
    (regTmp75ConfResolution resCfg) m

/-- Checks, sets and remembers the resolution; `ret` is returned if that works. -/
def setAndStore (ret : ℤ) (resCfg : ResolutionCfg) (bus : Bus) (s : State) : ℤ × State :=
  if resCfg > bit12 then (-einval, s)
  else
    let r := tmp75SetResolution resCfg bus s.regmap
    if r.1 < 0 then (r.1, { s with regmap := r.2 })
    else (ret, ⟨resCfg, r.2⟩)

/-- `TMP75_SET_RESOLUTION` of `tmp75_ioctl` in chapter 16. -/
def tmp75Ioctl (resCfg : ResolutionCfg) (bus : Bus) (s : State) : ℤ × State :=
  setAndStore 0 resCfg bus s

/-- `tmp75_resolution_store` of chapter 18 after its `sscanf`; it returns `count`. -/
def tmp75ResolutionStore (count : ℕ) (resCfg : ResolutionCfg) (bus : Bus) (s : State) :
    ℤ × State :=
  setAndStore count resCfg bus s

/-- The two drivers over regmap, of the chapters 16 and 18. -/
inductive Driver
  | regmap
  | hwmon

/-- One setting : the value asked for, the second byte the chip sends if it is read, and the
`count` of a store. -/
structure Setting where
  resCfg : ResolutionCfg
  junk : BitVec 8
  count : ℕ

/-- A setting, with transfers that work. -/
def call (d : Driver) (s : State) (c : Setting) : ℤ × State :=
  match d with
  | .regmap => tmp75Ioctl c.resCfg (.works c.junk) s
  | .hwmon => tmp75ResolutionStore c.count c.resCfg (.works c.junk) s

/-- The state after a setting. -/
def step (d : Driver) (s : State) (c : Setting) : Option State :=
  some (call d s c).2

/-- The driver as probed : nothing cached, and the chip as it is. -/
def init (chip : Chip) : State where
  resolutionCfg := bit9
  regmap := ⟨chip, fun _ => none⟩

/-! ## What a setting should do -/

/-- A setting that succeeds sets `R1R0` and `resolution_cfg`, and leaves the other bits of
the configuration. -/
def Holds (d : Driver) (s : State) (c : Setting) (s' : State) : Prop :=
  0 ≤ (call d s c).1 → s'.regmap.dev.resolution.toNat = c.resCfg.toNat ∧
    s'.resolutionCfg = c.resCfg ∧ s'.regmap.dev.conf &&& 0x9f = s.regmap.dev.conf &&& 0x9f

/-! ## What it does -/

/-- The high byte regmap has for the configuration register is the register. -/
def Synced (s : State) (conf : BitVec 8) : Prop :=
  s.regmap.dev.conf = conf ∧ ∀ junk, s.regmap.HighByte (i2cBus (.works junk)) regTmp75Conf conf

theorem synced_init (chip : Chip) : Synced (init chip) chip.conf :=
  ⟨rfl, fun junk => ⟨junk, rfl⟩⟩

/-- The mask of the update is in the low byte. -/
theorem getLsbD_mask (i : ℕ) (h : 8 ≤ i) (h' : i < 16) :
    (regTmp75ConfResolution bit12).getLsbD i = false := by
  have hall : ∀ i < 16, 8 ≤ i → (regTmp75ConfResolution bit12).getLsbD i = false := by decide
  exact hall i h' h

/-- `tmp75_set_resolution` succeeds and leaves the chip as it is. -/
theorem tmp75SetResolution_synced {s : State} {conf : BitVec 8} (h : Synced s conf)
    (resCfg : ResolutionCfg) (junk : BitVec 8) :
    ∃ m, tmp75SetResolution resCfg (.works junk) s.regmap = (0, m) ∧ m.dev = s.regmap.dev ∧
      ∀ junk', m.HighByte (i2cBus (.works junk')) regTmp75Conf conf := by
  obtain ⟨hconf, hhigh⟩ := h
  have hvol : tmp75RegmapConfig.volatileReg regTmp75Conf = false := rfl
  have hwr : tmp75RegmapConfig.writeableReg regTmp75Conf = true := rfl
  have hmax : regTmp75Conf.toNat ≤ tmp75RegmapConfig.maxRegister := by decide
  obtain ⟨r, v, lo, hrun, hcache, hv, hdev⟩ := Regmap.updateBits_highByte hvol hwr hmax
    getLsbD_mask (regTmp75ConfResolution resCfg) (hhigh junk)
  have hkeep : ∀ junk', r.2.HighByte (i2cBus (.works junk')) regTmp75Conf conf := by
    intro junk'
    rw [Regmap.State.HighByte, hcache]
    exact hv
  rcases hdev with ⟨hret, hdev⟩ | hdev
  · exact ⟨r.2, hrun.trans (Prod.ext hret rfl), hdev, hkeep⟩
  · -- the byte written is the one that is there
    obtain ⟨hret, hdev⟩ := Prod.ext_iff.mp hdev
    refine ⟨r.2, hrun.trans (Prod.ext hret rfl), hdev.trans ?_, hkeep⟩
    rw [← hconf]
    rfl

/-- A setting in range succeeds, one out of range is refused; neither changes the chip. -/
theorem call_synced {s : State} {conf : BitVec 8} (h : Synced s conf) (d : Driver) (c : Setting) :
    Synced (call d s c).2 conf ∧
      (0 ≤ (call d s c).1 ↔ c.resCfg ≤ bit12) ∧
      (c.resCfg ≤ bit12 → (call d s c).2.resolutionCfg = c.resCfg) := by
  have hall : ∀ ret : ℕ, Synced (setAndStore ret c.resCfg (.works c.junk) s).2 conf ∧
      (0 ≤ (setAndStore ret c.resCfg (.works c.junk) s).1 ↔ c.resCfg ≤ bit12) ∧
      (c.resCfg ≤ bit12 →
        (setAndStore ret c.resCfg (.works c.junk) s).2.resolutionCfg = c.resCfg) := by
    intro ret
    obtain ⟨m, hrun, hdev, hhigh⟩ := tmp75SetResolution_synced h c.resCfg c.junk
    unfold setAndStore
    split_ifs with hc
    · have hle : ¬ c.resCfg ≤ bit12 := BitVec.not_le.mpr hc
      exact ⟨h, iff_of_false (by simp [einval]) hle, fun hle' => absurd hle' hle⟩
    · rw [hrun]
      exact ⟨⟨(congrArg Chip.conf hdev).trans h.1, hhigh⟩,
        iff_of_true (Int.natCast_nonneg ret) (BitVec.not_lt.mp hc), fun _ => rfl⟩
  cases d
  · exact hall 0
  · exact hall c.count

/-- A setting does what it should exactly if it is refused, or is what the chip has. -/
theorem holds_iff {s s' : State} {conf : BitVec 8} {d : Driver} {c : Setting} (h : Synced s conf)
    (hstep : step d s c = some s') :
    Holds d s c s' ↔ (c.resCfg ≤ bit12 → (conf.extractLsb' 5 2).toNat = c.resCfg.toNat) := by
  obtain rfl := Option.some.inj hstep
  obtain ⟨⟨hconf, -⟩, hret, hcfg⟩ := call_synced h d c
  rw [Holds, hret, Chip.resolution, hconf, h.1]
  exact forall_congr' fun hle => ⟨fun hh => hh.1, fun hh => ⟨hh, hcfg hle, rfl⟩⟩

/-- Over any run of settings with either driver, on any chip : every successful setting
does what it should exactly if each is the resolution the chip had at first. -/
theorem setResolution_iff (d : Driver) (chip : Chip) (cs : List Setting) :
    Transition.Always (step d) (Holds d) (init chip) cs ↔
      ∀ c ∈ cs, c.resCfg ≤ bit12 → chip.resolution.toNat = c.resCfg.toNat := by
  have htotal : ∀ s c, ∃ s', step d s c = some s' := fun s c => ⟨_, rfl⟩
  rw [← Transition.always_forall htotal (s := init chip)]
  refine Transition.always_congr (I := fun s => Synced s chip.conf) (fun s c s' => holds_iff)
    (fun s c s' h hstep _ => ?_) (synced_init chip)
  obtain rfl := Option.some.inj hstep
  exact (call_synced h d c).1

/-- A chip at power-on, 9 bits, asked for 12 : both drivers report success and remember 12
bits, and the chip stays at 9. -/
theorem setResolution_lost :
    [Driver.regmap, .hwmon].map (fun d =>
      let r := call d (init ⟨0, 0⟩) ⟨bit12, 0, 1⟩
      (r.1, r.2.resolutionCfg, r.2.regmap.dev.resolution)) =
    [(0, bit12, 0), (1, bit12, 0)] := by
  decide

/-! ## Settings that fail -/

/-- What regmap has for the configuration register, or reads for it. -/
def State.conf (s : State) (bus : Bus) : BitVec 16 :=
  (s.regmap.cache regTmp75Conf).getD (s.regmap.dev.conf ++ bus.junk)

/-- The configuration is not cached, and the chip cannot be read. -/
def State.ReadFails (s : State) (bus : Bus) : Prop :=
  s.regmap.cache regTmp75Conf = none ∧ bus.read ≠ .done

/-- The configuration is there, has other bits than those for `resCfg` in its low byte, and
the chip cannot be written. -/
def State.WriteFails (s : State) (resCfg : ResolutionCfg) (bus : Bus) : Prop :=
  ¬s.ReadFails bus ∧ (s.conf bus).extractLsb' 5 2 ≠ resCfg.setWidth 2 ∧ bus.write ≠ .done

/-- The transfers that a setting needs work. -/
def State.Works (s : State) (resCfg : ResolutionCfg) (bus : Bus) : Prop :=
  ¬s.ReadFails bus ∧ ¬s.WriteFails resCfg bus

/-- The bits of a resolution in the register byte. -/
theorem getLsbD_regTmp75ConfResolution (x : ResolutionCfg) (i : ℕ) :
    (regTmp75ConfResolution x).getLsbD i =
      (decide (i = 5) && x.getLsbD 0 || decide (i = 6) && x.getLsbD 1) := by
  have hthree : ∀ j < 32, (3 : BitVec 32).getLsbD j = decide (j < 2) := by decide
  unfold regTmp75ConfResolution
  rw [BitVec.getLsbD_shiftLeft, BitVec.getLsbD_and]
  by_cases hi : i < 32
  · rw [hthree _ (by omega)]
    obtain hlt | rfl | rfl | hgt : i < 5 ∨ i = 5 ∨ i = 6 ∨ 6 < i := by omega
    · simp [hlt, show i ≠ 5 by omega, show i ≠ 6 by omega]
    · simp
    · simp
    · simp [show ¬ i - 5 < 2 by omega, show i ≠ 5 by omega, show i ≠ 6 by omega]
  · simp [hi, show i ≠ 5 by omega, show i ≠ 6 by omega]

theorem getLsbD_merge (v : BitVec 16) (x : ResolutionCfg) (i : ℕ) :
    (Regmap.merge v (regTmp75ConfResolution bit12) (regTmp75ConfResolution x)).getLsbD i =
      if i = 5 then x.getLsbD 0
      else if i = 6 then x.getLsbD 1
      else (v.setWidth 32).getLsbD i := by
  have h0 : bit12.getLsbD 0 = true := by decide
  have h1 : bit12.getLsbD 1 = true := by decide
  simp only [Regmap.merge, BitVec.getLsbD_or, BitVec.getLsbD_and, BitVec.getLsbD_not,
    getLsbD_regTmp75ConfResolution, h0, h1]
  by_cases h5 : i = 5
  · simp [h5]
  · by_cases h6 : i = 6
    · simp [h6]
    · by_cases hi : i < 32 <;> simp [h5, h6, hi]

/-- The update writes nothing exactly if the low byte has the bits of the resolution. -/
theorem merge_eq_iff (v : BitVec 16) (x : ResolutionCfg) :
    Regmap.merge v (regTmp75ConfResolution bit12) (regTmp75ConfResolution x) = v.setWidth 32 ↔
      v.extractLsb' 5 2 = x.setWidth 2 := by
  constructor
  · intro h
    refine BitVec.eq_of_getLsbD_eq fun i hi => ?_
    have hbit := getLsbD_merge v x (5 + i)
    rw [h] at hbit
    obtain rfl | rfl : i = 0 ∨ i = 1 := by omega
    · simpa using hbit
    · simpa using hbit
  · intro h
    have h0 : v.getLsbD 5 = x.getLsbD 0 := by simpa using congrArg (fun w => w.getLsbD 0) h
    have h1 : v.getLsbD 6 = x.getLsbD 1 := by simpa using congrArg (fun w => w.getLsbD 1) h
    refine BitVec.eq_of_getLsbD_eq fun i hi => ?_
    rw [getLsbD_merge]
    split_ifs with h5 h6
    · rw [h5, BitVec.getLsbD_setWidth, h0]
      simp
    · rw [h6, BitVec.getLsbD_setWidth, h1]
      simp
    · rfl

/-- What the update writes has the bits of the resolution. -/
theorem extractLsb'_merge (v : BitVec 16) (x : ResolutionCfg) :
    ((Regmap.merge v (regTmp75ConfResolution bit12)
      (regTmp75ConfResolution x)).setWidth 16).extractLsb' 5 2 = x.setWidth 2 := by
  refine BitVec.eq_of_getLsbD_eq fun i hi => ?_
  rw [BitVec.getLsbD_extractLsb', BitVec.getLsbD_setWidth, getLsbD_merge]
  obtain rfl | rfl : i = 0 ∨ i = 1 := by omega
  · simp
  · simp

/-- The configuration is read with an error, or is there and cached. -/
theorem read_conf (s : State) (bus : Bus) :
    (s.ReadFails bus ∧ ∃ err < 0,
      Regmap.read tmp75RegmapConfig (i2cBus bus) regTmp75Conf s.regmap = (.error err, s.regmap)) ∨
    (¬s.ReadFails bus ∧ ∃ m,
      Regmap.read tmp75RegmapConfig (i2cBus bus) regTmp75Conf s.regmap = (.ok (s.conf bus), m) ∧
      m.cache regTmp75Conf = some (s.conf bus) ∧
      ∀ v, s.regmap.cache regTmp75Conf = some v → v = s.conf bus) := by
  unfold State.ReadFails State.conf Regmap.read
  cases hc : s.regmap.cache regTmp75Conf with
  | some v => exact .inr ⟨fun h => Option.some_ne_none v h.1, s.regmap, rfl, hc, by simp⟩
  | none =>
    cases hr : bus.read with
    | done =>
      refine .inr ⟨fun h => h.2 rfl, ?_⟩
      simp only [i2cBus, hr]
      exact ⟨_, rfl, Regmap.State.store_cache rfl _ _, by simp⟩
    | failed err neg =>
      refine .inl ⟨⟨rfl, Transfer.noConfusion⟩, err, neg, ?_⟩
      simp only [i2cBus, hr]

/-- A failed read changes nothing, a failed write at most the cache; else
`tmp75_set_resolution` succeeds. -/
theorem tmp75SetResolution_cases (s : State) (resCfg : ResolutionCfg) (bus : Bus) :
    (s.ReadFails bus ∧ ∃ err < 0, tmp75SetResolution resCfg bus s.regmap = (err, s.regmap)) ∨
    (s.WriteFails resCfg bus ∧ ∃ err < 0, ∃ m, tmp75SetResolution resCfg bus s.regmap = (err, m) ∧
      m ≠ s.regmap) ∨
    (s.Works resCfg bus ∧ ∃ m, tmp75SetResolution resCfg bus s.regmap = (0, m)) := by
  have hok : ¬(regTmp75Conf.toNat > tmp75RegmapConfig.maxRegister ∨
      tmp75RegmapConfig.writeableReg regTmp75Conf = false) := by decide
  unfold tmp75SetResolution Regmap.updateBits
  obtain ⟨hf, err, neg, hread⟩ | ⟨hf, m, hread, hm, hcached⟩ := read_conf s bus
  · rw [hread]
    exact .inl ⟨hf, err, neg, rfl⟩
  · rw [hread]
    dsimp only
    by_cases hbits : (s.conf bus).extractLsb' 5 2 = resCfg.setWidth 2
    · rw [if_pos ((merge_eq_iff _ _).mpr hbits)]
      exact .inr (.inr ⟨⟨hf, fun h => h.2.1 hbits⟩, m, rfl⟩)
    · rw [if_neg (mt (merge_eq_iff _ _).mp hbits), Regmap.write, if_neg hok]
      cases hw : bus.write with
      | done =>
        simp only [i2cBus, hw]
        exact .inr (.inr ⟨⟨hf, fun h => h.2.2 hw⟩, _, rfl⟩)
      | failed err neg =>
        simp only [i2cBus, hw]
        refine .inr (.inl ⟨⟨hf, hbits, hw ▸ Transfer.noConfusion⟩, err, neg, _, rfl, fun heq => ?_⟩)
        -- the cache now has the bits asked for
        have hcache := congrFun (congrArg Regmap.State.cache heq) regTmp75Conf
        dsimp only at hcache
        rw [Regmap.State.store_cache rfl] at hcache
        exact hbits (hcached _ hcache.symm ▸ extractLsb'_merge _ _)

end Tmp75

end LinuxDriverKb
