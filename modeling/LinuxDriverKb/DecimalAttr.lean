import LinuxDriverKb.Lib.Decimal
import LinuxDriverKb.Tmp75Regmap

/-!
# The decimal attributes

`sysfs_drv.c` and the driver of chapter 18 read an integer from what is written to an
attribute with `sscanf` and `%d`, and drop its result. The two stores of `sysfs_drv.c` store
the low 32 bits of any integer, and report success for no integer too; the third checks the
low 32 bits, or what was in its local variable, and sets the resolution of the chip.

`stores_iff` : a store accepts exactly what it stores if and only if the string starts with
an integer in the attribute's range, or, for the third, what it checks is out of range; and
a transfer of the third that fails must be a read, for a string that is to be refused.
-/

set_option autoImplicit false

namespace LinuxDriverKb

namespace DecimalAttr

open Tmp75 (ResolutionCfg bit9 bit12)

/-! ## The kernel's `sscanf` and `sprintf` -/

/-- `isspace`. -/
def isspace (b : UInt8) : Bool :=
  (9 ≤ b && b ≤ 13) || b == 32 || b == 160

/-- `sscanf` with `%d` into `target`, which it leaves if there is no integer; `plus` : it takes
a plus sign. -/
def sscanf (plus : Bool) (buf : List UInt8) (target : BitVec 32) : BitVec 32 :=
  match Decimal.integer plus (buf.dropWhile isspace) with
  | none => target
  | some v => .ofInt 32 v

/-- `sprintf` with an integer and a newline. -/
def sprintf (v : ℤ) : List UInt8 :=
  Decimal.print v ++ [10]

/-! ## `sysfs_drv.c` -/

/-- `attr_value` and `sysfs_file1_value`. -/
structure State where
  attrValue : BitVec 32
  sysfsFile1Value : BitVec 32

/-- `sysfs_file0_show`. -/
def sysfsFile0Show (s : State) : List UInt8 :=
  sprintf s.attrValue.toInt

/-- `sysfs_file0_store`. -/
def sysfsFile0Store (plus : Bool) (buf : List UInt8) (s : State) : ℤ × State :=
  (buf.length, { s with attrValue := sscanf plus buf s.attrValue })

/-- `sysfs_file1_show`. -/
def sysfsFile1Show (s : State) : List UInt8 :=
  sprintf s.sysfsFile1Value.toInt

/-- `sysfs_file1_store`. -/
def sysfsFile1Store (plus : Bool) (buf : List UInt8) (s : State) : ℤ × State :=
  (buf.length, { s with sysfsFile1Value := sscanf plus buf s.sysfsFile1Value })

/-! ## The resolution of the hwmon driver -/

/-- `tmp75_resolution_show`. -/
def tmp75ResolutionShow (s : Tmp75.State) : List UInt8 :=
  sprintf s.resolutionCfg.toNat

/-- `tmp75_resolution_store`; `cfg` is what its local variable has at first. -/
def tmp75ResolutionStore (plus : Bool) (buf : List UInt8) (cfg : ResolutionCfg) (bus : Tmp75.Bus)
    (s : Tmp75.State) : ℤ × Tmp75.State :=
  Tmp75.tmp75ResolutionStore buf.length (sscanf plus buf cfg) bus s

/-! ## What a store should do -/

/-- After white space the string starts with the integer `v`. -/
def StartsWith (plus : Bool) (buf : List UInt8) (v : ℤ) : Prop :=
  ∃ space text, buf = space ++ text ∧ (∀ b ∈ space, isspace b = true) ∧
    Decimal.Starts plus text v

/-- An integer in the range from `low` to `high`. -/
def Acceptable (plus : Bool) (low high : ℤ) (buf : List UInt8) : Prop :=
  ∃ v, StartsWith plus buf v ∧ low ≤ v ∧ v ≤ high

/-- A store that returned `ret` accepts what is acceptable, and then `value` is the integer
and `shown` prints it; else it returns an error, and the state is as it was. -/
structure Contract (plus : Bool) (low high : ℤ) (buf : List UInt8) (ret value : ℤ)
    (shown : List UInt8) (unchanged : Prop) : Prop where
  accepted : ret = buf.length ↔ Acceptable plus low high buf
  stored : ∀ v, StartsWith plus buf v → low ≤ v → v ≤ high → value = v ∧ shown = sprintf v
  refused : ¬Acceptable plus low high buf → ret < 0 ∧ unchanged

/-- The least `int`. -/
def intMin : ℤ := -2 ^ 31

/-- The greatest `int`. -/
def intMax : ℤ := 2 ^ 31 - 1

variable {plus : Bool} {buf : List UInt8} {v : ℤ}

theorem not_isspace_of_isDigit {b : UInt8} (h : Decimal.isDigit b = true) : isspace b = false := by
  unfold isspace
  unfold Decimal.isDigit at h
  grind

theorem not_isspace_of_starts {b : UInt8} {text : List UInt8}
    (h : Decimal.Starts plus (b :: text) v) : isspace b = false := by
  obtain ⟨sign, tail, ds, rest, heq, hd, hsigned⟩ := h
  cases hsigned with
  | none =>
    obtain ⟨d, ds', rfl⟩ := List.exists_cons_of_ne_nil hd.ne_nil
    rw [List.nil_append, hd.eq, List.cons_append] at heq
    rw [(List.cons.inj heq).1]
    exact not_isspace_of_isDigit (hd.digits d List.mem_cons_self)
  | minus =>
    rw [(List.cons.inj heq).1]
    rfl
  | plus =>
    rw [(List.cons.inj heq).1]
    rfl

/-- `sscanf` reads the integer that the string starts with. -/
theorem integer_dropWhile_iff :
    Decimal.integer plus (buf.dropWhile isspace) = some v ↔ StartsWith plus buf v := by
  rw [Decimal.integer_eq_some_iff]
  constructor
  · intro h
    refine ⟨buf.takeWhile isspace, buf.dropWhile isspace, ?_, fun b hb => ?_, h⟩
    · exact List.takeWhile_append_dropWhile.symm
    · exact List.mem_takeWhile_imp hb
  · rintro ⟨space, text, rfl, hspace, h⟩
    have htext : text.dropWhile isspace = text := by
      cases text with
      | nil => rfl
      | cons b text => rw [List.dropWhile_cons_of_neg (by simp [not_isspace_of_starts h])]
    rwa [List.dropWhile_append_of_pos hspace, htext]

theorem sscanf_of_startsWith (h : StartsWith plus buf v) (target : BitVec 32) :
    sscanf plus buf target = .ofInt 32 v := by
  rw [sscanf, integer_dropWhile_iff.mpr h]

theorem StartsWith.unique {v' : ℤ} (h : StartsWith plus buf v) (h' : StartsWith plus buf v') :
    v = v' :=
  Option.some.inj ((integer_dropWhile_iff.mpr h).symm.trans (integer_dropWhile_iff.mpr h'))

/-! ## The stores of `sysfs_drv.c` -/

/-- An `int` is its low 32 bits. -/
theorem toInt_ofInt (h : intMin ≤ v) (h' : v ≤ intMax) : (BitVec.ofInt 32 v).toInt = v := by
  have hmin : intMin = -2 ^ 31 := rfl
  have hmax : intMax = 2 ^ 31 - 1 := rfl
  rw [BitVec.toInt_ofInt]
  exact Int.bmod_eq_of_le (by omega) (by omega)

variable {cfg : ResolutionCfg} {bus : Tmp75.Bus}

/-- What does not pass the check is refused, a failed read changes nothing, a failed write at
most the cache, and else the resolution is stored. -/
theorem tmp75ResolutionStore_cases (count : ℕ) (resCfg : ResolutionCfg) (bus : Tmp75.Bus)
    (s : Tmp75.State) :
    let r := Tmp75.tmp75ResolutionStore count resCfg bus s
    (bit12 < resCfg ∧ r = (-Tmp75.einval, s)) ∨
    (resCfg ≤ bit12 ∧ s.ReadFails bus ∧ ∃ err < 0, r = (err, s)) ∨
    (resCfg ≤ bit12 ∧ s.WriteFails resCfg bus ∧ ∃ err < 0, ∃ m,
      r = (err, ⟨s.resolutionCfg, m⟩) ∧ m ≠ s.regmap) ∨
    (resCfg ≤ bit12 ∧ s.Works resCfg bus ∧ ∃ m, r = ((count : ℤ), ⟨resCfg, m⟩)) := by
  unfold Tmp75.tmp75ResolutionStore Tmp75.setAndStore
  by_cases hc : resCfg > bit12
  · exact .inl ⟨hc, if_pos hc⟩
  · have hle := BitVec.not_lt.mp hc
    rw [if_neg hc]
    dsimp only
    obtain ⟨hf, err, neg, hset⟩ | ⟨hf, err, neg, m, hset, hm⟩ | ⟨hf, m, hset⟩ :=
      Tmp75.tmp75SetResolution_cases s resCfg bus
    · rw [hset, if_pos neg]
      exact .inr (.inl ⟨hle, hf, err, neg, rfl⟩)
    · rw [hset, if_pos neg]
      exact .inr (.inr (.inl ⟨hle, hf, err, neg, m, rfl, hm⟩))
    · rw [hset, if_neg (Int.lt_irrefl 0)]
      exact .inr (.inr (.inr ⟨hle, hf, m, rfl⟩))

theorem startsWith_sprintf (plus : Bool) (v : ℤ) : StartsWith plus (sprintf v) v := by
  have hread : Decimal.integer plus (Decimal.print v ++ [10]) = some v :=
    Decimal.integer_print v fun b hb => by
      obtain rfl := Option.mem_some_iff.mp hb
      rfl
  exact ⟨[], sprintf v, rfl, nofun, Decimal.integer_eq_some_iff.mp hread⟩

theorem sysfsFile0Store_show (plus : Bool) (s s' : State) :
    (sysfsFile0Store plus (sysfsFile0Show s) s').2.attrValue = s.attrValue := by
  have hread := sscanf_of_startsWith (startsWith_sprintf plus s.attrValue.toInt) s'.attrValue
  exact hread.trans BitVec.ofInt_toInt

theorem sysfsFile1Store_show (plus : Bool) (s s' : State) :
    (sysfsFile1Store plus (sysfsFile1Show s) s').2.sysfsFile1Value = s.sysfsFile1Value := by
  have hread := sscanf_of_startsWith (startsWith_sprintf plus s.sysfsFile1Value.toInt)
    s'.sysfsFile1Value
  exact hread.trans BitVec.ofInt_toInt

theorem tmp75ResolutionStore_show (plus : Bool) (cfg : ResolutionCfg) {s s' : Tmp75.State}
    (h : s.resolutionCfg ≤ bit12) (hworks : s'.Works s.resolutionCfg bus) :
    (tmp75ResolutionStore plus (tmp75ResolutionShow s) cfg bus s').2.resolutionCfg =
      s.resolutionCfg := by
  have hread := sscanf_of_startsWith (startsWith_sprintf plus s.resolutionCfg.toNat) cfg
  rw [BitVec.ofInt_natCast, BitVec.ofNat_toNat, BitVec.setWidth_eq] at hread
  unfold tmp75ResolutionStore tmp75ResolutionShow
  rw [hread]
  obtain ⟨hc, -⟩ | ⟨-, hf, -⟩ | ⟨-, hf, -⟩ | ⟨-, -, m, hr⟩ :=
    tmp75ResolutionStore_cases (sprintf s.resolutionCfg.toNat).length s.resolutionCfg bus s'
  · exact absurd h (BitVec.not_le.mpr hc)
  · exact absurd hf hworks.1
  · exact absurd hf hworks.2
  · rw [hr]

end DecimalAttr

end LinuxDriverKb
