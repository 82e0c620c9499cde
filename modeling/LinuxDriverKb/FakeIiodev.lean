import LinuxDriverKb.Lib.CInt
import Mathlib.Algebra.Ring.Int.Defs
import Mathlib.Logic.Function.Basic

/-!
# The simulated light sensor `fake_iiodev.c`

Two light channels. A timer counts the first one up, the second is half of it; user space
sets the period, and for each channel a threshold for rising and one for falling events.
Every callback takes `priv->lock` around all it does with the private data, so that a call
and a run of the timer's handler are one step each.
-/

set_option autoImplicit false

namespace LinuxDriverKb

namespace FakeIiodev

/-! ## The driver -/

/-- `-EINVAL`. -/
def einval : ℤ := -22

/-- `HZ`, with which the longest period fits in 32 bits. -/
structure Params where
  hz : ℕ
  hz_pos : 0 < hz
  hz_le : 5 * hz < 2 ^ 32

/-- `struct fake_iiodev_priv`. A timer that is pending has the time it expires at. -/
structure Priv where
  currentLux : Fin 2 → UInt8
  timer : Option ℕ
  freq : ℕ
  event : Fin 2 → Bool
  highThresh : Fin 2 → UInt8
  lowThresh : Fin 2 → UInt8

/-- The masks of `read_raw` and `write_raw`. -/
inductive Mask
  | processed
  | intTime
  | other
  deriving DecidableEq

/-- `enum iio_event_direction`. -/
inductive Direction
  | either
  | rising
  | falling
  | none
  deriving DecidableEq

/-- A number of seconds in ticks, as an unsigned 32-bit product. -/
def ticks (hz freq : ℕ) : ℕ :=
  freq * hz % 2 ^ 32

/-- `fake_iiodev_read_raw` : `*val` and `*val2` with `IIO_VAL_INT`, or an error. -/
def readRaw (p : Priv) (chan : Fin 2) : Mask → Except ℤ (ℤ × ℤ)
  | .processed => .ok ((p.currentLux chan).toNat, 0)
  | .intTime => .ok (CInt.toInt32 p.freq, 0)
  | .other => .error einval

/-- `fake_iiodev_write_raw`. What the test of the range stores in `ret` is never
returned. -/
def writeRaw (hz jiffies : ℕ) (p : Priv) (val : ℤ) (mask : Mask) : ℤ × Priv :=
  if mask ≠ .intTime then (einval, p)
  else
    let freq := (val % 2 ^ 32).toNat
    (0, { p with freq := freq, timer := some (jiffies + ticks hz freq) })

/-- `fake_iiodev_read_event_config`. -/
def readEventConfig (p : Priv) (chan : Fin 2) (_dir : Direction) : ℤ :=
  if p.event chan then 1 else 0

/-- `fake_iiodev_write_event_config`. -/
def writeEventConfig (p : Priv) (chan : Fin 2) (_dir : Direction) (state : ℤ) : ℤ × Priv :=
  (0, { p with event := Function.update p.event chan (decide (state ≠ 0)) })

/-- `fake_iiodev_read_event_value`. -/
def readEventValue (p : Priv) (chan : Fin 2) : Direction → Except ℤ (ℤ × ℤ)
  | .rising => .ok ((p.highThresh chan).toNat, 0)
  | .falling => .ok ((p.lowThresh chan).toNat, 0)
  | _ => .error einval

/-- `fake_iiodev_write_event_value`. -/
def writeEventValue (p : Priv) (chan : Fin 2) (dir : Direction) (val : ℤ) : ℤ × Priv :=
  match dir with
  | .rising => (0, { p with highThresh := Function.update p.highThresh chan (UInt8.ofInt val) })
  | .falling => (0, { p with lowThresh := Function.update p.lowThresh chan (UInt8.ofInt val) })
  | _ => (einval, p)

/-- The channel and the direction of an event code. -/
structure Event where
  chan : Fin 2
  dir : Direction
  deriving DecidableEq

/-- The events `lux_auto_change` pushes for the channel `i`. -/
def pushEvents (p : Priv) (i : Fin 2) : List Event :=
  if p.event i then
    (if p.currentLux i = p.highThresh i then [⟨i, .rising⟩] else []) ++
      if p.currentLux i = p.lowThresh i then [⟨i, .falling⟩] else []
  else []

/-- `priv->current_lux[0]++`. -/
def luxFirst (lux : Fin 2 → UInt8) : Fin 2 → UInt8 :=
  Function.update lux 0 (lux 0 + 1)

/-- `priv->current_lux[1] = priv->current_lux[0] / 2`. -/
def luxSecond (lux : Fin 2 → UInt8) : Fin 2 → UInt8 :=
  Function.update lux 1 (lux 0 / 2)

/-- The first channel counts up, the second is half of it. -/
def nextLux (lux : Fin 2 → UInt8) : Fin 2 → UInt8 :=
  luxSecond (luxFirst lux)

/-- `lux_auto_change` : the events it pushes, and the private data. -/
def luxAutoChange (hz jiffies : ℕ) (p : Priv) : List Event × Priv :=
  let p := { p with currentLux := nextLux p.currentLux }
  ([0, 1].flatMap (pushEvents p), { p with timer := some (jiffies + ticks hz p.freq) })

/-- The private data after `fake_iiodev_probe`. -/
def probed (hz jiffies : ℕ) : Priv where
  currentLux _ := 0
  timer := some (jiffies + ticks hz 1)
  freq := 1
  event _ := false
  highThresh _ := 0
  lowThresh _ := 0

/-! ## Calls from user space and ticks -/

/-- `fake_iiodev_event_spec` : the directions that have a value and an enable. -/
def eventSpec : List Direction :=
  [.rising, .falling]

/-- The callbacks of `fake_iiodev_info`. -/
inductive Call
  | readRaw (chan : Fin 2) (mask : Mask)
  | writeRaw (val : ℤ) (mask : Mask)
  | readEventConfig (chan : Fin 2) (dir : Direction)
  | writeEventConfig (chan : Fin 2) (dir : Direction) (state : ℤ)
  | readEventValue (chan : Fin 2) (dir : Direction)
  | writeEventValue (chan : Fin 2) (dir : Direction) (val : ℤ)

/-- The calls the attributes of the core make : directions of the event specification, and
an enable that is 0 or 1. -/
def Call.Offered : Call → Prop
  | .readRaw _ _ | .writeRaw _ _ => True
  | .readEventConfig _ dir | .readEventValue _ dir | .writeEventValue _ dir _ => dir ∈ eventSpec
  | .writeEventConfig _ dir state => dir ∈ eventSpec ∧ (state = 0 ∨ state = 1)

instance : DecidablePred Call.Offered
  | .readRaw _ _ | .writeRaw _ _ => inferInstanceAs (Decidable True)
  | .readEventConfig _ dir | .readEventValue _ dir | .writeEventValue _ dir _ =>
    inferInstanceAs (Decidable (dir ∈ eventSpec))
  | .writeEventConfig _ dir state =>
    inferInstanceAs (Decidable (dir ∈ eventSpec ∧ (state = 0 ∨ state = 1)))

/-- What a call leaves. -/
def Call.exec (hz jiffies : ℕ) (p : Priv) : Call → Priv
  | .readRaw _ _ | .readEventConfig _ _ | .readEventValue _ _ => p
  | .writeRaw val mask => (FakeIiodev.writeRaw hz jiffies p val mask).2
  | .writeEventConfig chan dir state => (FakeIiodev.writeEventConfig p chan dir state).2
  | .writeEventValue chan dir val => (FakeIiodev.writeEventValue p chan dir val).2

/-- The clock and the private data. -/
structure State where
  jiffies : ℕ
  priv : Priv

/-- What happens next. -/
inductive Action
  | call (c : Call)
  /-- The timer expires, and `lux_auto_change` runs. -/
  | expire
  /-- Time passes. -/
  | tick

/-- One action; the timer does not expire before its time. -/
def step (P : Params) (s : State) : Action → Option State
  | .call c => if c.Offered then some { s with priv := c.exec P.hz s.jiffies s.priv } else none
  | .expire =>
    if ∃ d ∈ s.priv.timer, d ≤ s.jiffies then
      some { s with priv := (luxAutoChange P.hz s.jiffies s.priv).2 }
    else none
  | .tick => some { s with jiffies := s.jiffies + 1 }

/-! ## Their lemmas -/

/-- An accepted period in ticks fits in 32 bits. -/
theorem ticks_eq (P : Params) {freq : ℕ} (h : freq ≤ 5) : ticks P.hz freq = freq * P.hz :=
  Nat.mod_eq_of_lt (Nat.lt_of_le_of_lt (Nat.mul_le_mul_right P.hz h) P.hz_le)

theorem nextLux_zero (lux : Fin 2 → UInt8) : nextLux lux 0 = lux 0 + 1 := by
  simp [nextLux, luxSecond, luxFirst]

/-- The second channel is half of what the first one becomes. -/
theorem nextLux_one (lux : Fin 2 → UInt8) : nextLux lux 1 = (lux 0 + 1) / 2 := by
  simp [nextLux, luxSecond, luxFirst]

/-- The second channel is half of the first. -/
def Halved (lux : Fin 2 → UInt8) : Prop :=
  lux 1 = lux 0 / 2

theorem luxSecond_halved (lux : Fin 2 → UInt8) : Halved (luxSecond lux) := by
  simp [Halved, luxSecond]

/-- What a tick does to the value of a channel. -/
inductive Move
  | rise
  | stay
  | wrap

/-- The first channel rises at every tick, the second at every other one, until the first
wraps. -/
def move (lux : Fin 2 → UInt8) (i : Fin 2) : Move :=
  if lux 0 = 255 then .wrap else if i = 1 ∧ (lux 0).toNat % 2 = 0 then .stay else .rise

/-- The channels move as `move` says. -/
theorem nextLux_move {lux : Fin 2 → UInt8} (h : Halved lux) (i : Fin 2) :
    match move lux i with
    | .rise => (nextLux lux i).toNat = (lux i).toNat + 1
    | .stay => (nextLux lux i).toNat = (lux i).toNat
    | .wrap => (nextLux lux i).toNat = 0 ∧ 0 < (lux i).toNat := by
  have hlux := (lux 0).toNat_lt
  have hmax : lux 0 = 255 ↔ (lux 0).toNat = 255 := by
    rw [← UInt8.toNat_inj]
    rfl
  have hnew : (lux 0 + 1).toNat = ((lux 0).toNat + 1) % 256 := rfl
  match i with
  | 0 =>
    simp only [nextLux_zero, hnew, move, hmax]
    split_ifs <;> dsimp only <;> omega
  | 1 =>
    have hhalf : (lux 1).toNat = (lux 0).toNat / 2 := by
      rw [h]
      rfl
    have hhalf' : ((lux 0 + 1) / 2).toNat = ((lux 0).toNat + 1) % 256 / 2 := rfl
    simp only [nextLux_one, hhalf, hhalf', move, hmax, true_and]
    split_ifs <;> dsimp only <;> omega

/-- A stored threshold is the value that was written, if it fits in the cell. -/
theorem ofInt_toNat {val : ℤ} (h : 0 ≤ val) (h' : val ≤ 255) :
    ((UInt8.ofInt val).toNat : ℤ) = val := by
  rw [UInt8.ofInt, UInt8.toNat_ofNat']
  omega

end FakeIiodev

end LinuxDriverKb
