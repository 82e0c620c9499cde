import LinuxDriverKb.Lib.Transition
import LinuxDriverKb.Ssd1306

/-!
# The backlight of `backlight-drv.c`

`oled_update_bl` caches the brightness and sends the panel two I2C messages, the command
`0x81` and the brightness as its argument. A transfer may fail without effect; the driver
then returns at once, with the new brightness in the cache and perhaps with the panel
waiting for an argument.

A call does what it should (`Holds`) exactly under a condition on its brightness, on which
of its transfers fail and on the panel before it (`Safe`), and so does a run of calls
(`oledUpdateBl_iff`).
-/

set_option autoImplicit false

namespace LinuxDriverKb

open Ssd1306

namespace OledBacklight

/-! ## The driver -/

/-- `EIO`. -/
def eio : ℤ := 5

/-- The bus on which one transfer arrives or fails without effect. -/
def sendIf (ok : Bool) : MasterSend Panel := fun msg p =>
  if ok then sendOk msg p else (-eio, p)

/-- `oled_write_cmd`. -/
def oledWriteCmd (ok : Bool) (cmd : UInt8) (p : Panel) : ℤ × Panel :=
  sendIf ok [0x80, cmd] p

/-- `data->contrast`, the panel, and if some `oled_update_bl` has returned 0. -/
structure State where
  contrast : ℕ
  panel : Panel
  succeeded : Bool

/-- One `oled_update_bl` : the brightness asked for, and which transfers arrive. -/
structure Call where
  brightness : UInt8
  cmdOk : Bool
  argOk : Bool

/-- The return value, and what the call leaves. -/
def oledUpdateBl (s : State) (c : Call) : ℤ × State :=
  let s := { s with contrast := c.brightness.toNat }
  let r := oledWriteCmd c.cmdOk 0x81 s.panel
  if r.1 < 0 then (r.1, { s with panel := r.2 })
  else
    let r := oledWriteCmd c.argOk (UInt8.ofNat s.contrast) r.2
    if r.1 < 0 then (r.1, { s with panel := r.2 })
    else (0, { s with panel := r.2, succeeded := true })

/-- `oled_get_brightness`. -/
def oledGetBrightness (s : State) : ℕ :=
  s.contrast

/-- One call. -/
def step (s : State) (c : Call) : Option State :=
  some (oledUpdateBl s c).2

/-- The driver as probed, and a panel that waits for no argument. -/
def init (p : Panel) : State where
  contrast := 0
  panel := { p with pending := [] }
  succeeded := false

/-! ## What a call should do -/

/-- The command byte after `p` is taken as a command, not as an argument. -/
def TakesCommand (p : Panel) : Prop :=
  p.pending = []

/-- The brightness byte is not executed as a command, a return value 0 means that the
panel has the brightness, and after a success the cache is what the panel has. -/
structure Holds (s : State) (c : Call) (s' : State) : Prop where
  argument : c.cmdOk → c.argOk → ¬ TakesCommand (oledWriteCmd c.cmdOk 0x81 s.panel).2
  contrast : (oledUpdateBl s c).1 = 0 → s'.panel.contrast = c.brightness
  cache : s'.succeeded → oledGetBrightness s' = s'.panel.contrast.toNat

/-- With the panel waiting for nothing, a call whose two transfers arrive is safe. With the
panel waiting for the argument of an earlier `0x81`, only calls that fail are : in their
first transfer, or in the second, `0x81` then being the argument. A call that fails is
safe before the first success, or with the brightness the panel has after it. -/
def Safe (s : State) (c : Call) : Prop :=
  if s.panel.pending = [] then
    (c.cmdOk ∧ c.argOk) ∨ s.succeeded = false ∨ c.brightness = s.panel.contrast
  else if c.cmdOk then
    ¬ c.argOk ∧ (s.succeeded = false ∨ c.brightness = 0x81)
  else s.succeeded = false ∨ c.brightness = s.panel.contrast

/-- The panel waits for nothing, or for the argument of `0x81`. -/
def Wf (s : State) : Prop :=
  s.panel.pending = [] ∨ s.panel.pending = [0x81]

/-! ## The panel's parser -/

theorem oledWriteCmd_ok (cmd : UInt8) (p : Panel) : oledWriteCmd true cmd p = (2, p.command cmd) :=
  rfl

/-- `0x81` waits for its argument. -/
theorem command_idle {p : Panel} (h : p.pending = []) :
    p.command 0x81 = { p with pending := [0x81] } := by
  simp only [Panel.command, h]
  rfl

/-- The byte after `0x81` is the contrast. -/
theorem command_waiting {p : Panel} (h : p.pending = [0x81]) (b : UInt8) :
    p.command b = { p with pending := [], contrast := b } := by
  simp only [Panel.command, h]
  rfl

/-! ## One call -/

theorem oledUpdateBl_cmdFail (s : State) (b : UInt8) (argOk : Bool) :
    oledUpdateBl s ⟨b, false, argOk⟩ = (-eio, { s with contrast := b.toNat }) :=
  rfl

theorem oledUpdateBl_argFail (s : State) (b : UInt8) :
    oledUpdateBl s ⟨b, true, false⟩ =
      (-eio, { s with contrast := b.toNat, panel := s.panel.command 0x81 }) :=
  rfl

theorem oledUpdateBl_ok (s : State) (b : UInt8) :
    oledUpdateBl s ⟨b, true, true⟩ =
      (0, ⟨b.toNat, (s.panel.command 0x81).command b, true⟩) := by
  have hrun : oledUpdateBl s ⟨b, true, true⟩ =
      (0, ⟨b.toNat, (s.panel.command 0x81).command (UInt8.ofNat b.toNat), true⟩) := rfl
  rw [hrun, UInt8.ofNat_toNat]

/-- A call that fails does what it should if its brightness is what the panel then has. -/
theorem holds_of_fail_iff {s s' : State} {c : Call} (hret : (oledUpdateBl s c).1 ≠ 0)
    (hfail : ¬ (c.cmdOk ∧ c.argOk)) (hcache : s'.contrast = c.brightness.toNat) :
    Holds s c s' ↔ (s'.succeeded = false ∨ c.brightness = s'.panel.contrast) := by
  constructor
  · intro h
    rcases Bool.eq_false_or_eq_true s'.succeeded with hs | hs
    · exact .inr (UInt8.toNat_inj.mp (hcache.symm.trans (h.cache hs)))
    · exact .inl hs
  · intro h
    refine ⟨fun hcmd harg => absurd ⟨hcmd, harg⟩ hfail, fun hr => absurd hr hret, fun hs => ?_⟩
    rcases h with h | h
    · exact absurd hs (by simp [h])
    · exact hcache.trans (congrArg UInt8.toNat h)

/-- A call does what it should exactly if it is safe. -/
theorem holds_iff_safe {s s' : State} {c : Call} (h : Wf s) (hstep : step s c = some s') :
    Holds s c s' ↔ Safe s c := by
  obtain rfl := Option.some.inj hstep
  obtain ⟨b, cmdOk, argOk⟩ := c
  cases cmdOk with
  | false =>
    have hret : (oledUpdateBl s ⟨b, false, argOk⟩).1 ≠ 0 := by
      simp [oledUpdateBl_cmdFail, eio]
    rw [holds_of_fail_iff hret (by simp) rfl, oledUpdateBl_cmdFail, Safe]
    simp
  | true =>
    cases argOk with
    | false =>
      have hret : (oledUpdateBl s ⟨b, true, false⟩).1 ≠ 0 := by
        simp [oledUpdateBl_argFail, eio]
      rw [holds_of_fail_iff hret (by simp) rfl, oledUpdateBl_argFail, Safe]
      rcases h with h | h
      · simp [command_idle h, h]
      · simp [command_waiting h, h]
    | true =>
      rw [oledUpdateBl_ok, Safe]
      rcases h with h | h
      · rw [command_idle h, command_waiting rfl, if_pos h]
        refine iff_of_true ⟨fun _ _ => ?_, fun _ => rfl, fun _ => rfl⟩ (.inl ⟨rfl, rfl⟩)
        rw [TakesCommand, oledWriteCmd_ok, command_idle h]
        exact List.cons_ne_nil _ _
      · refine iff_of_false (fun hh => hh.argument rfl rfl ?_) (by simp [h])
        rw [TakesCommand, oledWriteCmd_ok, command_waiting h]

/-- A call that does what it should leaves the panel's parser between commands, or after
`0x81`. -/
theorem wf_step {s s' : State} {c : Call} (h : Wf s) (hstep : step s c = some s')
    (hc : Holds s c s') : Wf s' := by
  obtain rfl := Option.some.inj hstep
  obtain ⟨b, cmdOk, argOk⟩ := c
  cases cmdOk with
  | false => exact h
  | true =>
    cases argOk with
    | false =>
      rw [oledUpdateBl_argFail, Wf]
      rcases h with h | h
      · exact .inr (by rw [command_idle h])
      · exact .inl (by rw [command_waiting h])
    | true =>
      rw [oledUpdateBl_ok, Wf]
      rcases h with h | h
      · exact .inl (by rw [command_idle h, command_waiting rfl])
      · -- the brightness would be the command
        refine absurd ?_ (hc.argument rfl rfl)
        rw [TakesCommand, oledWriteCmd_ok, command_waiting h]

/-! ## Runs -/

/-- Over any sequence of calls, with any failures : every call does what it should exactly
if every call is safe. -/
theorem oledUpdateBl_iff (p : Panel) (cs : List Call) :
    Transition.Always step Holds (init p) cs ↔
      Transition.Always step (fun s c _ => Safe s c) (init p) cs :=
  Transition.always_congr (fun _ _ _ => holds_iff_safe) (fun _ _ _ => wf_step) (.inl rfl)

/-- A call fails in its second transfer; the next one succeeds, and the panel takes `0x81`
as the brightness and the brightness `0xae` as the command that turns the display off. -/
theorem oledUpdateBl_desync :
    ¬ Transition.Always step Holds (init (.reset fun _ _ => 0))
      [⟨5, true, false⟩, ⟨0xae, true, true⟩] ∧
    ∃ s t, step (init (.reset fun _ _ => 0)) ⟨5, true, false⟩ = some s ∧
      oledUpdateBl s ⟨0xae, true, true⟩ = (0, t) ∧
      TakesCommand (oledWriteCmd true 0x81 s.panel).2 ∧ t.panel.contrast = 0x81 ∧
      oledGetBrightness t = 0xae := by
  refine ⟨fun h => ?_, _, _, rfl, rfl, rfl, rfl, rfl⟩
  exact (h _ rfl).2 _ rfl |>.1.argument rfl rfl rfl

end OledBacklight

end LinuxDriverKb
