import LinuxDriverKb.Lib.Ledger
import LinuxDriverKb.Lib.Transition
import LinuxDriverKb.Lib.Urb
import Mathlib.Logic.Function.Basic

/-!
# The USB mouse of `fake_mouse.c`

The probe allocates the private data, a transfer buffer and a request block, and submits the
block; the callback prints the buttons of a report and submits the block again, unless it
is being shut down. The disconnection kills the block and frees all three.

`fake_mouse_safe` : nothing is used after its release or released twice, the block is never
submitted while it is, and nothing is live after a failed probe or a disconnection.
`fake_mouse_reports` : every report is printed once, in order, and the block stays in flight
until it is shut down or a submission fails.
-/

set_option autoImplicit false

namespace LinuxDriverKb

namespace FakeMouse

/-! ## The driver -/

/-- What the probe allocates. -/
inductive Resource
  | priv
  | transferBuffer
  | urb
  deriving DecidableEq

/-- `-ECONNRESET`. -/
def econnreset : ℤ := -104

/-- `-ENOENT`. -/
def enoent : ℤ := -2

/-- `-ESHUTDOWN`. -/
def eshutdown : ℤ := -108

/-- The statuses for which the callback returns at once. -/
def ShuttingDown (status : ℤ) : Prop :=
  status = econnreset ∨ status = enoent ∨ status = eshutdown

instance (status : ℤ) : Decidable (ShuttingDown status) :=
  inferInstanceAs (Decidable (_ ∨ _ ∨ _))

/-- A button of the mouse. -/
inductive Button
  | left
  | right
  | wheel
  deriving DecidableEq

/-- The bit of a button in byte 0 of a report. -/
def Button.mask : Button → UInt8
  | .left => 0x01
  | .right => 0x02
  | .wheel => 0x04

/-- What the callback prints of one button. -/
def click (byte : UInt8) (b : Button) : List Button :=
  if byte &&& b.mask ≠ 0 then [b] else []

/-- What it prints of a report. -/
def clicks (byte : UInt8) : List Button :=
  click byte .left ++ click byte .right ++ click byte .wheel

/-- Where a run of `fake_mouse_callback` is that can still submit the block : at the switch,
at the test of a button, before the submission. -/
inductive Callback
  | switch (status : ℤ)
  | test (b : Button)
  | resubmit
  deriving DecidableEq

/-- Where the driver is : the next step of the probe or of the disconnection. -/
inductive Phase
  | unbound
  | allocCoherent
  | allocUrb
  | submitUrb
  | bound
  | killUrb
  | freeUrb
  | freeCoherent
  | kfree
  deriving DecidableEq

/-- `byte` is byte 0 of the buffer. `reports` are the bytes of the transfers that were given
back with status 0, and `silenced` tells of a shutdown or a failed submission since the
probe. -/
structure State where
  phase : Phase
  live : List Resource
  urb : Urb
  callback : Option Callback
  byte : UInt8
  printed : List Button
  reports : List UInt8
  silenced : Bool

/-- The runs of the callback that have not done their last step. -/
def State.working (s : State) : ℕ :=
  if s.callback = none then 0 else 1

/-- What happens next. -/
inductive Action
  /-- The next step of `fake_mouse_probe`; `hcd` is the result of the host controller. -/
  | probe (ok : Bool) (hcd : ℤ)
  /-- The controller writes to the buffer. -/
  | dma (byte : UInt8)
  | giveback (status : ℤ)
  /-- The next step of the callback. -/
  | callback (hcd : ℤ)
  /-- A run of the callback that has done its last step ends. -/
  | callbackEnd
  | disconnect

/-- The resources that a step acquires, uses and releases. -/
def ops (s : State) : Action → List (Ledger.Op Resource)
  | .probe ok hcd =>
    match s.phase with
    | .unbound => if ok then [.acquire .priv] else []
    | .allocCoherent =>
      if ok then [.use .priv, .acquire .transferBuffer] else [.use .priv, .release .priv]
    | .allocUrb =>
      if ok then [.use .priv, .acquire .urb]
      else [.use .priv, .release .transferBuffer, .release .priv]
    | .submitUrb =>
      [.use .priv, .use .transferBuffer, .use .urb] ++
        if (s.urb.submit hcd).1 < 0 then
          [.release .urb, .release .transferBuffer, .release .priv]
        else []
    | _ => []
  | .dma _ => [.use .transferBuffer]
  | .giveback _ => [.use .urb]
  | .callback _ =>
    match s.callback with
    | some (.switch _) => [.use .urb]
    | some (.test _) => [.use .priv, .use .transferBuffer]
    | some .resubmit => [.use .priv, .use .urb]
    | none => []
  | .callbackEnd => [.use .urb]
  | .disconnect =>
    match s.phase with
    | .bound => [.use .priv, .use .urb]
    | .killUrb => [.use .urb]
    | .freeUrb => [.use .priv, .release .urb]
    | .freeCoherent => [.use .priv, .release .transferBuffer]
    | .kfree => [.release .priv]
    | _ => []

/-- The next step of `fake_mouse_probe`. -/
def probe (s : State) (ok : Bool) (hcd : ℤ) : Option State :=
  match s.phase with
  | .unbound => some (if ok then { s with phase := .allocCoherent } else s)
  | .allocCoherent => some { s with phase := if ok then .allocUrb else .unbound }
  | .allocUrb =>
    some (if ok then { s with phase := .submitUrb, urb := .alloc }
      else { s with phase := .unbound })
  | .submitUrb =>
    some { s with
      phase := if (s.urb.submit hcd).1 < 0 then .unbound else .bound
      urb := (s.urb.submit hcd).2
      silenced := false }
  | _ => none

/-- The next step of `fake_mouse_callback`. -/
def fakeMouseCallback (s : State) (hcd : ℤ) : Option State :=
  match s.callback with
  | some (.switch status) =>
    some (if status = 0 then { s with callback := some (.test .left) }
      else if ShuttingDown status then { s with callback := none, silenced := true }
      else { s with callback := some .resubmit })
  | some (.test b) =>
    some { s with
      printed := s.printed ++ click s.byte b
      callback := some (match b with
        | .left => .test .right
        | .right => .test .wheel
        | .wheel => .resubmit) }
  | some .resubmit =>
    some { s with
      urb := (s.urb.submit hcd).2
      callback := none
      silenced := s.silenced || decide ((s.urb.submit hcd).1 < 0) }
  | none => none

/-- The next step of `fake_mouse_disconnect`. -/
def fakeMouseDisconnect (s : State) : Option State :=
  match s.phase with
  | .bound => some { s with phase := .killUrb, urb := s.urb.kill }
  | .killUrb => s.urb.killed.map fun u => { s with phase := .freeUrb, urb := u }
  | .freeUrb => some { s with phase := .freeCoherent }
  | .freeCoherent => some { s with phase := .kfree }
  | .kfree => some { s with phase := .unbound }
  | _ => none

/-- A step, without the account of the resources. -/
def act (s : State) : Action → Option State
  | .probe ok hcd => probe s ok hcd
  | .dma byte => if s.urb.queued then some { s with byte := byte } else none
  | .giveback status => s.urb.giveback.map fun u =>
    { s with
      urb := u
      callback := some (.switch status)
      reports := if status = 0 then s.reports ++ [s.byte] else s.reports }
  | .callback hcd => fakeMouseCallback s hcd
  | .callbackEnd =>
    if s.working < s.urb.handlers then s.urb.finish.map fun u => { s with urb := u } else none
  | .disconnect => fakeMouseDisconnect s

/-- One action, with what it acquires and releases. -/
def step (s : State) (a : Action) : Option State :=
  (act s a).map fun s' => { s' with live := Ledger.exec s.live (ops s a) }

/-- No device is bound. -/
def start : State where
  phase := .unbound
  live := []
  urb := .alloc
  callback := none
  byte := 0
  printed := []
  reports := []
  silenced := false

/-! ## What holds in every state -/

/-- What is live before a step of the probe or of the disconnection. -/
def Phase.live : Phase → List Resource
  | .unbound => []
  | .allocCoherent => [.priv]
  | .allocUrb => [.transferBuffer, .priv]
  | .submitUrb | .bound | .killUrb | .freeUrb => [.urb, .transferBuffer, .priv]
  | .freeCoherent => [.transferBuffer, .priv]
  | .kfree => [.priv]

/-- The block may be in flight. -/
def Phase.InFlight (p : Phase) : Prop :=
  p = .bound ∨ p = .killUrb

instance (p : Phase) : Decidable p.InFlight :=
  inferInstanceAs (Decidable (_ ∨ _))

/-- What a callback has still to print, of the report in the buffer. -/
def Callback.pending (byte : UInt8) : Callback → List Button
  | .switch status => if status = 0 then clicks byte else []
  | .test .left => clicks byte
  | .test .right => click byte .right ++ click byte .wheel
  | .test .wheel => click byte .wheel
  | .resubmit => []

/-- What holds of the block, the callback and the reports. -/
structure Flight (s : State) : Prop where
  idle : ¬s.phase.InFlight → s.urb.Idle
  reject : s.urb.reject = true → s.phase = .killUrb
  /-- A callback that can still submit the block has it to itself. -/
  callback : s.callback ≠ none → s.urb.queued = false ∧ 0 < s.urb.handlers
  printed : s.printed ++ s.callback.elim [] (Callback.pending s.byte) = s.reports.flatMap clicks
  inFlight : s.phase = .bound → s.silenced = false → s.urb.queued = true ∨ s.callback ≠ none

/-- What is live, and where the request block is. -/
structure Inv (s : State) : Prop where
  live : s.live = s.phase.live
  flight : Flight s

theorem inv_start : Inv start where
  live := rfl
  flight :=
    { idle := fun _ => Urb.idle_alloc
      reject := (nomatch ·)
      callback := fun h => absurd rfl h
      printed := rfl
      inFlight := (nomatch ·) }

variable {s s' : State}

theorem Flight.not_idle (h : Flight s) (hc : s.callback ≠ none) : ¬s.urb.Idle :=
  fun hidle => Nat.ne_of_gt (h.callback hc).2 hidle.2

theorem Flight.callback_eq_none (h : Flight s) (hidle : s.urb.Idle) : s.callback = none := by
  by_contra hc
  exact h.not_idle hc hidle

/-- While the block is submitted or in a handler, all three resources are live. -/
theorem Inv.live_of_busy (h : Inv s) (hbusy : ¬s.urb.Idle) (r : Resource) : r ∈ s.live := by
  have hphase : s.phase.InFlight := by
    by_contra hne
    exact hbusy (h.flight.idle hne)
  rw [h.live]
  rcases hphase with hph | hph <;> rw [hph] <;> cases r <;> simp [Phase.live]

/-- A submission by the probe or by a callback. -/
def Submits (s : State) : Action → Prop
  | .probe _ _ => s.phase = .submitUrb
  | .callback _ => s.callback = some .resubmit
  | _ => False

/-- The step uses and releases live resources only, and does not submit a block that is. -/
def Safe (s : State) (a : Action) (_ : State) : Prop :=
  Ledger.Valid s.live (ops s a) ∧ (Submits s a → s.urb.queued = false)

/-! ## The probe and the disconnection -/

/-- What a step of the probe does. -/
inductive ProbeStep (s : State) (hcd : ℤ) : Bool → State → Prop
  | kzalloc (hph : s.phase = .unbound) : ProbeStep s hcd true { s with phase := .allocCoherent }
  | noPriv (hph : s.phase = .unbound) : ProbeStep s hcd false s
  | allocCoherent (hph : s.phase = .allocCoherent) :
    ProbeStep s hcd true { s with phase := .allocUrb }
  | noBuffer (hph : s.phase = .allocCoherent) : ProbeStep s hcd false { s with phase := .unbound }
  | allocUrb (hph : s.phase = .allocUrb) :
    ProbeStep s hcd true { s with phase := .submitUrb, urb := .alloc }
  | noUrb (hph : s.phase = .allocUrb) : ProbeStep s hcd false { s with phase := .unbound }
  | submitted (ok : Bool) (hph : s.phase = .submitUrb)
      (hsub : s.urb.submit hcd = (0, { s.urb with queued := true })) :
    ProbeStep s hcd ok
      { s with phase := .bound, urb := { s.urb with queued := true }, silenced := false }
  | refused (ok : Bool) (hph : s.phase = .submitUrb) (hneg : (s.urb.submit hcd).1 < 0) :
    ProbeStep s hcd ok { s with phase := .unbound, silenced := false }

theorem probe_cases {ok : Bool} {hcd : ℤ} (hs : probe s ok hcd = some s') :
    ProbeStep s hcd ok s' := by
  unfold probe at hs
  cases hph : s.phase with
  | unbound =>
    simp only [hph] at hs
    obtain rfl := Option.some.inj hs
    cases ok
    · exact .noPriv hph
    · exact .kzalloc hph
  | allocCoherent =>
    simp only [hph] at hs
    obtain rfl := Option.some.inj hs
    cases ok
    · exact .noBuffer hph
    · exact .allocCoherent hph
  | allocUrb =>
    simp only [hph] at hs
    obtain rfl := Option.some.inj hs
    cases ok
    · exact .noUrb hph
    · exact .allocUrb hph
  | submitUrb =>
    simp only [hph] at hs
    obtain rfl := Option.some.inj hs
    rcases s.urb.submit_cases hcd with ⟨hneg, hurb⟩ | ⟨-, -, hsub⟩
    · rw [if_pos hneg, hurb]
      exact .refused ok hph hneg
    · have hzero : ¬(s.urb.submit hcd).1 < 0 := by simp [hsub]
      rw [if_neg hzero, hsub]
      exact .submitted ok hph hsub
  | bound | killUrb | freeUrb | freeCoherent | kfree => simp [hph] at hs

/-- With an idle block the driver goes on to a phase in which it is not in flight. -/
theorem Flight.idle_phase (h : Flight s) (hidle : s.urb.Idle) {p : Phase} {u : Urb}
    (hu : u.Idle) (hrej : u.reject = false) (hp : p ≠ .bound) (b : Bool) :
    Flight { s with phase := p, urb := u, silenced := b } where
  idle _ := hu
  reject hr := absurd hr (by simp [hrej])
  callback hc := absurd (h.callback_eq_none hidle) hc
  printed := h.printed
  inFlight hb := absurd hb hp

theorem Flight.reject_eq_false (h : Flight s) (hph : s.phase ≠ .killUrb) :
    s.urb.reject = false :=
  eq_false_of_ne_true fun hr => hph (h.reject hr)

/-- A failed step of the probe releases what the steps before it have acquired. -/
theorem exec_probe {ok : Bool} {hcd : ℤ} (hs : ProbeStep s hcd ok s') :
    Ledger.Valid s.phase.live (ops s (.probe ok hcd)) ∧
      Ledger.exec s.phase.live (ops s (.probe ok hcd)) = s'.phase.live := by
  cases hs with
  | submitted _ hph hsub =>
    have hzero : ¬(s.urb.submit hcd).1 < 0 := by simp [hsub]
    simp only [ops, hph, if_neg hzero]
    decide
  | refused _ hph hneg =>
    simp only [ops, hph, if_pos hneg]
    decide
  | kzalloc hph | noPriv hph | allocCoherent hph | noBuffer hph | allocUrb hph | noUrb hph =>
    simp only [ops, hph]
    decide

theorem flight_probe (hflight : Flight s) {ok : Bool} {hcd : ℤ} (hs : ProbeStep s hcd ok s') :
    s.urb.queued = false ∧ Flight s' := by
  have hidle : s.urb.Idle := hflight.idle (by cases hs <;> rw [‹s.phase = _›] <;> decide)
  have hrej : s.urb.reject = false :=
    hflight.reject_eq_false (by cases hs <;> rw [‹s.phase = _›] <;> decide)
  refine ⟨hidle.1, ?_⟩
  cases hs with
  | kzalloc | allocCoherent | noBuffer | noUrb | refused =>
    exact hflight.idle_phase hidle hidle hrej (by decide) _
  | noPriv => exact hflight
  | allocUrb => exact hflight.idle_phase hidle Urb.idle_alloc rfl (by decide) _
  | submitted =>
    exact ⟨fun hne => absurd (Or.inl rfl) hne, fun hr => absurd hr (by simp [hrej]),
      fun hc => absurd (hflight.callback_eq_none hidle) hc, hflight.printed,
      fun _ _ => Or.inl rfl⟩

/-- What a step of the disconnection does. -/
inductive DisconnectStep (s : State) : State → Prop
  | kill (hph : s.phase = .bound) :
    DisconnectStep s { s with phase := .killUrb, urb := s.urb.kill }
  | killed (hph : s.phase = .killUrb) (hidle : s.urb.Idle) :
    DisconnectStep s { s with phase := .freeUrb, urb := { s.urb with reject := false } }
  | freeUrb (hph : s.phase = .freeUrb) : DisconnectStep s { s with phase := .freeCoherent }
  | freeCoherent (hph : s.phase = .freeCoherent) : DisconnectStep s { s with phase := .kfree }
  | kfree (hph : s.phase = .kfree) : DisconnectStep s { s with phase := .unbound }

theorem disconnect_cases (hs : fakeMouseDisconnect s = some s') : DisconnectStep s s' := by
  unfold fakeMouseDisconnect at hs
  cases hph : s.phase with
  | bound =>
    simp only [hph] at hs
    obtain rfl := Option.some.inj hs
    exact .kill hph
  | killUrb =>
    simp only [hph] at hs
    obtain ⟨u, hu, rfl⟩ := Option.map_eq_some_iff.mp hs
    obtain ⟨hidle, rfl⟩ := Urb.of_killed hu
    exact .killed hph hidle
  | freeUrb =>
    simp only [hph] at hs
    obtain rfl := Option.some.inj hs
    exact .freeUrb hph
  | freeCoherent =>
    simp only [hph] at hs
    obtain rfl := Option.some.inj hs
    exact .freeCoherent hph
  | kfree =>
    simp only [hph] at hs
    obtain rfl := Option.some.inj hs
    exact .kfree hph
  | unbound | allocCoherent | allocUrb | submitUrb => simp [hph] at hs

theorem exec_disconnect (hs : DisconnectStep s s') :
    Ledger.Valid s.phase.live (ops s .disconnect) ∧
      Ledger.exec s.phase.live (ops s .disconnect) = s'.phase.live := by
  cases hs with
  | kill hph | killed hph | freeUrb hph | freeCoherent hph | kfree hph =>
    simp only [ops, hph]
    decide

theorem flight_disconnect (h : Flight s) (hs : DisconnectStep s s') : Flight s' := by
  cases hs with
  | kill hph =>
    exact ⟨fun hne => absurd (Or.inr rfl) hne, fun _ => rfl, h.callback, h.printed, (nomatch ·)⟩
  | killed hph hidle =>
    exact h.idle_phase hidle (p := .freeUrb) (u := { s.urb with reject := false }) hidle rfl
      (by decide) _
  | freeUrb hph | freeCoherent hph | kfree hph =>
    have hidle : s.urb.Idle := h.idle (by rw [hph]; decide)
    exact h.idle_phase hidle hidle (h.reject_eq_false (by rw [hph]; decide)) (by decide) _

/-! ## Transfers and the callback -/

/-- While the block is in flight, what the controller writes replaces no report that is
still to be printed. -/
theorem flight_dma (h : Flight s) (hq : s.urb.queued = true) (byte : UInt8) :
    Flight { s with byte := byte } := by
  have hnone : s.callback = none := by
    by_contra hc
    exact Bool.false_ne_true ((h.callback hc).1.symm.trans hq)
  refine ⟨h.idle, h.reject, h.callback, ?_, h.inFlight⟩
  have hprinted := h.printed
  rw [hnone] at hprinted
  simpa [hnone] using hprinted

/-- The callback starts with the report that the controller has left. -/
theorem flight_giveback (h : Flight s) (hq : s.urb.queued = true) (status : ℤ) :
    Flight { s with
      urb := { s.urb with queued := false, handlers := s.urb.handlers + 1 }
      callback := some (.switch status)
      reports := if status = 0 then s.reports ++ [s.byte] else s.reports } := by
  have hnone : s.callback = none := by
    by_contra hc
    exact Bool.false_ne_true ((h.callback hc).1.symm.trans hq)
  refine ⟨fun hne => ?_, h.reject, fun _ => ⟨rfl, Nat.succ_pos _⟩, ?_,
    fun _ _ => Or.inr (by simp)⟩
  · exact absurd ((h.idle hne).1.symm.trans hq) Bool.false_ne_true
  · have hprinted := h.printed
    rw [hnone, Option.elim_none, List.append_nil] at hprinted
    by_cases hzero : status = 0
    · simp [hzero, Callback.pending, hprinted]
    · simp [hzero, Callback.pending, hprinted]

theorem flight_callbackEnd (h : Flight s) (hlt : s.working < s.urb.handlers) :
    Flight { s with urb := { s.urb with handlers := s.urb.handlers - 1 } } := by
  refine ⟨fun hne => ?_, h.reject, fun hc => ⟨(h.callback hc).1, ?_⟩, h.printed, h.inFlight⟩
  · have hzero := (h.idle hne).2
    omega
  · rw [State.working, if_neg hc] at hlt
    dsimp only
    omega

/-- What a step of the callback does. -/
inductive CallbackStep (s : State) (hcd : ℤ) : State → Prop
  | report (hc : s.callback = some (.switch 0)) :
    CallbackStep s hcd { s with callback := some (.test .left) }
  | shutdown (status : ℤ) (hc : s.callback = some (.switch status)) (hne : status ≠ 0) :
    CallbackStep s hcd { s with callback := none, silenced := true }
  | error (status : ℤ) (hc : s.callback = some (.switch status)) (hne : status ≠ 0) :
    CallbackStep s hcd { s with callback := some .resubmit }
  | left (hc : s.callback = some (.test .left)) :
    CallbackStep s hcd { s with
      printed := s.printed ++ click s.byte .left, callback := some (.test .right) }
  | right (hc : s.callback = some (.test .right)) :
    CallbackStep s hcd { s with
      printed := s.printed ++ click s.byte .right, callback := some (.test .wheel) }
  | wheel (hc : s.callback = some (.test .wheel)) :
    CallbackStep s hcd { s with
      printed := s.printed ++ click s.byte .wheel, callback := some .resubmit }
  | resubmit (hc : s.callback = some .resubmit) :
    CallbackStep s hcd { s with
      urb := (s.urb.submit hcd).2, callback := none
      silenced := s.silenced || decide ((s.urb.submit hcd).1 < 0) }

theorem callback_cases {hcd : ℤ} (hs : fakeMouseCallback s hcd = some s') :
    CallbackStep s hcd s' := by
  unfold fakeMouseCallback at hs
  cases hc : s.callback with
  | none => simp [hc] at hs
  | some c =>
    cases c with
    | switch status =>
      simp only [hc] at hs
      obtain rfl := Option.some.inj hs
      split_ifs with hzero hdown
      · exact .report (hzero ▸ hc)
      · exact .shutdown status hc hzero
      · exact .error status hc hzero
    | test b =>
      simp only [hc] at hs
      obtain rfl := Option.some.inj hs
      cases b
      · exact .left hc
      · exact .right hc
      · exact .wheel hc
    | resubmit =>
      simp only [hc] at hs
      obtain rfl := Option.some.inj hs
      exact .resubmit hc

/-- A step of the callback that leaves the block to it. -/
theorem Flight.callback_move (h : Flight s) (hc : s.callback ≠ none) {c : Callback}
    {printed : List Button} (hprinted : printed ++ c.pending s.byte = s.reports.flatMap clicks) :
    Flight { s with printed := printed, callback := some c } where
  idle := h.idle
  reject := h.reject
  callback _ := h.callback hc
  printed := hprinted
  inFlight _ _ := Or.inr (by simp)

theorem flight_callback (h : Flight s) {hcd : ℤ} (hs : CallbackStep s hcd s') : Flight s' := by
  have hprinted := h.printed
  cases hs with
  | report hc =>
    rw [hc] at hprinted
    exact h.callback_move (by simp [hc]) hprinted
  | error status hc hne =>
    refine h.callback_move (by simp [hc]) ?_
    simpa [hc, Callback.pending, hne] using hprinted
  | left hc =>
    refine h.callback_move (by simp [hc]) ?_
    simpa [hc, Callback.pending, clicks] using hprinted
  | right hc =>
    refine h.callback_move (by simp [hc]) ?_
    simpa [hc, Callback.pending] using hprinted
  | wheel hc =>
    refine h.callback_move (by simp [hc]) ?_
    simpa [hc, Callback.pending] using hprinted
  | shutdown status hc hne =>
    refine ⟨h.idle, h.reject, fun hn => absurd rfl hn, ?_, fun _ hsil => nomatch hsil⟩
    simpa [hc, Callback.pending, hne] using hprinted
  | resubmit hc =>
    have hbusy : 0 < s.urb.handlers := (h.callback (by simp [hc])).2
    refine ⟨fun hne => ?_, fun hr => ?_, fun hn => absurd rfl hn, ?_, fun hb hsil => ?_⟩
    · have hzero := (h.idle hne).2
      omega
    · exact h.reject (Urb.submit_reject hcd ▸ hr)
    · simpa [hc, Callback.pending] using hprinted
    · rcases s.urb.submit_cases hcd with ⟨hneg, -⟩ | ⟨-, -, hsub⟩
      · simp [hneg] at hsil
      · exact Or.inl (by simp [hsub])

/-! ## A step -/

/-- Transfers and the callback use live resources only, and leave them live. -/
theorem exec_uses (h : Inv s) (hbusy : ¬s.urb.Idle) {a : Action}
    (ha : ∀ op ∈ ops s a, ∃ r, op = .use r) :
    Ledger.Valid s.live (ops s a) ∧ Ledger.exec s.live (ops s a) = s.phase.live := by
  have hvalid : ∀ l : List (Ledger.Op Resource), (∀ op ∈ l, ∃ r, op = .use r) →
      Ledger.Valid s.live l ∧ Ledger.exec s.live l = s.live := by
    intro l hl
    induction l with
    | nil => exact ⟨True.intro, rfl⟩
    | cons op l ih =>
      obtain ⟨r, rfl⟩ := hl op List.mem_cons_self
      obtain ⟨hv, he⟩ := ih fun op hop => hl op (List.mem_cons_of_mem _ hop)
      exact ⟨⟨h.live_of_busy hbusy r, hv⟩, he⟩
  rw [← h.live]
  exact hvalid _ ha

theorem ops_callback (hcd : ℤ) : ∀ op ∈ ops s (.callback hcd), ∃ r, op = .use r := by
  rcases hc : s.callback with _ | status | b | _ <;> simp [ops, hc]

/-- What every step keeps, and that it is safe. -/
theorem act_cases {a : Action} (h : Inv s) (hact : act s a = some s') :
    (Ledger.Valid s.live (ops s a) ∧ Ledger.exec s.live (ops s a) = s'.phase.live) ∧
      (Submits s a → s.urb.queued = false) ∧ Flight s' := by
  cases a with
  | probe ok hcd =>
    have hs := probe_cases hact
    obtain ⟨hq, hflight⟩ := flight_probe h.flight hs
    exact ⟨h.live ▸ exec_probe hs, fun _ => hq, hflight⟩
  | disconnect =>
    have hs := disconnect_cases hact
    exact ⟨h.live ▸ exec_disconnect hs, False.elim, flight_disconnect h.flight hs⟩
  | dma byte =>
    simp only [act] at hact
    split_ifs at hact with hq
    obtain rfl := Option.some.inj hact
    have hbusy : ¬s.urb.Idle := fun hidle => Bool.false_ne_true (hidle.1.symm.trans hq)
    exact ⟨exec_uses h hbusy (by simp [ops]), False.elim, flight_dma h.flight hq byte⟩
  | giveback status =>
    obtain ⟨u, hu, rfl⟩ := Option.map_eq_some_iff.mp hact
    obtain ⟨hq, rfl⟩ := Urb.of_giveback hu
    have hbusy : ¬s.urb.Idle := fun hidle => Bool.false_ne_true (hidle.1.symm.trans hq)
    exact ⟨exec_uses h hbusy (by simp [ops]), False.elim, flight_giveback h.flight hq status⟩
  | callback hcd =>
    have hc : s.callback ≠ none := by
      rintro hnone
      simp [act, fakeMouseCallback, hnone] at hact
    have hs := callback_cases hact
    have hphase : s'.phase = s.phase := by cases hs <;> rfl
    refine ⟨?_, fun _ => (h.flight.callback hc).1, flight_callback h.flight hs⟩
    rw [hphase]
    exact exec_uses h (h.flight.not_idle hc) (ops_callback hcd)
  | callbackEnd =>
    simp only [act] at hact
    split_ifs at hact with hlt
    obtain ⟨u, hu, rfl⟩ := Option.map_eq_some_iff.mp hact
    obtain ⟨hpos, rfl⟩ := Urb.of_finish hu
    have hbusy : ¬s.urb.Idle := fun hidle => Nat.ne_of_gt hpos hidle.2
    exact ⟨exec_uses h hbusy (by simp [ops]), False.elim, flight_callbackEnd h.flight hlt⟩

theorem inv_step {a : Action} (h : Inv s) (hstep : step s a = some s') :
    Inv s' ∧ Safe s a s' := by
  obtain ⟨t, ht, rfl⟩ := Option.map_eq_some_iff.mp hstep
  obtain ⟨⟨hvalid, hexec⟩, hsub, hflight⟩ := act_cases h ht
  exact ⟨⟨hexec, hflight.idle, hflight.reject, hflight.callback, hflight.printed,
    hflight.inFlight⟩, hvalid, hsub⟩

theorem inv_run {as : List Action} (hrun : Transition.run step start as = some s) : Inv s :=
  Transition.inv_run (fun _ _ _ h hstep => (inv_step h hstep).1) inv_start hrun

/-! ## Runs -/

/-- For every run of probes with any of their steps failing, transfers with any status,
callbacks with any result of the resubmission, and disconnections, in any interleaving :
every step uses live resources only and releases each once, no step submits a block that is
submitted, and after a failed probe or a disconnection nothing is live, in flight or in a
callback. -/
theorem fake_mouse_safe (as : List Action) :
    Transition.Always step Safe start as ∧
      ∀ s, Transition.run step start as = some s → s.phase = .unbound →
        s.live = [] ∧ s.urb.Idle ∧ s.callback = none := by
  refine ⟨Transition.always_of_inv (fun _ _ _ => inv_step) inv_start, fun s hrun hph => ?_⟩
  have h := inv_run hrun
  have hidle : s.urb.Idle := h.flight.idle (by rw [hph]; decide)
  exact ⟨by rw [h.live, hph]; rfl, hidle, h.flight.callback_eq_none hidle⟩

/-- A probe that fails at the submission, one that succeeds, a transfer that is given back
while the block is killed, and the disconnection. -/
theorem fake_mouse_safe_disconnect :
    ∃ s, Transition.run step start
        ([.probe true 0, .probe true 0, .probe true 0, .probe true (-19)] ++
          [.probe true 0, .probe true 0, .probe true 0, .probe true 0, .disconnect,
            .giveback enoent, .callback 0, .callbackEnd, .disconnect, .disconnect, .disconnect,
            .disconnect]) = some s ∧
      s.live = [] ∧ s.urb.Idle ∧ s.callback = none := by
  obtain ⟨s, hs, hph⟩ : ∃ s, Transition.run step start
      ([.probe true 0, .probe true 0, .probe true 0, .probe true (-19)] ++
        [.probe true 0, .probe true 0, .probe true 0, .probe true 0, .disconnect,
          .giveback enoent, .callback 0, .callbackEnd, .disconnect, .disconnect, .disconnect,
          .disconnect]) = some s ∧ s.phase = .unbound := Option.map_eq_some_iff.mp (by decide)
  exact ⟨s, hs, (fake_mouse_safe _).2 s hs hph⟩

/-- In every state of every such run : the buttons printed are those of the transfers given
back with status 0, each once and in their order, but for the last one while the callback
is at it; a transfer counts with the byte that the buffer has when it is given back, be it
from this transfer or not; and the block of a bound driver is in flight or in the callback,
unless it has been shut down or a submission has failed. -/
theorem fake_mouse_reports (as : List Action) (s : State)
    (hrun : Transition.run step start as = some s) :
    s.printed <+: s.reports.flatMap clicks ∧
      (s.callback = none → s.printed = s.reports.flatMap clicks) ∧
      (s.phase = .bound → s.silenced = false → s.urb.queued = true ∨ s.callback ≠ none) := by
  have h := (inv_run hrun).flight
  refine ⟨⟨_, h.printed⟩, fun hnone => ?_, h.inFlight⟩
  have hprinted := h.printed
  rwa [hnone, Option.elim_none, List.append_nil] at hprinted

/-- A report of a left and a wheel click, one of a right click that is given back before the
first run of the callback ends, one that a short transfer leaves as it was, and the next
transfer in flight. -/
theorem fake_mouse_reports_three :
    let callback : List Action := List.replicate 5 (.callback 0)
    let as : List Action := [.probe true 0, .probe true 0, .probe true 0, .probe true 0, .dma 5,
      .giveback 0] ++ callback ++ [.dma 2, .giveback 0, .callbackEnd] ++ callback ++
        [.callbackEnd, .giveback 0] ++ callback ++ [.callbackEnd]
    ∃ s, Transition.run step start as = some s ∧ s.reports = [5, 2, 2] ∧
      s.printed = [.left, .wheel, .right, .right] ∧ s.printed = s.reports.flatMap clicks ∧
      (s.urb.queued = true ∨ s.callback ≠ none) := by
  intro callback as
  obtain ⟨s, hs, hend⟩ : ∃ s, Transition.run step start as = some s ∧
      (s.reports, s.printed, s.callback, s.phase, s.silenced) =
        ([5, 2, 2], [.left, .wheel, .right, .right], none, .bound, false) :=
    Option.map_eq_some_iff.mp (by decide)
  simp only [Prod.mk.injEq] at hend
  obtain ⟨hreports, hprinted, hcallback, hphase, hsilenced⟩ := hend
  obtain ⟨-, hall, hflight⟩ := fake_mouse_reports _ s hs
  exact ⟨s, hs, hreports, hprinted, hall hcallback, hflight hphase hsilenced⟩

end FakeMouse

end LinuxDriverKb
