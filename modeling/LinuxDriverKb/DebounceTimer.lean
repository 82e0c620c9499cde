import LinuxDriverKb.Lib.KernelTimer
import LinuxDriverKb.Lib.Stages
import LinuxDriverKb.Lib.Transition

/-!
# The debounce timers of the key drivers

`block_io.c`, `nonblock_io.c`, `fasync_io.c` and `input-drv.c` arm a timer in their GPIO
interrupt; its handler reads the key and wakes the readers or reports to the input device.
Their probes request the interrupt before they set up the timer, and their removals leave
the timer alone, which `fake_iiodev_remove` does not.

`debounce_safe` : a run uses nothing that is not initialised or is freed if its interrupts
come after `setup_timer`, its handlers after what they use is initialised, and its memory is
freed with the timer neither armed nor in its handler.
-/

set_option autoImplicit false

namespace LinuxDriverKb

namespace DebounceTimer

/-! ## The drivers -/

/-- The steps of the probes. -/
inductive ProbeStep
  | devmKzalloc
  | devmGpiodGet
  | devmRequestIrq
  | setupTimer
  | initWaitqueueHead
  | mutexInit
  | allocChrdevRegion
  | cdevAdd
  | classCreate
  | deviceCreate
  | devmInputAllocateDevice
  | inputRegisterDevice
  | setDrvdata
  deriving DecidableEq

/-- The steps that return no error. -/
def ProbeStep.Infallible : ProbeStep → Prop
  | .setupTimer | .initWaitqueueHead | .mutexInit | .setDrvdata => True
  | _ => False

instance : DecidablePred ProbeStep.Infallible
  | .setupTimer | .initWaitqueueHead | .mutexInit | .setDrvdata => inferInstanceAs (Decidable True)
  | .devmKzalloc | .devmGpiodGet | .devmRequestIrq | .allocChrdevRegion | .cdevAdd | .classCreate
  | .deviceCreate | .devmInputAllocateDevice | .inputRegisterDevice =>
    inferInstanceAs (Decidable False)

/-- What a handler uses of the private data. -/
inductive Object
  | wq
  | inputdev
  deriving DecidableEq

/-- The step that initialises it. -/
def Object.initStep : Object → ProbeStep
  | .wq => .initWaitqueueHead
  | .inputdev => .devmInputAllocateDevice

/-- A probe, and what `debounce_timer_handler` uses for a value of the key and whether
someone asked for signals. -/
structure Driver where
  probe : List ProbeStep
  debounceTimerHandler : (value : Bool) → (fasync : Bool) → List Object

/-- The probe of the three character devices. -/
def charDevProbe : List ProbeStep :=
  [.devmKzalloc, .devmGpiodGet, .devmRequestIrq, .setupTimer, .initWaitqueueHead, .mutexInit,
    .allocChrdevRegion, .cdevAdd, .classCreate, .deviceCreate, .setDrvdata]

/-- `block_io.c`. -/
def blockIo : Driver where
  probe := charDevProbe
  debounceTimerHandler value _ := if value = false then [.wq] else []

/-- `nonblock_io.c`. -/
def nonblockIo : Driver where
  probe := charDevProbe
  debounceTimerHandler value _ := if value = false then [.wq] else []

/-- `fasync_io.c`, which wakes the readers if no one asked for signals. -/
def fasyncIo : Driver where
  probe := charDevProbe
  debounceTimerHandler value fasync :=
    if value = false then if fasync then [] else [.wq] else []

/-- `input-drv.c`. -/
def inputDevice : Driver where
  probe := [.devmKzalloc, .devmGpiodGet, .devmRequestIrq, .setupTimer, .devmInputAllocateDevice,
    .inputRegisterDevice, .setDrvdata]
  debounceTimerHandler _ _ := [.inputdev]

/-- The drivers of the debounce timers. -/
def drivers : List Driver :=
  [blockIo, nonblockIo, fasyncIo, inputDevice]

/-! ## Interrupts, expiries and the life cycle -/

/-- In the probe or bound; to be released; released up to the interrupt; freed. -/
inductive Phase
  | probed
  | release
  | irqFreed
  | freed
  deriving DecidableEq

/-- `pos` steps of the probe have been run. `irq` : the interrupt is requested. `objects` are
the initialised ones. -/
structure State where
  phase : Phase
  pos : ℕ
  irq : Bool
  timer : KernelTimer
  objects : Object → Bool
  fasync : Bool

/-- What happens next. -/
inductive Action
  /-- The next step of the probe. -/
  | probe (ok : Bool)
  /-- `gpio_interrupt_handler`. -/
  | interrupt
  /-- The timer expires, and `debounce_timer_handler` starts. -/
  | expire
  /-- A started handler reads the key, uses what it uses, and returns. -/
  | handler (value : Bool)
  /-- User space asks for signals, or no longer. -/
  | setFasync (fasync : Bool)
  | remove
  /-- The release frees the interrupt. -/
  | freeIrq
  /-- The release frees the private data. -/
  | freeMemory
  deriving DecidableEq

/-- What a step of the probe does here. -/
def ProbeStep.exec (k : ProbeStep) (s : State) : State :=
  match k with
  | .devmRequestIrq => { s with irq := true }
  | .setupTimer => { s with timer := s.timer.setup }
  | .initWaitqueueHead => { s with objects := Function.update s.objects .wq true }
  | .devmInputAllocateDevice => { s with objects := Function.update s.objects .inputdev true }
  | _ => s

/-- A failed step ends the probe. -/
def probe (d : Driver) (s : State) (ok : Bool) : Option State :=
  if s.phase = .probed then
    d.probe[s.pos]?.map fun k =>
      if ok ∨ k.Infallible then { k.exec s with pos := s.pos + 1 } else { s with phase := .release }
  else none

/-- One action of a driver. -/
def step (d : Driver) (s : State) : Action → Option State
  | .probe ok => probe d s ok
  | .interrupt => if s.irq then some { s with timer := s.timer.mod } else none
  | .expire => s.timer.expire.map fun t => { s with timer := t }
  | .handler _ => s.timer.finish.map fun t => { s with timer := t }
  | .setFasync fasync =>
    if Stages.Done d.probe s.pos .cdevAdd then some { s with fasync := fasync } else none
  | .remove =>
    if s.phase = .probed ∧ d.probe[s.pos]? = none then some { s with phase := .release } else none
  | .freeIrq =>
    if s.phase = .release then some { s with phase := .irqFreed, irq := false } else none
  | .freeMemory => if s.phase = .irqFreed then some { s with phase := .freed } else none

/-- Before the probe. -/
def start : State where
  phase := .probed
  pos := 0
  irq := false
  timer := .zeroed
  objects _ := false
  fasync := false

/-! ## What a run should do -/

/-- `mod_timer` finds the timer set up, the handler finds what it uses initialised, and does
not run on freed memory. -/
def Safe (d : Driver) (s : State) (a : Action) (_ : State) : Prop :=
  match a with
  | .interrupt => s.timer.setUp = true
  | .expire => s.phase ≠ .freed
  | .handler value =>
    s.phase ≠ .freed ∧ ∀ o ∈ d.debounceTimerHandler value s.fasync, s.objects o = true
  | _ => True

instance (d : Driver) (s : State) (a : Action) (s' : State) : Decidable (Safe d s a s') :=
  match a with
  | .interrupt => inferInstanceAs (Decidable (s.timer.setUp = true))
  | .expire => inferInstanceAs (Decidable (s.phase ≠ .freed))
  | .handler value => inferInstanceAs (Decidable (s.phase ≠ .freed ∧
      ∀ o ∈ d.debounceTimerHandler value s.fasync, s.objects o = true))
  | .probe _ | .setFasync _ | .remove | .freeIrq | .freeMemory => inferInstanceAs (Decidable True)

/-- Interrupts come after `setup_timer`, handlers after the steps that initialise what they
use, and the memory is freed with a quiet timer. -/
def InOrder (d : Driver) (s : State) (a : Action) (_ : State) : Prop :=
  match a with
  | .interrupt => Stages.Done d.probe s.pos .setupTimer
  | .handler value =>
    ∀ o ∈ d.debounceTimerHandler value s.fasync, Stages.Done d.probe s.pos o.initStep
  | .freeMemory => s.timer.Quiet
  | _ => True

instance (d : Driver) (s : State) (a : Action) (s' : State) : Decidable (InOrder d s a s') :=
  match a with
  | .interrupt => inferInstanceAs (Decidable (Stages.Done d.probe s.pos .setupTimer))
  | .handler value => inferInstanceAs (Decidable
      (∀ o ∈ d.debounceTimerHandler value s.fasync, Stages.Done d.probe s.pos o.initStep))
  | .freeMemory => inferInstanceAs (Decidable s.timer.Quiet)
  | .probe _ | .expire | .setFasync _ | .remove | .freeIrq => inferInstanceAs (Decidable True)

/-! ## The steps of the probe and what they leave -/

/-- What the steps done so far have set up, and what the release leaves. -/
structure Inv (d : Driver) (s : State) : Prop where
  setUp : Stages.Done d.probe s.pos .setupTimer → s.timer.setUp = true
  objects : ∀ o : Object, Stages.Done d.probe s.pos o.initStep → s.objects o = true
  irq : s.phase = .irqFreed ∨ s.phase = .freed → s.irq = false
  freed : s.phase = .freed → s.timer.Quiet

theorem inv_start (d : Driver) : Inv d start where
  setUp h := absurd h Stages.not_done_zero
  objects _ h := absurd h Stages.not_done_zero
  irq h := by simp [start] at h
  freed h := nomatch h

variable {d : Driver} {s s' : State}

/-- A step keeps the timer set up, or sets it up. -/
theorem exec_setUp {k : ProbeStep} (h : s.timer.setUp = true ∨ k = .setupTimer) :
    (k.exec s).timer.setUp = true := by
  by_cases hk : k = .setupTimer
  · rw [hk]
    rfl
  · have hset := h.resolve_right hk
    cases k with
    | setupTimer => rfl
    | _ => exact hset

/-- A step keeps what is initialised, and initialises its own. -/
theorem exec_objects {k : ProbeStep} {o : Object} (h : s.objects o = true ∨ o.initStep = k) :
    (k.exec s).objects o = true := by
  rcases h with h | rfl
  · cases k with
    | initWaitqueueHead => cases o <;> simp [ProbeStep.exec, h]
    | devmInputAllocateDevice => cases o <;> simp [ProbeStep.exec, h]
    | _ => exact h
  · cases o <;> simp [Object.initStep, ProbeStep.exec]

theorem exec_phase (k : ProbeStep) (s : State) : (k.exec s).phase = s.phase := by
  cases k <;> rfl

theorem inv_probe (h : Inv d s) {ok : Bool} (hstep : step d s (.probe ok) = some s') :
    Inv d s' := by
  simp only [step, probe] at hstep
  split_ifs at hstep with hphase
  obtain ⟨k, hk, rfl⟩ := Option.map_eq_some_iff.mp hstep
  split_ifs with hok
  · have hprobed : (k.exec s).phase = .probed := (exec_phase k s).trans hphase
    refine ⟨fun hdone => ?_, fun o hdone => ?_, fun hno => ?_, fun hno => ?_⟩
    · rcases (Stages.done_succ hk).mp hdone with hdone | heq
      · exact exec_setUp (.inl (h.setUp hdone))
      · exact exec_setUp (.inr heq.symm)
    · rcases (Stages.done_succ hk).mp hdone with hdone | heq
      · exact exec_objects (.inl (h.objects o hdone))
      · exact exec_objects (.inr heq)
    · simp [hprobed] at hno
    · simp [hprobed] at hno
  · exact ⟨h.setUp, h.objects, nofun, nofun⟩

/-- A step that changes the timer alone, and leaves it set up, when the memory is not freed. -/
theorem Inv.with_timer (h : Inv d s) {t : KernelTimer} (hsetUp : t.setUp = s.timer.setUp)
    (hphase : s.phase ≠ .freed) : Inv d { s with timer := t } where
  setUp hdone := hsetUp.trans (h.setUp hdone)
  objects := h.objects
  irq := h.irq
  freed hno := absurd hno hphase

/-- In order, one step is safe and keeps the invariant. -/
theorem safe_step {a : Action} (h : Inv d s) (hstep : step d s a = some s')
    (horder : InOrder d s a s') : Inv d s' ∧ Safe d s a s' := by
  cases a with
  | probe ok => exact ⟨inv_probe h hstep, True.intro⟩
  | interrupt =>
    simp only [step] at hstep
    split_ifs at hstep with hirq
    obtain rfl := Option.some.inj hstep
    have hphase : s.phase ≠ .freed := by
      intro hfreed
      rw [h.irq (.inr hfreed)] at hirq
      exact nomatch hirq
    exact ⟨h.with_timer rfl hphase, h.setUp horder⟩
  | expire =>
    obtain ⟨t, ht, rfl⟩ := Option.map_eq_some_iff.mp hstep
    have hphase : s.phase ≠ .freed := by
      intro hfreed
      rw [(h.freed hfreed).expire_eq_none] at ht
      exact nomatch ht
    obtain ⟨-, rfl⟩ := KernelTimer.of_expire ht
    exact ⟨h.with_timer rfl hphase, hphase⟩
  | handler value =>
    obtain ⟨t, ht, rfl⟩ := Option.map_eq_some_iff.mp hstep
    have hphase : s.phase ≠ .freed := by
      intro hfreed
      rw [(h.freed hfreed).finish_eq_none] at ht
      exact nomatch ht
    obtain ⟨-, rfl⟩ := KernelTimer.of_finish ht
    exact ⟨h.with_timer rfl hphase, hphase, fun o ho => h.objects o (horder o ho)⟩
  | setFasync fasync =>
    simp only [step] at hstep
    split_ifs at hstep
    obtain rfl := Option.some.inj hstep
    exact ⟨⟨h.setUp, h.objects, h.irq, h.freed⟩, True.intro⟩
  | remove =>
    simp only [step] at hstep
    split_ifs at hstep
    obtain rfl := Option.some.inj hstep
    exact ⟨⟨h.setUp, h.objects, nofun, nofun⟩, True.intro⟩
  | freeIrq =>
    simp only [step] at hstep
    split_ifs at hstep
    obtain rfl := Option.some.inj hstep
    exact ⟨⟨h.setUp, h.objects, fun _ => rfl, nofun⟩, True.intro⟩
  | freeMemory =>
    simp only [step] at hstep
    split_ifs at hstep with hphase
    obtain rfl := Option.some.inj hstep
    exact ⟨⟨h.setUp, h.objects, fun _ => h.irq (.inl hphase), fun _ => horder⟩, True.intro⟩

/-! ## Runs -/

/-- For each of the four drivers, and for any other order of these steps in a probe : in every
run whose interrupts come after `setup_timer`, whose handlers run after what they use is
initialised, and whose memory is freed with the timer neither armed nor in its handler,
`mod_timer` finds the timer set up, the handler finds what it uses initialised, and it never
runs on freed memory. -/
theorem debounce_safe (d : Driver) (as : List Action)
    (horder : Transition.Always (step d) (InOrder d) start as) :
    Transition.Always (step d) (Safe d) start as := by
  refine Transition.always_imp (I := Inv d) (fun s a s' h hstep ha => ?_) (inv_start d) horder
  exact safe_step h hstep ha

/-- A whole probe, a key press, and the removal once its handler has returned; and a probe
that fails at its last step but one while the timer is armed, released after the handler. -/
theorem debounce_safe_press :
    Transition.Always (step fasyncIo) (Safe fasyncIo) start
        (fasyncIo.probe.map (fun _ => .probe true) ++
          [.interrupt, .expire, .handler false, .remove, .freeIrq, .freeMemory]) ∧
      Transition.Always (step inputDevice) (Safe inputDevice) start
        (List.replicate 5 (.probe true) ++
          [.interrupt, .probe false, .freeIrq, .expire, .handler true, .freeMemory]) :=
  ⟨debounce_safe fasyncIo _ (by decide), debounce_safe inputDevice _ (by decide)⟩

/-- For each driver : an interrupt right after `devm_request_irq`; an interrupt and an expiry
right after `setup_timer`; an interrupt before the removal, whose timer expires after the
release. -/
theorem key_in_windows :
    (drivers.all fun d => decide
      (¬Transition.Always (step d) (Safe d) start
          [.probe true, .probe true, .probe true, .interrupt] ∧
        ¬Transition.Always (step d) (Safe d) start
          [.probe true, .probe true, .probe true, .probe true, .interrupt, .expire,
            .handler false] ∧
        ¬Transition.Always (step d) (Safe d) start
          (d.probe.map (fun _ => .probe true) ++
            [.interrupt, .remove, .freeIrq, .freeMemory, .expire]))) = true := by
  decide

end DebounceTimer

end LinuxDriverKb
