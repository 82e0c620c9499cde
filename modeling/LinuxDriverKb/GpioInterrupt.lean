import LinuxDriverKb.Lib.Deferred
import LinuxDriverKb.Lib.Stages
import LinuxDriverKb.Lib.Transition
import Mathlib.Data.Int.Notation
import Mathlib.Logic.Function.Basic

/-!
# The bottom halves of `gpio_interrupt.c`

By the parameter `type` the interrupt handler schedules a tasklet, schedules a work item,
wakes its thread, or does all itself. The probe requests the interrupt before it sets up the
tasklet or the work, which drops what an interrupt has scheduled in between, and the removal
waits for neither.

`gpio_interrupt_safe` : without a tasklet or a work item every run is safe; with one, a run is
whose interrupts come after the set-up and whose memory is freed with neither pending or
running. `gpio_interrupt_served` : every interrupt is followed by a run of the chosen bottom
half, and of no other, if those for a tasklet or a work item come after its set-up.
-/

set_option autoImplicit false

namespace LinuxDriverKb

namespace GpioInterrupt

/-! ## The driver -/

/-- `BOTTOM_HALF_TASKLET` of `enum bottom_half_type`, compared with an `int` parameter. -/
def bottomHalfTasklet : ℤ := 1

/-- `BOTTOM_HALF_WORKQUEUE`. -/
def bottomHalfWorkqueue : ℤ := 2

/-- `BOTTOM_HALF_THREAD`. -/
def bottomHalfThread : ℤ := 3

/-- What can do the rest of the work of an interrupt. -/
inductive BottomHalf
  | tasklet
  | work
  | thread
  deriving DecidableEq

/-- What the handler returns. -/
inductive IrqReturn
  | handled
  | wakeThread
  deriving DecidableEq

/-- `gpio_interrupt_handler` : what it schedules, and its result. It compares the type of the
device, and once the parameter. -/
def gpioInterruptHandler (pType type : ℤ) : Option BottomHalf × IrqReturn :=
  (if pType = bottomHalfTasklet then some .tasklet
    else if type = bottomHalfWorkqueue then some .work
    else none,
   if pType = bottomHalfThread then .wakeThread else .handled)

/-- What an interrupt raises : what the handler schedules, or the thread it asks for. -/
def raises (pType type : ℤ) : Option BottomHalf :=
  match gpioInterruptHandler pType type with
  | (some b, _) => some b
  | (none, .wakeThread) => some .thread
  | (none, .handled) => none

/-- The steps of `gpio_interrupt_probe`. -/
inductive ProbeStep
  | devmKzalloc
  | devmGpiodGet
  | devmRequestIrq
  | initBottomHalf
  | setDrvdata
  deriving DecidableEq

/-- The probe. -/
def probeSteps : List ProbeStep :=
  [.devmKzalloc, .devmGpiodGet, .devmRequestIrq, .initBottomHalf, .setDrvdata]

/-- The steps that return no error. -/
def ProbeStep.Infallible (k : ProbeStep) : Prop :=
  k = .initBottomHalf ∨ k = .setDrvdata

instance (k : ProbeStep) : Decidable k.Infallible :=
  inferInstanceAs (Decidable (_ ∨ _))

/-- In the probe or bound; to be released; released up to the interrupt; freed. -/
inductive Phase
  | probed
  | release
  | irqFreed
  | freed
  deriving DecidableEq

/-- `pos` steps of the probe have been run; `setUp` are the bottom halves that are set up.
`interrupts` counts the interrupts. -/
structure State where
  phase : Phase
  pos : ℕ
  irq : Bool
  setUp : BottomHalf → Bool
  halves : BottomHalf → Deferred
  interrupts : ℕ

/-- The steps of the driver and of the kernel. -/
inductive Action
  /-- The next step of the probe. -/
  | probe (ok : Bool)
  | interrupt
  /-- The handler of a bottom half starts, and returns. -/
  | run (b : BottomHalf)
  | ret (b : BottomHalf)
  | remove
  /-- The release frees the interrupt, and ends its thread. -/
  | freeIrq
  /-- The release frees the private data. -/
  | freeMemory
  deriving DecidableEq

/-- With another state of one bottom half. -/
def State.set (s : State) (b : BottomHalf) (d : Deferred) : State :=
  { s with halves := Function.update s.halves b d }

/-- `tasklet_init` and `INIT_WORK`. -/
def State.initHalf (s : State) (b : BottomHalf) : State :=
  { s with setUp := Function.update s.setUp b true }.set b (s.halves b).reset

/-- What a step of the probe does here : the thread comes with the interrupt. -/
def ProbeStep.exec (type : ℤ) (k : ProbeStep) (s : State) : State :=
  match k with
  | .devmRequestIrq =>
    if type = bottomHalfThread then
      { s with irq := true, setUp := Function.update s.setUp .thread true }
    else { s with irq := true }
  | .initBottomHalf =>
    if type = bottomHalfTasklet then s.initHalf .tasklet
    else if type = bottomHalfWorkqueue then s.initHalf .work
    else s
  | _ => s

/-- A failed step ends the probe. -/
def probe (type : ℤ) (s : State) (ok : Bool) : Option State :=
  if s.phase = .probed then
    probeSteps[s.pos]?.map fun k =>
      if ok ∨ k.Infallible then { k.exec type s with pos := s.pos + 1 }
      else { s with phase := .release }
  else none

/-- An interrupt. The device has the type of the parameter. -/
def interrupt (type : ℤ) (s : State) : State :=
  match raises type type with
  | some b => { s with interrupts := s.interrupts + 1 }.set b (s.halves b).raise
  | none => { s with interrupts := s.interrupts + 1 }

/-- One step of the driver or of the kernel. -/
def step (type : ℤ) (s : State) : Action → Option State
  | .probe ok => probe type s ok
  | .interrupt => if s.irq then some (interrupt type s) else none
  | .run b => (s.halves b).start.map (s.set b)
  | .ret b => (s.halves b).finish.map (s.set b)
  | .remove =>
    if s.phase = .probed ∧ probeSteps[s.pos]? = none then some { s with phase := .release }
    else none
  | .freeIrq =>
    if s.phase = .release then
      (s.halves .thread).stop.map fun d => { s.set .thread d with phase := .irqFreed, irq := false }
    else none
  | .freeMemory => if s.phase = .irqFreed then some { s with phase := .freed } else none

/-- Before the probe. -/
def start : State where
  phase := .probed
  pos := 0
  irq := false
  setUp _ := false
  halves _ := .zeroed
  interrupts := 0

/-! ## What a run should do -/

/-- What an interrupt raises is set up, and no bottom half runs on freed memory. -/
def Safe (type : ℤ) (s : State) (a : Action) (_ : State) : Prop :=
  match a with
  | .interrupt => ∀ b ∈ raises type type, s.setUp b = true
  | .run b => s.phase ≠ .freed ∧ s.setUp b = true
  | .ret _ => s.phase ≠ .freed
  | _ => True

instance (type : ℤ) (s : State) (a : Action) (s' : State) : Decidable (Safe type s a s') :=
  match a with
  | .interrupt => inferInstanceAs (Decidable (∀ b ∈ raises type type, s.setUp b = true))
  | .run b => inferInstanceAs (Decidable (s.phase ≠ .freed ∧ s.setUp b = true))
  | .ret _ => inferInstanceAs (Decidable (s.phase ≠ .freed))
  | .probe _ | .remove | .freeIrq | .freeMemory => inferInstanceAs (Decidable True)

/-- The tasklet and the work : set up after the interrupt is requested, and not waited for. -/
def Loose (type : ℤ) : Prop :=
  type = bottomHalfTasklet ∨ type = bottomHalfWorkqueue

instance (type : ℤ) : Decidable (Loose type) :=
  inferInstanceAs (Decidable (_ ∨ _))

/-- An interrupt comes after the set-up of a tasklet or a work item. -/
def SetUpFirst (type : ℤ) (s : State) (a : Action) (_ : State) : Prop :=
  a = .interrupt → Loose type → Stages.Done probeSteps s.pos .initBottomHalf

instance (type : ℤ) (s : State) (a : Action) (s' : State) : Decidable (SetUpFirst type s a s') :=
  inferInstanceAs (Decidable (a = .interrupt → Loose type →
    Stages.Done probeSteps s.pos .initBottomHalf))

/-- Interrupts come after the set-up, and the memory is freed with quiet bottom halves. -/
def InOrder (type : ℤ) (s : State) (a : Action) (_ : State) : Prop :=
  match a with
  | .interrupt => Loose type → Stages.Done probeSteps s.pos .initBottomHalf
  | .freeMemory => Loose type → ∀ b, (s.halves b).Quiet
  | _ => True

instance (s : State) : Decidable (∀ b, (s.halves b).Quiet) :=
  decidable_of_iff ((s.halves .tasklet).Quiet ∧ (s.halves .work).Quiet ∧ (s.halves .thread).Quiet)
    ⟨fun h b => match b with
      | .tasklet => h.1
      | .work => h.2.1
      | .thread => h.2.2, fun h => ⟨h _, h _, h _⟩⟩

instance (type : ℤ) (s : State) (a : Action) (s' : State) : Decidable (InOrder type s a s') :=
  match a with
  | .interrupt =>
    inferInstanceAs (Decidable (Loose type → Stages.Done probeSteps s.pos .initBottomHalf))
  | .freeMemory => inferInstanceAs (Decidable (Loose type → ∀ b, (s.halves b).Quiet))
  | .probe _ | .run _ | .ret _ | .remove | .freeIrq => inferInstanceAs (Decidable True)

/-! ## The chosen bottom half -/

theorem raises_self (type : ℤ) : raises type type =
    if type = bottomHalfTasklet then some .tasklet
    else if type = bottomHalfWorkqueue then some .work
    else if type = bottomHalfThread then some .thread
    else none := by
  unfold raises gpioInterruptHandler
  split_ifs <;> rfl

/-- A tasklet or a work item is raised exactly by a type that chooses it. -/
theorem loose_iff {type : ℤ} : Loose type ↔
    raises type type = some .tasklet ∨ raises type type = some .work := by
  rw [raises_self, Loose]
  split_ifs with h1 h2 h3 <;> simp [h1] <;> assumption

variable {type : ℤ} {s s' : State}

@[simp] theorem set_phase (b : BottomHalf) (d : Deferred) : (s.set b d).phase = s.phase := rfl
@[simp] theorem set_irq (b : BottomHalf) (d : Deferred) : (s.set b d).irq = s.irq := rfl
@[simp] theorem set_pos (b : BottomHalf) (d : Deferred) : (s.set b d).pos = s.pos := rfl
@[simp] theorem set_setUp (b : BottomHalf) (d : Deferred) : (s.set b d).setUp = s.setUp := rfl
@[simp] theorem set_interrupts (b : BottomHalf) (d : Deferred) :
    (s.set b d).interrupts = s.interrupts := rfl
@[simp] theorem set_halves (b : BottomHalf) (d : Deferred) :
    (s.set b d).halves = Function.update s.halves b d := rfl

/-- The interrupt has been freed. -/
def State.Released (s : State) : Prop :=
  s.phase = .irqFreed ∨ s.phase = .freed

/-- What holds in runs whose interrupts come after the set-up. -/
structure Kept (type : ℤ) (s : State) : Prop where
  irq : s.Released → s.irq = false
  thread : s.Released → (s.halves .thread).Quiet
  counted : ∀ b, (s.halves b).Counted
  served : ∀ b, b ≠ .thread ∨ ¬s.Released → (s.halves b).Served
  fresh : Loose type → ¬Stages.Done probeSteps s.pos .initBottomHalf →
    ∀ b, s.halves b = .zeroed
  chosen : ∀ b, raises type type = some b → (s.halves b).raised = s.interrupts
  other : ∀ b, raises type type ≠ some b → s.halves b = .zeroed
  threadSetUp : s.irq = true ∨ 0 < (s.halves .thread).raised → type = bottomHalfThread →
    s.setUp .thread = true
  looseSetUp : Stages.Done probeSteps s.pos .initBottomHalf →
    ∀ b, Loose type → raises type type = some b → s.setUp b = true

theorem kept_start (type : ℤ) : Kept type start where
  irq _ := rfl
  thread _ := Deferred.quiet_zeroed
  counted _ := Deferred.served_zeroed.toCounted
  served _ _ := Deferred.served_zeroed
  fresh _ _ _ := rfl
  chosen _ _ := rfl
  other _ _ := rfl
  threadSetUp h := by simp [start, Deferred.zeroed] at h
  looseSetUp h := absurd h Stages.not_done_zero

/-- A bottom half that starts or returns. -/
theorem Kept.set_half (h : Kept type s) {b : BottomHalf} {d : Deferred}
    (hbusy : ¬(s.halves b).Quiet) (hraised : d.raised = (s.halves b).raised)
    (hcounted : d.Counted) (hserved : (s.halves b).Served → d.Served) :
    Kept type (s.set b d) := by
  refine ⟨h.irq, fun hrel => ?_, fun c => ?_, fun c hc => ?_, fun hl hnot => ?_, fun c hc => ?_,
    fun c hc => ?_, fun hor => ?_, h.looseSetUp⟩
  · have hthread := h.thread hrel
    by_cases hb : .thread = b
    · exact absurd (hb ▸ hthread) hbusy
    · simpa [Function.update_of_ne hb] using hthread
  · by_cases hb : c = b
    · simpa [hb] using hcounted
    · simpa [Function.update_of_ne hb] using h.counted c
  · have hold := h.served c hc
    by_cases hb : c = b
    · simpa [hb] using hserved (hb ▸ hold)
    · simpa [Function.update_of_ne hb] using hold
  · exact absurd (h.fresh hl hnot b ▸ Deferred.quiet_zeroed) hbusy
  · have hold := h.chosen c hc
    by_cases hb : c = b
    · simpa [hb, hraised] using hb ▸ hold
    · simpa [Function.update_of_ne hb] using hold
  · have hold := h.other c hc
    have hb : c ≠ b := by
      rintro rfl
      exact hbusy (hold ▸ Deferred.quiet_zeroed)
    simpa [Function.update_of_ne hb] using hold
  · refine h.threadSetUp (hor.imp id fun hpos => ?_)
    by_cases hb : .thread = b
    · rw [hb, ← hraised]
      simpa [hb] using hpos
    · simpa [Function.update_of_ne hb] using hpos

theorem kept_interrupt (h : Kept type s) (hirq : s.irq = true)
    (hfirst : Loose type → Stages.Done probeSteps s.pos .initBottomHalf) :
    Kept type (interrupt type s) := by
  have hrel : ¬s.Released := fun hrel => Bool.false_ne_true ((h.irq hrel).symm.trans hirq)
  unfold interrupt
  cases hb : raises type type with
  | none =>
    refine ⟨h.irq, h.thread, h.counted, h.served, h.fresh, fun c hc => ?_,
      fun c hc => h.other c (hb ▸ hc), h.threadSetUp, h.looseSetUp⟩
    exact nomatch hb.symm.trans hc
  | some b =>
    have hchosen := h.chosen b hb
    refine ⟨h.irq, fun hr => absurd hr hrel, fun c => ?_, fun c hc => ?_,
      fun hl hnot => absurd (hfirst hl) hnot, fun c hc => ?_, fun c hc => ?_,
      fun _ ht => h.threadSetUp (Or.inl hirq) ht, h.looseSetUp⟩
    · by_cases hcb : c = b
      · simpa [hcb] using (h.counted b).raise
      · simpa [Function.update_of_ne hcb] using h.counted c
    · by_cases hcb : c = b
      · simpa [hcb] using (h.served b (hcb ▸ hc)).raise
      · simpa [Function.update_of_ne hcb] using h.served c hc
    · obtain rfl := Option.some.inj (hb.symm.trans hc)
      simp [Deferred.raise, hchosen]
    · have hcb : c ≠ b := fun heq => hc (by rw [hb, heq])
      simpa [Function.update_of_ne hcb] using h.other c hc

/-- What is set up stays so. -/
theorem setUp_initHalf (s : State) (b : BottomHalf) :
    (s.initHalf b).setUp b = true ∧ ∀ c, s.setUp c = true → (s.initHalf b).setUp c = true := by
  refine ⟨by simp [State.initHalf], fun c hc => ?_⟩
  by_cases hcb : c = b <;> simp [State.initHalf, hcb, hc]

/-- A step of the probe sets up what it sets up. -/
theorem exec_probe (type : ℤ) (s : State) (k : ProbeStep) : (k.exec type s).phase = s.phase ∧
    (k.exec type s).interrupts = s.interrupts ∧
    ((k.exec type s).irq = true → s.irq = true ∨ k = .devmRequestIrq) ∧
    ∀ b, s.setUp b = true → (k.exec type s).setUp b = true := by
  cases k <;> simp only [ProbeStep.exec]
  case devmRequestIrq =>
    split_ifs <;> simp
    intro b hb
    by_cases hbt : b = .thread <;> simp [hbt, hb]
  case initBottomHalf =>
    split_ifs
    · exact ⟨rfl, rfl, Or.inl, (setUp_initHalf s .tasklet).2⟩
    · exact ⟨rfl, rfl, Or.inl, (setUp_initHalf s .work).2⟩
    · exact ⟨rfl, rfl, Or.inl, fun _ => id⟩
  all_goals simp

theorem initHalf_halves {b : BottomHalf} (hb : s.halves b = .zeroed) :
    (s.initHalf b).halves = s.halves := by
  rw [State.initHalf, set_halves, hb, Deferred.reset_zeroed, ← hb, Function.update_eq_self]

/-- Nothing is pending when a bottom half is initialised. -/
theorem Kept.exec_halves (h : Kept type s) {k : ProbeStep} (hk : probeSteps[s.pos]? = some k) :
    (k.exec type s).halves = s.halves := by
  have hfresh : k = .initBottomHalf → Loose type → ∀ b, s.halves b = .zeroed := by
    rintro rfl hl
    exact h.fresh hl (Stages.not_done_of_nodup (by decide) hk)
  cases k <;> simp only [ProbeStep.exec]
  case devmRequestIrq => split_ifs <;> rfl
  case initBottomHalf =>
    split_ifs with htasklet hwork
    · exact initHalf_halves (hfresh rfl (Or.inl htasklet) _)
    · exact initHalf_halves (hfresh rfl (Or.inr hwork) _)
    · rfl

/-- What a type chooses is set up by the end of the probe. -/
theorem exec_initBottomHalf {b : BottomHalf} (hl : Loose type) (hb : raises type type = some b) :
    (ProbeStep.initBottomHalf.exec type s).setUp b = true := by
  rw [raises_self] at hb
  rcases hl with hl | hl
  · obtain rfl : BottomHalf.tasklet = b := by simpa [hl] using hb
    simpa [ProbeStep.exec, hl] using (setUp_initHalf s .tasklet).1
  · have hne : bottomHalfWorkqueue ≠ bottomHalfTasklet := by decide
    obtain rfl : BottomHalf.work = b := by simpa [hl, hne] using hb
    simpa [ProbeStep.exec, hl, hne] using (setUp_initHalf s .work).1

theorem kept_probe (h : Kept type s) {ok : Bool} (hstep : step type s (.probe ok) = some s') :
    Kept type s' := by
  simp only [step, probe] at hstep
  split_ifs at hstep with hphase
  obtain ⟨k, hk, rfl⟩ := Option.map_eq_some_iff.mp hstep
  have hrel : ¬s.Released := by simp [State.Released, hphase]
  split_ifs with hok
  · have hhalves := h.exec_halves hk
    obtain ⟨hph, hinterrupts, hirq, hsetUp⟩ := exec_probe type s k
    have hrel' : ¬State.Released { k.exec type s with pos := s.pos + 1 } := by
      simp [State.Released, hph, hphase]
    refine ⟨fun hr => absurd hr hrel', fun hr => absurd hr hrel', hhalves ▸ h.counted,
      fun b _ => ?_, fun hl hnot b => ?_, fun b hb => ?_, hhalves ▸ h.other, fun hor ht => ?_,
      fun hdone b hl hb => ?_⟩
    · simpa [hhalves] using h.served b (Or.inr hrel)
    · have hnot' : ¬Stages.Done probeSteps s.pos .initBottomHalf := fun hdone =>
        hnot ((Stages.done_succ hk).mpr (Or.inl hdone))
      simpa [hhalves] using h.fresh hl hnot' b
    · simpa [hhalves, hinterrupts] using h.chosen b hb
    · by_cases hkirq : k = .devmRequestIrq
      · simp [hkirq, ProbeStep.exec, ht]
      · refine hsetUp _ (h.threadSetUp ?_ ht)
        rcases hor with hor | hor
        · exact Or.inl ((hirq hor).resolve_right hkirq)
        · exact Or.inr (by simpa [hhalves] using hor)
    · rcases (Stages.done_succ hk).mp hdone with hdone | rfl
      · exact hsetUp b (h.looseSetUp hdone b hl hb)
      · exact exec_initBottomHalf hl hb
  · exact ⟨fun hr => by simp [State.Released] at hr, fun hr => by simp [State.Released] at hr,
      h.counted, fun b _ => h.served b (Or.inr hrel), h.fresh, h.chosen, h.other, h.threadSetUp,
      h.looseSetUp⟩

theorem kept_run (h : Kept type s) {b : BottomHalf} {d : Deferred}
    (hd : (s.halves b).start = some d) : Kept type (s.set b d) := by
  refine h.set_half (fun hq => ?_) ?_ ((h.counted b).start hd) (·.start hd)
  · rw [hq.start_eq_none] at hd
    cases hd
  · obtain ⟨-, rfl⟩ := Deferred.of_start hd
    rfl

theorem kept_ret (h : Kept type s) {b : BottomHalf} {d : Deferred}
    (hd : (s.halves b).finish = some d) : Kept type (s.set b d) := by
  refine h.set_half (fun hq => ?_) ?_ ((h.counted b).finish hd) (·.finish hd)
  · rw [hq.finish_eq_none] at hd
    cases hd
  · obtain ⟨-, rfl⟩ := Deferred.of_finish hd
    rfl

/-- The interrupt is freed, and its thread stopped. -/
theorem kept_freeIrq (h : Kept type s) {d : Deferred} (hd : (s.halves .thread).stop = some d) :
    Kept type { s.set .thread d with phase := .irqFreed, irq := false } := by
  obtain ⟨-, hstopped⟩ := Deferred.of_stop hd
  refine ⟨fun _ => rfl, fun _ => ?_, fun b => ?_, fun b hb => ?_, fun hl hnot b => ?_,
    fun b hb => ?_, fun b hb => ?_, fun hor => ?_, h.looseSetUp⟩
  · simpa using Deferred.quiet_stop hd
  · by_cases hbt : b = .thread
    · simpa [hbt] using (h.counted .thread).stop hd
    · simpa [Function.update_of_ne hbt] using h.counted b
  · have hbt : b ≠ .thread := hb.resolve_right fun hr => hr (Or.inl rfl)
    simpa [Function.update_of_ne hbt] using h.served b (Or.inl hbt)
  · have hold := h.fresh hl hnot
    by_cases hbt : b = .thread
    · simp [hbt, hstopped, hold, Deferred.zeroed]
    · simpa [Function.update_of_ne hbt] using hold b
  · by_cases hbt : b = .thread
    · simpa [hbt, hstopped] using hbt ▸ h.chosen b hb
    · simpa [Function.update_of_ne hbt] using h.chosen b hb
  · have hold := h.other b hb
    by_cases hbt : b = .thread
    · simp [hbt, hstopped, hbt ▸ hold, Deferred.zeroed]
    · simpa [Function.update_of_ne hbt] using hold
  · exact h.threadSetUp (Or.inr (by simpa [hstopped] using hor))

theorem kept_step {a : Action} (h : Kept type s) (hstep : step type s a = some s')
    (hfirst : SetUpFirst type s a s') : Kept type s' := by
  cases a with
  | probe ok => exact kept_probe h hstep
  | interrupt =>
    simp only [step] at hstep
    split_ifs at hstep with hirq
    obtain rfl := Option.some.inj hstep
    exact kept_interrupt h hirq (hfirst rfl)
  | run b =>
    obtain ⟨d, hd, rfl⟩ := Option.map_eq_some_iff.mp hstep
    exact kept_run h hd
  | ret b =>
    obtain ⟨d, hd, rfl⟩ := Option.map_eq_some_iff.mp hstep
    exact kept_ret h hd
  | remove =>
    simp only [step] at hstep
    split_ifs at hstep with hphase
    obtain rfl := Option.some.inj hstep
    have hrel : ¬s.Released := by simp [State.Released, hphase.1]
    exact ⟨fun hr => by simp [State.Released] at hr, fun hr => by simp [State.Released] at hr,
      h.counted, fun b _ => h.served b (Or.inr hrel), h.fresh, h.chosen, h.other, h.threadSetUp,
      h.looseSetUp⟩
  | freeIrq =>
    simp only [step] at hstep
    split_ifs at hstep with hphase
    obtain ⟨d, hd, rfl⟩ := Option.map_eq_some_iff.mp hstep
    exact kept_freeIrq h hd
  | freeMemory =>
    simp only [step] at hstep
    split_ifs at hstep with hphase
    obtain rfl := Option.some.inj hstep
    have hrel : s.Released := Or.inl hphase
    exact ⟨fun _ => h.irq hrel, fun _ => h.thread hrel, h.counted,
      fun b hb => h.served b (Or.inl (hb.resolve_right fun hr => hr (Or.inr rfl))), h.fresh,
      h.chosen, h.other, h.threadSetUp, h.looseSetUp⟩

/-! ## The order that a tasklet and a work item need -/

/-- What holds in runs in order. -/
structure Ordered (type : ℤ) (s : State) : Prop extends Kept type s where
  setUp_raised : Loose type → ∀ b, 0 < (s.halves b).raised → s.setUp b = true
  freed : s.phase = .freed → ∀ b, (s.halves b).Quiet

theorem ordered_start (type : ℤ) : Ordered type start :=
  ⟨kept_start type, fun _ _ hpos => by simp [start, Deferred.zeroed] at hpos, nofun⟩

/-- What an interrupt raises is set up. -/
theorem Ordered.setUp_of_raises (h : Ordered type s) (hirq : s.irq = true)
    (horder : Loose type → Stages.Done probeSteps s.pos .initBottomHalf) {b : BottomHalf}
    (hb : raises type type = some b) : s.setUp b = true := by
  by_cases hl : Loose type
  · exact h.looseSetUp (horder hl) b hl hb
  · have hthread : type = bottomHalfThread ∧ b = .thread := by
      rw [raises_self] at hb
      split_ifs at hb with h1 h2 h3
      · exact absurd (Or.inl h1) hl
      · exact absurd (Or.inr h2) hl
      · exact ⟨h3, (Option.some.inj hb).symm⟩
    rw [hthread.2]
    exact h.threadSetUp (Or.inl hirq) hthread.1

/-- A bottom half that has been raised is set up. -/
theorem Ordered.setUp_of_raised (h : Ordered type s) {b : BottomHalf}
    (hpos : 0 < (s.halves b).raised) : s.setUp b = true := by
  by_cases hl : Loose type
  · exact h.setUp_raised hl b hpos
  · have hb : raises type type = some b := by
      by_contra hne
      rw [h.other b hne] at hpos
      exact Nat.lt_irrefl 0 hpos
    rw [raises_self] at hb
    split_ifs at hb with h1 h2 h3
    · exact absurd (Or.inl h1) hl
    · exact absurd (Or.inr h2) hl
    · obtain rfl := Option.some.inj hb
      exact h.threadSetUp (Or.inr hpos) h3

/-- Without a tasklet or a work item only the thread is ever raised, and that is stopped
with the interrupt. -/
theorem Kept.quiet_of_not_loose (h : Kept type s) (hrel : s.Released) (hl : ¬Loose type)
    (b : BottomHalf) : (s.halves b).Quiet := by
  by_cases hb : b = .thread
  · rw [hb]
    exact h.thread hrel
  · have hne : raises type type ≠ some b := by
      intro heq
      cases b with
      | tasklet => exact hl (loose_iff.mpr (Or.inl heq))
      | work => exact hl (loose_iff.mpr (Or.inr heq))
      | thread => exact hb rfl
    rw [h.other b hne]
    exact Deferred.quiet_zeroed

/-- A step that leaves the bottom halves as they are, before the memory is freed. -/
theorem Ordered.of_halves (h : Ordered type s) (hkept : Kept type s')
    (hhalves : s'.halves = s.halves) (hsetUp : ∀ b, s.setUp b = true → s'.setUp b = true)
    (hphase : s'.phase ≠ .freed) : Ordered type s' :=
  ⟨hkept, fun hl b hpos => hsetUp b (h.setUp_raised hl b (by rwa [hhalves] at hpos)),
    fun hfreed => absurd hfreed hphase⟩

/-- A bottom half that starts or returns does so before the memory is freed, and set up. -/
theorem Ordered.set_half (h : Ordered type s) {b : BottomHalf} {d : Deferred}
    (hkept : Kept type (s.set b d)) (hbusy : ¬(s.halves b).Quiet)
    (hraised : d.raised = (s.halves b).raised) :
    Ordered type (s.set b d) ∧ s.phase ≠ .freed := by
  have hphase : s.phase ≠ .freed := fun hfreed => hbusy (h.freed hfreed b)
  refine ⟨⟨hkept, fun hl c hpos => h.setUp_raised hl c ?_, fun hfreed => absurd hfreed hphase⟩,
    hphase⟩
  by_cases hcb : c = b
  · simpa [hcb, hraised] using hpos
  · simpa [Function.update_of_ne hcb] using hpos

theorem ordered_interrupt (h : Ordered type s) (hirq : s.irq = true)
    (hkept : Kept type (interrupt type s))
    (hsetUp : ∀ b, raises type type = some b → s.setUp b = true) :
    Ordered type (interrupt type s) := by
  have hfreed : s.phase ≠ .freed := fun hf =>
    Bool.false_ne_true ((h.irq (Or.inr hf)).symm.trans hirq)
  unfold interrupt at hkept ⊢
  cases hb : raises type type with
  | none =>
    rw [hb] at hkept
    exact h.of_halves hkept rfl (fun _ => id) hfreed
  | some b =>
    rw [hb] at hkept
    refine ⟨hkept, fun hl c hpos => ?_, fun hf => absurd hf hfreed⟩
    by_cases hcb : c = b
    · rw [hcb]
      exact hsetUp b hb
    · exact h.setUp_raised hl c (by simpa [Function.update_of_ne hcb] using hpos)

theorem InOrder.setUpFirst {a : Action} (h : InOrder type s a s') : SetUpFirst type s a s' := by
  rintro rfl
  exact h

theorem safe_step {a : Action} (h : Ordered type s) (hstep : step type s a = some s')
    (horder : InOrder type s a s') : Ordered type s' ∧ Safe type s a s' := by
  have hkept := kept_step h.toKept hstep horder.setUpFirst
  cases a with
  | probe ok =>
    simp only [step, probe] at hstep
    split_ifs at hstep with hphase
    obtain ⟨k, hk, rfl⟩ := Option.map_eq_some_iff.mp hstep
    split_ifs at hkept ⊢ with hok
    · obtain ⟨hph, -, -, hsetUp⟩ := exec_probe type s k
      have hhalves := h.exec_halves hk
      exact ⟨h.of_halves hkept hhalves hsetUp (by simp [hph, hphase]), True.intro⟩
    · exact ⟨h.of_halves hkept rfl (fun _ => id) (by simp), True.intro⟩
  | interrupt =>
    simp only [step] at hstep
    split_ifs at hstep with hirq
    obtain rfl := Option.some.inj hstep
    have hsetUp : ∀ b, raises type type = some b → s.setUp b = true := fun b =>
      h.setUp_of_raises hirq horder
    exact ⟨ordered_interrupt h hirq hkept hsetUp, hsetUp⟩
  | run b =>
    obtain ⟨d, hd, rfl⟩ := Option.map_eq_some_iff.mp hstep
    obtain ⟨hpending, rfl⟩ := Deferred.of_start hd
    have hbusy : ¬(s.halves b).Quiet := fun hq => Bool.false_ne_true (hq.1.symm.trans hpending)
    obtain ⟨hordered, hphase⟩ := h.set_half hkept hbusy rfl
    exact ⟨hordered, hphase,
      h.setUp_of_raised (Nat.zero_lt_of_lt ((h.counted b).seen_lt hpending))⟩
  | ret b =>
    obtain ⟨d, hd, rfl⟩ := Option.map_eq_some_iff.mp hstep
    obtain ⟨hrunning, rfl⟩ := Deferred.of_finish hd
    have hbusy : ¬(s.halves b).Quiet := fun hq => Bool.false_ne_true (hq.2.symm.trans hrunning)
    exact h.set_half hkept hbusy rfl
  | remove =>
    simp only [step] at hstep
    split_ifs at hstep with hphase
    obtain rfl := Option.some.inj hstep
    exact ⟨h.of_halves hkept rfl (fun _ => id) (by simp), True.intro⟩
  | freeIrq =>
    simp only [step] at hstep
    split_ifs at hstep with hphase
    obtain ⟨d, hd, rfl⟩ := Option.map_eq_some_iff.mp hstep
    refine ⟨⟨hkept, fun hl b hpos => h.setUp_raised hl b ?_, nofun⟩, True.intro⟩
    obtain ⟨-, rfl⟩ := Deferred.of_stop hd
    by_cases hbt : b = .thread
    · simpa [hbt] using hpos
    · simpa [Function.update_of_ne hbt] using hpos
  | freeMemory =>
    simp only [step] at hstep
    split_ifs at hstep with hphase
    obtain rfl := Option.some.inj hstep
    refine ⟨⟨hkept, h.setUp_raised, fun _ b => ?_⟩, True.intro⟩
    by_cases hl : Loose type
    · exact horder hl b
    · exact h.quiet_of_not_loose (Or.inl hphase) hl b

/-! ## Runs -/

variable (type)

/-- For every value of the parameter, over every interleaving of the probe, interrupts, bottom
halves and the removal : every interrupt raises what is set up, and no bottom half runs on
freed memory, if the type is neither the tasklet nor the work item, or else if the
interrupts come after the set-up and the memory is freed with the bottom halves quiet. -/
theorem gpio_interrupt_safe (as : List Action)
    (horder : Loose type → Transition.Always (step type) (InOrder type) start as) :
    Transition.Always (step type) (Safe type) start as := by
  have hin : Transition.Always (step type) (InOrder type) start as := by
    by_cases hl : Loose type
    · exact horder hl
    · refine Transition.always_of_inv (I := fun _ => True) (fun s a s' _ _ => ⟨trivial, ?_⟩) trivial
      cases a <;> first | exact fun hl' => absurd hl' hl | exact True.intro
  exact Transition.always_imp (I := Ordered type) (fun _ _ _ => safe_step) (ordered_start type) hin

/-- A tasklet that runs once for two interrupts, and the removal after it. -/
theorem gpio_interrupt_safe_tasklet :
    Transition.Always (step 1) (Safe 1) start
      (probeSteps.map (fun _ => .probe true) ++
        [.interrupt, .interrupt, .run .tasklet, .ret .tasklet, .remove, .freeIrq, .freeMemory]) :=
  gpio_interrupt_safe 1 _ fun _ => by decide

/-- With a tasklet or a work item : an interrupt right after `devm_request_irq`, and one before
the removal whose bottom half runs after the release. -/
theorem gpio_interrupt_windows : ∀ p ∈ [(1, BottomHalf.tasklet), (2, BottomHalf.work)],
    ¬Transition.Always (step p.1) (Safe p.1) start
        [.probe true, .probe true, .probe true, .interrupt] ∧
      ¬Transition.Always (step p.1) (Safe p.1) start
        (probeSteps.map (fun _ => .probe true) ++
          [.interrupt, .remove, .freeIrq, .freeMemory, .run p.2]) := by
  decide

/-- For every value of the parameter, in every state of every run, in which the interrupts for a
tasklet or a work item come after its set-up : until the release frees the interrupt every
interrupt is followed by the start of a run of the chosen bottom half, or one is pending; there
are no more runs than interrupts; and no other bottom half ever runs. -/
theorem gpio_interrupt_served (as : List Action) (s : State)
    (hfirst : Loose type → Transition.Always (step type) (SetUpFirst type) start as)
    (hrun : Transition.run (step type) start as = some s) :
    (∀ b, raises type type = some b →
      (s.halves b).runs ≤ s.interrupts ∧
        (¬s.Released → (s.halves b).pending = false → (s.halves b).seen = s.interrupts)) ∧
      ∀ b, raises type type ≠ some b → (s.halves b).runs = 0 := by
  have hall : Transition.Always (step type) (SetUpFirst type) start as := by
    by_cases hl : Loose type
    · exact hfirst hl
    · exact Transition.always_of_inv (I := fun _ => True)
        (fun _ _ _ _ _ => ⟨trivial, fun _ hl' => absurd hl' hl⟩) trivial
  have h : Kept type s :=
    Transition.inv_run_of_always (fun _ _ _ => kept_step) (kept_start type) hall hrun
  refine ⟨fun b hb => ⟨?_, fun hrel hpending => ?_⟩, fun b hb => by rw [h.other b hb]; rfl⟩
  · rw [← h.chosen b hb]
    exact Nat.le_trans (h.counted b).runs_le (h.counted b).seen_le
  · rw [← h.chosen b hb]
    exact (h.served b (Or.inr hrel)).seen hpending

/-- Two interrupts after the probe, and one run of the tasklet, which has seen both. -/
theorem gpio_interrupt_served_tasklet :
    ∃ s, Transition.run (step 1) start
        (probeSteps.map (fun _ => .probe true) ++ [.interrupt, .interrupt, .run .tasklet]) =
          some s ∧
      s.interrupts = 2 ∧ (s.halves .tasklet).seen = 2 := by
  obtain ⟨s, hs, hinterrupts, hpending, hphase⟩ : ∃ s, Transition.run (step 1) start
      (probeSteps.map (fun _ => .probe true) ++ [.interrupt, .interrupt, .run .tasklet]) =
        some s ∧ s.interrupts = 2 ∧ (s.halves .tasklet).pending = false ∧ s.phase = .probed :=
    ⟨_, rfl, rfl, rfl, rfl⟩
  have h := (gpio_interrupt_served 1 _ s (fun _ => by decide) hs).1 .tasklet (by decide)
  exact ⟨s, hs, hinterrupts, hinterrupts ▸ h.2 (by simp [State.Released, hphase]) hpending⟩

/-- An interrupt before the tasklet is set up : the set-up drops it. -/
theorem gpio_interrupt_dropped :
    (Transition.run (step 1) start [.probe true, .probe true, .probe true, .interrupt, .probe true,
        .probe true]).map (fun s => (s.interrupts, s.halves .tasklet)) =
      some (1, ⟨false, false, 1, 0, 0⟩) := by
  decide

end GpioInterrupt

end LinuxDriverKb
