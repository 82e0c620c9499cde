import LinuxDriverKb.Lib.PeriodicTimer

/-!
# The timers of chapter 2

`hrtimer.c` forwards its timer by the interval, `timer.c` arms it for three seconds from
now. Both do so in the handler, for ever, until the module is unloaded.

`hrtimer_grid` : the handlers of the first stay at multiples of the interval, each at one of
its own, with none skipped if they are done within it. `timer_drift` : those of the second
fall back by up to the latency each time.
-/

set_option autoImplicit false

namespace LinuxDriverKb

namespace KernelTimers

open PeriodicTimer

/-! ## `hrtimer.c` -/

/-- `ktime_set`, in nanoseconds. -/
def ktimeSet (secs nsecs : ℕ) : ℕ :=
  secs * 1000000000 + nsecs

/-- `kt` : a second and 10 nanoseconds. -/
def kt : ℕ :=
  ktimeSet 1 10

/-- `hrtimer_handler`; `latency` is that of the system. -/
def hrtimerHandler (latency : ℕ) : Config :=
  ⟨forward kt, latency⟩

/-- `hrtimer_drv_init`. -/
def hrtimerDrvInit (now : ℕ) : State :=
  armed now kt

/-! ## `timer.c` -/

/-- `my_function`; `hz` : jiffies in a second. -/
def myFunction (hz latency : ℕ) : Config :=
  ⟨modTimer (3 * hz), latency⟩

/-- `timer_drv_init`. -/
def timerDrvInit (hz jiffies : ℕ) : State :=
  armed jiffies (3 * hz)

/-- `hrtimer_drv_exit` and `timer_drv_exit`. -/
def drvExit : Action :=
  .cancel

/-! ## Runs -/

variable {latency start : ℕ} {as : List Action} {s : State}

/-- In any run of `hrtimer.c`, with any latency : the handlers are for different multiples of
the interval, in order, and each starts within the latency. If the latency is below the
interval, none of them is skipped : the `i`-th handler is for the `i`-th multiple, for ever.
After an exit no handler runs. -/
theorem hrtimer_grid
    (hrun : Transition.run (step (hrtimerHandler latency)) (hrtimerDrvInit start) as = some s) :
    (s.handlers.map Handler.due).Pairwise (· < ·) ∧
      (∀ h ∈ s.handlers, h.OnGrid start kt latency) ∧
      (latency < kt →
        (∀ i (h : i < s.handlers.length), s.handlers[i].due = start + (i + 1) * kt) ∧
        start + s.fired * kt ≤ s.now ∧
        (s.Armed → s.now ≤ start + (s.fired + 1) * kt + latency)) ∧
      ∀ t bs s', step (hrtimerHandler latency) s drvExit = some t →
        Transition.run (step (hrtimerHandler latency)) t bs = some s' →
          ¬s'.Armed ∧ s'.handlers = s.handlers := by
  have hgrid := run_onGrid (show 0 < kt by decide) hrun
  refine ⟨hgrid.increasing, hgrid.handlers, fun hlatency => ?_,
    fun t bs s' hexit hrest => run_cancel hexit hrest⟩
  have htime := run_onTime (forward_within hlatency) hrun
  refine ⟨fun i hi => ?_, htime.early, fun harmed => by simpa using htime.late harmed⟩
  obtain ⟨hlow, hhigh, -⟩ := htime.handlers i hi
  omega

/-- The timer expires twice, the second time with a late handler, and the module is unloaded :
the handlers were for the first two multiples, and there is none after that. -/
theorem hrtimer_grid_exit :
    ∃ s t, Transition.run (step (hrtimerHandler 7)) (hrtimerDrvInit 5)
        (List.replicate kt .tick ++ [.expire, .tick, .rearm] ++ List.replicate kt .tick ++
          [.expire, .rearm]) = some s ∧
      step (hrtimerHandler 7) s drvExit = some t ∧
      s.handlers.map Handler.due = [5 + kt, 5 + 2 * kt] ∧
      (s.handlers.map Handler.due).Pairwise (· < ·) ∧
      (∀ i (h : i < s.handlers.length), s.handlers[i].due = 5 + (i + 1) * kt) ∧
      ∀ bs s', Transition.run (step (hrtimerHandler 7)) t bs = some s' →
        ¬s'.Armed ∧ s'.handlers = s.handlers := by
  let s : State :=
    ⟨6 + 2 * kt, 5 + 3 * kt, true, false, [⟨5 + kt, 5 + kt⟩, ⟨5 + 2 * kt, 6 + 2 * kt⟩]⟩
  have hrun : Transition.run (step (hrtimerHandler 7)) (hrtimerDrvInit 5)
      (List.replicate kt .tick ++ [.expire, .tick, .rearm] ++ List.replicate kt .tick ++
        [.expire, .rearm]) = some s := by
    have hfst := run_ticks (C := hrtimerHandler 7) (s := hrtimerDrvInit 5) kt (by decide)
    have hsnd := run_ticks (C := hrtimerHandler 7)
      (s := ⟨6 + kt, 5 + 2 * kt, true, false, [⟨5 + kt, 5 + kt⟩]⟩) kt (by decide)
    rw [Transition.run_append, Transition.run_append, Transition.run_append, hfst,
      Option.bind_some]
    have hmid : Transition.run (step (hrtimerHandler 7))
        { hrtimerDrvInit 5 with now := (hrtimerDrvInit 5).now + kt } [.expire, .tick, .rearm] =
          some ⟨6 + kt, 5 + 2 * kt, true, false, [⟨5 + kt, 5 + kt⟩]⟩ := by decide +kernel
    rw [hmid, Option.bind_some, hsnd, Option.bind_some]
    decide +kernel
  have hexit : step (hrtimerHandler 7) s drvExit = some { s with pending := false } := rfl
  obtain ⟨hincreasing, -, hkept, hafter⟩ := hrtimer_grid hrun
  exact ⟨s, _, hrun, hexit, rfl, hincreasing, (hkept (by decide)).1,
    fun bs s' hrest => hafter _ bs s' hexit hrest⟩

/-- The `k`-th handler of `timer.c` does not start before `k` times three seconds, and starts
at most `k` latencies after that. For every `k` there is a run in which each of the first `k`
handlers starts that late, so that nothing bounds how far they fall back. After an exit no
handler runs. -/
theorem timer_drift (hz latency start : ℕ) :
    (∀ as s, Transition.run (step (myFunction hz latency)) (timerDrvInit hz start) as = some s →
      (∀ i (h : i < s.handlers.length),
        start + (i + 1) * (3 * hz) ≤ s.handlers[i].start ∧
        s.handlers[i].start ≤ start + (i + 1) * (3 * hz + latency)) ∧
      start + s.fired * (3 * hz) ≤ s.now ∧
      (s.Armed → s.now ≤ start + (s.fired + 1) * (3 * hz + latency)) ∧
      ∀ t bs s', step (myFunction hz latency) s drvExit = some t →
        Transition.run (step (myFunction hz latency)) t bs = some s' →
          ¬s'.Armed ∧ s'.handlers = s.handlers) ∧
    ∀ k, ∃ as s, Transition.run (step (myFunction hz latency)) (timerDrvInit hz start) as = some s ∧
      s.Armed ∧ s.now = start + k * (3 * hz + latency) ∧
      s.handlers.map Handler.start =
        (List.range k).map fun i => start + (i + 1) * (3 * hz + latency) := by
  constructor
  · intro as s hrun
    have htime := run_onTime (modTimer_within (3 * hz) latency) hrun
    refine ⟨fun i hi => ?_, htime.early, fun harmed => ?_,
      fun t bs s' hexit hrest => run_cancel hexit hrest⟩
    · obtain ⟨hlow, hhigh, hearly, hwithin⟩ := htime.handlers i hi
      rw [Nat.mul_add, Nat.add_mul i 1 latency]
      dsimp only at hwithin
      omega
    · have hlate := htime.late harmed
      rw [Nat.mul_add, Nat.add_mul s.fired 1 latency]
      dsimp only at hlate
      omega
  · intro k
    refine ⟨_, _, run_lateRounds (3 * hz) latency k start [], .inl rfl, rfl, ?_⟩
    rw [List.nil_append, lateHandlers, List.map_map]
    refine List.map_congr_left fun i _ => ?_
    show start + (i + 1) * (3 * hz) + (i + 1) * latency = _
    rw [Nat.mul_add, Nat.add_assoc]

end KernelTimers

end LinuxDriverKb
