import LinuxDriverKb.Lib.CInt
import LinuxDriverKb.Lib.SumUpdate
import LinuxDriverKb.Lib.Transition

/-!
# The software watchdogs of `soft_wdt.c`

A watchdog has two timers, one that restarts the machine and one before it that warns. The
driver takes a module reference when it arms the first and drops it when it disarms it; if
that timer expires, its handler drops the reference. So the module stays while a timer is
armed, and `softdog_exit` does not free the array under one.

`softdog_refs` : over any run, the references are the armed fire timers and the handlers
that have not dropped theirs, and an armed pretimeout timer has an armed fire timer after
it.
-/

set_option autoImplicit false

namespace LinuxDriverKb

namespace SoftWdt

/-! ## The driver -/

/-- `wdd->min_timeout` and `wdd->max_timeout`. -/
def minTimeout : ℕ := 1

/-- `wdd->max_timeout`. -/
def maxTimeout : ℕ := 65535

/-- `softdog_num` and `HZ`, with which every timeout fits in 32 bits. -/
structure Params where
  softdogNum : ℕ
  hz : ℕ
  hz_pos : 0 < hz
  hz_le : maxTimeout * hz < 2 ^ 32

/-- A timer that is pending has the time it expires at. -/
abbrev Timer := Option ℕ

/-- `mod_timer` : whether the timer was pending, and the timer. -/
def modTimer (timer : Timer) (expires : ℕ) : Bool × Timer :=
  (timer.isSome, some expires)

/-- `del_timer`. -/
def delTimer (timer : Timer) : Bool × Timer :=
  (timer.isSome, none)

/-- `struct softdog_data` with the fields of its `wdd` that the driver reads, and the number
of `softdog_fire` handlers that have started and not yet dropped their reference. -/
structure Softdog where
  timeout : ℕ
  pretimeout : ℕ
  fireTimer : Timer
  preTimer : Timer
  firing : ℕ

/-- The time, the array, and the module references of the driver. -/
structure State where
  jiffies : ℕ
  softdog : ℕ → Softdog
  refs : ℤ

/-- A number of seconds in ticks, as an unsigned 32-bit product. -/
def ticks (hz sec : ℕ) : ℕ :=
  sec * hz % 2 ^ 32

/-- The difference of two unsigned 32-bit integers. -/
def sub32 (x y : ℕ) : ℕ :=
  (x + 2 ^ 32 - y) % 2 ^ 32

/-- `softdog_ping` : the watchdog, and the references. -/
def softdogPing (hz jiffies : ℕ) (w : Softdog) (refs : ℤ) : Softdog × ℤ :=
  let fire := modTimer w.fireTimer (jiffies + ticks hz w.timeout)
  let refs := if fire.1 then refs else refs + 1
  let w := { w with fireTimer := fire.2 }
  if w.pretimeout ≠ 0 then
    ({ w with preTimer :=
        (modTimer w.preTimer (jiffies + ticks hz (sub32 w.timeout w.pretimeout))).2 }, refs)
  else ({ w with preTimer := (delTimer w.preTimer).2 }, refs)

/-- `softdog_stop`. -/
def softdogStop (w : Softdog) (refs : ℤ) : Softdog × ℤ :=
  let fire := delTimer w.fireTimer
  let refs := if fire.1 then refs - 1 else refs
  ({ w with fireTimer := fire.2, preTimer := (delTimer w.preTimer).2 }, refs)

/-- The change of a timeout by the watchdog core, which resets a pretimeout that is not
below it. -/
def setTimeout (w : Softdog) (t : ℕ) : Option Softdog :=
  if minTimeout ≤ t ∧ t ≤ maxTimeout then
    some { w with timeout := t, pretimeout := if w.pretimeout ≥ t then 0 else w.pretimeout }
  else none

/-- The change of a pretimeout by the core, which refuses one that is not below the timeout,
if neither is 0. -/
def setPretimeout (w : Softdog) (t : ℕ) : Option Softdog :=
  if t ≠ 0 ∧ w.timeout ≠ 0 ∧ w.timeout ≤ t then none else some { w with pretimeout := t }

/-- What can happen to one watchdog. -/
inductive DogAction
  | ping
  | stop
  | setTimeout (t : ℕ)
  | setPretimeout (t : ℕ)
  /-- The fire timer expires, and `softdog_fire` starts. -/
  | fire
  /-- A started `softdog_fire` runs `module_put`. -/
  | firePut
  /-- The pretimeout timer expires; `softdog_pretimeout` only notifies. -/
  | pretimeout

/-- A watchdog does something, or time passes. -/
inductive Action
  | dog (i : ℕ) (a : DogAction)
  | tick

variable (P : Params)

/-- The timer is due, and no pending timer expires before it. -/
def Due (s : State) (timer : Timer) : Prop :=
  ∃ d ∈ timer, d ≤ s.jiffies ∧ ∀ k < P.softdogNum,
    (∀ e ∈ (s.softdog k).fireTimer, d ≤ e) ∧ ∀ e ∈ (s.softdog k).preTimer, d ≤ e

instance (s : State) (timer : Timer) : Decidable (Due P s timer) :=
  match timer with
  | none => isFalse fun ⟨_, h, _⟩ => nomatch h
  | some d => decidable_of_iff (d ≤ s.jiffies ∧ ∀ k < P.softdogNum,
      (∀ e ∈ (s.softdog k).fireTimer, d ≤ e) ∧ ∀ e ∈ (s.softdog k).preTimer, d ≤ e)
      ⟨fun h => ⟨d, rfl, h⟩, fun ⟨_, hd, h⟩ => Option.some.inj hd ▸ h⟩

/-- One step of a watchdog `w`, with the references after it. Timers expire in the order of
their times. -/
def dogStep (s : State) (w : Softdog) : DogAction → Option (Softdog × ℤ)
  | .ping => some (softdogPing P.hz s.jiffies w s.refs)
  | .stop => some (softdogStop w s.refs)
  | .setTimeout t => (setTimeout w t).map (·, s.refs)
  | .setPretimeout t => (setPretimeout w t).map (·, s.refs)
  | .fire =>
    if Due P s w.fireTimer then some ({ w with fireTimer := none, firing := w.firing + 1 }, s.refs)
    else none
  | .firePut =>
    if 0 < w.firing then some ({ w with firing := w.firing - 1 }, s.refs - 1) else none
  | .pretimeout => if Due P s w.preTimer then some ({ w with preTimer := none }, s.refs) else none

/-- One action. -/
def step (s : State) : Action → Option State
  | .dog i a =>
    if i < P.softdogNum then
      (dogStep P s (s.softdog i) a).map fun r =>
        { s with softdog := Function.update s.softdog i r.1, refs := r.2 }
    else none
  | .tick => some { s with jiffies := s.jiffies + 1 }

/-- `-EINVAL`. -/
def einval : ℤ := -22

/-- `watchdog_init_timeout` : the result, and the timeout. -/
def watchdogInitTimeout (timeout parm : ℕ) : ℤ × ℕ :=
  if minTimeout ≤ parm ∧ parm ≤ maxTimeout then (0, parm) else (einval, timeout)

/-- After `softdog_init`, which drops the result of `watchdog_init_timeout`. -/
def init (jiffies softMargin : ℕ) : State where
  jiffies := jiffies
  softdog _ := ⟨(watchdogInitTimeout 0 softMargin).2, 0, none, none, 0⟩
  refs := 0

/-! ## What pins the module -/

/-- The references of one watchdog : one if its fire timer is armed, and one for each handler
that has not dropped its own. -/
def Softdog.pins (w : Softdog) : ℕ :=
  (if w.fireTimer.isSome then 1 else 0) + w.firing

/-- The core keeps the timeouts in range, and an armed pretimeout timer expires before an
armed fire timer. -/
structure Softdog.Ok (w : Softdog) : Prop where
  timeout : minTimeout ≤ w.timeout ∧ w.timeout ≤ maxTimeout
  pretimeout : w.pretimeout < w.timeout
  pre : ∀ e ∈ w.preTimer, ∃ d ∈ w.fireTimer, e < d

/-- Every watchdog is as its phase says, and each running one has a reference. -/
structure Inv (s : State) : Prop where
  ok : ∀ i < P.softdogNum, (s.softdog i).Ok
  refs : s.refs = (∑ i ∈ Finset.range P.softdogNum, (s.softdog i).pins : ℕ)

variable {P}

theorem inv_init {jiffies softMargin : ℕ} (h : minTimeout ≤ softMargin)
    (h' : softMargin ≤ maxTimeout) : Inv P (init jiffies softMargin) := by
  have htimeout : (watchdogInitTimeout 0 softMargin).2 = softMargin := by
    rw [watchdogInitTimeout, if_pos ⟨h, h'⟩]
  refine ⟨fun _ _ => ⟨?_, ?_, fun _ he => nomatch he⟩, by simp [init, Softdog.pins]⟩
  · simp only [init, htimeout]
    exact ⟨h, h'⟩
  · simp only [init, htimeout]
    exact h

/-- The timeouts in ticks fit in 32 bits. -/
theorem ticks_eq {sec : ℕ} (h : sec ≤ maxTimeout) : ticks P.hz sec = sec * P.hz := by
  exact Nat.mod_eq_of_lt (Nat.lt_of_le_of_lt (Nat.mul_le_mul_right P.hz h) P.hz_le)

theorem sub32_eq {x y : ℕ} (h : y ≤ x) (hx : x ≤ maxTimeout) : sub32 x y = x - y := by
  unfold sub32
  unfold maxTimeout at hx
  omega

/-- A ping takes a reference if the fire timer was not armed. -/
theorem softdogPing_pins (w : Softdog) (hz jiffies : ℕ) (refs : ℤ) :
    (softdogPing hz jiffies w refs).2 + w.pins = refs + (softdogPing hz jiffies w refs).1.pins := by
  unfold softdogPing
  cases hf : w.fireTimer <;> by_cases hpre : w.pretimeout = 0 <;>
    simp [hpre, modTimer, Softdog.pins, hf]
  all_goals omega

/-- A ping arms the fire timer, and the pretimeout timer before it if there is a pretimeout. -/
theorem softdogPing_ok {w : Softdog} (h : w.Ok) (jiffies : ℕ) (refs : ℤ) :
    (softdogPing P.hz jiffies w refs).1.Ok := by
  obtain ⟨⟨hmin, hmax⟩, hlt, -⟩ := h
  unfold softdogPing
  by_cases hpre : w.pretimeout = 0
  · refine ⟨?_, ?_, ?_⟩
    · simpa [hpre] using ⟨hmin, hmax⟩
    · have hpos : 0 < w.timeout := hmin
      simpa [hpre] using hpos
    · simp [hpre, delTimer]
  · have hticks : ticks P.hz (sub32 w.timeout w.pretimeout) < ticks P.hz w.timeout := by
      rw [sub32_eq hlt.le hmax, ticks_eq hmax, ticks_eq (by omega)]
      exact Nat.mul_lt_mul_of_pos_right (by omega) P.hz_pos
    refine ⟨?_, ?_, ?_⟩
    · simpa [hpre] using ⟨hmin, hmax⟩
    · simpa [hpre] using hlt
    · simpa [hpre, modTimer] using hticks

theorem softdogStop_ok {w : Softdog} (h : w.Ok) (refs : ℤ) :
    (softdogStop w refs).1.Ok ∧
      (softdogStop w refs).2 + w.pins = refs + (softdogStop w refs).1.pins := by
  refine ⟨⟨h.timeout, h.pretimeout, fun e he => nomatch he⟩, ?_⟩
  cases hf : w.fireTimer <;> simp [softdogStop, delTimer, Softdog.pins, hf]
  omega

/-- When the fire timer of a watchdog expires, its pretimeout timer has expired before. -/
theorem preTimer_of_due {s : State} {i : ℕ} (hi : i < P.softdogNum) (h : (s.softdog i).Ok)
    (hdue : Due P s (s.softdog i).fireTimer) : (s.softdog i).preTimer = none := by
  obtain ⟨d, hd, -, hfirst⟩ := hdue
  rw [Option.eq_none_iff_forall_not_mem]
  intro e he
  obtain ⟨d', hd', hlt⟩ := h.pre e he
  obtain rfl := Option.mem_unique hd hd'
  exact absurd ((hfirst i hi).2 e he) (Nat.not_le.mpr hlt)

theorem setTimeout_ok {w w' : Softdog} {t : ℕ} (h : w.Ok) (hw : setTimeout w t = some w') :
    w'.Ok ∧ w'.pins = w.pins := by
  unfold setTimeout at hw
  by_cases ht : minTimeout ≤ t ∧ t ≤ maxTimeout
  · rw [if_pos ht] at hw
    obtain rfl := Option.some.inj hw
    refine ⟨⟨ht, ?_, h.pre⟩, rfl⟩
    have hmin : 1 ≤ t := ht.1
    dsimp only
    split_ifs <;> omega
  · rw [if_neg ht] at hw
    exact nomatch hw

theorem setPretimeout_ok {w w' : Softdog} {t : ℕ} (h : w.Ok) (hw : setPretimeout w t = some w') :
    w'.Ok ∧ w'.pins = w.pins := by
  unfold setPretimeout at hw
  split_ifs at hw with ht
  obtain rfl := Option.some.inj hw
  have hmin : 1 ≤ w.timeout := h.timeout.1
  exact ⟨⟨h.timeout, by dsimp only; omega, h.pre⟩, rfl⟩

/-- The expiry of a fire timer leaves its reference to the handler. -/
theorem fire_ok {s : State} {i : ℕ} (hi : i < P.softdogNum) (h : (s.softdog i).Ok)
    (hdue : Due P s (s.softdog i).fireTimer) :
    Softdog.Ok { s.softdog i with fireTimer := none, firing := (s.softdog i).firing + 1 } ∧
      Softdog.pins { s.softdog i with fireTimer := none, firing := (s.softdog i).firing + 1 } =
        (s.softdog i).pins := by
  have hpre := preTimer_of_due hi h hdue
  obtain ⟨d, hd, -⟩ := hdue
  refine ⟨⟨h.timeout, h.pretimeout, fun e he => ?_⟩, ?_⟩
  · rw [hpre] at he
    exact nomatch he
  · rw [Option.mem_def] at hd
    simp [Softdog.pins, hd]
    omega

/-- A step of a watchdog keeps its timers in order, and its references. -/
theorem dogStep_ok {s : State} {i : ℕ} (hi : i < P.softdogNum) (h : (s.softdog i).Ok)
    {a : DogAction} {r : Softdog × ℤ} (hstep : dogStep P s (s.softdog i) a = some r) :
    r.1.Ok ∧ r.2 + (s.softdog i).pins = s.refs + r.1.pins := by
  cases a with
  | ping =>
    obtain rfl := Option.some.inj hstep
    exact ⟨softdogPing_ok h _ _, softdogPing_pins _ _ _ _⟩
  | stop =>
    obtain rfl := Option.some.inj hstep
    exact softdogStop_ok h _
  | setTimeout t =>
    obtain ⟨w, hw, rfl⟩ := Option.map_eq_some_iff.mp hstep
    obtain ⟨hok, hpins⟩ := setTimeout_ok h hw
    exact ⟨hok, by rw [hpins]⟩
  | setPretimeout t =>
    obtain ⟨w, hw, rfl⟩ := Option.map_eq_some_iff.mp hstep
    obtain ⟨hok, hpins⟩ := setPretimeout_ok h hw
    exact ⟨hok, by rw [hpins]⟩
  | fire =>
    simp only [dogStep] at hstep
    split_ifs at hstep with hdue
    obtain rfl := Option.some.inj hstep
    obtain ⟨hok, hpins⟩ := fire_ok hi h hdue
    exact ⟨hok, by rw [hpins]⟩
  | firePut =>
    simp only [dogStep] at hstep
    split_ifs at hstep with hpos
    obtain rfl := Option.some.inj hstep
    refine ⟨⟨h.timeout, h.pretimeout, h.pre⟩, ?_⟩
    simp only [Softdog.pins]
    omega
  | pretimeout =>
    simp only [dogStep] at hstep
    split_ifs at hstep
    obtain rfl := Option.some.inj hstep
    exact ⟨⟨h.timeout, h.pretimeout, fun e he => nomatch he⟩, rfl⟩

theorem inv_step {s s' : State} {a : Action} (h : Inv P s) (hstep : step P s a = some s') :
    Inv P s' := by
  cases a with
  | tick =>
    obtain rfl := Option.some.inj hstep
    exact ⟨h.ok, h.refs⟩
  | dog i a =>
    simp only [step] at hstep
    split_ifs at hstep with hi
    obtain ⟨r, hr, rfl⟩ := Option.map_eq_some_iff.mp hstep
    obtain ⟨hok, hpins⟩ := dogStep_ok hi (h.ok i hi) hr
    refine ⟨fun k hk => ?_, ?_⟩
    · by_cases hki : k = i
      · rw [hki]
        simpa using hok
      · simpa [Function.update_of_ne hki] using h.ok k hk
    · have hsum := SumUpdate.sum_step (f := fun k => (s.softdog k).pins)
        (g := fun k => (Function.update s.softdog i r.1 k).pins) (Finset.mem_range.mpr hi)
        fun k _ hki => by rw [Function.update_of_ne hki]
      rw [Function.update_self] at hsum
      have hrefs := h.refs
      dsimp only
      omega

/-! ## Runs -/

variable (P)

/-- For every number of watchdogs and every margin in range, in every state a run reaches :
the references are the armed fire timers and the handlers that have not dropped theirs; an
armed pretimeout timer has an armed fire timer with a later time; and with no reference
held no timer is armed, nor is a handler running. -/
theorem softdog_refs (jiffies softMargin : ℕ) (hmin : minTimeout ≤ softMargin)
    (hmax : softMargin ≤ maxTimeout) (as : List Action) (s : State)
    (hrun : Transition.run (step P) (init jiffies softMargin) as = some s) :
    s.refs = (∑ i ∈ Finset.range P.softdogNum, (s.softdog i).pins : ℕ) ∧ 0 ≤ s.refs ∧
      (∀ i < P.softdogNum, ∀ e ∈ (s.softdog i).preTimer, ∃ d ∈ (s.softdog i).fireTimer, e < d) ∧
      (s.refs = 0 → ∀ i < P.softdogNum, (s.softdog i).fireTimer = none ∧
        (s.softdog i).preTimer = none ∧ (s.softdog i).firing = 0) := by
  have h : Inv P s := Transition.inv_run (fun _ _ _ => inv_step) (inv_init hmin hmax) hrun
  refine ⟨h.refs, by rw [h.refs]; exact Int.natCast_nonneg _, fun i hi => (h.ok i hi).pre,
    fun hzero i hi => ?_⟩
  have hsum : ∑ i ∈ Finset.range P.softdogNum, (s.softdog i).pins = 0 := by
    have hrefs := h.refs
    omega
  have hpins : (s.softdog i).pins = 0 := Finset.sum_eq_zero_iff.mp hsum i (Finset.mem_range.mpr hi)
  have hfire : (s.softdog i).fireTimer = none := by
    cases hf : (s.softdog i).fireTimer with
    | none => rfl
    | some d =>
      simp only [Softdog.pins, hf] at hpins
      exact absurd hpins (by simp)
  refine ⟨hfire, ?_, ?_⟩
  · rw [Option.eq_none_iff_forall_not_mem]
    intro e he
    obtain ⟨d, hd, -⟩ := (h.ok i hi).pre e he
    rw [hfire] at hd
    exact nomatch hd
  · simpa [Softdog.pins, hfire] using hpins

/-- One watchdog, and one tick a second. -/
def oneDog : Params where
  softdogNum := 1
  hz := 1
  hz_pos := by decide
  hz_le := by decide

/-- With a margin of two seconds and a pretimeout of one, it is pinged, warns, is pinged
again and stopped. -/
theorem softdog_refs_one :
    ∃ s, Transition.run (step oneDog) (init 0 2)
        [.dog 0 (.setPretimeout 1), .dog 0 .ping, .tick, .dog 0 .pretimeout, .dog 0 .ping,
          .dog 0 .stop] = some s ∧
      s.refs = 0 ∧ ∀ i < 1, (s.softdog i).fireTimer = none ∧
        (s.softdog i).preTimer = none ∧ (s.softdog i).firing = 0 := by
  obtain ⟨s, hs, hzero⟩ : ∃ s, Transition.run (step oneDog) (init 0 2)
      [.dog 0 (.setPretimeout 1), .dog 0 .ping, .tick, .dog 0 .pretimeout, .dog 0 .ping,
        .dog 0 .stop] = some s ∧ s.refs = 0 := Option.map_eq_some_iff.mp (by decide)
  exact ⟨s, hs, hzero, (softdog_refs oneDog 0 2 (by decide) (by decide) _ s hs).2.2.2 hzero⟩

end SoftWdt

end LinuxDriverKb
