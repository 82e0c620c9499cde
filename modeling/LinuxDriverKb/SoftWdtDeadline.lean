import LinuxDriverKb.SoftWdt

/-!
# The deadlines of `soft_wdt.c`

A ping arms the fire timer `timeout` seconds ahead. `softdog_init` drops the error of
`watchdog_init_timeout`, so that a margin out of range leaves the timeout at 0, until the
core changes it; with a timeout of 0 the core also accepts every pretimeout.

`deadlines_iff` : over any run every ping arms the timers in range and in their order if and
only if the margin is in range, or no watchdog is pinged while its timeout is 0.
-/

set_option autoImplicit false

namespace LinuxDriverKb

namespace SoftWdt

/-! ## What a ping should do -/

/-- The fire timer is armed from 1 to 65535 seconds ahead. -/
def FireInRange (hz jiffies : ℕ) (w : Softdog) : Prop :=
  ∃ d ∈ w.fireTimer, jiffies + minTimeout * hz ≤ d ∧ d ≤ jiffies + maxTimeout * hz

/-- A ping of `w` that leaves `w'` arms the fire timer in range; if there is a pretimeout, it
subtracts it without wrapping, and arms the pretimeout timer before the fire timer. -/
structure PingInRange (hz jiffies : ℕ) (w w' : Softdog) : Prop where
  fire : FireInRange hz jiffies w'
  no_wrap : w.pretimeout ≠ 0 → w.pretimeout ≤ w.timeout
  pre : w.pretimeout ≠ 0 → ∃ e ∈ w'.preTimer, ∃ d ∈ w'.fireTimer, e < d

variable (P : Params)

/-- A ping sets deadlines that 32 bits hold. -/
def PingsInRange (s : State) (a : Action) (s' : State) : Prop :=
  match a with
  | .dog i .ping => PingInRange P.hz s.jiffies (s.softdog i) (s'.softdog i)
  | _ => True

/-- A pinged watchdog has a timeout. -/
def HasTimeout (s : State) (a : Action) (_ : State) : Prop :=
  match a with
  | .dog i .ping => (s.softdog i).timeout ≠ 0
  | _ => True

/-! ## The timeouts the core keeps -/

/-- A timeout is at most the maximum, and above the pretimeout unless it is 0. -/
structure Softdog.Kept (w : Softdog) : Prop where
  timeout : w.timeout ≤ maxTimeout
  pretimeout : w.timeout ≠ 0 → w.pretimeout < w.timeout

/-- No watchdog has another timeout than it was given. -/
def TimeoutsKept (s : State) : Prop :=
  ∀ i, (s.softdog i).Kept

theorem timeoutsKept_init (jiffies softMargin : ℕ) : TimeoutsKept (init jiffies softMargin) := by
  intro i
  refine ⟨?_, Nat.pos_of_ne_zero⟩
  simp only [init, watchdogInitTimeout]
  split_ifs with h
  · exact h.2
  · exact Nat.zero_le maxTimeout

variable {P} {s s' : State}

theorem setTimeout_kept {w w' : Softdog} {t : ℕ} (hw : setTimeout w t = some w') : w'.Kept := by
  unfold setTimeout at hw
  split_ifs at hw with ht
  · obtain rfl := Option.some.inj hw
    exact ⟨ht.2, fun _ => ht.1⟩
  · obtain rfl := Option.some.inj hw
    exact ⟨ht.2, fun _ => Nat.not_le.mp ‹_›⟩

theorem setPretimeout_kept {w w' : Softdog} {t : ℕ} (h : w.Kept)
    (hw : setPretimeout w t = some w') : w'.Kept := by
  unfold setPretimeout at hw
  split_ifs at hw with ht
  obtain rfl := Option.some.inj hw
  refine ⟨h.timeout, fun hzero => ?_⟩
  dsimp only at hzero ⊢
  omega

/-- A ping leaves the timeouts as they are. -/
theorem softdogPing_timeout (hz jiffies : ℕ) (w : Softdog) (refs : ℤ) :
    (softdogPing hz jiffies w refs).1.timeout = w.timeout ∧
      (softdogPing hz jiffies w refs).1.pretimeout = w.pretimeout := by
  unfold softdogPing
  dsimp only
  split_ifs <;> exact ⟨rfl, rfl⟩

/-- No step of a watchdog loses the order of its timeouts. -/
theorem dogStep_kept {w : Softdog} (h : w.Kept) {a : DogAction} {r : Softdog × ℤ}
    (hstep : dogStep P s w a = some r) : r.1.Kept := by
  cases a with
  | ping =>
    obtain rfl := Option.some.inj hstep
    obtain ⟨htimeout, hpretimeout⟩ := softdogPing_timeout P.hz s.jiffies w s.refs
    refine ⟨?_, ?_⟩
    · rw [htimeout]
      exact h.timeout
    · rw [htimeout, hpretimeout]
      exact h.pretimeout
  | stop =>
    obtain rfl := Option.some.inj hstep
    exact ⟨h.timeout, h.pretimeout⟩
  | setTimeout t =>
    obtain ⟨w', hw, rfl⟩ := Option.map_eq_some_iff.mp hstep
    exact setTimeout_kept hw
  | setPretimeout t =>
    obtain ⟨w', hw, rfl⟩ := Option.map_eq_some_iff.mp hstep
    exact setPretimeout_kept h hw
  | fire | firePut | pretimeout =>
    simp only [dogStep] at hstep
    split_ifs at hstep
    obtain rfl := Option.some.inj hstep
    exact ⟨h.timeout, h.pretimeout⟩

theorem timeoutsKept_step {a : Action} (h : TimeoutsKept s) (hstep : step P s a = some s') :
    TimeoutsKept s' := by
  cases a with
  | tick =>
    obtain rfl := Option.some.inj hstep
    exact h
  | dog i a =>
    simp only [step] at hstep
    split_ifs at hstep with hi
    obtain ⟨r, hr, rfl⟩ := Option.map_eq_some_iff.mp hstep
    intro k
    by_cases hki : k = i
    · rw [hki]
      simpa using dogStep_kept (h i) hr
    · simpa [Function.update_of_ne hki] using h k

/-! ## Runs -/

theorem softdogPing_fireTimer (hz jiffies : ℕ) (w : Softdog) (refs : ℤ) :
    (softdogPing hz jiffies w refs).1.fireTimer = some (jiffies + ticks hz w.timeout) := by
  unfold softdogPing
  dsimp only
  split_ifs <;> rfl

theorem softdogPing_preTimer (hz jiffies : ℕ) {w : Softdog} (h : w.pretimeout ≠ 0) (refs : ℤ) :
    (softdogPing hz jiffies w refs).1.preTimer =
      some (jiffies + ticks hz (sub32 w.timeout w.pretimeout)) := by
  simp only [softdogPing, if_pos h]
  rfl

/-- A ping arms the timers in range and in their order exactly if there is a timeout. -/
theorem pingInRange_iff {w : Softdog} (h : w.Kept) (jiffies : ℕ) (refs : ℤ) :
    PingInRange P.hz jiffies w (softdogPing P.hz jiffies w refs).1 ↔ w.timeout ≠ 0 := by
  constructor
  · rintro ⟨⟨d, hd, hlow, -⟩, -, -⟩ hzero
    -- The fire timer is due at once.
    rw [softdogPing_fireTimer, hzero, Option.mem_some_iff] at hd
    have hd : jiffies = d := by simpa [ticks] using hd
    have hpos : 0 < minTimeout * P.hz := Nat.mul_pos (by decide) P.hz_pos
    omega
  · intro hne
    have hlt := h.pretimeout hne
    have hfire : ticks P.hz w.timeout = w.timeout * P.hz := ticks_eq h.timeout
    refine ⟨⟨_, softdogPing_fireTimer _ _ _ _, ?_, ?_⟩, fun _ => hlt.le, fun hpre => ?_⟩
    · rw [hfire]
      exact Nat.add_le_add_left (Nat.mul_le_mul_right P.hz (Nat.pos_of_ne_zero hne)) jiffies
    · rw [hfire]
      exact Nat.add_le_add_left (Nat.mul_le_mul_right P.hz h.timeout) jiffies
    · refine ⟨_, softdogPing_preTimer _ _ hpre _, _, softdogPing_fireTimer _ _ _ _, ?_⟩
      have hsub : w.timeout - w.pretimeout < w.timeout := by omega
      rw [sub32_eq hlt.le h.timeout, hfire, ticks_eq (hsub.le.trans h.timeout)]
      exact Nat.add_lt_add_left (Nat.mul_lt_mul_of_pos_right hsub P.hz_pos) jiffies

theorem pingsInRange_iff {a : Action} (h : TimeoutsKept s) (hstep : step P s a = some s') :
    PingsInRange P s a s' ↔ HasTimeout s a s' := by
  cases a with
  | tick => exact Iff.rfl
  | dog i a =>
    cases a with
    | ping =>
      simp only [step] at hstep
      split_ifs at hstep with hi
      obtain ⟨r, hr, rfl⟩ := Option.map_eq_some_iff.mp hstep
      obtain rfl := Option.some.inj hr
      simp only [PingsInRange, Function.update_self]
      exact pingInRange_iff (h i) s.jiffies s.refs
    | _ => exact Iff.rfl

/-- A margin in range gives every watchdog a timeout, and the core keeps it. -/
theorem hasTimeout_of_inRange {jiffies softMargin : ℕ} (hmin : minTimeout ≤ softMargin)
    (hmax : softMargin ≤ maxTimeout) (as : List Action) :
    Transition.Always (step P) HasTimeout (init jiffies softMargin) as := by
  refine Transition.always_of_inv (I := Inv P) (fun s a s' h hstep => ⟨inv_step h hstep, ?_⟩)
    (inv_init hmin hmax)
  cases a with
  | tick => exact True.intro
  | dog i a =>
    cases a with
    | ping =>
      simp only [step] at hstep
      split_ifs at hstep with hi
      exact Nat.ne_of_gt (h.ok i hi).timeout.1
    | _ => exact True.intro

variable (P)

/-- For every margin, in every run of pings, stops and changes of the timeouts : every ping
arms the fire timer from 1 to 65535 seconds ahead, subtracts no pretimeout above the timeout,
and arms the pretimeout timer before the fire timer, if and only if the margin is in range or
no watchdog is pinged while its timeout is 0. -/
theorem deadlines_iff (jiffies softMargin : ℕ) (as : List Action) :
    Transition.Always (step P) (PingsInRange P) (init jiffies softMargin) as ↔
      (minTimeout ≤ softMargin ∧ softMargin ≤ maxTimeout) ∨
        Transition.Always (step P) HasTimeout (init jiffies softMargin) as := by
  have hsteps : ∀ s a s', TimeoutsKept s → step P s a = some s' →
      (PingsInRange P s a s' ↔ HasTimeout s a s') := fun _ _ _ => pingsInRange_iff
  rw [Transition.always_congr hsteps (fun _ _ _ h hstep _ => timeoutsKept_step h hstep)
    (timeoutsKept_init jiffies softMargin)]
  refine ⟨.inr, fun h => ?_⟩
  rcases h with ⟨hmin, hmax⟩ | h
  · exact hasTimeout_of_inRange hmin hmax as
  · exact h

/-- A margin of 65536 seconds : the first ping arms the fire timer for this very tick, and a
pretimeout of 5 seconds is accepted and subtracted from 0. -/
theorem margin_out_of_range :
    (watchdogInitTimeout 0 65536).1 = einval ∧
      (softdogPing 1 7 ((init 7 65536).softdog 0) 0).1.fireTimer = some 7 ∧
      (setPretimeout ((init 7 65536).softdog 0) 5).map
        (fun w => (softdogPing 1 7 w 0).1.preTimer) = some (some (7 + (2 ^ 32 - 5))) ∧
      ¬Transition.Always (step oneDog) (PingsInRange oneDog) (init 7 65536) [.dog 0 .ping] := by
  refine ⟨by decide, by decide, by decide, fun h => ?_⟩
  obtain ⟨⟨d, hd, hlow, -⟩, -, -⟩ := (h _ rfl).1
  obtain rfl : 7 = d := Option.some.inj hd
  exact absurd hlow (by decide)

end SoftWdt

end LinuxDriverKb
