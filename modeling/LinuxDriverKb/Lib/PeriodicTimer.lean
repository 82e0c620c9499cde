import LinuxDriverKb.Lib.Transition
import Mathlib.Data.Nat.Notation
import Mathlib.Tactic.Ring
import Mathlib.Tactic.SplitIfs

/-!
# Timers that arm themselves again

The handler of a timer runs once the timer has expired, and arms it for a new time before it
returns. It has done so within `latency` of the expiry. A cancel waits for a handler that
runs.

`modTimer` arms the timer a period from now, `forward` for the next of the times a period
apart. If a handler's new time is at most `late` too far (`Config.Within`), the `k`-th is at
most `k` times that too far (`run_onTime`). The times of `forward` are a number of periods
from the start, and no two handlers have the same (`run_onGrid`).
-/

set_option autoImplicit false

namespace PeriodicTimer

/-- The new time of a handler, from the current one and the one it was armed for. -/
structure Config where
  rearm : ℕ → ℕ → ℕ
  latency : ℕ

/-- A handler : the time that its timer was armed for, and when it has started. -/
structure Handler where
  due : ℕ
  start : ℕ
  deriving DecidableEq

/-- The clock, the timer, and the handlers that have started. -/
structure State where
  now : ℕ
  expires : ℕ
  pending : Bool
  running : Bool
  handlers : List Handler
  deriving DecidableEq

/-- How many handlers have started. -/
def State.fired (s : State) : ℕ :=
  s.handlers.length

/-- The timer has a handler to come, or one that runs. -/
def State.Armed (s : State) : Prop :=
  s.pending = true ∨ s.running = true

instance (s : State) : Decidable s.Armed :=
  inferInstanceAs (Decidable (_ ∨ _))

/-- The clock goes on, a handler starts, it arms the timer again and returns, or the timer is
cancelled. -/
inductive Action
  | tick
  | expire
  | rearm
  | cancel

/-- One action. The clock does not pass the time by which a handler must be done. -/
def step (C : Config) (s : State) : Action → Option State
  | .tick =>
    if s.Armed ∧ s.expires + C.latency ≤ s.now then none else some { s with now := s.now + 1 }
  | .expire =>
    if s.pending = true ∧ s.expires ≤ s.now then
      some { s with
        pending := false
        running := true
        handlers := s.handlers ++ [⟨s.expires, s.now⟩] }
    else none
  | .rearm =>
    if s.running = true then
      some { s with expires := C.rearm s.now s.expires, pending := true, running := false }
    else none
  | .cancel => if s.running = true then none else some { s with pending := false }

/-- Armed at `now` for a period later. -/
def armed (now period : ℕ) : State :=
  ⟨now, now + period, true, false, []⟩

/-- The handlers are counted when they start. -/
theorem step_fired {C : Config} {s s' : State} {a : Action} (hstep : step C s a = some s') :
    s'.fired = s.fired + (match a with | .expire => 1 | _ => 0) := by
  cases a
  all_goals
    simp only [step] at hstep
    split_ifs at hstep
    obtain rfl := Option.some.inj hstep
    simp [State.fired]

/-! ## New times -/

/-- `mod_timer` with the current time and a period. -/
def modTimer (period now _expires : ℕ) : ℕ :=
  now + period

/-- `hrtimer_forward` : the first time after `now` in steps of the interval. -/
def forward (interval now expires : ℕ) : ℕ :=
  if now < expires then expires
  else expires + interval * ((now - expires) / interval + 1)

/-- A new time is a period after the last one, or at most `late` more. -/
def Config.Within (C : Config) (period late : ℕ) : Prop :=
  ∀ now expires, expires ≤ now → now ≤ expires + C.latency →
    expires + period ≤ C.rearm now expires ∧ C.rearm now expires ≤ expires + period + late

theorem modTimer_within (period latency : ℕ) :
    Config.Within ⟨modTimer period, latency⟩ period latency := by
  intro now expires hlow hhigh
  show expires + period ≤ now + period ∧ now + period ≤ expires + period + latency
  have hhigh : now ≤ expires + latency := hhigh
  omega

/-- A handler that is done within the interval is never late. -/
theorem forward_within {interval latency : ℕ} (h : latency < interval) :
    Config.Within ⟨forward interval, latency⟩ interval 0 := by
  intro now expires hlow hhigh
  have hhigh : now ≤ expires + latency := hhigh
  have hzero : (now - expires) / interval = 0 := Nat.div_eq_of_lt (by omega)
  have hnext : forward interval now expires = expires + interval := by
    rw [forward, if_neg (Nat.not_lt.mpr hlow), hzero, Nat.zero_add, Nat.mul_one]
  exact ⟨Nat.le_of_eq hnext.symm, Nat.le_of_eq hnext⟩

/-- However late it is, the new time is to come, and a number of intervals later. -/
theorem forward_spec {interval : ℕ} (h : 0 < interval) {now expires : ℕ} (hle : expires ≤ now) :
    now < forward interval now expires ∧
      ∃ k, forward interval now expires = expires + (k + 1) * interval := by
  rw [forward, if_neg (Nat.not_lt.mpr hle)]
  refine ⟨?_, (now - expires) / interval, by rw [Nat.mul_comm]⟩
  have hlt := Nat.lt_mul_div_succ (now - expires) h
  omega

/-! ## Every time in its place -/

/-- The `i`-th handler has the time of its place, up to what adds up, and starts within the
latency. -/
structure Handler.InTime (C : Config) (start period late i : ℕ) (h : Handler) : Prop where
  low : start + (i + 1) * period ≤ h.due
  high : h.due ≤ start + (i + 1) * period + i * late
  early : h.due ≤ h.start
  within : h.start ≤ h.due + C.latency

/-- A timer armed at `start`, after `k` handlers have armed it again. -/
structure Placed (C : Config) (start period late k : ℕ) (s : State) : Prop where
  fired : s.fired = k + s.running.toNat
  low : start + (k + 1) * period ≤ s.expires
  high : s.expires ≤ start + (k + 1) * period + k * late
  exclusive : s.pending = true → s.running = false
  expired : s.running = true → s.expires ≤ s.now
  passed : start + k * period ≤ s.now
  due : s.Armed → s.now ≤ s.expires + C.latency
  handlers : ∀ i (h : i < s.handlers.length), s.handlers[i].InTime C start period late i

/-- The handlers that have run, and the next one, are on time up to what adds up. -/
structure OnTime (C : Config) (start period late : ℕ) (s : State) : Prop where
  handlers : ∀ i (h : i < s.handlers.length), s.handlers[i].InTime C start period late i
  early : start + s.fired * period ≤ s.now
  late : s.Armed → s.now ≤ start + (s.fired + 1) * period + s.fired * late + C.latency

variable {C : Config} {start period late k : ℕ} {s s' : State}

theorem placed_armed (C : Config) (start period late : ℕ) :
    Placed C start period late 0 (armed start period) where
  fired := rfl
  low := by simp [armed]
  high := by simp [armed]
  exclusive _ := rfl
  expired h := absurd h (by simp [armed])
  passed := by simp [armed]
  due _ := by simp only [armed]; omega
  handlers i h := absurd h (by simp [armed])

theorem Placed.onTime (h : Placed C start period late k s) : OnTime C start period late s := by
  have hlow := h.low
  have hhigh := h.high
  have hfired := h.fired
  cases hrunning : s.running with
  | false =>
    rw [hrunning] at hfired
    have hk : s.fired = k := hfired
    refine ⟨h.handlers, hk ▸ h.passed, fun harmed => ?_⟩
    rw [hk]
    exact Nat.le_trans (h.due harmed) (Nat.add_le_add_right hhigh _)
  | true =>
    rw [hrunning] at hfired
    have hk : s.fired = k + 1 := hfired
    refine ⟨h.handlers, hk ▸ Nat.le_trans hlow (h.expired hrunning), fun harmed => ?_⟩
    have hdue := h.due harmed
    rw [hk, Nat.add_mul (k + 1) 1 period, Nat.add_mul k 1 late]
    omega

/-- The handler that starts is in time. -/
theorem Placed.handlers_expire (h : Placed C start period late k s) (hpending : s.pending = true)
    (hexpired : s.expires ≤ s.now) (i : ℕ)
    (hi : i < (s.handlers ++ [Handler.mk s.expires s.now]).length) :
    (s.handlers ++ [Handler.mk s.expires s.now])[i].InTime C start period late i := by
  have hfired : s.handlers.length = k := by
    have hcount := h.fired
    rw [h.exclusive hpending] at hcount
    exact hcount
  rw [List.getElem_append]
  split_ifs with hold
  · exact h.handlers i hold
  · have hk : i = k := by
      rw [List.length_append, List.length_singleton] at hi
      omega
    rw [List.getElem_singleton, hk]
    exact ⟨h.low, h.high, hexpired, h.due (.inl hpending)⟩

/-- The handler that arms the timer again puts it at the next place. -/
theorem Placed.rearm (hC : C.Within period late) (h : Placed C start period late k s)
    (hrunning : s.running = true) :
    Placed C start period late (k + 1)
      { s with expires := C.rearm s.now s.expires, pending := true, running := false } := by
  have hexpired := h.expired hrunning
  have hdue := h.due (.inr hrunning)
  obtain ⟨hlow, hhigh⟩ := hC s.now s.expires hexpired hdue
  have hold := h.low
  have hold' := h.high
  have hfired := h.fired
  rw [hrunning] at hfired
  refine ⟨hfired, ?_, ?_, fun _ => rfl, fun hr => absurd hr (by simp), ?_, fun _ => ?_,
    h.handlers⟩
  · rw [Nat.add_mul (k + 1) 1 period]
    dsimp only
    omega
  · rw [Nat.add_mul (k + 1) 1 period, Nat.add_mul k 1 late]
    dsimp only
    omega
  · exact Nat.le_trans hold hexpired
  · -- the new time is a period after one that has passed by the latency at most
    dsimp only
    omega

/-- A step keeps every time in its place. -/
theorem Placed.step (hC : C.Within period late) (h : Placed C start period late k s) {a : Action}
    (hstep : step C s a = some s') : ∃ k, Placed C start period late k s' := by
  cases a with
  | tick =>
    simp only [PeriodicTimer.step] at hstep
    split_ifs at hstep with hlate
    obtain rfl := Option.some.inj hstep
    refine ⟨k, h.fired, h.low, h.high, h.exclusive, fun hr => ?_, ?_, fun harmed => ?_,
      h.handlers⟩
    · exact Nat.le_succ_of_le (h.expired hr)
    · exact Nat.le_succ_of_le h.passed
    · exact Nat.lt_of_not_le fun hle => hlate ⟨harmed, hle⟩
  | expire =>
    simp only [PeriodicTimer.step] at hstep
    split_ifs at hstep with hexpired
    obtain rfl := Option.some.inj hstep
    have hrunning := h.exclusive hexpired.1
    have hfired := h.fired
    rw [hrunning] at hfired
    refine ⟨k, ?_, h.low, h.high, fun hp => absurd hp (by simp), fun _ => hexpired.2, h.passed,
      fun _ => h.due (.inl hexpired.1), h.handlers_expire hexpired.1 hexpired.2⟩
    exact List.length_append.trans (congrArg (· + 1) hfired)
  | rearm =>
    simp only [PeriodicTimer.step] at hstep
    split_ifs at hstep with hrunning
    obtain rfl := Option.some.inj hstep
    exact ⟨k + 1, h.rearm hC hrunning⟩
  | cancel =>
    simp only [PeriodicTimer.step] at hstep
    split_ifs at hstep with hrunning
    obtain rfl := Option.some.inj hstep
    refine ⟨k, h.fired, h.low, h.high, fun hp => absurd hp (by simp), h.expired, h.passed,
      fun harmed => ?_, h.handlers⟩
    rcases harmed with hp | hr
    · exact absurd hp (by simp)
    · exact absurd hr hrunning

theorem run_placed (hC : C.Within period late) {as : List Action}
    (hrun : Transition.run (step C) (armed start period) as = some s) :
    ∃ k, Placed C start period late k s := by
  refine Transition.inv_run (I := fun s => ∃ k, Placed C start period late k s)
    (fun s a s' hs hstep => ?_) ⟨0, placed_armed C start period late⟩ hrun
  obtain ⟨k, hk⟩ := hs
  exact hk.step hC hstep

/-- In any run the `k`-th handler is not early, and late by at most `k` times what one new
time is, and the latency. -/
theorem run_onTime (hC : C.Within period late) {as : List Action}
    (hrun : Transition.run (step C) (armed start period) as = some s) :
    OnTime C start period late s := by
  obtain ⟨k, hk⟩ := run_placed hC hrun
  exact hk.onTime

/-! ## After a cancel -/

/-- Without a pending or running handler there is never one again. -/
theorem run_unarmed {as : List Action} (h : ¬s.Armed)
    (hrun : Transition.run (step C) s as = some s') : ¬s'.Armed ∧ s'.handlers = s.handlers := by
  refine Transition.inv_run (I := fun t => ¬t.Armed ∧ t.handlers = s.handlers)
    (fun t a t' ht hstep => ?_) ⟨h, rfl⟩ hrun
  obtain ⟨harmed, hfired⟩ := ht
  have hpending : ¬t.pending = true := fun hp => harmed (.inl hp)
  have hrunning : ¬t.running = true := fun hr => harmed (.inr hr)
  cases a with
  | tick =>
    rw [step, if_neg fun hlate => harmed hlate.1] at hstep
    obtain rfl := Option.some.inj hstep
    exact ⟨harmed, hfired⟩
  | expire =>
    rw [step, if_neg fun hexpired => hpending hexpired.1] at hstep
    exact absurd hstep (by simp)
  | rearm =>
    rw [step, if_neg hrunning] at hstep
    exact absurd hstep (by simp)
  | cancel =>
    rw [step, if_neg hrunning] at hstep
    obtain rfl := Option.some.inj hstep
    refine ⟨fun hnew => ?_, hfired⟩
    rcases hnew with hp | hr
    · exact absurd hp (by simp)
    · exact hrunning hr

/-- No handler runs after a cancel. -/
theorem run_cancel {as : List Action} {t : State} (hcancel : step C s .cancel = some t)
    (hrun : Transition.run (step C) t as = some s') : ¬s'.Armed ∧ s'.handlers = s.handlers := by
  simp only [step] at hcancel
  split_ifs at hcancel with hrunning
  obtain rfl := Option.some.inj hcancel
  have hunarmed : ¬State.Armed { s with pending := false } := by
    rintro (hp | hr)
    · exact absurd hp (by simp)
    · exact hrunning hr
  have hafter := run_unarmed hunarmed hrun
  exact hafter

/-! ## A timer that keeps its times -/

/-- A handler whose time is a number of intervals from the start, and which starts within the
latency. -/
structure Handler.OnGrid (start interval latency : ℕ) (h : Handler) : Prop where
  due : ∃ j, h.due = start + (j + 1) * interval
  early : h.due ≤ h.start
  within : h.start ≤ h.due + latency

/-- The times of `forward` are a number of intervals from the start, and no two handlers have
the same. -/
structure OnGrid (start interval latency : ℕ) (s : State) : Prop where
  expires : ∃ j, s.expires = start + (j + 1) * interval
  exclusive : s.pending = true → s.running = false
  expired : s.running = true → s.expires ≤ s.now
  due : s.Armed → s.now ≤ s.expires + latency
  handlers : ∀ h ∈ s.handlers, h.OnGrid start interval latency
  increasing : (s.handlers.map Handler.due).Pairwise (· < ·)
  le_expires : ∀ h ∈ s.handlers, h.due ≤ s.expires
  lt_expires : s.pending = true → ∀ h ∈ s.handlers, h.due < s.expires

variable {interval latency : ℕ}

theorem onGrid_armed (start interval latency : ℕ) :
    OnGrid start interval latency (armed start interval) where
  expires := ⟨0, by simp [armed]⟩
  exclusive _ := rfl
  expired h := absurd h (by simp [armed])
  due _ := by simp only [armed]; omega
  handlers _ h := absurd h (by simp [armed])
  increasing := .nil
  le_expires _ h := absurd h (by simp [armed])
  lt_expires _ _ h := absurd h (by simp [armed])

/-- A handler starts, at a time after those of all others. -/
theorem OnGrid.expire (h : OnGrid start interval latency s) (hpending : s.pending = true)
    (hexpired : s.expires ≤ s.now) :
    OnGrid start interval latency { s with
      pending := false
      running := true
      handlers := s.handlers ++ [⟨s.expires, s.now⟩] } where
  expires := h.expires
  exclusive hp := absurd hp (by simp)
  expired _ := hexpired
  due _ := h.due (.inl hpending)
  handlers g hg := by
    rcases List.mem_append.mp hg with hold | hnew
    · exact h.handlers g hold
    · obtain rfl := List.mem_singleton.mp hnew
      exact ⟨h.expires, hexpired, h.due (.inl hpending)⟩
  increasing := by
    rw [List.map_append, List.pairwise_append]
    refine ⟨h.increasing, List.pairwise_singleton _ _, fun a ha b hb => ?_⟩
    obtain ⟨g, hg, rfl⟩ := List.mem_map.mp ha
    rw [List.mem_singleton.mp hb]
    exact h.lt_expires hpending g hg
  le_expires g hg := by
    rcases List.mem_append.mp hg with hold | hnew
    · exact h.le_expires g hold
    · exact Nat.le_of_eq (congrArg Handler.due (List.mem_singleton.mp hnew))
  lt_expires hp := absurd hp (by simp)

/-- The timer is armed for a later time of the grid. -/
theorem OnGrid.rearm (hpos : 0 < interval) (h : OnGrid start interval latency s)
    (hrunning : s.running = true) :
    OnGrid start interval latency { s with
      expires := forward interval s.now s.expires
      pending := true
      running := false } := by
  obtain ⟨j, hj⟩ := h.expires
  have hexpired := h.expired hrunning
  obtain ⟨hnow, k, hk⟩ := forward_spec hpos hexpired
  have hlt : s.expires < forward interval s.now s.expires := Nat.lt_of_le_of_lt hexpired hnow
  refine ⟨⟨j + (k + 1), ?_⟩, fun _ => rfl, fun hr => absurd hr (by simp), fun _ => ?_,
    h.handlers, h.increasing, fun g hg => ?_, fun _ g hg => ?_⟩
  · show forward interval s.now s.expires = _
    rw [hk, hj]
    ring
  · exact Nat.le_trans (Nat.le_of_lt hnow) (Nat.le_add_right _ _)
  · exact Nat.le_of_lt (Nat.lt_of_le_of_lt (h.le_expires g hg) hlt)
  · exact Nat.lt_of_le_of_lt (h.le_expires g hg) hlt

theorem OnGrid.step (hpos : 0 < interval) (h : OnGrid start interval latency s) {a : Action}
    (hstep : step ⟨forward interval, latency⟩ s a = some s') :
    OnGrid start interval latency s' := by
  cases a with
  | tick =>
    simp only [PeriodicTimer.step] at hstep
    split_ifs at hstep with hlate
    obtain rfl := Option.some.inj hstep
    exact ⟨h.expires, h.exclusive, fun hr => Nat.le_succ_of_le (h.expired hr),
      fun harmed => Nat.lt_of_not_le fun hle => hlate ⟨harmed, hle⟩, h.handlers, h.increasing,
      h.le_expires, h.lt_expires⟩
  | expire =>
    simp only [PeriodicTimer.step] at hstep
    split_ifs at hstep with hexpired
    obtain rfl := Option.some.inj hstep
    exact h.expire hexpired.1 hexpired.2
  | rearm =>
    simp only [PeriodicTimer.step] at hstep
    split_ifs at hstep with hrunning
    obtain rfl := Option.some.inj hstep
    exact h.rearm hpos hrunning
  | cancel =>
    simp only [PeriodicTimer.step] at hstep
    split_ifs at hstep with hrunning
    obtain rfl := Option.some.inj hstep
    refine ⟨h.expires, fun hp => absurd hp (by simp), h.expired, fun harmed => ?_, h.handlers,
      h.increasing, h.le_expires, fun hp => absurd hp (by simp)⟩
    rcases harmed with hp | hr
    · exact absurd hp (by simp)
    · exact absurd hr hrunning

theorem run_onGrid (hpos : 0 < interval) {as : List Action}
    (hrun : Transition.run (step ⟨forward interval, latency⟩) (armed start interval) as = some s) :
    OnGrid start interval latency s :=
  Transition.inv_run (I := OnGrid start interval latency) (fun _ _ _ h => h.step hpos)
    (onGrid_armed start interval latency) hrun

/-! ## A timer that does not -/

/-- The handler runs at the end of its latency, and arms the timer from there. -/
def lateRound (period latency : ℕ) : List Action :=
  List.replicate (period + latency) .tick ++ [.expire, .rearm]

/-- As many of these. -/
def lateRounds (period latency : ℕ) : ℕ → List Action
  | 0 => []
  | k + 1 => lateRound period latency ++ lateRounds period latency k

theorem run_ticks (n : ℕ) (h : s.now + n ≤ s.expires + C.latency) :
    Transition.run (step C) s (List.replicate n .tick) = some { s with now := s.now + n } := by
  induction n generalizing s with
  | zero => rfl
  | succ n ih =>
    have hnow : ¬(s.Armed ∧ s.expires + C.latency ≤ s.now) := fun hlate => by
      have hle := hlate.2
      omega
    have htick : step C s .tick = some { s with now := s.now + 1 } := if_neg hnow
    rw [List.replicate_succ, Transition.run_cons, htick, Option.bind_some,
      ih (show s.now + 1 + n ≤ s.expires + C.latency by omega)]
    simp only [Nat.add_comm, Nat.add_left_comm]

/-- The handlers of these, each a latency later than the one before it. -/
def lateHandlers (period latency start k : ℕ) : List Handler :=
  (List.range k).map fun i =>
    ⟨start + (i + 1) * period + i * latency, start + (i + 1) * period + (i + 1) * latency⟩

theorem lateHandlers_succ (period latency start k : ℕ) :
    lateHandlers period latency start (k + 1) =
      ⟨start + period, start + (period + latency)⟩ ::
        lateHandlers period latency (start + (period + latency)) k := by
  rw [lateHandlers, List.range_succ_eq_map, List.map_cons, List.map_map]
  congr 1
  · congr 1 <;> ring
  · refine List.map_congr_left fun i _ => ?_
    show Handler.mk _ _ = Handler.mk _ _
    congr 1 <;> rw [Nat.succ_eq_add_one] <;> ring

theorem run_lateRounds (period latency : ℕ) :
    ∀ (k start : ℕ) (handlers : List Handler),
      Transition.run (step ⟨modTimer period, latency⟩)
          ⟨start, start + period, true, false, handlers⟩ (lateRounds period latency k) =
        some ⟨start + k * (period + latency), start + k * (period + latency) + period, true, false,
          handlers ++ lateHandlers period latency start k⟩
  | 0, start, handlers => by simp [lateRounds, lateHandlers]
  | k + 1, start, handlers => by
    have hticks := run_ticks (C := ⟨modTimer period, latency⟩)
      (s := ⟨start, start + period, true, false, handlers⟩) (period + latency)
      (show start + (period + latency) ≤ start + period + latency by omega)
    have hround : Transition.run (step ⟨modTimer period, latency⟩)
        ⟨start, start + period, true, false, handlers⟩ (lateRound period latency) =
          some ⟨start + (period + latency), start + (period + latency) + period, true, false,
            handlers ++ [⟨start + period, start + (period + latency)⟩]⟩ := by
      have hexpired : start + period ≤ start + (period + latency) := by omega
      rw [lateRound, Transition.run_append, hticks]
      simp [step, modTimer, hexpired]
    have hmul : (k + 1) * (period + latency) = period + latency + k * (period + latency) := by
      rw [Nat.add_mul, Nat.one_mul, Nat.add_comm]
    rw [lateRounds, Transition.run_append, hround, Option.bind_some,
      run_lateRounds period latency k, hmul, Nat.add_assoc, lateHandlers_succ, List.append_assoc,
      List.singleton_append]

end PeriodicTimer
