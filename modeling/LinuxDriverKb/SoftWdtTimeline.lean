import LinuxDriverKb.SoftWdtDeadline
import Mathlib.Order.Nat
import Mathlib.Data.Nat.Find

/-!
# When the watchdogs of `soft_wdt.c` bite

The runs of `SoftWdt` leave open when a timer expires. Here the clock does not pass the time
of a pending timer : what is due expires before the next tick. Next to the state stands
the last ping of every watchdog with the timeouts it has read.

`softdog_timeline` : a watchdog fires `timeout` seconds after its last ping, warns
`pretimeout` seconds before that, and does neither earlier, later, twice, or after a stop.
-/

set_option autoImplicit false

namespace LinuxDriverKb

namespace SoftWdt

/-! ## The last ping -/

/-- A ping that no stop has followed : its time, the timeouts it has read, and which of the
two timers have expired since. -/
structure Feeding where
  jiffies : ℕ
  timeout : ℕ
  pretimeout : ℕ
  warned : Bool
  fired : Bool

/-- When the watchdog is to fire, and when it is to warn. -/
def Feeding.deadline (hz : ℕ) (f : Feeding) : ℕ :=
  f.jiffies + f.timeout * hz

/-- When it warns. -/
def Feeding.warning (hz : ℕ) (f : Feeding) : ℕ :=
  f.jiffies + (f.timeout - f.pretimeout) * hz

/-- The warning is still to come. -/
def Feeding.Unwarned (f : Feeding) : Prop :=
  f.pretimeout ≠ 0 ∧ f.warned = false

instance (f : Feeding) : Decidable f.Unwarned :=
  inferInstanceAs (Decidable (_ ∧ _))

/-- The last ping after an action of a watchdog. -/
def record (jiffies : ℕ) (w : Softdog) (last : Option Feeding) : DogAction → Option Feeding
  | .ping => some ⟨jiffies, w.timeout, w.pretimeout, false, false⟩
  | .stop => none
  | .fire => last.map fun f => { f with fired := true }
  | .pretimeout => last.map fun f => { f with warned := true }
  | _ => last

/-- The system, and the last feeding of each watchdog. -/
structure Timeline where
  state : State
  last : ℕ → Option Feeding

variable (P : Params)

/-- Some pending timer is due. -/
def Overdue (s : State) : Prop :=
  ∃ i < P.softdogNum, (∃ d ∈ (s.softdog i).fireTimer, d ≤ s.jiffies) ∨
    ∃ e ∈ (s.softdog i).preTimer, e ≤ s.jiffies

instance (s : State) : Decidable (Overdue P s) :=
  Nat.decidableExistsLT _

/-- The clock ticks when nothing is due. -/
def timedStep (x : Timeline) : Action → Option Timeline
  | .tick =>
    if Overdue P x.state then none
    else some { x with state := { x.state with jiffies := x.state.jiffies + 1 } }
  | .dog i a => (step P x.state (.dog i a)).map fun s =>
    ⟨s, Function.update x.last i (record x.state.jiffies (x.state.softdog i) (x.last i) a)⟩

/-- Before the first ping. -/
def begin (jiffies softMargin : ℕ) : Timeline :=
  ⟨init jiffies softMargin, fun _ => none⟩

/-! ## The timers follow the last ping -/

/-- The timers of `w` are those of its last ping, and not overdue. -/
structure Feeding.Arms (hz jiffies : ℕ) (f : Feeding) (w : Softdog) : Prop where
  fire : w.fireTimer = if f.fired then none else some (f.deadline hz)
  pre : w.preTimer = if f.Unwarned then some (f.warning hz) else none
  fire_le : f.fired = false → jiffies ≤ f.deadline hz
  pre_le : f.Unwarned → jiffies ≤ f.warning hz

/-- A watchdog without a last ping is not armed. -/
def Follows (hz jiffies : ℕ) (w : Softdog) : Option Feeding → Prop
  | none => w.fireTimer = none ∧ w.preTimer = none
  | some f => f.Arms hz jiffies w

/-- The timers are as the last feedings say. -/
structure OnTime (x : Timeline) : Prop where
  inv : Inv P x.state
  follows : ∀ i < P.softdogNum, Follows P.hz x.state.jiffies (x.state.softdog i) (x.last i)

variable {P}

theorem onTime_begin {jiffies softMargin : ℕ} (h : minTimeout ≤ softMargin)
    (h' : softMargin ≤ maxTimeout) : OnTime P (begin jiffies softMargin) :=
  ⟨inv_init h h', fun _ _ => ⟨rfl, rfl⟩⟩

/-- What leaves the timers as they are. -/
theorem Follows.of_eq {hz jiffies : ℕ} {w w' : Softdog} {last : Option Feeding}
    (h : Follows hz jiffies w last) (hfire : w'.fireTimer = w.fireTimer)
    (hpre : w'.preTimer = w.preTimer) : Follows hz jiffies w' last := by
  cases last with
  | none => exact ⟨hfire.trans h.1, hpre.trans h.2⟩
  | some f => exact ⟨hfire.trans h.fire, hpre.trans h.pre, h.fire_le, h.pre_le⟩

/-- A pending timer is one of the last ping. -/
theorem Follows.fireTimer {hz jiffies d : ℕ} {w : Softdog} {last : Option Feeding}
    (h : Follows hz jiffies w last) (hd : d ∈ w.fireTimer) :
    ∃ f ∈ last, f.fired = false ∧ d = f.deadline hz ∧ f.Arms hz jiffies w := by
  cases last with
  | none => exact absurd (h.1 ▸ hd) (Option.not_mem_none d)
  | some f =>
    have hfire := h.fire
    cases hf : f.fired with
    | true => simp [hf, Option.mem_def.mp hd] at hfire
    | false =>
      rw [hf, Option.mem_def.mp hd] at hfire
      exact ⟨f, rfl, hf, Option.some.inj hfire, h⟩

theorem Follows.preTimer {hz jiffies e : ℕ} {w : Softdog} {last : Option Feeding}
    (h : Follows hz jiffies w last) (he : e ∈ w.preTimer) :
    ∃ f ∈ last, f.Unwarned ∧ e = f.warning hz ∧ f.Arms hz jiffies w := by
  cases last with
  | none => exact absurd (h.2 ▸ he) (Option.not_mem_none e)
  | some f =>
    have hpre := h.pre
    by_cases hf : f.Unwarned
    · rw [if_pos hf, Option.mem_def.mp he] at hpre
      exact ⟨f, rfl, hf, Option.some.inj hpre, h⟩
    · simp [hf, Option.mem_def.mp he] at hpre

/-- A timer that is due is due now. -/
theorem Due.le {s : State} {timer : Timer} {d : ℕ} (h : Due P s timer) (hd : d ∈ timer) :
    d ≤ s.jiffies := by
  obtain ⟨d', hd', hle, -⟩ := h
  rwa [Option.mem_unique hd hd']

theorem follows_ping {w : Softdog} (h : w.Ok) (jiffies : ℕ) (refs : ℤ) (last : Option Feeding) :
    Follows P.hz jiffies (softdogPing P.hz jiffies w refs).1 (record jiffies w last .ping) := by
  obtain ⟨⟨-, hmax⟩, hlt, -⟩ := h
  refine ⟨?_, ?_, fun _ => Nat.le_add_right _ _, fun _ => Nat.le_add_right _ _⟩
  · rw [softdogPing_fireTimer, ticks_eq hmax]
    rfl
  · by_cases hpre : w.pretimeout = 0
    · simp [softdogPing, hpre, delTimer, Feeding.Unwarned]
    · rw [softdogPing_preTimer _ _ hpre, sub32_eq hlt.le hmax, ticks_eq (by omega)]
      exact (if_pos ⟨hpre, rfl⟩).symm

/-- When the fire timer expires, the warning has been given. -/
theorem follows_fire {s : State} {i : ℕ} {last : Option Feeding} (hi : i < P.softdogNum)
    (hok : (s.softdog i).Ok) (h : Follows P.hz s.jiffies (s.softdog i) last)
    (hdue : Due P s (s.softdog i).fireTimer) (n : ℕ) :
    (∃ f ∈ last, f.fired = false ∧ s.jiffies = f.deadline P.hz ∧ ¬f.Unwarned) ∧
      Follows P.hz s.jiffies { s.softdog i with fireTimer := none, firing := n }
        (record s.jiffies (s.softdog i) last .fire) := by
  have hpre := preTimer_of_due hi hok hdue
  obtain ⟨d, hd, hle, -⟩ := id hdue
  obtain ⟨f, hf, hfired, rfl, harms⟩ := h.fireTimer hd
  have hwarned : ¬f.Unwarned := fun hun => by simp [harms.pre, hun] at hpre
  obtain rfl := Option.mem_def.mp hf
  refine ⟨⟨f, rfl, hfired, Nat.le_antisymm (harms.fire_le hfired) hle, hwarned⟩, rfl, ?_,
    (nomatch ·), harms.pre_le⟩
  exact harms.pre

theorem follows_pretimeout {s : State} {i : ℕ} {last : Option Feeding}
    (hok : (s.softdog i).Ok) (h : Follows P.hz s.jiffies (s.softdog i) last)
    (hdue : Due P s (s.softdog i).preTimer) :
    (∃ f ∈ last, f.Unwarned ∧ f.fired = false ∧ s.jiffies = f.warning P.hz) ∧
      Follows P.hz s.jiffies { s.softdog i with preTimer := none }
        (record s.jiffies (s.softdog i) last .pretimeout) := by
  obtain ⟨e, he, hle, -⟩ := hdue
  obtain ⟨d, hd, -⟩ := hok.pre e he
  obtain ⟨f, hf, hun, rfl, harms⟩ := h.preTimer he
  obtain ⟨g, hg, hfired, -⟩ := h.fireTimer hd
  obtain rfl := Option.mem_unique hf hg
  obtain rfl := Option.mem_def.mp hf
  refine ⟨⟨f, rfl, hun, hfired, Nat.le_antisymm (harms.pre_le hun) hle⟩, harms.fire, ?_,
    harms.fire_le, fun hun' => nomatch hun'.2⟩
  exact (if_neg fun hun' => nomatch hun'.2).symm

variable (P)

/-- Expiries come at their times, and the clock passes none. -/
def AtTime (x : Timeline) (a : Action) (_ : Timeline) : Prop :=
  match a with
  | .dog i .fire => ∃ f ∈ x.last i,
    f.fired = false ∧ x.state.jiffies = f.deadline P.hz ∧ ¬f.Unwarned
  | .dog i .pretimeout => ∃ f ∈ x.last i,
    f.Unwarned ∧ f.fired = false ∧ x.state.jiffies = f.warning P.hz
  | .tick => ∀ i < P.softdogNum, ∀ f ∈ x.last i,
    (f.fired = false → x.state.jiffies < f.deadline P.hz) ∧
      (f.Unwarned → x.state.jiffies < f.warning P.hz)
  | _ => True

variable {P}

/-- A tick while nothing is due. -/
theorem onTime_tick {x : Timeline} (h : OnTime P x) (hnone : ¬Overdue P x.state) :
    OnTime P { x with state := { x.state with jiffies := x.state.jiffies + 1 } } ∧
      ∀ i < P.softdogNum, ∀ f ∈ x.last i,
        (f.fired = false → x.state.jiffies < f.deadline P.hz) ∧
          (f.Unwarned → x.state.jiffies < f.warning P.hz) := by
  have hlt : ∀ i < P.softdogNum, ∀ f ∈ x.last i,
      f.Arms P.hz x.state.jiffies (x.state.softdog i) ∧
        (f.fired = false → x.state.jiffies < f.deadline P.hz) ∧
          (f.Unwarned → x.state.jiffies < f.warning P.hz) := by
    intro i hi f hf
    have harms : Follows P.hz x.state.jiffies (x.state.softdog i) (some f) :=
      Option.mem_def.mp hf ▸ h.follows i hi
    refine ⟨harms, fun hfired => ?_, fun hun => ?_⟩
    · by_contra hge
      refine hnone ⟨i, hi, Or.inl ⟨f.deadline P.hz, ?_, Nat.not_lt.mp hge⟩⟩
      rw [harms.fire, hfired]
      rfl
    · by_contra hge
      refine hnone ⟨i, hi, Or.inr ⟨f.warning P.hz, ?_, Nat.not_lt.mp hge⟩⟩
      rw [harms.pre, if_pos hun]
      rfl
  refine ⟨⟨⟨h.inv.ok, h.inv.refs⟩, fun i hi => ?_⟩, fun i hi f hf => (hlt i hi f hf).2⟩
  have hfollows := h.follows i hi
  cases hlast : x.last i with
  | none =>
    rw [hlast] at hfollows
    exact hfollows
  | some f =>
    obtain ⟨harms, hfire, hpre⟩ := hlt i hi f hlast
    exact ⟨harms.fire, harms.pre, hfire, hpre⟩

/-- What an action of a watchdog leaves of its last ping and its timers. -/
theorem follows_dogStep {x : Timeline} {i : ℕ} (hi : i < P.softdogNum) (h : OnTime P x)
    {a : DogAction} {r : Softdog × ℤ} (hstep : dogStep P x.state (x.state.softdog i) a = some r) :
    Follows P.hz x.state.jiffies r.1
        (record x.state.jiffies (x.state.softdog i) (x.last i) a) ∧
      AtTime P x (.dog i a) x := by
  have hok := h.inv.ok i hi
  have hfollows := h.follows i hi
  cases a with
  | ping =>
    obtain rfl := Option.some.inj hstep
    exact ⟨follows_ping hok _ _ _, True.intro⟩
  | stop =>
    obtain rfl := Option.some.inj hstep
    exact ⟨⟨rfl, rfl⟩, True.intro⟩
  | setTimeout t =>
    obtain ⟨w, hw, rfl⟩ := Option.map_eq_some_iff.mp hstep
    unfold setTimeout at hw
    split_ifs at hw
    · obtain rfl := Option.some.inj hw
      exact ⟨hfollows.of_eq rfl rfl, True.intro⟩
    · obtain rfl := Option.some.inj hw
      exact ⟨hfollows.of_eq rfl rfl, True.intro⟩
  | setPretimeout t =>
    obtain ⟨w, hw, rfl⟩ := Option.map_eq_some_iff.mp hstep
    unfold setPretimeout at hw
    split_ifs at hw
    obtain rfl := Option.some.inj hw
    exact ⟨hfollows.of_eq rfl rfl, True.intro⟩
  | fire =>
    simp only [dogStep] at hstep
    split_ifs at hstep with hdue
    obtain rfl := Option.some.inj hstep
    exact (follows_fire hi hok hfollows hdue _).symm
  | firePut =>
    simp only [dogStep] at hstep
    split_ifs at hstep
    obtain rfl := Option.some.inj hstep
    exact ⟨hfollows.of_eq rfl rfl, True.intro⟩
  | pretimeout =>
    simp only [dogStep] at hstep
    split_ifs at hstep with hdue
    obtain rfl := Option.some.inj hstep
    exact (follows_pretimeout hok hfollows hdue).symm

theorem onTime_step {x x' : Timeline} {a : Action} (h : OnTime P x)
    (hstep : timedStep P x a = some x') : OnTime P x' ∧ AtTime P x a x' := by
  cases a with
  | tick =>
    simp only [timedStep] at hstep
    split_ifs at hstep with hdue
    obtain rfl := Option.some.inj hstep
    exact onTime_tick h hdue
  | dog i a =>
    obtain ⟨s, hs, rfl⟩ := Option.map_eq_some_iff.mp hstep
    have hinv := inv_step h.inv hs
    simp only [step] at hs
    split_ifs at hs with hi
    obtain ⟨r, hr, rfl⟩ := Option.map_eq_some_iff.mp hs
    obtain ⟨hfollows, hat⟩ := follows_dogStep hi h hr
    refine ⟨⟨hinv, fun k hk => ?_⟩, hat⟩
    by_cases hki : k = i
    · simpa [hki] using hfollows
    · simpa [Function.update_of_ne hki] using h.follows k hk

/-! ## Runs -/

/-- Of the timers that are due, the first can expire. -/
theorem exists_expiry {s : State} (h : Overdue P s) :
    ∃ i < P.softdogNum, Due P s (s.softdog i).fireTimer ∨ Due P s (s.softdog i).preTimer := by
  classical
  have hex : ∃ d, ∃ i < P.softdogNum, d ∈ (s.softdog i).fireTimer ∨ d ∈ (s.softdog i).preTimer := by
    obtain ⟨i, hi, ⟨d, hd, -⟩ | ⟨d, hd, -⟩⟩ := h
    · exact ⟨d, i, hi, Or.inl hd⟩
    · exact ⟨d, i, hi, Or.inr hd⟩
  have hmin : ∀ k < P.softdogNum, (∀ e ∈ (s.softdog k).fireTimer, Nat.find hex ≤ e) ∧
      ∀ e ∈ (s.softdog k).preTimer, Nat.find hex ≤ e := fun k hk =>
    ⟨fun e he => Nat.find_min' hex ⟨k, hk, Or.inl he⟩,
      fun e he => Nat.find_min' hex ⟨k, hk, Or.inr he⟩⟩
  have hle : Nat.find hex ≤ s.jiffies := by
    obtain ⟨i, hi, ⟨d, hd, hle⟩ | ⟨d, hd, hle⟩⟩ := h
    · exact ((hmin i hi).1 d hd).trans hle
    · exact ((hmin i hi).2 d hd).trans hle
  obtain ⟨i, hi, hd | hd⟩ := Nat.find_spec hex
  · exact ⟨i, hi, Or.inl ⟨_, hd, hle, hmin⟩⟩
  · exact ⟨i, hi, Or.inr ⟨_, hd, hle, hmin⟩⟩

variable (P)

/-- For every number of watchdogs, every margin in range and every run in which the clock
does not pass a pending timer : a watchdog fires exactly `timeout` seconds after its last
ping, and after the warning if there is one; it warns exactly `pretimeout` seconds before
that; the clock passes neither time without; a watchdog that has been stopped, or has fired
or warned since its last ping, does not do so; and when the clock cannot go on, some timer
can expire. -/
theorem softdog_timeline (jiffies softMargin : ℕ) (hmin : minTimeout ≤ softMargin)
    (hmax : softMargin ≤ maxTimeout) (as : List Action) :
    Transition.Always (timedStep P) (AtTime P) (begin jiffies softMargin) as ∧
      ∀ x, Transition.run (timedStep P) (begin jiffies softMargin) as = some x →
        (timedStep P x .tick).isSome ∨ ∃ i,
          (timedStep P x (.dog i .fire)).isSome ∨ (timedStep P x (.dog i .pretimeout)).isSome := by
  refine ⟨Transition.always_of_inv (fun _ _ _ => onTime_step) (onTime_begin hmin hmax),
    fun x _ => ?_⟩
  by_cases hdue : Overdue P x.state
  · obtain ⟨i, hi, hfire | hpre⟩ := exists_expiry hdue
    · exact Or.inr ⟨i, Or.inl (by simp [timedStep, step, hi, dogStep, hfire])⟩
    · exact Or.inr ⟨i, Or.inr (by simp [timedStep, step, hi, dogStep, hpre])⟩
  · exact Or.inl (by simp [timedStep, hdue])

/-- With a margin of two seconds and a pretimeout of one : it is pinged, warns after a second,
is pinged in time, warns again and fires two seconds after that ping. -/
theorem softdog_timeline_one :
    ∃ x, Transition.run (timedStep oneDog) (begin 0 2)
        [.dog 0 (.setPretimeout 1), .dog 0 .ping, .tick, .dog 0 .pretimeout, .dog 0 .ping,
          .tick, .dog 0 .pretimeout, .tick] = some x ∧
      ∃ x', timedStep oneDog x (.dog 0 .fire) = some x' ∧
        AtTime oneDog x (.dog 0 .fire) x' ∧ x.state.jiffies = 3 := by
  have hsome : (Transition.run (timedStep oneDog) (begin 0 2)
      [.dog 0 (.setPretimeout 1), .dog 0 .ping, .tick, .dog 0 .pretimeout, .dog 0 .ping,
        .tick, .dog 0 .pretimeout, .tick]).map (fun x =>
          ((timedStep oneDog x (.dog 0 .fire)).isSome, x.state.jiffies)) = some (true, 3) := by
    decide
  obtain ⟨x, hx, hfire⟩ := Option.map_eq_some_iff.mp hsome
  obtain ⟨hfire, hjiffies⟩ := Prod.mk.inj hfire
  obtain ⟨x', hx'⟩ := Option.isSome_iff_exists.mp hfire
  have hrun := (softdog_timeline oneDog 0 2 (by decide) (by decide)
    ([.dog 0 (.setPretimeout 1), .dog 0 .ping, .tick, .dog 0 .pretimeout, .dog 0 .ping,
      .tick, .dog 0 .pretimeout, .tick] ++ [.dog 0 .fire])).1
  exact ⟨x, hx, x', hx', hrun.last hx' hx, hjiffies⟩

end SoftWdt

end LinuxDriverKb
