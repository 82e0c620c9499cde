import LinuxDriverKb.FakeIiodevAttr
import Mathlib.Data.Nat.SuccPred

/-!
# The threshold events of `fake_iiodev.c`

A rising event should mean that a value came from below its upper threshold to it, a falling
event that it came from above its lower threshold to it. `lux_auto_change` compares the new
value alone with both thresholds.

`crossings_iff` : over any run the events mean crossings if and only if no tick meets a
threshold that its channel does not cross.
-/

set_option autoImplicit false

namespace LinuxDriverKb

namespace FakeIiodev

/-! ## Crossings of a threshold -/

section Crossing

variable {α : Type*} [LinearOrder α] {t old new high low : α} {r f : ℕ}

/-- A value rises to `t` or above it. -/
def CrossesUp (t old new : α) : Prop :=
  old < t ∧ t ≤ new

/-- A value falls to `t` or below it. -/
def CrossesDown (t old new : α) : Prop :=
  new ≤ t ∧ t < old

/-- `r` rising and `f` falling events for a value that goes from `old` to `new`. -/
structure MeanCrossings (high low old new : α) (r f : ℕ) : Prop where
  rising : CrossesUp high old new → r = 1
  no_rising : ¬old < new → r = 0
  falling : CrossesDown low old new → f = 1
  no_falling : ¬new < old → f = 0

theorem not_crossesUp (h : new ≤ old) : ¬CrossesUp t old new :=
  fun hc => absurd (lt_of_lt_of_le hc.1 hc.2) (not_lt.mpr h)

theorem not_crossesDown (h : old ≤ new) : ¬CrossesDown t old new :=
  fun hc => absurd (lt_of_le_of_lt hc.1 hc.2) (not_lt.mpr h)

/-- A value that goes up to its next one crosses that one. -/
theorem crossesUp_iff_of_covBy (h : old ⋖ new) : CrossesUp t old new ↔ new = t := by
  constructor
  · rintro ⟨hold, hnew⟩
    exact (eq_of_le_of_not_lt hnew fun hlt => h.2 hold hlt).symm
  · rintro rfl
    exact ⟨h.1, le_rfl⟩

variable (hr : r = if new = high then 1 else 0) (hf : f = if new = low then 1 else 0)

include hr hf

/-- Events on equality, when the value goes up to its next one. -/
theorem meanCrossings_iff_of_covBy (h : old ⋖ new) :
    MeanCrossings high low old new r f ↔ low ≠ new := by
  constructor
  · intro hm hlow
    have hf0 := hm.no_falling (not_lt.mpr h.1.le)
    simp [hf, hlow] at hf0
  · intro hlow
    refine ⟨fun hc => ?_, fun hno => absurd h.1 hno, fun hc => ?_, fun _ => ?_⟩
    · rw [hr, if_pos ((crossesUp_iff_of_covBy h).mp hc)]
    · exact absurd hc (not_crossesDown h.1.le)
    · rw [hf, if_neg fun heq => hlow heq.symm]

/-- Events on equality, when the value stays. -/
theorem meanCrossings_iff_of_eq (h : new = old) :
    MeanCrossings high low old new r f ↔ high ≠ old ∧ low ≠ old := by
  subst h
  constructor
  · intro hm
    have hr0 := hm.no_rising (lt_irrefl new)
    have hf0 := hm.no_falling (lt_irrefl new)
    rw [hr] at hr0
    rw [hf] at hf0
    exact ⟨fun heq => by simp [heq] at hr0, fun heq => by simp [heq] at hf0⟩
  · rintro ⟨hhigh, hlow⟩
    refine ⟨fun hc => absurd hc (not_crossesUp le_rfl), fun _ => ?_,
      fun hc => absurd hc (not_crossesDown le_rfl), fun _ => ?_⟩
    · rw [hr, if_neg fun heq => hhigh heq.symm]
    · rw [hf, if_neg fun heq => hlow heq.symm]

/-- Events on equality, when the value falls to the least one. -/
theorem meanCrossings_iff_of_bot [OrderBot α] (h : new = ⊥) (hlt : new < old) :
    MeanCrossings high low old new r f ↔ high ≠ ⊥ ∧ (low = ⊥ ∨ old ≤ low) := by
  subst h
  constructor
  · intro hm
    refine ⟨fun heq => ?_, ?_⟩
    · have hr0 := hm.no_rising (not_lt.mpr hlt.le)
      simp [hr, heq] at hr0
    · by_contra hno
      obtain ⟨hbot, hle⟩ := not_or.mp hno
      have hf1 := hm.falling ⟨bot_le, not_le.mp hle⟩
      rw [hf, if_neg fun heq => hbot heq.symm] at hf1
      exact absurd hf1 (by simp)
  · rintro ⟨hhigh, hlow⟩
    refine ⟨fun hc => absurd hc (not_crossesUp hlt.le), fun _ => ?_, fun hc => ?_,
      fun hno => absurd hlt hno⟩
    · rw [hr, if_neg fun heq => hhigh heq.symm]
    · rcases hlow with hlow | hlow
      · rw [hf, if_pos hlow.symm]
      · exact absurd hc.2 (not_lt.mpr hlow)

end Crossing

/-! ## One tick -/

/-- The thresholds of a channel with the value `old` are met by the move only where they are
crossed. -/
def Crossed (high low old : ℕ) : Move → Prop
  | .rise => low ≠ old + 1
  | .stay => high ≠ old ∧ low ≠ old
  | .wrap => high ≠ 0 ∧ (low = 0 ∨ old ≤ low)

/-- At a tick the events pushed for each channel that has them enabled mean crossings. -/
def EventsMeanCrossings (P : Params) (s : State) (a : Action) (s' : State) : Prop :=
  match a with
  | .expire => ∀ i, s.priv.event i = true →
    let events := (luxAutoChange P.hz s.jiffies s.priv).1
    MeanCrossings (s.priv.highThresh i).toNat (s.priv.lowThresh i).toNat
      (s.priv.currentLux i).toNat (s'.priv.currentLux i).toNat
      (events.count ⟨i, .rising⟩) (events.count ⟨i, .falling⟩)
  | _ => True

/-- At a tick each channel with events meets its thresholds only where it crosses them. -/
def ThresholdsCrossed (s : State) (a : Action) (_ : State) : Prop :=
  match a with
  | .expire => ∀ i, s.priv.event i = true →
    Crossed (s.priv.highThresh i).toNat (s.priv.lowThresh i).toNat (s.priv.currentLux i).toNat
      (move s.priv.currentLux i)
  | _ => True

variable {P : Params} {s s' : State}

/-- What is pushed for a channel counts for no other. -/
theorem pushEvents_count_of_ne {p : Priv} {i j : Fin 2} (h : i ≠ j) (dir : Direction) :
    (pushEvents p j).count ⟨i, dir⟩ = 0 := by
  refine List.count_eq_zero.mpr fun hmem => ?_
  unfold pushEvents at hmem
  split_ifs at hmem <;> simp [h] at hmem

theorem pushEvents_count {p : Priv} {i : Fin 2} (h : p.event i = true) :
    (pushEvents p i).count ⟨i, .rising⟩ = (if p.currentLux i = p.highThresh i then 1 else 0) ∧
      (pushEvents p i).count ⟨i, .falling⟩ =
        if p.currentLux i = p.lowThresh i then 1 else 0 := by
  rw [pushEvents, if_pos h, List.count_append, List.count_append]
  constructor <;> split_ifs <;> simp

/-- The handler pushes an event for each threshold that the new value equals. -/
theorem luxAutoChange_count (hz jiffies : ℕ) {i : Fin 2} {p : Priv} (h : p.event i = true) :
    (luxAutoChange hz jiffies p).1.count ⟨i, .rising⟩ =
        (if (nextLux p.currentLux i).toNat = (p.highThresh i).toNat then 1 else 0) ∧
      (luxAutoChange hz jiffies p).1.count ⟨i, .falling⟩ =
        if (nextLux p.currentLux i).toNat = (p.lowThresh i).toNat then 1 else 0 := by
  let q := { p with currentLux := nextLux p.currentLux }
  obtain ⟨hrising, hfalling⟩ := pushEvents_count (p := q) h
  have hcount : ∀ dir, (luxAutoChange hz jiffies p).1.count ⟨i, dir⟩ =
      (pushEvents q i).count ⟨i, dir⟩ := by
    intro dir
    have hboth : (luxAutoChange hz jiffies p).1.count ⟨i, dir⟩ =
        (pushEvents q 0).count ⟨i, dir⟩ + (pushEvents q 1).count ⟨i, dir⟩ := by
      simp [luxAutoChange, q]
    rw [hboth]
    match i with
    | 0 => rw [pushEvents_count_of_ne (j := 1) (by decide), Nat.add_zero]
    | 1 => rw [pushEvents_count_of_ne (j := 0) (by decide), Nat.zero_add]
  rw [hcount, hcount, hrising, hfalling]
  simp only [UInt8.toNat_inj, q, and_self]

/-- At a tick the events of a channel mean crossings exactly when it meets its thresholds only
where it crosses them. -/
theorem meanCrossings_iff {jiffies : ℕ} {p : Priv} (h : Halved p.currentLux) {i : Fin 2}
    (hi : p.event i = true) :
    let events := (luxAutoChange P.hz jiffies p).1
    MeanCrossings (p.highThresh i).toNat (p.lowThresh i).toNat (p.currentLux i).toNat
        (nextLux p.currentLux i).toNat (events.count ⟨i, .rising⟩) (events.count ⟨i, .falling⟩) ↔
      Crossed (p.highThresh i).toNat (p.lowThresh i).toNat (p.currentLux i).toNat
        (move p.currentLux i) := by
  intro events
  obtain ⟨hrising, hfalling⟩ := luxAutoChange_count P.hz jiffies hi
  have hmove := nextLux_move h i
  cases hm : move p.currentLux i with
  | rise =>
    simp only [hm] at hmove
    have hcov : (p.currentLux i).toNat ⋖ (nextLux p.currentLux i).toNat := by
      rw [hmove]
      exact Order.covBy_add_one _
    rw [meanCrossings_iff_of_covBy hrising hfalling hcov, hmove]
    rfl
  | stay =>
    simp only [hm] at hmove
    rw [meanCrossings_iff_of_eq hrising hfalling hmove]
    rfl
  | wrap =>
    simp only [hm] at hmove
    obtain ⟨hnew, hold⟩ := hmove
    rw [meanCrossings_iff_of_bot hrising hfalling hnew (by rwa [hnew])]
    rfl

/-! ## Runs -/

/-- No step takes the channels apart. -/
theorem halved_step {a : Action} (h : Halved s.priv.currentLux) (hstep : step P s a = some s') :
    Halved s'.priv.currentLux := by
  cases a with
  | tick =>
    obtain rfl := Option.some.inj hstep
    exact h
  | expire =>
    obtain rfl := step_expire hstep
    exact luxSecond_halved (luxFirst s.priv.currentLux)
  | call c =>
    obtain rfl := step_call hstep
    have hlux : (c.exec P.hz s.jiffies s.priv).currentLux = s.priv.currentLux := by
      cases c with
      | writeRaw val mask => by_cases hmask : mask = .intTime <;> simp [Call.exec, writeRaw, hmask]
      | writeEventValue chan dir val => cases dir <;> rfl
      | readRaw | readEventConfig | writeEventConfig | readEventValue => rfl
    rw [Halved, hlux]
    exact h

theorem eventsMeanCrossings_iff {a : Action} (h : Halved s.priv.currentLux)
    (hstep : step P s a = some s') :
    EventsMeanCrossings P s a s' ↔ ThresholdsCrossed s a s' := by
  cases a with
  | tick | call => exact Iff.rfl
  | expire =>
    obtain rfl := step_expire hstep
    exact forall₂_congr fun i hi => meanCrossings_iff h hi

variable (P)

/-- In every run after the probe the events of every tick mean crossings if and only if at
every tick the channels with events enabled meet their thresholds only where they cross
them. -/
theorem crossings_iff (jiffies : ℕ) (as : List Action) :
    Transition.Always (step P) (EventsMeanCrossings P) ⟨jiffies, probed P.hz jiffies⟩ as ↔
      Transition.Always (step P) ThresholdsCrossed ⟨jiffies, probed P.hz jiffies⟩ as := by
  have hsteps : ∀ t a t', Halved t.priv.currentLux → step P t a = some t' →
      (EventsMeanCrossings P t a t' ↔ ThresholdsCrossed t a t') :=
    fun _ _ _ => eventsMeanCrossings_iff
  exact Transition.always_congr hsteps (fun _ _ _ h hstep _ => halved_step h hstep)
    (by decide : (0 : UInt8) = 0 / 2)

/-- With the lower threshold of the first channel at 1, its first tick from 0 to 1 pushes a
falling event. -/
theorem rise_pushes_falling :
    let p := { probed 1 0 with event := fun i => decide (i = 0), lowThresh := fun _ => 1,
                               highThresh := fun _ => 9 }
    (luxAutoChange 1 1 p).1 = [⟨0, .falling⟩] ∧ p.currentLux 0 = 0 ∧
      (luxAutoChange 1 1 p).2.currentLux 0 = 1 ∧
      ¬Transition.Always (step oneHz) (EventsMeanCrossings oneHz) ⟨0, probed 1 0⟩
        [.call (.writeEventValue 0 .falling 1), .call (.writeEventValue 0 .rising 9),
          .call (.writeEventConfig 0 .rising 1), .tick, .expire] := by
  refine ⟨by decide, by decide, by decide, fun h => ?_⟩
  obtain ⟨-, h⟩ := h _ rfl
  obtain ⟨-, h⟩ := h _ rfl
  obtain ⟨-, h⟩ := h _ rfl
  obtain ⟨-, h⟩ := h _ rfl
  obtain ⟨hevents, -⟩ := h _ rfl
  exact absurd ((hevents 0 rfl).no_falling (by decide)) (by decide)

end FakeIiodev

end LinuxDriverKb
