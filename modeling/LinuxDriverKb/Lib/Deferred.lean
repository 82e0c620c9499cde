import Mathlib.Data.Nat.Notation
import Mathlib.Tactic.SplitIfs

/-!
# Deferred work with a pending bit

A tasklet, a work item or an interrupt thread : to raise it sets its pending bit, and a run
of its handler clears the bit before it starts. Several raises may share a run. `Served` :
every raise so far is followed by the start of a run, or one is pending; and there are no
more runs than raises.
-/

set_option autoImplicit false

/-- The pending bit, whether the handler is running, the raises, the runs started, and the
raises at the start of the last run. -/
structure Deferred where
  pending : Bool
  running : Bool
  raised : ℕ
  runs : ℕ
  seen : ℕ
  deriving DecidableEq

namespace Deferred

/-- Never raised. -/
def zeroed : Deferred :=
  ⟨false, false, 0, 0, 0⟩

/-- Raised once more. -/
def raise (d : Deferred) : Deferred :=
  { d with pending := true, raised := d.raised + 1 }

/-- The pending bit is cleared, and the handler starts; it does not run beside itself. -/
def start (d : Deferred) : Option Deferred :=
  if d.pending ∧ ¬d.running then
    some { d with pending := false, running := true, runs := d.runs + 1, seen := d.raised }
  else none

/-- The handler returns. -/
def finish (d : Deferred) : Option Deferred :=
  if d.running then some { d with running := false } else none

/-- Stopped, once the handler has returned; what is pending is dropped. -/
def stop (d : Deferred) : Option Deferred :=
  if d.running then none else some { d with pending := false }

/-- Initialised, again or for the first time : what is pending is dropped. -/
def reset (d : Deferred) : Deferred :=
  { d with pending := false }

/-- Neither pending nor running. -/
def Quiet (d : Deferred) : Prop :=
  d.pending = false ∧ d.running = false

instance (d : Deferred) : Decidable d.Quiet :=
  inferInstanceAs (Decidable (d.pending = false ∧ d.running = false))

/-- A run has started for every new one of the raises that the runs have seen. -/
structure Counted (d : Deferred) : Prop where
  runs_le : d.runs ≤ d.seen
  seen_le : d.seen ≤ d.raised
  seen_lt : d.pending = true → d.seen < d.raised

/-- And every raise has been seen by a run, or one is pending. -/
structure Served (d : Deferred) : Prop extends Counted d where
  seen : d.pending = false → d.seen = d.raised

variable {d d' : Deferred}

@[simp] theorem reset_zeroed : zeroed.reset = zeroed :=
  rfl

theorem quiet_zeroed : zeroed.Quiet :=
  ⟨rfl, rfl⟩

theorem served_zeroed : zeroed.Served :=
  ⟨⟨Nat.le_refl _, Nat.le_refl _, nofun⟩, fun _ => rfl⟩

theorem Counted.raise (h : d.Counted) : d.raise.Counted :=
  ⟨h.runs_le, Nat.le_succ_of_le h.seen_le, fun _ => Nat.lt_succ_of_le h.seen_le⟩

theorem Served.raise (h : d.Served) : d.raise.Served :=
  ⟨h.toCounted.raise, nofun⟩

theorem of_start (h : d.start = some d') : d.pending = true ∧
    d' = { d with pending := false, running := true, runs := d.runs + 1, seen := d.raised } := by
  simp only [start] at h
  split_ifs at h with hpending
  exact ⟨hpending.1, (Option.some.inj h).symm⟩

theorem of_finish (h : d.finish = some d') :
    d.running = true ∧ d' = { d with running := false } := by
  simp only [finish] at h
  split_ifs at h with hrunning
  exact ⟨hrunning, (Option.some.inj h).symm⟩

theorem of_stop (h : d.stop = some d') :
    d.running = false ∧ d' = { d with pending := false } := by
  simp only [stop] at h
  split_ifs at h with hrunning
  exact ⟨eq_false_of_ne_true hrunning, (Option.some.inj h).symm⟩

/-- The start of a run sees a raise that no run before it has seen. -/
theorem Counted.start (h : d.Counted) (hs : d.start = some d') : d'.Counted := by
  obtain ⟨hpending, rfl⟩ := of_start hs
  exact ⟨Nat.succ_le_of_lt (Nat.lt_of_le_of_lt h.runs_le (h.seen_lt hpending)), Nat.le_refl _,
    nofun⟩

theorem Served.start (h : d.Served) (hs : d.start = some d') : d'.Served := by
  have hcounted := h.toCounted.start hs
  obtain ⟨-, rfl⟩ := of_start hs
  exact ⟨hcounted, fun _ => rfl⟩

theorem Counted.finish (h : d.Counted) (hs : d.finish = some d') : d'.Counted := by
  obtain ⟨-, rfl⟩ := of_finish hs
  exact ⟨h.runs_le, h.seen_le, h.seen_lt⟩

theorem Served.finish (h : d.Served) (hs : d.finish = some d') : d'.Served := by
  have hcounted := h.toCounted.finish hs
  obtain ⟨-, rfl⟩ := of_finish hs
  exact ⟨hcounted, h.seen⟩

theorem Counted.stop (h : d.Counted) (hs : d.stop = some d') : d'.Counted := by
  obtain ⟨-, rfl⟩ := of_stop hs
  exact ⟨h.runs_le, h.seen_le, nofun⟩

theorem quiet_stop (hs : d.stop = some d') : d'.Quiet := by
  obtain ⟨hrunning, rfl⟩ := of_stop hs
  exact ⟨rfl, hrunning⟩

theorem Quiet.start_eq_none (h : d.Quiet) : d.start = none :=
  if_neg fun hpending => Bool.false_ne_true (h.1.symm.trans hpending.1)

theorem Quiet.finish_eq_none (h : d.Quiet) : d.finish = none :=
  if_neg (h.2 ▸ Bool.false_ne_true)

end Deferred
