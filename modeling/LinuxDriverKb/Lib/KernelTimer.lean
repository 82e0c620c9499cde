import Mathlib.Tactic.SplitIfs

/-!
# Kernel timers

A timer that is set up, armed with `mod`, and expires into a run of its handler, without the
times at which it does. `Quiet` : neither armed nor in its handler, so that nothing will use
it again by itself. Only `mod` leaves that.
-/

set_option autoImplicit false

/-- Set up, pending, and in its handler. -/
structure KernelTimer where
  setUp : Bool
  armed : Bool
  running : Bool
  deriving DecidableEq

namespace KernelTimer

/-- In zeroed memory. -/
def zeroed : KernelTimer :=
  ⟨false, false, false⟩

/-- `setup_timer` : no longer pending, whatever it was. -/
def setup (t : KernelTimer) : KernelTimer :=
  { t with setUp := true, armed := false }

/-- `mod_timer`. -/
def mod (t : KernelTimer) : KernelTimer :=
  { t with armed := true }

/-- The timer expires, and its handler starts; a handler does not run beside itself. -/
def expire (t : KernelTimer) : Option KernelTimer :=
  if t.armed ∧ ¬t.running then some { t with armed := false, running := true } else none

/-- The handler returns. -/
def finish (t : KernelTimer) : Option KernelTimer :=
  if t.running then some { t with running := false } else none

/-- `del_timer_sync`, once it has waited for the handler : what that re-armed is deleted. -/
def delSync (t : KernelTimer) : Option KernelTimer :=
  if t.running then none else some { t with armed := false }

/-- Neither armed nor in its handler. -/
def Quiet (t : KernelTimer) : Prop :=
  t.armed = false ∧ t.running = false

instance (t : KernelTimer) : Decidable t.Quiet :=
  inferInstanceAs (Decidable (t.armed = false ∧ t.running = false))

variable {t t' : KernelTimer}

theorem quiet_zeroed : zeroed.Quiet :=
  ⟨rfl, rfl⟩

theorem not_quiet_mod (t : KernelTimer) : ¬t.mod.Quiet :=
  fun h => nomatch h.1

theorem of_expire (h : t.expire = some t') :
    t.armed = true ∧ t' = { t with armed := false, running := true } := by
  simp only [expire] at h
  split_ifs at h with harmed
  exact ⟨harmed.1, (Option.some.inj h).symm⟩

theorem of_finish (h : t.finish = some t') :
    t.running = true ∧ t' = { t with running := false } := by
  simp only [finish] at h
  split_ifs at h with hrunning
  exact ⟨hrunning, (Option.some.inj h).symm⟩

/-- A quiet timer does not expire. -/
theorem Quiet.expire_eq_none (h : t.Quiet) : t.expire = none :=
  if_neg fun harmed => Bool.false_ne_true (h.1.symm.trans harmed.1)

theorem Quiet.finish_eq_none (h : t.Quiet) : t.finish = none :=
  if_neg (h.2 ▸ Bool.false_ne_true)

theorem quiet_delSync (h : t.delSync = some t') : t'.Quiet ∧ t'.setUp = t.setUp := by
  simp only [delSync] at h
  split_ifs at h with hrunning
  obtain rfl := Option.some.inj h
  exact ⟨⟨rfl, eq_false_of_ne_true hrunning⟩, rfl⟩

end KernelTimer
