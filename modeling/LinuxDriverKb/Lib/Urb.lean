import Mathlib.Data.Int.Notation
import Mathlib.Data.Nat.Notation
import Mathlib.Tactic.SplitIfs

/-!
# USB request blocks

A request block that is submitted to the USB core, given back by it into a run of the
completion handler, which may submit it again, and killed. While it is being killed it
cannot be submitted; the kill ends once the block is idle. `Idle` : neither submitted nor
in a handler, so that the core will not use it again by itself.
-/

set_option autoImplicit false

/-- Submitted and not given back, the runs of its handler that have not ended, and whether it
is being killed. -/
structure Urb where
  queued : Bool
  handlers : ℕ
  reject : Bool
  deriving DecidableEq

namespace Urb

/-- `-EBUSY`. -/
def ebusy : ℤ := -16

/-- `-EPERM`. -/
def eperm : ℤ := -1

/-- As allocated. -/
def alloc : Urb :=
  ⟨false, 0, false⟩

/-- `usb_submit_urb` : the result, with `hcd` the one of the host controller driver. -/
def submit (u : Urb) (hcd : ℤ) : ℤ × Urb :=
  if u.queued then (ebusy, u)
  else if u.reject then (eperm, u)
  else if hcd < 0 then (hcd, u)
  else (0, { u with queued := true })

/-- The core gives the block back, and its handler starts. -/
def giveback (u : Urb) : Option Urb :=
  if u.queued then some { u with queued := false, handlers := u.handlers + 1 } else none

/-- A run of the handler ends. -/
def finish (u : Urb) : Option Urb :=
  if 0 < u.handlers then some { u with handlers := u.handlers - 1 } else none

/-- `usb_kill_urb` begins. -/
def kill (u : Urb) : Urb :=
  { u with reject := true }

/-- `usb_kill_urb` ends, once it has waited for the handlers. -/
def killed (u : Urb) : Option Urb :=
  if u.queued = false ∧ u.handlers = 0 then some { u with reject := false } else none

/-- Neither submitted nor in a handler. -/
def Idle (u : Urb) : Prop :=
  u.queued = false ∧ u.handlers = 0

instance (u : Urb) : Decidable u.Idle :=
  inferInstanceAs (Decidable (u.queued = false ∧ u.handlers = 0))

variable {u u' : Urb}

theorem idle_alloc : alloc.Idle :=
  ⟨rfl, rfl⟩

/-- A submission fails and leaves the block as it was, or queues it. -/
theorem submit_cases (u : Urb) (hcd : ℤ) :
    ((u.submit hcd).1 < 0 ∧ (u.submit hcd).2 = u) ∨
      (u.queued = false ∧ u.reject = false ∧ u.submit hcd = (0, { u with queued := true })) := by
  unfold submit
  split_ifs with hq hr hneg
  · exact Or.inl ⟨show ebusy < 0 by decide, rfl⟩
  · exact Or.inl ⟨show eperm < 0 by decide, rfl⟩
  · exact Or.inl ⟨hneg, rfl⟩
  · exact Or.inr ⟨eq_false_of_ne_true hq, eq_false_of_ne_true hr, rfl⟩

theorem submit_reject (hcd : ℤ) : (u.submit hcd).2.reject = u.reject := by
  rcases submit_cases u hcd with ⟨-, h⟩ | ⟨-, -, h⟩ <;> rw [h]

theorem submit_handlers (hcd : ℤ) : (u.submit hcd).2.handlers = u.handlers := by
  rcases submit_cases u hcd with ⟨-, h⟩ | ⟨-, -, h⟩ <;> rw [h]

theorem of_giveback (h : u.giveback = some u') :
    u.queued = true ∧ u' = { u with queued := false, handlers := u.handlers + 1 } := by
  simp only [giveback] at h
  split_ifs at h with hq
  exact ⟨hq, (Option.some.inj h).symm⟩

theorem of_finish (h : u.finish = some u') :
    0 < u.handlers ∧ u' = { u with handlers := u.handlers - 1 } := by
  simp only [finish] at h
  split_ifs at h with hpos
  exact ⟨hpos, (Option.some.inj h).symm⟩

theorem of_killed (h : u.killed = some u') : u.Idle ∧ u' = { u with reject := false } := by
  simp only [killed] at h
  split_ifs at h with hidle
  exact ⟨hidle, (Option.some.inj h).symm⟩

end Urb
