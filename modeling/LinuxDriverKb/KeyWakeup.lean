import LinuxDriverKb.KeyDevice
import LinuxDriverKb.Lib.Transition

/-!
# Wake-ups of the key devices

A reader or poller queues itself on `wq` before it tests `key_value` and sleeps, and the
handler sets `key_value` before it notifies. Waking `wq` therefore reaches every process
that went to sleep before. `kill_fasync`, which the fasync drivers call instead once a
process is registered, reaches the registered processes only, and those of them that neither
block nor ignore `SIGIO`.

`noLostWakeup_iff` : a run loses no wake-up exactly if each `kill_fasync` finds the press
read already, or every sleeper with a wake-up pending, or on its list and open to `SIGIO`.
-/

set_option autoImplicit false

namespace LinuxDriverKb

namespace KeyDevice

variable {Proc : Type}

/-- Asleep on `wq`, in a read or in a poll. -/
def Local.Sleeping (l : Local) : Prop :=
  l.pc = .asleep ∨ l.pc = .pollAsleep

/-- A wake-up or a signal is pending. -/
def Local.WakePending (l : Local) : Prop :=
  l.woken = true ∨ l.sig = true

/-- With `key_value` set and no handler running, no process sleeps without a wake-up
pending. -/
def NoLostWakeup (s : State Proc) : Prop :=
  s.handler = .idle → s.key ≠ 0 → ∀ q, (s.procs q).Sleeping → (s.procs q).WakePending

/-- `kill_fasync` runs with the press read already, or with each sleeper woken, or registered
and open to `SIGIO`. -/
def KillReaches (s : State Proc) (a : Action Proc) (_ : State Proc) : Prop :=
  a = .notify → s.handler = .kill → s.key ≠ 0 → ∀ q, (s.procs q).Sleeping →
    (s.procs q).WakePending ∨ (q ∈ s.fasync ∧ s.blocked q = false)

/-! ## The invariant -/

/-- A process between its last test of `key_value` and its sleep, or asleep. -/
def Local.Waiting (l : Local) : Prop :=
  l.Sleeping ∨ l.pc = .recheck ∨ l.pc = .pollTest

/-- A waiting process is on `wq`. -/
def Queued (s : State Proc) : Prop :=
  ∀ q, (s.procs q).Waiting → (s.procs q).queued = true

theorem queued_init : Queued (init : State Proc) := by
  intro q hq
  simp [init, Local.Waiting, Local.Sleeping] at hq

theorem noLostWakeup_init : NoLostWakeup (init : State Proc) :=
  fun _ hkey => absurd rfl hkey

/-- A process goes to sleep, or on waiting, only queued, and it goes to sleep only with
`key_value` 0. -/
theorem Local.next_waiting {key : ℤ} {l l' : Local} (h : l.next key = some l')
    (hl : l.Waiting → l.queued = true) :
    (l'.Waiting → l'.queued = true) ∧ (key ≠ 0 → ¬ l'.Sleeping) := by
  unfold Local.next at h
  split at h <;> (try split_ifs at h) <;> cases h <;>
    simp_all [Local.Waiting, Local.Sleeping]

theorem waiting_killFasync [DecidableEq Proc] (s : State Proc) (q : Proc) :
    ((killFasync s q).Waiting ↔ (s.procs q).Waiting) ∧
      (killFasync s q).queued = (s.procs q).queued := by
  unfold killFasync
  split_ifs <;> exact ⟨Iff.rfl, rfl⟩

variable [DecidableEq Proc]

theorem Queued.setLocal {s : State Proc} (h : Queued s) {q : Proc} {l : Local}
    (hl : l.Waiting → l.queued = true) : Queued (s.setLocal q l) := by
  intro r hr
  rcases s.setLocal_cases q l r with ⟨-, hq⟩ | ⟨-, hq⟩ <;> rw [hq] at hr ⊢
  · exact hl hr
  · exact h r hr

theorem NoLostWakeup.setLocal {s : State Proc} (h : NoLostWakeup s) {q : Proc} {l : Local}
    (hl : s.key ≠ 0 → l.Sleeping → l.WakePending) : NoLostWakeup (s.setLocal q l) := by
  intro hidle hkey r hr
  rcases s.setLocal_cases q l r with ⟨-, hq⟩ | ⟨-, hq⟩ <;> rw [hq] at hr ⊢
  · exact hl hkey hr
  · exact h hidle hkey r hr

/-! ## Steps -/

theorem queued_notify {s s' : State Proc} (h : Queued s) (hstep : notifyStep s = some s') :
    Queued s' := by
  unfold notifyStep at hstep
  split at hstep <;> cases hstep
  · exact h
  · intro q hq
    obtain ⟨hiff, hqueued⟩ := waiting_killFasync s q
    exact hqueued.trans (h q (hiff.mp hq))
  · exact h

theorem queued_step {d : Driver} {s s' : State Proc} {a : Action Proc} (h : Queued s)
    (hstep : step d s a = some s') : Queued s' := by
  cases stepCase_of_step hstep with
  | press _ | noPress | mask | fasync | release => exact h
  | notify hn => exact queued_notify h hn
  | next hl => exact h.setLocal (Local.next_waiting hl (h _)).1
  | signal => exact h.setLocal (h _)
  | read | poll | sample | clear _ | copy _ =>
    exact h.setLocal fun hw => by simp [Local.Waiting, Local.Sleeping] at hw

/-- Waking `wq` reaches every sleeper, `kill_fasync` those on its list that are open to
`SIGIO`. -/
theorem noLostWakeup_notify_iff {s s' : State Proc} (h : Queued s)
    (hstep : notifyStep s = some s') : NoLostWakeup s' ↔ KillReaches s .notify s' := by
  unfold notifyStep at hstep
  split at hstep <;> cases hstep
  · rename_i htest
    refine iff_of_true (fun hidle => ?_) fun _ hkill => ?_
    · dsimp only at hidle
      split_ifs at hidle
    · rw [htest] at hkill
      cases hkill
  · rename_i hkill
    have hproc : ∀ q, ((killFasync s q).Sleeping ↔ (s.procs q).Sleeping) ∧
        ((killFasync s q).WakePending ↔
          (s.procs q).WakePending ∨ (q ∈ s.fasync ∧ s.blocked q = false)) := by
      intro q
      unfold killFasync
      split_ifs with hq
      · exact ⟨Iff.rfl, iff_of_true (.inr rfl) (.inr hq)⟩
      · exact ⟨Iff.rfl, (or_iff_left hq).symm⟩
    constructor
    · intro hs' _ _ hkey q hq
      exact (hproc q).2.mp (hs' rfl hkey q ((hproc q).1.mpr hq))
    · intro hreach _ hkey q hq
      exact (hproc q).2.mpr (hreach rfl hkill hkey q ((hproc q).1.mp hq))
  · rename_i hwake
    refine iff_of_true (fun _ _ q hq => ?_) fun _ hkill => ?_
    · -- a sleeper is on `wq`
      have hqueued : (s.procs q).queued = true := h q (.inl hq)
      exact .inl (by simp [wakeUp, hqueued])
    · rw [hwake] at hkill
      cases hkill

/-- Only a notification can lose a wake-up. -/
theorem noLostWakeup_of_ne_notify {d : Driver} {s s' : State Proc} {a : Action Proc}
    (h : NoLostWakeup s) (hq : Queued s) (ha : a ≠ .notify) (hstep : step d s a = some s') :
    NoLostWakeup s' := by
  cases stepCase_of_step hstep with
  | press _ =>
    -- the handler has still to notify
    intro hidle
    dsimp only [press] at hidle
    split_ifs at hidle
  | notify _ => exact absurd rfl ha
  | noPress | mask | fasync | release => exact h
  | next hl => exact h.setLocal fun hkey hs => absurd hs ((Local.next_waiting hl (hq _)).2 hkey)
  | clear _ => exact fun _ hkey => absurd rfl hkey
  | signal => exact h.setLocal fun _ _ => .inr rfl
  | read | poll | sample | copy _ =>
    exact h.setLocal fun _ hs => by simp [Local.Sleeping] at hs

theorem noLostWakeup_step_iff {d : Driver} {s s' : State Proc} {a : Action Proc}
    (h : NoLostWakeup s) (hq : Queued s) (hstep : step d s a = some s') :
    NoLostWakeup s' ↔ KillReaches s a s' := by
  by_cases ha : a = .notify
  · subst ha
    exact noLostWakeup_notify_iff hq hstep
  · exact iff_of_true (noLostWakeup_of_ne_notify h hq ha hstep) fun h => absurd h ha

/-! ## Runs -/

/-- Any processes, any interleaving, any of the drivers : no run state has `key_value` set,
no handler running and a process asleep without a wake-up pending, exactly if each
`kill_fasync` of the run reaches the sleepers. -/
theorem noLostWakeup_iff (d : Driver) (as : List (Action Proc)) :
    Transition.Always (step d) (fun _ _ s' => NoLostWakeup s') init as ↔
      Transition.Always (step d) KillReaches init as :=
  Transition.always_congr (I := fun s => NoLostWakeup s ∧ Queued s)
    (fun _ _ _ h hstep => noLostWakeup_step_iff h.1 h.2 hstep)
    (fun _ _ _ h hstep hs' => ⟨hs', queued_step h.2 hstep⟩) ⟨noLostWakeup_init, queued_init⟩

/-- The handler of a driver without `char_dev_fasync` always wakes `wq`. -/
theorem handler_of_noFasync {d : Driver} (hd : d.hasFasync = false) {s s' : State Proc}
    {a : Action Proc} (h : s.handler = .idle ∨ s.handler = .wake) (hstep : step d s a = some s') :
    s'.handler = .idle ∨ s'.handler = .wake := by
  cases stepCase_of_step hstep with
  | press _ => exact .inr (by simp [press, hd])
  | notify hn =>
    unfold notifyStep at hn
    rcases h with h | h <;> rw [h] at hn
    · cases hn
    · obtain rfl := Option.some.inj hn
      exact .inl rfl
  | noPress | read | poll | next _ | sample | clear _ | copy _ | signal | mask | fasync | release =>
    exact h

/-- The drivers without `char_dev_fasync` lose no wake-up, in any run. -/
theorem noLostWakeup_of_noFasync {d : Driver} (hd : d.hasFasync = false) {as : List (Action Proc)}
    {s : State Proc} (hrun : Transition.run (step d) init as = some s) : NoLostWakeup s := by
  have hinv := Transition.inv_run
    (I := fun s => (NoLostWakeup s ∧ Queued s) ∧ (s.handler = .idle ∨ s.handler = .wake))
    (fun s a s' h hstep => ?_) ⟨⟨noLostWakeup_init, queued_init⟩, .inl rfl⟩ hrun
  · exact hinv.1.1
  · obtain ⟨⟨hw, hq⟩, hh⟩ := h
    have hreach : KillReaches s a s' := fun _ hkill => by
      rcases hh with hh | hh <;> rw [hkill] at hh <;> cases hh
    exact ⟨⟨(noLostWakeup_step_iff hw hq hstep).mpr hreach, queued_step hq hstep⟩,
      handler_of_noFasync hd hh hstep⟩

/-- One process registers for `SIGIO`, another sleeps in a read; the handler signals the
one and leaves the other asleep, in both fasync drivers. So does a process that is registered,
and sleeps in a read with `SIGIO` blocked. -/
theorem fasync_loses_wakeup :
    (∃ s : State Bool, Transition.run (step .fasyncIo) init [.fasync false true, .read true false,
      .next true, .next true, .next true, .next true, .timer 0, .notify, .notify] = some s ∧
      ¬ NoLostWakeup s) ∧
    (∃ s : State Bool, Transition.run (step .fasyncIoMisc) init
      [.fasync false true, .read true false, .next true, .next true, .next true, .next true,
        .timer 0, .notify, .notify] = some s ∧
      ¬ NoLostWakeup s) ∧
    ∃ s : State Unit, Transition.run (step .fasyncIo) init
      [.fasync () true, .mask () true, .read () false, .next (), .next (), .next (), .next (),
        .timer 0, .notify, .notify] = some s ∧
      ¬ NoLostWakeup s := by
  refine ⟨⟨_, rfl, fun h => ?_⟩, ⟨_, rfl, fun h => ?_⟩, ⟨_, rfl, fun h => ?_⟩⟩
  · rcases h rfl Int.one_ne_zero true (.inl rfl) with hw | hs
    · exact Bool.false_ne_true hw
    · exact Bool.false_ne_true hs
  · rcases h rfl Int.one_ne_zero true (.inl rfl) with hw | hs
    · exact Bool.false_ne_true hw
    · exact Bool.false_ne_true hs
  · rcases h rfl Int.one_ne_zero () (.inl rfl) with hw | hs
    · exact Bool.false_ne_true hw
    · exact Bool.false_ne_true hs

end KeyDevice

end LinuxDriverKb
