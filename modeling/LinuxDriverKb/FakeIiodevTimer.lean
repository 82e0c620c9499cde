import LinuxDriverKb.Lib.KernelTimer
import LinuxDriverKb.Lib.Transition

/-!
# The life cycle of the timer of `fake_iiodev.c`

The probe registers the device before it sets up the timer, and the release unregisters it
after `del_timer_sync`. A write of the period arms the timer, and user space can make one as
long as the device is registered.

`timer_iff` : over any run the timer is armed only once it is set up, and is neither armed
nor in its handler when the private data is freed, if and only if no write arms it in one of
the two windows.
-/

set_option autoImplicit false

namespace LinuxDriverKb

namespace FakeIiodev

namespace Lifecycle

/-! ## The parties -/

/-- The next step of `fake_iiodev_probe`, then of the removal. -/
inductive Phase
  /-- `devm_iio_device_alloc`. -/
  | alloc
  /-- `devm_iio_triggered_buffer_setup`. -/
  | buffer
  /-- `devm_iio_device_register`. -/
  | register
  | setupTimer
  | modTimer
  /-- Probed; `fake_iiodev_remove` is next. -/
  | bound
  /-- The release unregisters the device. -/
  | unregister
  /-- The release frees the private data. -/
  | free
  | freed
  deriving DecidableEq

/-- User space reaches `write_raw`. -/
def Phase.Registered : Phase → Prop
  | .setupTimer | .modTimer | .bound | .unregister => True
  | _ => False

instance : DecidablePred Phase.Registered
  | .setupTimer | .modTimer | .bound | .unregister => inferInstanceAs (Decidable True)
  | .alloc | .buffer | .register | .free | .freed => inferInstanceAs (Decidable False)

/-- `writers` are the calls of `write_raw` that have not reached their critical section. A
running handler has `rearmed` the timer or not yet. `late` : a write has armed the timer
since `del_timer_sync`. -/
structure State where
  phase : Phase
  timer : KernelTimer
  rearmed : Bool
  writers : ℕ
  late : Bool
  deriving DecidableEq

/-- What happens next. -/
inductive Action
  /-- The next step of the probe, which may fail. -/
  | probe (ok : Bool)
  /-- A call of `write_raw` for the period. -/
  | write
  /-- The critical section of such a call. -/
  | writeMod
  /-- The timer expires, and `lux_auto_change` starts. -/
  | expire
  /-- The critical section of `lux_auto_change`. -/
  | handlerMod
  | handlerReturn
  /-- `fake_iiodev_remove`. -/
  | remove
  /-- The release unregisters the device, once the calls in progress are over. -/
  | unregister
  /-- The release frees the private data. -/
  | free
  deriving DecidableEq

/-- A step of the probe. The first three may fail. -/
def probe (s : State) (ok : Bool) : Option State :=
  match s.phase with
  | .alloc => some { s with phase := if ok then .buffer else .freed }
  | .buffer => some { s with phase := if ok then .register else .free }
  | .register => some { s with phase := if ok then .setupTimer else .free }
  | .setupTimer => some { s with phase := .modTimer, timer := s.timer.setup }
  | .modTimer => some { s with phase := .bound, timer := s.timer.mod }
  | _ => none

/-- One action. -/
def step (s : State) : Action → Option State
  | .probe ok => probe s ok
  | .write => if s.phase.Registered then some { s with writers := s.writers + 1 } else none
  | .writeMod =>
    if 0 < s.writers then
      some { s with timer := s.timer.mod, writers := s.writers - 1,
                    late := s.late || decide (s.phase = .unregister) }
    else none
  | .expire => s.timer.expire.map fun t => { s with timer := t, rearmed := false }
  | .handlerMod =>
    if s.timer.running ∧ ¬s.rearmed then some { s with timer := s.timer.mod, rearmed := true }
    else none
  | .handlerReturn =>
    if s.rearmed then s.timer.finish.map fun t => { s with timer := t } else none
  | .remove =>
    if s.phase = .bound then
      s.timer.delSync.map fun t => { s with phase := .unregister, timer := t }
    else none
  | .unregister =>
    if s.phase = .unregister ∧ s.writers = 0 then some { s with phase := .free } else none
  | .free => if s.phase = .free then some { s with phase := .freed } else none

/-- Zeroed memory, and no device yet. -/
def start : State where
  phase := .alloc
  timer := .zeroed
  rearmed := false
  writers := 0
  late := false

/-! ## What a run should do -/

/-- The steps that call `mod_timer`. -/
def CallsModTimer (s : State) : Action → Prop
  | .probe _ => s.phase = .modTimer
  | .writeMod | .handlerMod => True
  | _ => False

instance (s : State) : DecidablePred (CallsModTimer s)
  | .probe _ => inferInstanceAs (Decidable (s.phase = .modTimer))
  | .writeMod | .handlerMod => inferInstanceAs (Decidable True)
  | .write | .expire | .handlerReturn | .remove | .unregister | .free =>
    inferInstanceAs (Decidable False)

/-- `mod_timer` finds the timer set up, and the release finds it quiet. -/
def Safe (s : State) (a : Action) (_ : State) : Prop :=
  (CallsModTimer s a → s.timer.setUp = true) ∧ (a = .free → s.timer.Quiet)

instance (s : State) (a : Action) (s' : State) : Decidable (Safe s a s') :=
  inferInstanceAs (Decidable ((CallsModTimer s a → s.timer.setUp = true) ∧
    (a = .free → s.timer.Quiet)))

/-- A write arms the timer only after the probe has set it up, and when the private data is
freed none has since `del_timer_sync`. -/
def OutsideWindows (s : State) (a : Action) (_ : State) : Prop :=
  (a = .writeMod → s.phase ≠ .setupTimer) ∧ (a = .free → s.late = false)

/-! ## The timer in each phase -/

/-- The phases before `setup_timer`. -/
def Phase.Early : Phase → Prop
  | .alloc | .buffer | .register | .setupTimer => True
  | _ => False

/-- The phases after `del_timer_sync`, or after a failed probe. -/
def Phase.Gone : Phase → Prop
  | .unregister | .free | .freed => True
  | _ => False

namespace Phase

variable {p : Phase}

theorem Registered.not_early (h : p.Registered) (hp : p ≠ .setupTimer) : ¬p.Early := by
  cases p <;> simp_all [Registered, Early]

theorem Registered.eq_unregister (h : p.Registered) (hgone : p.Gone) : p = .unregister := by
  cases p <;> simp_all [Registered, Gone]

theorem Early.not_gone (h : p.Early) : ¬p.Gone := by
  cases p <;> simp_all [Early, Gone]

end Phase

/-- Where the timer can be in each phase. -/
structure Inv (s : State) : Prop where
  early : s.phase.Early → s.timer = .zeroed
  setUp : s.phase.Registered → ¬s.phase.Early → s.timer.setUp = true
  /-- Whoever armed the timer had set it up. -/
  used : ¬s.timer.Quiet → s.timer.setUp = true
  /-- A handler that has re-armed the timer leaves it armed. -/
  rearmed : s.timer.running = true → s.rearmed = true → s.timer.armed = true
  writers : 0 < s.writers → s.phase.Registered
  /-- After `del_timer_sync` only a write brings the timer back, and then for good. -/
  gone : s.phase.Gone → (¬s.timer.Quiet ↔ s.late = true)
  late : ¬s.phase.Gone → s.late = false

theorem inv_start : Inv start where
  early _ := rfl
  setUp h := h.elim
  used h := absurd KernelTimer.quiet_zeroed h
  rearmed h := nomatch h
  writers h := absurd h (Nat.lt_irrefl 0)
  gone h := h.elim
  late _ := rfl

variable {s s' : State}

/-- A step that leaves the phase, the writers and `late` alone keeps the invariant if it keeps
what it says of the timer. -/
theorem Inv.with_timer (h : Inv s) {t : KernelTimer} {rearmed : Bool}
    (hearly : ¬s.phase.Early) (hsetUp : t.setUp = s.timer.setUp)
    (hquiet : t.Quiet ↔ s.timer.Quiet)
    (hrearmed : t.running = true → rearmed = true → t.armed = true) :
    Inv { s with timer := t, rearmed := rearmed } where
  early he := absurd he hearly
  setUp hr he := hsetUp.trans (h.setUp hr he)
  used hno := hsetUp.trans (h.used fun hq => hno (hquiet.mpr hq))
  rearmed := hrearmed
  writers := h.writers
  gone hg := by
    rw [not_congr hquiet]
    exact h.gone hg
  late := h.late

/-- A timer that is not quiet has left the early phases. -/
theorem Inv.not_early (h : Inv s) (hno : ¬s.timer.Quiet) : ¬s.phase.Early := by
  intro he
  rw [h.early he] at hno
  exact hno KernelTimer.quiet_zeroed

theorem not_quiet_of_running {t : KernelTimer} (h : t.running = true) : ¬t.Quiet :=
  fun hq => Bool.false_ne_true (hq.2.symm.trans h)

theorem not_quiet_of_armed {t : KernelTimer} (h : t.armed = true) : ¬t.Quiet :=
  fun hq => Bool.false_ne_true (hq.1.symm.trans h)

theorem inv_expire (h : Inv s) (hstep : step s .expire = some s') : Inv s' := by
  obtain ⟨t, ht, rfl⟩ := Option.map_eq_some_iff.mp hstep
  obtain ⟨harmed, rfl⟩ := KernelTimer.of_expire ht
  have hno := not_quiet_of_armed harmed
  refine h.with_timer (h.not_early hno) rfl (iff_of_false ?_ hno) fun _ hr => nomatch hr
  exact not_quiet_of_running rfl

theorem inv_handlerMod (h : Inv s) (hstep : step s .handlerMod = some s') :
    s.timer.setUp = true ∧ Inv s' := by
  simp only [step] at hstep
  split_ifs at hstep with hrunning
  obtain rfl := Option.some.inj hstep
  have hno := not_quiet_of_running hrunning.1
  refine ⟨h.used hno, h.with_timer (h.not_early hno) rfl (iff_of_false ?_ hno) fun _ _ => rfl⟩
  exact KernelTimer.not_quiet_mod s.timer

theorem inv_handlerReturn (h : Inv s) (hstep : step s .handlerReturn = some s') : Inv s' := by
  simp only [step] at hstep
  split_ifs at hstep with hrearmed
  obtain ⟨t, ht, rfl⟩ := Option.map_eq_some_iff.mp hstep
  obtain ⟨hrunning, rfl⟩ := KernelTimer.of_finish ht
  have hno := not_quiet_of_running hrunning
  have harmed := h.rearmed hrunning hrearmed
  refine h.with_timer (h.not_early hno) rfl (iff_of_false ?_ hno) fun hr => nomatch hr
  exact not_quiet_of_armed harmed

/-- The critical section of a write finds the timer set up exactly after `setup_timer`. -/
theorem safe_writeMod (h : Inv s) (hw : 0 < s.writers) :
    s.timer.setUp = true ↔ s.phase ≠ .setupTimer := by
  constructor
  · intro hsetUp hphase
    rw [h.early (hphase ▸ True.intro)] at hsetUp
    exact nomatch hsetUp
  · intro hphase
    have hreg := h.writers hw
    exact h.setUp hreg (hreg.not_early hphase)

theorem inv_writeMod (h : Inv s) (hstep : step s .writeMod = some s')
    (hphase : s.phase ≠ .setupTimer) : Inv s' := by
  simp only [step] at hstep
  split_ifs at hstep with hw
  obtain rfl := Option.some.inj hstep
  have hreg := h.writers hw
  have hsetUp := (safe_writeMod h hw).mpr hphase
  have hearly := hreg.not_early hphase
  refine ⟨fun he => absurd he hearly, fun _ _ => hsetUp, fun _ => hsetUp, fun _ _ => rfl,
    fun _ => hreg, fun hg => iff_of_true (KernelTimer.not_quiet_mod s.timer) ?_, fun hg => ?_⟩
  · simp [hreg.eq_unregister hg]
  · have hunreg : s.phase ≠ .unregister := by
      intro hu
      exact hg (by simp [hu, Phase.Gone])
    simp [h.late hg, hunreg]

theorem inv_remove (h : Inv s) (hstep : step s .remove = some s') : Inv s' := by
  simp only [step] at hstep
  split_ifs at hstep with hphase
  obtain ⟨t, ht, rfl⟩ := Option.map_eq_some_iff.mp hstep
  obtain ⟨hquiet, hsetUp⟩ := KernelTimer.quiet_delSync ht
  have hlate : s.late = false := h.late (hphase ▸ not_false)
  have hset : t.setUp = true := hsetUp.trans (h.setUp (hphase ▸ True.intro) (hphase ▸ not_false))
  refine ⟨fun he => he.elim, fun _ _ => hset, fun _ => hset,
    fun hr => absurd hr (by simp [hquiet.2]), fun _ => True.intro,
    fun _ => iff_of_false (not_not_intro hquiet) (by simp [hlate]), fun hg => absurd True.intro hg⟩

theorem inv_unregister (h : Inv s) (hstep : step s .unregister = some s') : Inv s' := by
  simp only [step] at hstep
  split_ifs at hstep with hphase
  obtain rfl := Option.some.inj hstep
  exact ⟨fun he => he.elim, fun hr => hr.elim, h.used, h.rearmed,
    fun hw => absurd hw (Nat.ne_of_gt · hphase.2), fun _ => h.gone (hphase.1 ▸ True.intro),
    fun hg => absurd True.intro hg⟩

/-- A failed or successful step of the probe before `setup_timer`. -/
theorem inv_early {phase : Phase} (h : Inv s) (he : s.phase.Early)
    (hreg : s.phase.Registered → phase.Registered) (hset : phase.Registered → phase.Early) :
    Inv { s with phase := phase } where
  early _ := h.early he
  setUp hr hearly := absurd (hset hr) hearly
  used := h.used
  rearmed := h.rearmed
  writers hw := hreg (h.writers hw)
  gone _ := by
    have hlate := h.late he.not_gone
    rw [h.early he, hlate]
    exact iff_of_false (not_not_intro KernelTimer.quiet_zeroed) Bool.false_ne_true
  late _ := h.late he.not_gone

theorem inv_probe (h : Inv s) {ok : Bool} (hstep : step s (.probe ok) = some s') :
    (s.phase = .modTimer → s.timer.setUp = true) ∧ Inv s' := by
  simp only [step, probe] at hstep
  cases hphase : s.phase with
  | alloc | buffer | register =>
    simp only [hphase] at hstep
    obtain rfl := Option.some.inj hstep
    refine ⟨nofun, inv_early h (hphase ▸ True.intro) (by simp [hphase, Phase.Registered]) ?_⟩
    cases ok <;> simp [Phase.Registered, Phase.Early]
  | setupTimer =>
    simp only [hphase] at hstep
    obtain rfl := Option.some.inj hstep
    have hzero := h.early (hphase ▸ True.intro)
    have hlate := h.late (hphase ▸ not_false)
    exact ⟨nofun, fun he => he.elim, fun _ _ => rfl, fun _ => rfl,
      fun hr => absurd hr (by simp [hzero, KernelTimer.setup, KernelTimer.zeroed]),
      fun _ => True.intro, fun hg => hg.elim, fun _ => hlate⟩
  | modTimer =>
    simp only [hphase] at hstep
    obtain rfl := Option.some.inj hstep
    have hset := h.setUp (hphase ▸ True.intro) (hphase ▸ not_false)
    have hlate := h.late (hphase ▸ not_false)
    exact ⟨fun _ => hset, fun he => he.elim, fun _ _ => hset, fun _ => hset, fun _ _ => rfl,
      fun _ => True.intro, fun hg => hg.elim, fun _ => hlate⟩
  | bound | unregister | free | freed =>
    simp only [hphase] at hstep
    exact nomatch hstep

/-- The memory is freed with a quiet timer exactly if no write came late. -/
theorem inv_free (h : Inv s) (hstep : step s .free = some s') :
    (s.timer.Quiet ↔ s.late = false) ∧ Inv s' := by
  simp only [step] at hstep
  split_ifs at hstep with hphase
  obtain rfl := Option.some.inj hstep
  have hgone := h.gone (hphase ▸ True.intro)
  refine ⟨?_, fun he => he.elim, fun hr => hr.elim, h.used, h.rearmed, fun hw => ?_,
    fun _ => hgone, fun hg => absurd True.intro hg⟩
  · rw [← not_iff_not, hgone]
    simp
  · have hreg := h.writers hw
    rw [hphase] at hreg
    exact hreg.elim

/-- One step is safe exactly if it is no write in one of the windows, and no release after
one. -/
theorem safe_iff {a : Action} (h : Inv s) (hstep : step s a = some s') :
    (Safe s a s' ↔ OutsideWindows s a s') ∧ (OutsideWindows s a s' → Inv s') := by
  cases a with
  | probe ok =>
    obtain ⟨hset, hinv⟩ := inv_probe h hstep
    exact ⟨iff_of_true ⟨hset, nofun⟩ ⟨nofun, nofun⟩, fun _ => hinv⟩
  | write =>
    simp only [step] at hstep
    split_ifs at hstep with hreg
    obtain rfl := Option.some.inj hstep
    refine ⟨iff_of_true ⟨fun hm => hm.elim, nofun⟩ ⟨nofun, nofun⟩, fun _ => ?_⟩
    exact ⟨h.early, h.setUp, h.used, h.rearmed, fun _ => hreg, h.gone, h.late⟩
  | writeMod =>
    have hw : 0 < s.writers := by
      by_contra hno
      simp [step, hno] at hstep
    have hiff := safe_writeMod h hw
    refine ⟨⟨fun hsafe => ⟨fun _ => hiff.mp (hsafe.1 True.intro), nofun⟩,
      fun hout => ⟨fun _ => hiff.mpr (hout.1 rfl), nofun⟩⟩, fun hout => ?_⟩
    exact inv_writeMod h hstep (hout.1 rfl)
  | expire =>
    exact ⟨iff_of_true ⟨fun hm => hm.elim, nofun⟩ ⟨nofun, nofun⟩, fun _ => inv_expire h hstep⟩
  | handlerMod =>
    obtain ⟨hset, hinv⟩ := inv_handlerMod h hstep
    exact ⟨iff_of_true ⟨fun _ => hset, nofun⟩ ⟨nofun, nofun⟩, fun _ => hinv⟩
  | handlerReturn =>
    exact ⟨iff_of_true ⟨fun hm => hm.elim, nofun⟩ ⟨nofun, nofun⟩,
      fun _ => inv_handlerReturn h hstep⟩
  | remove =>
    exact ⟨iff_of_true ⟨fun hm => hm.elim, nofun⟩ ⟨nofun, nofun⟩, fun _ => inv_remove h hstep⟩
  | unregister =>
    exact ⟨iff_of_true ⟨fun hm => hm.elim, nofun⟩ ⟨nofun, nofun⟩,
      fun _ => inv_unregister h hstep⟩
  | free =>
    obtain ⟨hquiet, hinv⟩ := inv_free h hstep
    exact ⟨⟨fun hsafe => ⟨nofun, fun _ => hquiet.mp (hsafe.2 rfl)⟩,
      fun hout => ⟨fun hm => hm.elim, fun _ => hquiet.mpr (hout.2 rfl)⟩⟩, fun _ => hinv⟩

/-! ## Runs -/

/-- In every run of the probe, writes, expiries, the removal and the release : `mod_timer`
always finds the timer set up, and the release finds it neither armed nor in its handler, if
and only if no write arms it before `setup_timer`, and none after `del_timer_sync` when the
private data is freed. -/
theorem timer_iff (as : List Action) :
    Transition.Always step Safe start as ↔ Transition.Always step OutsideWindows start as := by
  refine Transition.always_congr (I := Inv) (fun s a s' h hstep => (safe_iff h hstep).1)
    (fun s a s' h hstep hsafe => ?_) inv_start
  obtain ⟨hiff, hinv⟩ := safe_iff h hstep
  exact hinv (hiff.mp hsafe)

/-- A write between `devm_iio_device_register` and `setup_timer`, and one between
`fake_iiodev_remove` and the release. -/
theorem write_in_windows :
    ¬Transition.Always step Safe start
        [.probe true, .probe true, .probe true, .write, .writeMod] ∧
      ¬Transition.Always step Safe start
        [.probe true, .probe true, .probe true, .probe true, .probe true, .remove, .write,
          .writeMod, .unregister, .free] := by
  decide

end Lifecycle

end FakeIiodev

end LinuxDriverKb
