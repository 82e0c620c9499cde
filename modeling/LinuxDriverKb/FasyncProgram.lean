import LinuxDriverKb.KeyDevice
import LinuxDriverKb.Lib.Transition

/-!
# `fasyncio_test.c` on the device of `fasync_io.c`

The program registers itself for `SIGIO` and sleeps; its handler reads the device, which it
has opened without `O_NONBLOCK`, and prints a line. While the handler runs `SIGIO` is
blocked : another one becomes pending, one at most, and wakes no read; and the driver wakes
`wq` only while nobody is registered. A signal whose press an earlier handler has read
therefore makes the program sleep in its read for good. A press before the registration is
read with the first one after it.

`fasyncio_test_run` : what any run leaves; `hangs_iff` : while no signal was under way at a
press, the next press can make the program hang exactly if one is.
-/

set_option autoImplicit false

namespace LinuxDriverKb

namespace FasyncProgram

open KeyDevice (HandlerPc Tag)

/-! ## The program -/

/-- Where the program is. -/
inductive Place
  /-- In `main`, before `fcntl` with `FASYNC`. -/
  | starting
  | main
  /-- In `sig_action`, before `read`. -/
  | sigAction
  | read
  /-- After `read`, which has stored `value`. -/
  | print (value : ℤ)

/-- The device, with the program as its one process, where that is, whether `SIGIO` is
pending, the number of signals that it has handled, the lines it has printed, and the presses
since it has registered itself. -/
structure State where
  dev : KeyDevice.State Unit
  place : Place
  pending : Bool
  signals : ℕ
  lines : ℕ
  since : ℕ

/-- A step of the driver or of the program. -/
inductive Action
  /-- The debounce timer expires and reads `value` from the GPIO. -/
  | timer (value : ℤ)
  /-- The next step of `debounce_timer_handler`. -/
  | notify
  /-- The program takes the signal. -/
  | deliver
  /-- The registration in `main`, or the next step of `sig_action`. -/
  | next

/-- Where the process is in the driver. -/
def State.pc (s : State) : KeyDevice.Pc :=
  (s.dev.procs ()).pc

/-- The action of the device that is the next step of `read`; the buffer is on the stack. -/
def readAction (pc : KeyDevice.Pc) : KeyDevice.Action Unit :=
  match pc with
  | .sample => .sample ()
  | .clear _ _ => .clear ()
  | .copy _ _ => .copy () 0
  | _ => .next ()

/-- The next step of `sig_action`; `si_code` has `POLL_IN`. -/
def sigAction (s : State) : Option State :=
  match s.place with
  | .starting | .main => none
  | .sigAction =>
    (KeyDevice.step .fasyncIo s.dev (.read () false)).map fun dev =>
      { s with dev := dev, place := .read }
  | .read =>
    (KeyDevice.step .fasyncIo s.dev (readAction s.pc)).map fun dev =>
      match s.pc with
      | .copy v _ => { s with dev := dev, place := .print v }
      | _ => { s with dev := dev }
  | .print v => some { s with place := .main, lines := if v ≠ 0 then s.lines + 1 else s.lines }

/-- `fcntl` with `FASYNC`. -/
def State.register (s : State) : State :=
  { s with dev := KeyDevice.charDevFasync s.dev () true, place := .main }

/-- The presses since the registration, after a timer that has read `value`. -/
def State.sinceTimer (s : State) (value : ℤ) : ℕ :=
  match s.place with
  | .starting => s.since
  | _ => if value = 0 then s.since + 1 else s.since

/-- One step. -/
def step (s : State) : Action → Option State
  | .timer value =>
    (KeyDevice.step .fasyncIo s.dev (.timer value)).map fun dev =>
      { s with dev := dev, since := s.sinceTimer value }
  | .notify =>
    -- `kill_fasync` : the signal is blocked in the handler, and waits for it elsewhere
    if s.dev.handler = .kill then
      some { s with dev := { s.dev with handler := .idle }, pending := true }
    else (KeyDevice.step .fasyncIo s.dev .notify).map fun dev => { s with dev := dev }
  | .deliver =>
    match s.place, s.pending with
    | .main, true =>
      some { s with place := .sigAction, pending := false, signals := s.signals + 1 }
    | _, _ => none
  | .next =>
    match s.place with
    | .starting => some s.register
    | _ => sigAction s

/-- The device as probed, and a program that is to register itself. -/
def start : State :=
  ⟨KeyDevice.init, .starting, false, 0, 0, 0⟩

/-! ## Stages of the handler -/

/-- How far the handler of a signal is; `main` : there is none. -/
inductive Stage
  | main
  | before
  | asleep
  | taking
  | taken
  deriving DecidableEq

/-- In the read : `before` it has found `key_value` set, `taking` before it has cleared it,
and `taken` after. -/
def readStage : KeyDevice.Pc → Stage
  | .asleep => .asleep
  | .sample | .clear _ _ => .taking
  | .copy _ _ => .taken
  | _ => .before

/-- The stage of the program. -/
def State.stage (s : State) : Stage :=
  match s.place with
  | .starting | .main => .main
  | .sigAction => .before
  | .read => readStage s.pc
  | .print _ => .taken

/-! ## What a run should do -/

/-- No press : the driver and the program go on by themselves. -/
def Action.Internal (a : Action) : Prop :=
  ∀ value, a ≠ .timer value

/-- The program sleeps in its read. -/
def State.Hung (s : State) : Prop :=
  s.stage = .asleep

/-- Nothing is left to do until the next press. -/
def State.AtRest (s : State) : Prop :=
  ∀ a : Action, a.Internal → step s a = none

/-- A signal is under way : sent, pending, or taken with `key_value` not cleared. -/
def State.UnderWay (s : State) : Prop :=
  s.dev.handler ≠ .idle ∨ s.pending = true ∨ (s.stage ≠ .main ∧ s.stage ≠ .taken)

/-- No press is recorded while a signal is under way. -/
def Calm (s : State) (a : Action) (_ : State) : Prop :=
  a = .timer 0 → ¬s.UnderWay

/-! ## The invariant -/

/-- A step of the read, with the value 1 once it has one. -/
def InRead : KeyDevice.Pc → Prop
  | .idle | .pollQueue | .pollTest | .pollAsleep => False
  | .clear v _ | .copy v _ => v = 1
  | _ => True

/-- Each time a press has set `key_value` is under way to a line, or printed, or no signal was
taken yet; each signal that was taken is one line, or being handled. -/
structure Counts (handler : HandlerPc) (pending : Bool) (stage : Stage) (key : ℤ)
    (epoch lines signals since : ℕ) : Prop where
  wake : handler = .wake → pending = false ∧ signals = 0 ∧ since = 0
  zeroOne : key = 0 ∨ key = 1
  taking : stage = .taking → key = 1
  noticed : key = 1 →
    handler ≠ .idle ∨ pending = true ∨ (stage ≠ .main ∧ stage ≠ .taken) ∨ signals = 0
  signalled : since ≠ 0 → handler ≠ .idle ∨ pending = true ∨ signals ≠ 0
  printed : epoch = lines + (if key = 1 then 1 else 0) + if stage = .taken then 1 else 0
  handled : signals = lines + if stage = .main then 0 else 1

/-- A program that has not registered itself gets no signal. -/
structure Unregistered (s : State) : Prop where
  fasync : s.dev.fasync = []
  handler : s.dev.handler ≠ .kill
  pending : s.pending = false
  signals : s.signals = 0
  since : s.since = 0

/-- The process is in the read if the program is, and is not woken and takes no signal
there. -/
structure Inv (s : State) : Prop where
  quiet : (s.dev.procs ()).nonblock = false ∧ (s.dev.procs ()).woken = false ∧
    (s.dev.procs ()).sig = false
  queued : s.signals = 0 → (s.dev.procs ()).queued = false
  idle : s.place ≠ .read → s.pc = .idle
  read : s.place = .read → InRead s.pc
  print : ∀ v, s.place = .print v → v = 1
  fasync : s.place ≠ .starting → s.dev.fasync = [()]
  starting : s.place = .starting → Unregistered s
  counts : Counts s.dev.handler s.pending s.stage s.dev.key s.dev.epoch s.lines s.signals s.since

theorem inv_start : Inv start where
  quiet := ⟨rfl, rfl, rfl⟩
  queued _ := rfl
  idle _ := rfl
  read h := by cases h
  print _ h := by cases h
  fasync h := absurd rfl h
  starting _ := ⟨rfl, by decide, rfl, rfl, rfl⟩
  counts :=
    { wake := fun h => by cases h
      zeroOne := .inl rfl
      taking := fun h => by cases h
      noticed := fun h => absurd h (by decide)
      signalled := fun h => absurd rfl h
      printed := rfl
      handled := rfl }

/-! ## What a step does -/

/-- The device after the process has moved to `pc`. -/
def State.move (s : State) (pc : KeyDevice.Pc) : KeyDevice.State Unit :=
  s.dev.setLocal () { s.dev.procs () with pc := pc }

/-- The steps, by what they do. -/
inductive StepCase (s : State) : Action → State → Prop
  | press : s.dev.handler = .idle → StepCase s (.timer 0)
      { s with dev := KeyDevice.press .fasyncIo s.dev, since := s.sinceTimer 0 }
  | noPress {value : ℤ} : value ≠ 0 → StepCase s (.timer value) s
  | early : s.dev.handler = .test → s.place = .starting →
    StepCase s .notify { s with dev := { s.dev with handler := .wake } }
  | wake : s.dev.handler = .wake →
    StepCase s .notify { s with dev := { s.dev with handler := .idle } }
  | register : s.place = .starting →
    StepCase s .next { s with dev := { s.dev with fasync := [()] }, place := .main }
  | test : s.dev.handler = .test → s.place ≠ .starting →
    StepCase s .notify { s with dev := { s.dev with handler := .kill } }
  | kill : s.dev.handler = .kill →
    StepCase s .notify { s with dev := { s.dev with handler := .idle }, pending := true }
  | deliver : s.place = .main → s.pending = true → StepCase s .deliver
      { s with place := .sigAction, pending := false, signals := s.signals + 1 }
  | begin : s.place = .sigAction → StepCase s .next
      { s with dev := s.dev.setLocal () ⟨.test, false, false, false, false⟩, place := .read }
  | wait {l : KeyDevice.Local} : s.place = .read → (s.dev.procs ()).next s.dev.key = some l →
    StepCase s .next { s with dev := s.dev.setLocal () l }
  | sample : s.place = .read → s.pc = .sample → StepCase s .next
      { s with dev := s.move (.clear s.dev.key ⟨s.dev.epoch, s.dev.presses⟩) }
  | clear {v : ℤ} {t : Tag} : s.place = .read → s.pc = .clear v t → StepCase s .next
      { s with dev := { s.move (.copy v t) with key := 0 } }
  | copy {v : ℤ} {t : Tag} : s.place = .read → s.pc = .copy v t → StepCase s .next
      { s with
        dev := { s.move .idle with handed := s.dev.handed ++ [(v, t.epoch)] }
        place := .print v }
  | print {v : ℤ} : s.place = .print v → StepCase s .next
      { s with place := .main, lines := if v ≠ 0 then s.lines + 1 else s.lines }

variable {s s' : State} {a : Action}

/-- A step of the read. -/
theorem stepCase_read (hplace : s.place = .read)
    (hstep : (KeyDevice.step .fasyncIo s.dev (readAction s.pc)).map (fun dev =>
      match s.pc with
      | .copy v _ => { s with dev := dev, place := .print v }
      | _ => { s with dev := dev }) = some s') : StepCase s .next s' := by
  obtain ⟨dev, hdev, rfl⟩ := Option.map_eq_some_iff.mp hstep
  have hproc : (s.dev.procs ()).pc = s.pc := rfl
  cases hpc : s.pc with
  | sample =>
    rw [hpc] at hproc hdev
    simp only [readAction, KeyDevice.step, if_pos hproc] at hdev
    cases hdev
    exact .sample hplace hpc
  | clear v t =>
    rw [hpc] at hproc hdev
    simp only [readAction, KeyDevice.step, hproc] at hdev
    cases hdev
    exact .clear hplace hpc
  | copy v t =>
    rw [hpc] at hproc hdev
    simp only [readAction, KeyDevice.step, hproc] at hdev
    cases hdev
    exact .copy hplace hpc
  | _ =>
    rw [hpc] at hdev
    obtain ⟨l, hl, rfl⟩ := Option.map_eq_some_iff.mp hdev
    exact .wait hplace hl

/-- `wake_up_interruptible` finds nobody on `wq`. -/
theorem wakeUp_eq (h : Inv s) (hwake : s.dev.handler = .wake) :
    KeyDevice.wakeUp s.dev = s.dev.procs := by
  have hqueued := h.queued (h.counts.wake hwake).2.1
  funext q
  obtain rfl : q = () := rfl
  have hwoken : ((s.dev.procs ()).woken || (s.dev.procs ()).queued) = (s.dev.procs ()).woken := by
    rw [hqueued, Bool.or_false]
  rw [KeyDevice.wakeUp, hwoken]

/-- The handler tests `p->fasync`, or wakes `wq`. -/
theorem stepCase_notify (h : Inv s) (hkill : s.dev.handler ≠ .kill)
    {dev : KeyDevice.State Unit} (hdev : KeyDevice.notifyStep s.dev = some dev) :
    StepCase s .notify { s with dev := dev } := by
  cases hhandler : s.dev.handler with
  | idle => simp [KeyDevice.notifyStep, hhandler] at hdev
  | kill => exact absurd hhandler hkill
  | wake =>
    simp only [KeyDevice.notifyStep, hhandler, wakeUp_eq h hhandler] at hdev
    cases hdev
    exact .wake hhandler
  | test =>
    simp only [KeyDevice.notifyStep, hhandler] at hdev
    cases hdev
    by_cases hplace : s.place = .starting
    · rw [if_pos (h.starting hplace).fasync]
      exact .early hhandler hplace
    · rw [if_neg (by simp [h.fasync hplace])]
      exact .test hhandler hplace

theorem stepCase_sigAction (hstep : sigAction s = some s') : StepCase s .next s' := by
  unfold sigAction at hstep
  split at hstep
  · cases hstep
  · cases hstep
  · rename_i hplace
    obtain ⟨dev, hdev, rfl⟩ := Option.map_eq_some_iff.mp hstep
    simp only [KeyDevice.step] at hdev
    split_ifs at hdev
    cases hdev
    exact .begin hplace
  · rename_i hplace
    exact stepCase_read hplace hstep
  · cases hstep
    exact .print ‹_›

theorem stepCase_next (h : Inv s) (hstep : step s .next = some s') : StepCase s .next s' := by
  unfold step at hstep
  dsimp only at hstep
  split at hstep
  · rename_i hplace
    cases hstep
    have hfasync := (h.starting hplace).fasync
    have hregister : s.register =
        { s with dev := { s.dev with fasync := [()] }, place := .main } := by
      simp [State.register, KeyDevice.charDevFasync, hfasync]
    rw [hregister]
    exact .register hplace
  · exact stepCase_sigAction hstep

theorem sinceTimer_of_ne {value : ℤ} (h : value ≠ 0) : s.sinceTimer value = s.since := by
  unfold State.sinceTimer
  split
  · rfl
  · exact if_neg h

theorem stepCase_of_step (h : Inv s) (hstep : step s a = some s') : StepCase s a s' := by
  cases a with
  | timer value =>
    obtain ⟨dev, hdev, rfl⟩ := Option.map_eq_some_iff.mp hstep
    simp only [KeyDevice.step] at hdev
    split_ifs at hdev with hidle hv <;> cases hdev
    · subst hv
      exact .press hidle
    · rw [sinceTimer_of_ne hv]
      exact .noPress hv
  | notify =>
    simp only [step] at hstep
    split_ifs at hstep with hkill
    · cases hstep
      exact .kill hkill
    · obtain ⟨dev, hdev, rfl⟩ := Option.map_eq_some_iff.mp hstep
      exact stepCase_notify h hkill hdev
  | deliver =>
    simp only [step] at hstep
    split at hstep <;> cases hstep
    exact .deliver ‹_› ‹_›
  | next => exact stepCase_next h hstep

/-! ## The invariant, step by step -/

/-- The work that is left, at most. -/
def rank : KeyDevice.Pc → ℕ
  | .test => 10
  | .waitTest => 9
  | .prepare => 8
  | .recheck => 7
  | .sample => 4
  | .clear _ _ => 3
  | .copy _ _ => 2
  | _ => 0

/-- A step of the wait : on, to the second `atomic_read` with `key_value` set, or to sleep
with it not set. -/
theorem next_wait {l l' : KeyDevice.Local} {key : ℤ}
    (hquiet : l.nonblock = false ∧ l.woken = false ∧ l.sig = false)
    (hread : InRead l.pc)
    (h : l.next key = some l') :
    (l'.nonblock = false ∧ l'.woken = false ∧ l'.sig = false) ∧
      (l'.pc = .waitTest ∨ l'.pc = .prepare ∨ l'.pc = .recheck ∨
        (l'.pc = .sample ∧ key ≠ 0) ∨ (l'.pc = .asleep ∧ key = 0)) ∧
      (l.pc = .test ∨ l.pc = .waitTest ∨ l.pc = .prepare ∨ l.pc = .recheck) ∧
      rank l'.pc < rank l.pc := by
  obtain ⟨hblock, hwoken, hsig⟩ := hquiet
  unfold KeyDevice.Local.next at h
  split at h <;> (try split_ifs at h) <;> cases h <;> simp_all [rank, InRead]

theorem stage_of_read (hplace : s.place = .read) : s.stage = readStage s.pc := by
  rw [State.stage, hplace]

section Counts

variable {handler : HandlerPc} {pending : Bool} {stage stage' : Stage} {key : ℤ}
  {epoch lines signals since : ℕ}

theorem Counts.press (h : Counts handler pending stage key epoch lines signals since)
    (since' : ℕ) :
    Counts .test pending stage 1 (if key = 0 then epoch + 1 else epoch) lines signals since' where
  wake h := by cases h
  zeroOne := .inr rfl
  taking _ := rfl
  noticed _ := .inl (by simp)
  signalled _ := .inl (by simp)
  printed := by
    have hprinted := h.printed
    rcases h.zeroOne with hkey | hkey <;> simp [hkey] at hprinted ⊢ <;> omega
  handled := h.handled

/-- The handler goes on to a signal. -/
theorem Counts.notify (h : Counts handler pending stage key epoch lines signals since)
    {handler' : HandlerPc} {pending' : Bool} (hhandler : handler' ≠ .wake)
    (hleft : handler' ≠ .idle ∨ pending' = true) :
    Counts handler' pending' stage key epoch lines signals since where
  wake hwake := absurd hwake hhandler
  zeroOne := h.zeroOne
  taking := h.taking
  noticed _ := hleft.imp_right .inl
  signalled _ := hleft.imp_right .inl
  printed := h.printed
  handled := h.handled

/-- The handler goes on without a signal, and none was taken yet. -/
theorem Counts.notifyNone (h : Counts handler pending stage key epoch lines signals since)
    {handler' : HandlerPc} (hnone : pending = false ∧ signals = 0 ∧ since = 0) :
    Counts handler' pending stage key epoch lines signals since where
  wake _ := hnone
  zeroOne := h.zeroOne
  taking := h.taking
  noticed _ := .inr (.inr (.inr hnone.2.1))
  signalled hsince := absurd hnone.2.2 hsince
  printed := h.printed
  handled := h.handled

theorem Counts.deliver (h : Counts handler true .main key epoch lines signals since) :
    Counts handler false .before key epoch lines (signals + 1) since where
  wake hwake := absurd (h.wake hwake).1 (by decide)
  zeroOne := h.zeroOne
  taking h := by cases h
  noticed _ := by simp
  signalled _ := by simp
  printed := h.printed
  handled := by simpa using h.handled

/-- The handler of a signal goes on without the value. -/
theorem Counts.wait (h : Counts handler pending stage key epoch lines signals since)
    (hstage : stage ≠ .main ∧ stage ≠ .taken) (hstage' : stage' ≠ .main ∧ stage' ≠ .taken)
    (htaking : stage' = .taking → key = 1) :
    Counts handler pending stage' key epoch lines signals since where
  wake := h.wake
  zeroOne := h.zeroOne
  taking := htaking
  noticed _ := .inr (.inr (.inl hstage'))
  signalled := h.signalled
  printed := by simpa [hstage, hstage'] using h.printed
  handled := by simpa [hstage, hstage'] using h.handled

theorem Counts.clear (h : Counts handler pending .taking key epoch lines signals since) :
    Counts handler pending .taken 0 epoch lines signals since where
  wake := h.wake
  zeroOne := .inl rfl
  taking h := by cases h
  noticed h := absurd h (by decide)
  signalled := h.signalled
  printed := by simpa [h.taking rfl] using h.printed
  handled := h.handled

theorem Counts.print (h : Counts handler pending .taken key epoch lines signals since) :
    Counts handler pending .main key epoch (lines + 1) signals since where
  wake := h.wake
  zeroOne := h.zeroOne
  taking h := by cases h
  noticed hkey := by simpa using h.noticed hkey
  signalled := h.signalled
  printed := by
    have hprinted := h.printed
    simp only [if_true, reduceCtorEq, if_false] at hprinted ⊢
    omega
  handled := by simpa using h.handled

/-- A handler of a signal has taken it. -/
theorem Counts.signals_ne (h : Counts handler pending stage key epoch lines signals since)
    (hstage : stage ≠ .main) : signals ≠ 0 := by
  have hhandled := h.handled
  rw [if_neg hstage] at hhandled
  omega

end Counts

/-- In the read the handler of a signal runs. -/
theorem readStage_ne_main (pc : KeyDevice.Pc) : readStage pc ≠ .main := by
  cases pc <;> simp [readStage]

/-- The program is in the read, where the process is `l`. -/
theorem inv_of_read (hplace : s.place = .read) {l : KeyDevice.Local} (hl : s.dev.procs () = l)
    (hquiet : l.nonblock = false ∧ l.woken = false ∧ l.sig = false) (hread : InRead l.pc)
    (hfasync : s.dev.fasync = [()])
    (hcounts : Counts s.dev.handler s.pending (readStage l.pc) s.dev.key s.dev.epoch s.lines
      s.signals s.since) : Inv s where
  quiet := hl ▸ hquiet
  queued hnone := absurd hnone (hcounts.signals_ne (readStage_ne_main l.pc))
  idle h := absurd hplace h
  read _ := by rwa [State.pc, hl]
  print v h := by rw [hplace] at h; cases h
  fasync _ := hfasync
  starting h := by rw [hplace] at h; cases h
  counts := by rwa [stage_of_read hplace, State.pc, hl]

/-- The program is in `main` or at the beginning or end of the handler of a signal. -/
theorem Inv.of_place (h : Inv s) {t : State} (hdev : t.dev = s.dev) (hidle : s.pc = .idle)
    (hread : t.place ≠ .read) (hstarting : t.place ≠ .starting)
    (hprint : ∀ v, t.place = .print v → v = 1) (hfasync : s.dev.fasync = [()])
    (hqueued : t.signals = 0 → s.signals = 0)
    (hcounts : Counts s.dev.handler t.pending t.stage s.dev.key s.dev.epoch t.lines t.signals
      t.since) : Inv t where
  quiet := hdev ▸ h.quiet
  queued hnone := hdev ▸ h.queued (hqueued hnone)
  idle _ := by rw [State.pc, hdev]; exact hidle
  read hplace := absurd hplace hread
  print := hprint
  fasync _ := hdev ▸ hfasync
  starting hplace := absurd hplace hstarting
  counts := hdev ▸ hcounts

/-- A step of `debounce_timer_handler` leaves the process and the program. -/
theorem Inv.handler (h : Inv s) {handler : HandlerPc} {pending : Bool}
    (hstarting : s.place = .starting → handler ≠ .kill ∧ pending = false)
    (hcounts : Counts handler pending s.stage s.dev.key s.dev.epoch s.lines s.signals s.since) :
    Inv { s with dev := { s.dev with handler := handler }, pending := pending } where
  quiet := h.quiet
  queued := h.queued
  idle := h.idle
  read := h.read
  print := h.print
  fasync := h.fasync
  starting hplace := { h.starting hplace with
    handler := (hstarting hplace).1
    pending := (hstarting hplace).2 }
  counts := hcounts

/-- A press leaves the process and the program. -/
theorem Inv.press (h : Inv s) :
    Inv { s with dev := KeyDevice.press .fasyncIo s.dev, since := s.sinceTimer 0 } where
  quiet := h.quiet
  queued := h.queued
  idle := h.idle
  read := h.read
  print := h.print
  fasync := h.fasync
  starting hplace := { h.starting hplace with
    handler := by simp [KeyDevice.press, KeyDevice.Driver.hasFasync]
    since := by
      rw [State.sinceTimer, show s.place = .starting from hplace]
      exact (h.starting hplace).since }
  counts := h.counts.press (s.sinceTimer 0)

/-- A step of the wait keeps the invariant. -/
theorem Inv.wait (h : Inv s) (hplace : s.place = .read) {l : KeyDevice.Local}
    (hl : (s.dev.procs ()).next s.dev.key = some l) :
    Inv { s with dev := s.dev.setLocal () l } := by
  have hcounts := h.counts
  rw [stage_of_read hplace] at hcounts
  obtain ⟨hquiet, hto, hfrom, -⟩ := next_wait h.quiet (h.read hplace) hl
  have hread : InRead l.pc := by
    rcases hto with h | h | h | ⟨h, -⟩ | ⟨h, -⟩ <;> simp [h, InRead]
  have hbefore : readStage s.pc ≠ .main ∧ readStage s.pc ≠ .taken := by
    rcases hfrom with h | h | h | h <;> simp [State.pc, h, readStage]
  have hstage : readStage l.pc ≠ .main ∧ readStage l.pc ≠ .taken := by
    rcases hto with h | h | h | ⟨h, -⟩ | ⟨h, -⟩ <;> simp [h, readStage]
  have hfasync := h.fasync (by simp [hplace])
  refine inv_of_read hplace rfl hquiet hread hfasync (hcounts.wait hbefore hstage ?_)
  intro htaking
  rcases hto with h | h | h | ⟨-, hkey⟩ | ⟨h, -⟩
  · simp [h, readStage] at htaking
  · simp [h, readStage] at htaking
  · simp [h, readStage] at htaking
  · exact hcounts.zeroOne.resolve_left hkey
  · simp [h, readStage] at htaking

/-- The step of a read that returns. -/
theorem Inv.copy (h : Inv s) (hplace : s.place = .read) {v : ℤ} {t : Tag}
    (hpc : s.pc = .copy v t) : Inv { s with
      dev := { s.move .idle with handed := s.dev.handed ++ [(v, t.epoch)] }
      place := .print v } := by
  have hcounts := h.counts
  have hread := h.read hplace
  rw [hpc] at hread
  rw [stage_of_read hplace, hpc] at hcounts
  exact {
    quiet := h.quiet
    queued := fun hnone => absurd hnone (hcounts.signals_ne (readStage_ne_main _))
    idle := fun _ => rfl
    read := fun hread => by cases hread
    print := fun _ hprint => by cases hprint; exact hread
    fasync := fun _ => h.fasync (by simp [hplace])
    starting := fun hplace => by cases hplace
    counts := hcounts }

theorem Inv.step (h : Inv s) (hstep : step s a = some s') : Inv s' := by
  have hcounts := h.counts
  cases stepCase_of_step h hstep with
  | press => exact h.press
  | noPress => exact h
  | early htest hplace =>
    have hun := h.starting hplace
    exact h.handler (fun _ => ⟨by simp, hun.pending⟩)
      (hcounts.notifyNone ⟨hun.pending, hun.signals, hun.since⟩)
  | wake hwake =>
    have hnone := hcounts.wake hwake
    exact h.handler (fun _ => ⟨by simp, hnone.1⟩) (hcounts.notifyNone hnone)
  | test htest hplace =>
    exact h.handler (fun hstarting => absurd hstarting hplace)
      (hcounts.notify (by simp) (.inl (by simp)))
  | kill hkill =>
    exact h.handler (fun hstarting => absurd hkill (h.starting hstarting).handler)
      (hcounts.notify (by simp) (.inr rfl))
  | register hplace =>
    rw [State.stage, hplace] at hcounts
    exact { h with
      idle := fun _ => h.idle (by simp [hplace])
      read := fun hread => by cases hread
      print := fun _ hprint => by cases hprint
      fasync := fun _ => rfl
      starting := fun hstarting => by cases hstarting
      counts := hcounts }
  | deliver hplace hpending =>
    rw [State.stage, hplace, hpending] at hcounts
    exact h.of_place rfl (h.idle (by simp [hplace])) (by simp) (by simp)
      (fun _ hprint => by cases hprint) (h.fasync (by simp [hplace])) (fun hnone => by cases hnone)
      hcounts.deliver
  | begin hplace =>
    rw [State.stage, hplace] at hcounts
    exact inv_of_read rfl rfl ⟨rfl, rfl, rfl⟩ True.intro (h.fasync (by simp [hplace])) hcounts
  | wait hplace hl => exact h.wait hplace hl
  | sample hplace hpc =>
    rw [stage_of_read hplace, hpc] at hcounts
    exact inv_of_read hplace rfl h.quiet (hcounts.taking rfl) (h.fasync (by simp [hplace])) hcounts
  | clear hplace hpc =>
    rw [stage_of_read hplace, hpc] at hcounts
    have hread := h.read hplace
    rw [hpc] at hread
    exact inv_of_read hplace rfl h.quiet hread (h.fasync (by simp [hplace])) hcounts.clear
  | copy hplace hpc => exact h.copy hplace hpc
  | print hplace =>
    obtain rfl := h.print _ hplace
    rw [State.stage, hplace] at hcounts
    exact h.of_place rfl (h.idle (by simp [hplace])) (by simp) (by simp)
      (fun _ hprint => by cases hprint) (h.fasync (by simp [hplace])) id hcounts.print

/-! ## The work that is left -/

/-- The work that the driver's handler leaves, its signal included. -/
def handlerWork : HandlerPc → ℕ
  | .idle => 0
  | .wake => 1
  | .kill => 15
  | .test => 16

/-- The work of the program. -/
def placeWork (place : Place) (pc : KeyDevice.Pc) : ℕ :=
  match place with
  | .starting => 1
  | .main => 0
  | .sigAction => 11
  | .read => rank pc
  | .print _ => 1

/-- A bound on the steps until the next press. -/
def State.work (s : State) : ℕ :=
  handlerWork s.dev.handler + (if s.pending = true then 13 else 0) + placeWork s.place s.pc

theorem work_le (s : State) : s.work ≤ 40 := by
  have hhandler : handlerWork s.dev.handler ≤ 16 := by
    unfold handlerWork
    split <;> omega
  have hpending : (if s.pending = true then 13 else 0) ≤ 13 := by
    split_ifs <;> omega
  have hplace : placeWork s.place s.pc ≤ 11 := by
    unfold placeWork rank
    split
    case h_4 => split <;> omega
    all_goals omega
  unfold State.work
  omega

theorem work_lt (h : Inv s) (ha : a.Internal) (hstep : step s a = some s') :
    s'.work < s.work := by
  -- a step of the program alone
  have hprogram (place : Place) (pc : KeyDevice.Pc)
      (hlt : placeWork place pc < placeWork s.place s.pc) : handlerWork s.dev.handler +
        (if s.pending = true then 13 else 0) + placeWork place pc < s.work := by
    unfold State.work
    omega
  cases stepCase_of_step h hstep with
  | press => exact absurd rfl (ha 0)
  | noPress => exact absurd rfl (ha _)
  | early htest => simp [State.work, State.pc, htest, handlerWork]
  | wake hwake => simp [State.work, State.pc, hwake, handlerWork]
  | register hplace => exact hprogram .main s.pc (by simp [hplace, placeWork])
  | test htest => simp [State.work, State.pc, htest, handlerWork]
  | kill hkill =>
    simp only [State.work, State.pc, hkill, handlerWork]
    split_ifs <;> omega
  | deliver hplace hpending => simp [State.work, hplace, hpending, placeWork]
  | begin hplace => exact hprogram .read .test (by simp [hplace, placeWork, rank])
  | @wait l hplace hl =>
    obtain ⟨-, -, -, hlt⟩ := next_wait h.quiet (h.read hplace) hl
    exact hprogram s.place l.pc (by rw [hplace]; exact hlt)
  | sample hplace hpc =>
    exact hprogram s.place (.clear s.dev.key ⟨s.dev.epoch, s.dev.presses⟩)
      (by simp [hplace, hpc, placeWork, rank])
  | @clear v t hplace hpc =>
    exact hprogram s.place (.copy v t) (by simp [hplace, hpc, placeWork, rank])
  | @copy v t hplace hpc =>
    exact hprogram (.print v) .idle (by simp [hplace, hpc, placeWork, rank])
  | print hplace => exact hprogram .main s.pc (by simp [hplace, placeWork])

/-! ## At rest -/

/-- A program that sleeps in its read goes on sleeping there, and prints nothing. -/
theorem hung_step (h : Inv s) (hhung : s.Hung) (hstep : step s a = some s') :
    s'.Hung ∧ s'.lines = s.lines := by
  have hne {stage : Stage} (hstage : s.stage = stage) (hasleep : stage ≠ .asleep) : False :=
    hasleep (hstage.symm.trans hhung)
  cases stepCase_of_step h hstep with
  | press | noPress | early | wake | test | kill => exact ⟨hhung, rfl⟩
  | register hplace => exact (hne (by rw [State.stage, hplace]) (by simp)).elim
  | deliver hplace => exact (hne (by rw [State.stage, hplace]) (by simp)).elim
  | begin hplace => exact (hne (by rw [State.stage, hplace]) (by simp)).elim
  | wait hplace hl =>
    obtain ⟨-, -, hfrom, -⟩ := next_wait h.quiet (h.read hplace) hl
    refine (hne (stage_of_read hplace) ?_).elim
    rcases hfrom with h | h | h | h <;> simp [State.pc, h, readStage]
  | sample hplace hpc => exact (hne (stage_of_read hplace) (by simp [hpc, readStage])).elim
  | clear hplace hpc => exact (hne (stage_of_read hplace) (by simp [hpc, readStage])).elim
  | copy hplace hpc => exact (hne (stage_of_read hplace) (by simp [hpc, readStage])).elim
  | print hplace => exact (hne (by rw [State.stage, hplace]) (by simp)).elim

/-- A read that does not sleep goes on. -/
theorem read_goes_on (h : Inv s) (hplace : s.place = .read) (hnext : step s .next = none) :
    s.pc = .asleep := by
  have hread := h.read hplace
  have hproc : (s.dev.procs ()).pc = s.pc := rfl
  simp only [step, sigAction, hplace, Option.map_eq_none_iff] at hnext
  cases hpc : s.pc with
  | asleep => rfl
  | idle | pollQueue | pollTest | pollAsleep =>
    rw [hpc] at hread
    exact hread.elim
  | test | waitTest | prepare | recheck =>
    rw [hpc] at hproc hnext
    simp only [readAction, KeyDevice.step, KeyDevice.Local.next, hproc] at hnext
    (try split_ifs at hnext) <;> cases hnext
  | sample | clear | copy =>
    rw [hpc] at hproc hnext
    simp [readAction, KeyDevice.step, hproc] at hnext

/-- The program has handled its signal or hangs if it has no step. -/
theorem program_rest (h : Inv s) (hdeliver : step s .deliver = none)
    (hnext : step s .next = none) : s.Hung ∨ (s.stage = .main ∧ s.pending = false) := by
  cases hplace : s.place with
  | starting => simp [step, hplace] at hnext
  | main =>
    refine .inr ⟨by rw [State.stage, hplace], ?_⟩
    cases hpending : s.pending with
    | false => rfl
    | true => simp [step, hplace, hpending] at hdeliver
  | sigAction =>
    have hidle : (s.dev.procs ()).pc = .idle := h.idle (by simp [hplace])
    simp [step, sigAction, hplace, KeyDevice.step, hidle] at hnext
  | read =>
    refine .inl ?_
    rw [State.Hung, stage_of_read hplace, read_goes_on h hplace hnext, readStage]
  | print v => simp [step, sigAction, hplace] at hnext

theorem handler_rest (hnotify : step s .notify = none) : s.dev.handler = .idle := by
  cases hhandler : s.dev.handler with
  | idle => rfl
  | wake | test | kill => simp [step, hhandler, KeyDevice.step, KeyDevice.notifyStep] at hnotify

/-- The lines and the handled signals at rest; a press before the registration may still be
there. -/
theorem counts_atRest (h : Inv s) (hrest : s.AtRest) :
    s.Hung ∨ s.pending = false ∧
      ((s.dev.key = 0 ∧ s.lines = s.dev.epoch ∧ s.signals = s.dev.epoch) ∨
        (s.dev.key = 1 ∧ s.dev.epoch = 1 ∧ s.lines = 0 ∧ s.signals = 0 ∧ s.since = 0)) := by
  have hidle := handler_rest (hrest .notify fun _ h => by cases h)
  have hcases := program_rest h (hrest .deliver fun _ h => by cases h)
    (hrest .next fun _ h => by cases h)
  obtain hhung | ⟨hmain, hpending⟩ := hcases
  · exact .inl hhung
  · refine .inr ⟨hpending, ?_⟩
    have hcounts := h.counts
    rw [hmain, hidle, hpending] at hcounts
    have hprinted := hcounts.printed
    have hhandled := hcounts.handled
    have hsignalled := hcounts.signalled
    simp only [if_true, reduceCtorEq, if_false] at hprinted hhandled
    rcases hcounts.zeroOne with hkey | hkey
    · rw [hkey] at hprinted
      exact .inl ⟨hkey, by simp at hprinted; omega, by simp at hprinted; omega⟩
    · have hsignals : s.signals = 0 := by simpa using hcounts.noticed hkey
      have hsince : s.since = 0 := by
        by_contra hne
        simp [hsignals] at hsignalled
        exact hne hsignalled
      rw [if_pos hkey] at hprinted
      exact .inr ⟨hkey, by omega, by omega, hsignals, hsince⟩

/-! ## Signals and presses -/

/-- The signals that the driver's handler is to send. -/
def sends : HandlerPc → ℕ
  | .test | .kill => 1
  | .idle | .wake => 0

/-- The signals that were taken, and those that will be if none meets a pending one. -/
def State.sent (s : State) : ℕ :=
  s.signals + sends s.dev.handler + if s.pending = true then 1 else 0

/-- Only presses before the registration are to be read, and none has sent a signal. -/
structure Early (s : State) : Prop where
  signals : s.signals = 0
  pending : s.pending = false
  sends : sends s.dev.handler = 0
  key : s.dev.key = 1

/-- Of a registered program signals get lost between presses only by meeting a pending one. -/
theorem sent_step (h : Inv s) (hplace : s.place ≠ .starting) (ha : a.Internal)
    (hstep : step s a = some s') :
    s'.place ≠ .starting ∧ s'.dev.epoch = s.dev.epoch ∧
      (a ≠ .notify → s'.dev.handler = s.dev.handler) ∧
      ((s.dev.handler = .kill → s.pending = false) → s'.sent = s.sent) := by
  cases stepCase_of_step h hstep with
  | press => exact absurd rfl (ha 0)
  | noPress => exact absurd rfl (ha _)
  | early _ hstarting => exact absurd hstarting hplace
  | register hstarting => exact absurd hstarting hplace
  | wake hwake => exact ⟨hplace, rfl, by simp, fun _ => by simp [State.sent, hwake, sends]⟩
  | test htest => exact ⟨hplace, rfl, by simp, fun _ => by simp [State.sent, htest, sends]⟩
  | kill hkill =>
    refine ⟨hplace, rfl, by simp, fun hpending => ?_⟩
    simp [State.sent, hkill, hpending hkill, sends]
  | deliver hmain hpending =>
    refine ⟨by simp, rfl, fun _ => rfl, fun _ => ?_⟩
    simp only [State.sent, hpending, if_true, Bool.false_eq_true, if_false]
    omega
  | begin | copy | print => exact ⟨by simp, rfl, fun _ => rfl, fun _ => rfl⟩
  | wait | sample | clear => exact ⟨hplace, rfl, fun _ => rfl, fun _ => rfl⟩

/-- Each press that has found `key_value` 0 has been sent one signal, or those before the
registration none, and the program is awake. -/
structure OneForOne (s : State) : Prop where
  sent : s.sent = s.dev.epoch ∨ Early s
  awake : ¬s.Hung

theorem stage_of_dev (hplace : s.place = .read) (dev : KeyDevice.State Unit) :
    State.stage { s with dev := dev } = readStage (dev.procs ()).pc := by
  rw [State.stage]
  dsimp only
  rw [hplace]
  rfl

/-- A program falls asleep only in a handler without a press. -/
theorem awake_step (h : Inv s) (hone : OneForOne s) (ha : a.Internal)
    (hstep : step s a = some s') : ¬s'.Hung := by
  cases stepCase_of_step h hstep with
  | press => exact absurd rfl (ha 0)
  | noPress => exact absurd rfl (ha _)
  | early | wake | test | kill => exact hone.awake
  | register | deliver | copy | print => simp [State.Hung, State.stage]
  | begin =>
    rw [State.Hung, stage_of_read rfl]
    exact fun hhung => by cases hhung
  | @wait l hplace hl =>
    obtain ⟨-, hto, hfrom, -⟩ := next_wait h.quiet (h.read hplace) hl
    rw [State.Hung, stage_of_dev hplace, KeyDevice.State.setLocal_procs_self]
    intro hhung
    have hkey : s.dev.key = 0 := by
      rcases hto with h | h | h | ⟨h, -⟩ | ⟨-, h⟩
      · simp [h, readStage] at hhung
      · simp [h, readStage] at hhung
      · simp [h, readStage] at hhung
      · simp [h, readStage] at hhung
      · exact h
    have hbefore : s.stage = .before := by
      rw [stage_of_read hplace]
      rcases hfrom with h | h | h | h <;> simp [State.pc, h, readStage]
    have hsent : s.sent = s.dev.epoch := hone.sent.resolve_right fun hearly => by
      simp [hearly.key] at hkey
    have hprinted := h.counts.printed
    have hhandled := h.counts.handled
    simp [hkey, hbefore] at hprinted hhandled
    unfold State.sent at hsent
    omega
  | sample hplace | clear hplace =>
    rw [State.Hung, stage_of_dev hplace]
    exact fun hhung => by cases hhung

/-- With as many signals as presses that found `key_value` 0, one is under way exactly while
`key_value` is set. -/
theorem underWay_balance (h : Inv s) (hsent : s.sent = s.dev.epoch) :
    sends s.dev.handler + (if s.pending = true then 1 else 0) +
      (if s.stage ≠ .main ∧ s.stage ≠ .taken then 1 else 0) =
        if s.dev.key = 1 then 1 else 0 := by
  have hprinted := h.counts.printed
  have hhandled := h.counts.handled
  unfold State.sent at hsent
  cases hstage : s.stage <;> simp [hstage] at hprinted hhandled ⊢ <;> omega

/-- Without a handler of the driver, a signal under way is for a press that is to be read. -/
theorem key_of_underWay (h : Inv s) (hsent : s.sent = s.dev.epoch) (hidle : s.dev.handler = .idle)
    (hway : s.UnderWay) : s.dev.key = 1 := by
  have hbalance := underWay_balance h hsent
  by_contra hkey
  rw [if_neg hkey] at hbalance
  rcases hway with hne | hpending | hhandling
  · exact hne hidle
  · rw [if_pos hpending] at hbalance
    omega
  · rw [if_pos hhandling] at hbalance
    omega

/-- Presses before the registration are one that found `key_value` 0. -/
theorem Early.main (hearly : Early s) (h : Inv s) : s.stage = .main ∧ s.dev.epoch = 1 := by
  have hprinted := h.counts.printed
  have hhandled := h.counts.handled
  rw [hearly.signals] at hhandled
  have hmain : s.stage = .main := by
    by_contra hne
    rw [if_neg hne] at hhandled
    omega
  rw [hmain, hearly.key] at hprinted
  simp at hprinted
  exact ⟨hmain, by omega⟩

/-- A press before the registration sends no signal once `p->fasync` was tested. -/
theorem sent_starting (h : Inv s) (hplace : s.place = .starting)
    (hone : s.sent = s.dev.epoch ∨ Early s) (ha : a.Internal) (hstep : step s a = some s') :
    s'.sent = s'.dev.epoch ∨ Early s' := by
  have hun := h.starting hplace
  cases stepCase_of_step h hstep with
  | press => exact absurd rfl (ha 0)
  | noPress => exact absurd rfl (ha _)
  | early htest =>
    have hsent : s.sent = s.dev.epoch := hone.resolve_right fun hearly => by
      simpa [htest, sends] using hearly.sends
    have hkey : s.dev.key = 1 := by
      have hbalance := underWay_balance h hsent
      rw [htest, sends] at hbalance
      by_contra hne
      rw [if_neg hne] at hbalance
      omega
    exact .inr ⟨hun.signals, hun.pending, rfl, hkey⟩
  | wake hwake =>
    rcases hone with hsent | hearly
    · exact .inl (by simpa [State.sent, hwake, sends] using hsent)
    · exact .inr ⟨hearly.signals, hearly.pending, rfl, hearly.key⟩
  | register => exact hone.imp_right fun hearly => ⟨hearly.1, hearly.2, hearly.3, hearly.4⟩
  | test _ hne => exact absurd hplace hne
  | kill hkill => exact absurd hkill hun.handler
  | deliver hmain => simp [hplace] at hmain
  | begin hother | wait hother | sample hother | clear hother | copy hother | print hother =>
    simp [hplace] at hother

/-- Without a signal the program sleeps in `main`. -/
theorem early_step (h : Inv s) (hearly : Early s) (ha : a.Internal)
    (hstep : step s a = some s') : Early s' := by
  have hmain := (hearly.main h).1
  have hsends := hearly.sends
  have hread : s.place ≠ .read := fun hplace =>
    readStage_ne_main s.pc ((stage_of_read hplace).symm.trans hmain)
  cases stepCase_of_step h hstep with
  | press => exact absurd rfl (ha 0)
  | noPress => exact absurd rfl (ha _)
  | early htest | test htest => simp [htest, sends] at hsends
  | kill hkill => simp [hkill, sends] at hsends
  | wake => exact ⟨hearly.signals, hearly.pending, rfl, hearly.key⟩
  | register => exact ⟨hearly.1, hearly.2, hearly.3, hearly.4⟩
  | deliver _ hpending => simp [hearly.pending] at hpending
  | begin hplace => simp [State.stage, hplace] at hmain
  | wait hplace | sample hplace | clear hplace | copy hplace => exact absurd hplace hread
  | print hplace => simp [State.stage, hplace] at hmain

/-- A press with no signal under way is sent one of its own. -/
theorem sent_press (h : Inv s) (hone : s.sent = s.dev.epoch ∨ Early s)
    (hidle : s.dev.handler = .idle) (hcalm : ¬s.UnderWay) :
    State.sent { s with dev := KeyDevice.press .fasyncIo s.dev, since := s.sinceTimer 0 } =
      (KeyDevice.press .fasyncIo s.dev).epoch := by
  have hpending : s.pending = false := by
    cases hpending : s.pending with
    | false => rfl
    | true => exact absurd (.inr (.inl hpending)) hcalm
  simp only [State.sent, KeyDevice.press, KeyDevice.Driver.hasFasync, if_true, hpending, sends,
    Bool.false_eq_true, if_false]
  rcases hone with hsent | hearly
  · simp only [State.sent, hidle, hpending, sends, Bool.false_eq_true, if_false] at hsent
    have hkey : s.dev.key = 0 := h.counts.zeroOne.resolve_right fun hkey => by
      have hprinted := h.counts.printed
      rw [if_pos hkey] at hprinted
      rcases h.counts.noticed hkey with hne | hpend | hhandling | hsignals
      · exact hne hidle
      · exact hcalm (.inr (.inl hpend))
      · exact hcalm (.inr (.inr hhandling))
      · omega
    rw [if_pos hkey]
    omega
  · have hepoch := (hearly.main h).2
    have hsignals := hearly.signals
    rw [if_neg (by simp [hearly.key])]
    omega

theorem oneForOne_step (h : Inv s) (hone : OneForOne s) (hstep : step s a = some s')
    (hcalm : Calm s a s') : OneForOne s' := by
  by_cases ha : a.Internal
  · refine ⟨?_, awake_step h hone ha hstep⟩
    by_cases hplace : s.place = .starting
    · exact sent_starting h hplace hone.sent ha hstep
    rcases hone.sent with hsent | hearly
    · obtain ⟨-, hepoch, -, hsame⟩ := sent_step h hplace ha hstep
      rw [hepoch, ← hsent]
      refine .inl (hsame fun hkill => ?_)
      -- a signal being sent meets no pending one
      have hbalance := underWay_balance h hsent
      cases hpending : s.pending with
      | false => rfl
      | true =>
        simp only [hkill, hpending, sends, if_true] at hbalance
        split_ifs at hbalance <;> omega
    · exact .inr (early_step h hearly ha hstep)
  · cases stepCase_of_step h hstep with
    | press hidle => exact ⟨.inl (sent_press h hone.sent hidle (hcalm rfl)), hone.awake⟩
    | noPress => exact hone
    | _ => exact absurd (fun _ h => by cases h) ha

theorem oneForOne_start : OneForOne start :=
  ⟨.inl rfl, fun h => by cases h⟩

/-! ## Runs -/

theorem inv_run {as : List Action} (hrun : Transition.run step start as = some s) : Inv s :=
  Transition.inv_run (I := Inv) (fun _ _ _ h hstep => h.step hstep) inv_start hrun

/-- After any sequence of presses and steps of the driver and the program, from the probe on :
these come to rest within 40 steps, and at rest every press that found `key_value` 0 has one
line, unless the program hangs, or no key was pressed since it has registered itself and one
before that is still to be read; a program that hangs does so for good, and prints no line
whatever keys are pressed. -/
theorem fasyncio_test_run (as : List Action) (hrun : Transition.run step start as = some s) :
    s.lines ≤ s.dev.epoch ∧
      (s.AtRest → s.Hung ∨ (s.dev.key = 0 ∧ s.lines = s.dev.epoch) ∨
        (s.since = 0 ∧ s.dev.key = 1 ∧ s.dev.epoch = 1 ∧ s.lines = 0)) ∧
      ∀ bs s', Transition.run step s bs = some s' →
        ((∀ b ∈ bs, b.Internal) → bs.length ≤ 40) ∧
          (s.Hung → s'.Hung ∧ s'.lines = s.lines) := by
  have h := inv_run hrun
  refine ⟨?_, fun hrest => ?_, fun bs s' hbs => ⟨fun hinternal => ?_, fun hhung => ?_⟩⟩
  · rw [h.counts.printed]
    omega
  · obtain hhung | ⟨-, ⟨hkey, hlines, -⟩ | ⟨hkey, hepoch, hlines, -, hsince⟩⟩ :=
      counts_atRest h hrest
    · exact .inl hhung
    · exact .inr (.inl ⟨hkey, hlines⟩)
    · exact .inr (.inr ⟨hsince, hkey, hepoch, hlines⟩)
  · have hle := Transition.length_le_of_measure (I := Inv) (P := Action.Internal)
      (fun s a s' h ha hstep => ⟨h.step hstep, work_lt h ha hstep⟩) h hinternal hbs
    have hwork := work_le s
    omega
  · refine (Transition.inv_run (I := fun t => Inv t ∧ t.Hung ∧ t.lines = s.lines)
      (fun t a t' ht hstep => ?_) ⟨h, hhung, rfl⟩ hbs).2
    obtain ⟨hhung', hlines⟩ := hung_step ht.1 ht.2.1 hstep
    exact ⟨ht.1.step hstep, hhung', hlines.trans ht.2.2⟩

/-- Two presses before the first is read : one line, and none for any press after. -/
theorem one_line_for_good :
    let two : List Action := [.next, .timer 0, .notify, .notify, .deliver, .timer 0, .next, .next,
      .next, .next, .next, .next, .notify, .notify, .deliver, .next, .next, .next, .next, .next]
    ∃ s, Transition.run step start two = some s ∧ s.lines = 1 ∧
      ∀ bs s', Transition.run step s bs = some s' → s'.lines = 1 := by
  intro two
  refine ⟨_, rfl, rfl, fun bs s' hbs => ?_⟩
  exact (((fasyncio_test_run two rfl).2.2 bs s' hbs).2 rfl).2

/-- Only `kill_fasync` makes a signal pending, and the handler is done then. -/
theorem alone_step (h : Inv s) (ha : a.Internal) (hstep : step s a = some s')
    (halone : s.dev.handler ≠ .idle → s.pending = false) :
    s'.dev.handler ≠ .idle → s'.pending = false := by
  cases stepCase_of_step h hstep with
  | press => exact absurd rfl (ha 0)
  | early htest | test htest => exact fun _ => halone (by simp [htest])
  | wake | kill => exact fun hne => absurd rfl hne
  | deliver => exact fun _ => rfl
  | _ => exact halone

/-- One signal more than presses hangs the program, if the one that is being sent finds no
other pending. -/
theorem hangs_of_alone (h : Inv s) (hplace : s.place ≠ .starting) (hsent : s.sent = s.dev.epoch + 1)
    (halone : s.dev.handler ≠ .idle → s.pending = false) :
    ∃ bs t, (∀ b ∈ bs, b.Internal) ∧ Transition.run step s bs = some t ∧ t.Hung := by
  let I (t : State) : Prop := Inv t ∧ t.place ≠ .starting ∧ t.sent = t.dev.epoch + 1 ∧
    (t.dev.handler ≠ .idle → t.pending = false)
  have hI : ∀ t a t', I t → a.Internal → step t a = some t' → I t' ∧ t'.work < t.work := by
    rintro t a t' ⟨ht, hplace, hsent, halone⟩ ha hstep
    obtain ⟨hplace', hepoch, -, hsame⟩ := sent_step ht hplace ha hstep
    refine ⟨⟨ht.step hstep, hplace', ?_, alone_step ht ha hstep halone⟩, work_lt ht ha hstep⟩
    rw [hepoch, ← hsent]
    exact hsame fun hkill => halone (by simp [hkill])
  obtain ⟨bs, t, hbs, hrun, hrest⟩ := Transition.exists_quiescent hI s ⟨h, hplace, hsent, halone⟩
  obtain ⟨ht, -, hsent, -⟩ := Transition.inv_run_of_always (I := I) (C := fun _ a _ => a.Internal)
    (fun s a s' hs hstep ha => (hI s a s' hs ha hstep).1) ⟨h, hplace, hsent, halone⟩
    (Transition.always_of_forall_mem fun b hb _ _ => hbs b hb) hrun
  refine ⟨bs, t, hbs, hrun, ?_⟩
  -- awake it would have handled as many signals as there were presses
  refine (counts_atRest ht hrest).resolve_right fun ⟨hpending, hcases⟩ => ?_
  have hidle := handler_rest (hrest .notify fun _ h => by cases h)
  simp only [State.sent, hidle, hpending, sends, Bool.false_eq_true, if_false] at hsent
  rcases hcases with ⟨-, -, hsignals⟩ | ⟨-, -, -, hsignals, -⟩ <;> omega

/-- The program, left to itself, takes its signal first. -/
theorem hangs_of_sent (h : Inv s) (hplace : s.place ≠ .starting) (htest : s.dev.handler = .test)
    (hsent : s.sent = s.dev.epoch + 1) :
    ∃ bs t, (∀ b ∈ bs, b.Internal) ∧ Transition.run step s bs = some t ∧ t.Hung := by
  let P (a : Action) : Prop := a.Internal ∧ a ≠ .notify
  let I (t : State) : Prop :=
    Inv t ∧ t.place ≠ .starting ∧ t.dev.handler = .test ∧ t.sent = t.dev.epoch + 1
  have hI : ∀ t a t', I t → P a → step t a = some t' → I t' ∧ t'.work < t.work := by
    rintro t a t' ⟨ht, hplace, htest, hsent⟩ ⟨ha, hne⟩ hstep
    obtain ⟨hplace', hepoch, hhandler, hsame⟩ := sent_step ht hplace ha hstep
    refine ⟨⟨ht.step hstep, hplace', (hhandler hne).trans htest, ?_⟩, work_lt ht ha hstep⟩
    rw [hepoch, ← hsent]
    exact hsame fun hkill => by simp [htest] at hkill
  obtain ⟨bs, t, hbs, hrun, hrest⟩ := Transition.exists_quiescent hI s ⟨h, hplace, htest, hsent⟩
  obtain ⟨ht, hplace, htest, hsent⟩ := Transition.inv_run_of_always (I := I)
    (C := fun _ a _ => P a) (fun s a s' hs hstep ha => (hI s a s' hs ha hstep).1)
    ⟨h, hplace, htest, hsent⟩ (Transition.always_of_forall_mem fun b hb _ _ => hbs b hb) hrun
  have hinternal {a : Action} (ha : a = .deliver ∨ a = .next) : step t a = none := by
    refine hrest a ⟨fun _ htimer => ?_, ?_⟩ <;> rcases ha with rfl | rfl <;> simp at *
  rcases program_rest ht (hinternal (.inl rfl)) (hinternal (.inr rfl)) with hhung | ⟨-, hpending⟩
  · exact ⟨bs, t, fun b hb => (hbs b hb).1, hrun, hhung⟩
  · obtain ⟨cs, u, hcs, hrun', hhung⟩ := hangs_of_alone ht hplace hsent fun _ => hpending
    refine ⟨bs ++ cs, u, ?_, by rw [Transition.run_append, hrun]; exact hrun', hhung⟩
    intro b hb
    rcases List.mem_append.mp hb with hb | hb
    · exact (hbs b hb).1
    · exact hcs b hb

/-- A signal under way is that of a registered program, and no press is early. -/
theorem underWay_registered (h : Inv s) (hidle : s.dev.handler = .idle) (hway : s.UnderWay) :
    s.place ≠ .starting ∧ ¬Early s := by
  have hnot : ¬(s.stage = .main ∧ s.pending = false) := by
    rintro ⟨hmain, hpending⟩
    rcases hway with hne | hpend | hhandling
    · exact hne hidle
    · simp [hpending] at hpend
    · exact hhandling.1 hmain
  refine ⟨fun hplace => hnot ⟨?_, (h.starting hplace).pending⟩, fun hearly => ?_⟩
  · rw [State.stage, hplace]
  · exact hnot ⟨(hearly.main h).1, hearly.pending⟩

/-- A press while a signal is under way is one signal more than presses that found
`key_value` 0. -/
theorem hangs_of_press (h : Inv s) (hone : OneForOne s) (hway : s.UnderWay)
    (hpress : step s (.timer 0) = some s') :
    ∃ bs t, (∀ b ∈ bs, b.Internal) ∧ Transition.run step s' bs = some t ∧ t.Hung := by
  have h' := h.step hpress
  cases stepCase_of_step h hpress with
  | noPress hne => exact absurd rfl hne
  | press hidle =>
    obtain ⟨hplace, hearly⟩ := underWay_registered h hidle hway
    have hsent := hone.sent.resolve_right hearly
    have hkey := key_of_underWay h hsent hidle hway
    refine hangs_of_sent h' hplace rfl ?_
    simp only [State.sent, hidle, sends] at hsent
    have hne : ¬(1 : ℤ) = 0 := by decide
    simp only [State.sent, KeyDevice.press, KeyDevice.Driver.hasFasync, if_true, hkey, hne,
      sends, if_false]
    omega

/-- While every press has come with no signal under way, the program has not hung; the next
press can make it hang exactly if a signal is under way. -/
theorem hangs_iff (as : List Action) (hrun : Transition.run step start as = some s)
    (hcalm : Transition.Always step Calm start as) (hpress : step s (.timer 0) = some s') :
    ¬s.Hung ∧
      ((∃ bs t, (∀ b ∈ bs, b.Internal) ∧ Transition.run step s' bs = some t ∧ t.Hung) ↔
        s.UnderWay) := by
  have hkeep : ∀ s a s', Inv s ∧ OneForOne s → step s a = some s' → Calm s a s' →
      Inv s' ∧ OneForOne s' := fun s a s' h hstep hcalm =>
    ⟨h.1.step hstep, oneForOne_step h.1 h.2 hstep hcalm⟩
  obtain ⟨h, hone⟩ :=
    Transition.inv_run_of_always hkeep ⟨inv_start, oneForOne_start⟩ hcalm hrun
  refine ⟨hone.awake, ?_, fun hway => hangs_of_press h hone hway hpress⟩
  rintro ⟨bs, t, hinternal, hrun', hhung⟩
  by_contra hway
  have hpressed := hkeep s (.timer 0) s' ⟨h, hone⟩ hpress fun _ => hway
  have hcalm' : Transition.Always step Calm s' bs :=
    Transition.always_of_forall_mem fun b hb _ _ htimer => absurd htimer (hinternal b hb 0)
  exact (Transition.inv_run_of_always hkeep hpressed hcalm' hrun').2.awake hhung

/-- A press before the handler has read, while the first one's signal is handled. -/
theorem hangs_before_read :
    let taken : List Action := [.next, .timer 0, .notify, .notify, .deliver]
    ∃ s s', Transition.run step start taken = some s ∧ step s (.timer 0) = some s' ∧
      ∃ bs t, (∀ b ∈ bs, b.Internal) ∧ Transition.run step s' bs = some t ∧ t.Hung := by
  intro taken
  have hcalm : Transition.Always step Calm start taken := by
    refine .cons rfl (fun h => by cases h) ?_
    refine .cons rfl (fun _ => by simp [State.UnderWay, State.register, start, State.stage,
      KeyDevice.charDevFasync, KeyDevice.init]) ?_
    refine .cons rfl (fun h => by cases h) ?_
    refine .cons rfl (fun h => by cases h) ?_
    exact .cons rfl (fun h => by cases h) True.intro
  refine ⟨_, _, rfl, rfl, (hangs_iff taken rfl hcalm rfl).2.mpr ?_⟩
  exact .inr (.inr (by simp [State.stage]))

end FasyncProgram

end LinuxDriverKb
