import Mathlib.Data.Int.Notation
import Mathlib.Data.Nat.Notation
import Mathlib.Logic.Function.Basic
import Mathlib.Tactic.SplitIfs

/-!
# The key devices

`block_io.c`, `nonblock_io.c`, `fasync_io.c` and `fasync_io_misc.c` share one
`char_dev_read` : it tests `key_value`, waits on `wq` while that is 0, reads `key_value`
again, sets it to 0 and copies what it read. `debounce_timer_handler` sets `key_value` to
1. All but `block_io` can be polled; the two fasync drivers keep a list of processes to
signal, and their handler signals those instead of waking `wq` if there are any. A process
that blocks or ignores `SIGIO` is not woken by it.

The steps of all processes and of the timer interleave. A state has the shared data, where
each process is, and a history : the number of presses recorded, the number of times
`key_value` went from 0 to 1, and what the successful reads handed over.
-/

set_option autoImplicit false

namespace LinuxDriverKb

namespace KeyDevice

/-! ## Processes -/

/-- The drivers with a key. -/
inductive Driver
  | blockIo
  | nonblockIo
  | fasyncIo
  | fasyncIoMisc
  deriving DecidableEq

/-- The driver has `char_dev_poll`. -/
def Driver.hasPoll : Driver → Bool
  | .blockIo => false
  | _ => true

/-- The driver has `char_dev_fasync`. -/
def Driver.hasFasync : Driver → Bool
  | .blockIo | .nonblockIo => false
  | .fasyncIo | .fasyncIoMisc => true

/-- The history when a read took its value : `key_value` had gone from 0 to 1 `epoch`
times, and `presses` presses had been recorded. -/
structure Tag where
  epoch : ℕ
  presses : ℕ
  deriving DecidableEq

/-- Where a process is. `test` to `copy` are in `char_dev_read`, with `waitTest` to
`asleep` in `wait_event_interruptible`; `pollQueue` to `pollAsleep` are in a poll. -/
inductive Pc
  | idle
  | test
  | waitTest
  | prepare
  | recheck
  | asleep
  | sample
  | clear (value : ℤ) (tag : Tag)
  | copy (value : ℤ) (tag : Tag)
  | pollQueue
  | pollTest
  | pollAsleep
  deriving DecidableEq

/-- A process : its file's `O_NONBLOCK`, whether it is on `wq`, and whether a wake-up or a
signal is pending for it. -/
structure Local where
  pc : Pc
  nonblock : Bool
  queued : Bool
  woken : Bool
  sig : Bool

/-- The next step of a process, for the steps that change nothing but the process itself. -/
def Local.next (key : ℤ) (l : Local) : Option Local :=
  match l.pc with
  | .test =>
    some { l with pc := if key ≠ 0 then .sample else if l.nonblock then .idle else .waitTest }
  | .waitTest => some { l with pc := if key ≠ 0 then .sample else .prepare }
  | .prepare => some { l with pc := .recheck, queued := true, woken := false }
  | .recheck =>
    if key ≠ 0 then some { l with pc := .sample, queued := false }
    -- -ERESTARTSYS
    else if l.sig then some { l with pc := .idle, queued := false }
    else some { l with pc := .asleep }
  | .asleep => if l.woken || l.sig then some { l with pc := .prepare } else none
  | .pollQueue => some { l with pc := .pollTest, queued := true, woken := false }
  | .pollTest =>
    if key ≠ 0 ∨ l.sig then some { l with pc := .idle, queued := false }
    else some { l with pc := .pollAsleep }
  | .pollAsleep =>
    if l.woken || l.sig then some { l with pc := .pollTest, woken := false } else none
  | .idle | .sample | .clear _ _ | .copy _ _ => none

/-! ## The device -/

/-- Where `debounce_timer_handler` is : not running, or before the test of `p->fasync`,
`kill_fasync` or `wake_up_interruptible`. -/
inductive HandlerPc
  | idle
  | test
  | kill
  | wake
  deriving DecidableEq

/-- The shared data, the processes that `SIGIO` does not reach as they block or ignore it, where
each process is, and the history. -/
structure State (Proc : Type) where
  key : ℤ
  handler : HandlerPc
  fasync : List Proc
  blocked : Proc → Bool
  procs : Proc → Local
  presses : ℕ
  epoch : ℕ
  /-- The value and the epoch of each successful read. -/
  handed : List (ℤ × ℕ)

/-- The steps of the handler and of the processes, and what these do with signals. -/
inductive Action (Proc : Type)
  /-- The timer expires and reads `value` from the GPIO. -/
  | timer (value : ℤ)
  /-- The next step of the handler. -/
  | notify
  | read (q : Proc) (nonblock : Bool)
  | poll (q : Proc)
  | next (q : Proc)
  /-- The second `atomic_read`. -/
  | sample (q : Proc)
  /-- The `atomic_set` to 0. -/
  | clear (q : Proc)
  /-- `copy_to_user`, with the number of bytes it leaves. -/
  | copy (q : Proc) (uncopied : ℕ)
  /-- A signal other than `SIGIO`. -/
  | signal (q : Proc)
  /-- From now on `q` blocks or ignores `SIGIO`, or no longer. -/
  | mask (q : Proc) (blocked : Bool)
  | fasync (q : Proc) (on : Bool)
  | release (q : Proc)

variable {Proc : Type} [DecidableEq Proc]

/-- With another state of process `q`. -/
def State.setLocal (s : State Proc) (q : Proc) (l : Local) : State Proc :=
  { s with procs := Function.update s.procs q l }

/-- `debounce_timer_handler` up to `atomic_set`. -/
def press (d : Driver) (s : State Proc) : State Proc :=
  { s with
    key := 1
    handler := if d.hasFasync then .test else .wake
    presses := s.presses + 1
    epoch := if s.key = 0 then s.epoch + 1 else s.epoch }

/-- `kill_fasync` sends `SIGIO` to the processes on the list. -/
def killFasync (s : State Proc) : Proc → Local := fun q =>
  if q ∈ s.fasync ∧ s.blocked q = false then { s.procs q with sig := true } else s.procs q

/-- `wake_up_interruptible` wakes every process on `wq`. -/
def wakeUp (s : State Proc) : Proc → Local := fun q =>
  { s.procs q with woken := (s.procs q).woken || (s.procs q).queued }

/-- The rest of `debounce_timer_handler`. -/
def notifyStep (s : State Proc) : Option (State Proc) :=
  match s.handler with
  | .idle => none
  | .test => some { s with handler := if s.fasync = [] then .wake else .kill }
  | .kill => some { s with handler := .idle, procs := killFasync s }
  | .wake => some { s with handler := .idle, procs := wakeUp s }

/-- `char_dev_fasync`. -/
def charDevFasync (s : State Proc) (q : Proc) (on : Bool) : State Proc :=
  { s with fasync := if on then s.fasync.insert q else s.fasync.filter (· ≠ q) }

/-- One step of the handler or of a process. -/
def step (d : Driver) (s : State Proc) : Action Proc → Option (State Proc)
  | .timer value =>
    if s.handler = .idle then some (if value = 0 then press d s else s) else none
  | .notify => notifyStep s
  | .read q nonblock =>
    if (s.procs q).pc = .idle then some (s.setLocal q ⟨.test, nonblock, false, false, false⟩)
    else none
  | .poll q =>
    if d.hasPoll ∧ (s.procs q).pc = .idle then
      some (s.setLocal q ⟨.pollQueue, false, false, false, false⟩)
    else none
  | .next q => ((s.procs q).next s.key).map (s.setLocal q)
  | .sample q =>
    if (s.procs q).pc = .sample then
      some (s.setLocal q { s.procs q with pc := .clear s.key ⟨s.epoch, s.presses⟩ })
    else none
  | .clear q =>
    match (s.procs q).pc with
    | .clear v t => some { s.setLocal q { s.procs q with pc := .copy v t } with key := 0 }
    | _ => none
  | .copy q uncopied =>
    match (s.procs q).pc with
    | .copy v t => some
      { s.setLocal q { s.procs q with pc := .idle } with
        handed := if uncopied = 0 then s.handed ++ [(v, t.epoch)] else s.handed }
    | _ => none
  | .signal q => some (s.setLocal q { s.procs q with sig := true })
  | .mask q blocked => some { s with blocked := Function.update s.blocked q blocked }
  | .fasync q on => if d.hasFasync then some (charDevFasync s q on) else none
  | .release q =>
    if (s.procs q).pc = .idle then some (if d.hasFasync then charDevFasync s q false else s)
    else none

/-- The device as probed. -/
def init : State Proc where
  key := 0
  handler := .idle
  fasync := []
  blocked := fun _ => false
  procs := fun _ => ⟨.idle, false, false, false, false⟩
  presses := 0
  epoch := 0
  handed := []

/-! ## What a step does -/

/-- The steps, by what they do. -/
inductive StepCase (d : Driver) (s : State Proc) : Action Proc → State Proc → Prop
  | press : s.handler = .idle → StepCase d s (.timer 0) (press d s)
  | noPress {value : ℤ} : StepCase d s (.timer value) s
  | notify {s' : State Proc} : notifyStep s = some s' → StepCase d s .notify s'
  | read {q : Proc} {nonblock : Bool} :
    StepCase d s (.read q nonblock) (s.setLocal q ⟨.test, nonblock, false, false, false⟩)
  | poll {q : Proc} :
    StepCase d s (.poll q) (s.setLocal q ⟨.pollQueue, false, false, false, false⟩)
  | next {q : Proc} {l : Local} : (s.procs q).next s.key = some l →
    StepCase d s (.next q) (s.setLocal q l)
  | sample {q : Proc} : StepCase d s (.sample q)
      (s.setLocal q { s.procs q with pc := .clear s.key ⟨s.epoch, s.presses⟩ })
  | clear {q : Proc} {v : ℤ} {t : Tag} : (s.procs q).pc = .clear v t → StepCase d s (.clear q)
      { s.setLocal q { s.procs q with pc := .copy v t } with key := 0 }
  | copy {q : Proc} {v : ℤ} {t : Tag} {uncopied : ℕ} : (s.procs q).pc = .copy v t →
    StepCase d s (.copy q uncopied)
      { s.setLocal q { s.procs q with pc := .idle } with
        handed := if uncopied = 0 then s.handed ++ [(v, t.epoch)] else s.handed }
  | signal {q : Proc} : StepCase d s (.signal q) (s.setLocal q { s.procs q with sig := true })
  | mask {q : Proc} {b : Bool} {blocked : Proc → Bool} :
    StepCase d s (.mask q b) { s with blocked := blocked }
  | fasync {q : Proc} {on : Bool} {ps : List Proc} :
    StepCase d s (.fasync q on) { s with fasync := ps }
  | release {q : Proc} {ps : List Proc} : StepCase d s (.release q) { s with fasync := ps }

theorem stepCase_of_step {d : Driver} {s s' : State Proc} {a : Action Proc}
    (h : step d s a = some s') : StepCase d s a s' := by
  cases a with
  | timer value =>
    simp only [step] at h
    split_ifs at h with hidle hv <;> cases h
    · exact hv ▸ .press hidle
    · exact .noPress
  | notify => exact .notify h
  | next q =>
    obtain ⟨l, hl, rfl⟩ := Option.map_eq_some_iff.mp h
    exact .next hl
  | clear q =>
    simp only [step] at h
    split at h <;> cases h
    exact .clear ‹_›
  | copy q uncopied =>
    simp only [step] at h
    split at h <;> cases h
    exact .copy ‹_›
  | release q =>
    simp only [step] at h
    split_ifs at h <;> cases h <;> exact .release
  | signal q =>
    cases h
    exact .signal
  | mask q blocked =>
    cases h
    exact .mask
  | _ =>
    simp only [step] at h
    split_ifs at h
    cases h
    constructor

/-! ## Updates of one process -/

@[simp] theorem State.setLocal_procs_self (s : State Proc) (q : Proc) (l : Local) :
    (s.setLocal q l).procs q = l := by
  simp [State.setLocal]

theorem State.setLocal_procs_of_ne {q r : Proc} (h : r ≠ q) (s : State Proc) (l : Local) :
    (s.setLocal q l).procs r = s.procs r := by
  simp [State.setLocal, h]

/-- A process after the update is the new one, or another that is as it was. -/
theorem State.setLocal_cases (s : State Proc) (q : Proc) (l : Local) (r : Proc) :
    (r = q ∧ (s.setLocal q l).procs r = l) ∨
      (r ≠ q ∧ (s.setLocal q l).procs r = s.procs r) := by
  by_cases hr : r = q
  · exact .inl ⟨hr, hr ▸ s.setLocal_procs_self q l⟩
  · exact .inr ⟨hr, State.setLocal_procs_of_ne hr s l⟩

theorem State.pc_of_setLocal {s : State Proc} {q r : Proc} {l : Local} {pc : Pc}
    (h : ((s.setLocal q l).procs r).pc = pc) :
    (r = q ∧ l.pc = pc) ∨ (r ≠ q ∧ (s.procs r).pc = pc) := by
  rcases s.setLocal_cases q l r with ⟨hr, hl⟩ | ⟨hr, hl⟩
  · exact .inl ⟨hr, hl ▸ h⟩
  · exact .inr ⟨hr, hl ▸ h⟩

end KeyDevice

end LinuxDriverKb
