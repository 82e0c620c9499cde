import LinuxDriverKb.FakeIiodev
import LinuxDriverKb.Lib.ByteMem
import LinuxDriverKb.Lib.Transition
import Mathlib.Data.List.FinRange
import Mathlib.Data.Fin.VecNotation

/-!
# The buffer records of `fake_iiodev.c`

The trigger handler copies both channels to the first two bytes of its data, under the lock
that a tick takes around its two assignments. The core takes one byte for each enabled
channel from the data, and the timestamp at the next boundary of eight bytes.

`records_iff` : for the enabled elements `m`, every record of every run has in the position
of each enabled channel its value at one instant, if and only if the first channel is
enabled or the second is not.
-/

set_option autoImplicit false

namespace LinuxDriverKb

namespace FakeIiodev

namespace Buffer

/-! ## Records -/

/-- The enabled scan elements, not all of them off. -/
structure ScanMask where
  chan : Fin 2 → Bool
  timestamp : Bool
  nonempty : (∃ c, chan c = true) ∨ timestamp = true

/-- The byte of the channel `c` in a record : one for each enabled channel before it. -/
def ScanMask.pos (m : ScanMask) (c : Fin 2) : ℕ :=
  (List.finRange 2).countP fun d => decide (d < c) && m.chan d

/-- The bytes of the enabled channels. -/
def ScanMask.lightBytes (m : ScanMask) : ℕ :=
  (List.finRange 2).countP m.chan

/-- The next boundary of eight bytes. -/
def ScanMask.timestampPos (m : ScanMask) : ℕ :=
  (m.lightBytes + 7) / 8 * 8

/-- `scan_bytes`. -/
def ScanMask.scanBytes (m : ScanMask) : ℕ :=
  if m.timestamp then m.timestampPos + 8 else m.lightBytes

/-- The bytes of a timestamp, the lowest first. -/
def timestampBytes (time : ℕ) (k : ℕ) : UInt8 :=
  UInt8.ofNat (time / 256 ^ k)

/-- `iio_push_to_buffers_with_timestamp` : the record that the core takes from the data. -/
def record (m : ScanMask) (data : ℕ → UInt8) (time : ℕ) : List UInt8 :=
  let data := if m.timestamp then ByteMem.memcpy data m.timestampPos (timestampBytes time) 0 8
    else data
  ByteMem.bytes data m.scanBytes

theorem ScanMask.pos_lt_lightBytes {m : ScanMask} {c : Fin 2} (h : m.chan c = true) :
    m.pos c < m.lightBytes := by
  match c with
  | 0 => cases h1 : m.chan 1 <;> simp [pos, lightBytes, List.finRange_succ, h, h1]
  | 1 => cases h0 : m.chan 0 <;> simp [pos, lightBytes, List.finRange_succ, h, h0]

/-- A channel in the record is the byte of the data in its position. -/
theorem record_pos {m : ScanMask} {c : Fin 2} (h : m.chan c = true) (data : ℕ → UInt8)
    (time : ℕ) : (record m data time)[m.pos c]? = some (data (m.pos c)) := by
  have hpos := ScanMask.pos_lt_lightBytes h
  have hts : m.lightBytes ≤ m.timestampPos := by
    unfold ScanMask.timestampPos
    omega
  simp only [record, ByteMem.bytes, ScanMask.scanBytes, List.getElem?_map]
  split_ifs with ht
  · rw [List.getElem?_range (by omega), Option.map_some,
      ByteMem.memcpy_apply_of_not_mem (by omega)]
  · rw [List.getElem?_range hpos, Option.map_some]

/-- The handler's two bytes are where the core takes them, if the first channel is enabled
or the second is not. -/
theorem ScanMask.pos_eq {m : ScanMask} (hm : m.chan 0 = true ∨ m.chan 1 = false) {c : Fin 2}
    (h : m.chan c = true) : m.pos c = c := by
  match c with
  | 0 => simp [pos]
  | 1 =>
    have h0 : m.chan 0 = true := hm.resolve_right (by simp [h])
    simp [pos, List.finRange_succ, h0]

/-! ## Ticks and the handler -/

/-- The holders of `priv->lock`. -/
inductive Party
  | tick
  | handler
  deriving DecidableEq

/-- Where `lux_auto_change` is : not running, before its first assignment, before its second,
or before it releases the lock. -/
inductive TickPc
  | idle
  | first
  | second
  | unlock
  deriving DecidableEq

/-- Where `fake_iiodev_trigger_handler` is : not running, before it takes the lock, before the
`i`-th pass of its loop, or before the push. -/
inductive HandlerPc
  | idle
  | lock
  | copy (i : ℕ)
  | push
  deriving DecidableEq

/-- `window` are the values of the channels at the instants since the handler was called. -/
structure State where
  lux : Fin 2 → UInt8
  lock : Option Party
  tick : TickPc
  handler : HandlerPc
  data : ℕ → UInt8
  window : List (Fin 2 → UInt8)

/-- The next statement of the tick, or of the handler; `time` is the timestamp of a push. -/
inductive Action
  | tick
  | handler (time : ℕ)

/-- A store to the values, which the window of the handler sees. -/
def setLux (s : State) (lux : Fin 2 → UInt8) : State :=
  { s with lux := lux, window := s.window ++ [lux] }

/-- The next step of `lux_auto_change`. -/
def tickStep (s : State) : Option State :=
  match s.tick with
  | .idle => if s.lock = none then some { s with lock := some .tick, tick := .first } else none
  | .first => some { setLux s (luxFirst s.lux) with tick := .second }
  | .second => some { setLux s (luxSecond s.lux) with tick := .unlock }
  | .unlock => some { s with lock := none, tick := .idle }

/-- The next step of `fake_iiodev_trigger_handler`. -/
def handlerStep (s : State) : Option State :=
  match s.handler with
  | .idle => some { s with data := fun _ => 0, window := [s.lux], handler := .lock }
  | .lock =>
    if s.lock = none then some { s with lock := some .handler, handler := .copy 0 } else none
  | .copy i =>
    if h : i < 2 then
      some { s with data := Function.update s.data i (s.lux ⟨i, h⟩), handler := .copy (i + 1) }
    else some { s with lock := none, handler := .push }
  | .push => some { s with handler := .idle }

/-- A step of either. -/
def step (s : State) : Action → Option State
  | .tick => tickStep s
  | .handler _ => handlerStep s

/-- Neither runs, and nothing is pushed. -/
def start : State where
  lux _ := 0
  lock := none
  tick := .idle
  handler := .idle
  data _ := 0
  window := []

/-- The record a push delivers has in the position of each enabled channel its value at one
instant, at which the second channel is half of the first if both are enabled. -/
def RecordRight (m : ScanMask) (s : State) (a : Action) (_ : State) : Prop :=
  match a with
  | .handler time => s.handler = .push → ∃ lux ∈ s.window,
    (∀ c, m.chan c = true → (record m s.data time)[m.pos c]? = some (lux c)) ∧
      ((∀ c, m.chan c = true) → Halved lux)
  | .tick => True

/-! ## Under the lock -/

/-- Who has the lock, and how the values and the sample relate. -/
structure Inv (s : State) : Prop where
  tickLock : s.lock = some .tick ↔ s.tick ≠ .idle
  handlerLock : s.lock = some .handler ↔ ∃ i, s.handler = .copy i
  /-- Only between the two assignments of a tick is the second channel not half of the
  first. -/
  halved : s.tick ≠ .second → Halved s.lux
  window : s.handler ≠ .idle → s.lux ∈ s.window
  /-- What the handler has copied is what the channels have. -/
  copied : ∀ i, s.handler = .copy i → ∀ c : Fin 2, c.val < i → s.data c = s.lux c
  sampled : s.handler = .push → ∃ lux ∈ s.window, Halved lux ∧ ∀ c : Fin 2, s.data c = lux c

theorem inv_start : Inv start where
  tickLock := by simp [start]
  handlerLock := by simp [start]
  halved _ := (by decide : (0 : UInt8) = 0 / 2)
  window h := absurd rfl h
  copied _ h := nomatch h
  sampled h := nomatch h

variable {s s' : State}

/-- While a tick is in its assignments the handler copies nothing. -/
theorem Inv.not_copy (h : Inv s) (htick : s.tick ≠ .idle) (i : ℕ) : s.handler ≠ .copy i := by
  intro hcopy
  have hlock := h.tickLock.mpr htick
  rw [h.handlerLock.mpr ⟨i, hcopy⟩] at hlock
  exact nomatch hlock

/-- An assignment of a tick, which holds the lock. -/
theorem inv_setLux (h : Inv s) {lux : Fin 2 → UInt8} {pc : TickPc} (htick : s.tick ≠ .idle)
    (hpc : pc ≠ .idle) (hlux : pc ≠ .second → Halved lux) :
    Inv { setLux s lux with tick := pc } where
  tickLock := iff_of_true (h.tickLock.mpr htick) hpc
  handlerLock := h.handlerLock
  halved := hlux
  window _ := List.mem_append_right s.window (List.mem_singleton_self lux)
  copied i hcopy := absurd hcopy (h.not_copy htick i)
  sampled hpush := by
    obtain ⟨old, hmem, hold⟩ := h.sampled hpush
    exact ⟨old, List.mem_append_left [lux] hmem, hold⟩

theorem inv_tick (h : Inv s) (hstep : tickStep s = some s') : Inv s' := by
  unfold tickStep at hstep
  cases htick : s.tick with
  | idle =>
    simp only [htick] at hstep
    split_ifs at hstep with hlock
    obtain rfl := Option.some.inj hstep
    have hhandler : ¬∃ i, s.handler = .copy i := by
      rw [← h.handlerLock, hlock]
      exact nofun
    exact ⟨iff_of_true rfl nofun, iff_of_false nofun hhandler,
      fun _ => h.halved (by simp [htick]), h.window, h.copied, h.sampled⟩
  | first =>
    simp only [htick] at hstep
    obtain rfl := Option.some.inj hstep
    exact inv_setLux h (by simp [htick]) nofun fun hno => absurd rfl hno
  | second =>
    simp only [htick] at hstep
    obtain rfl := Option.some.inj hstep
    exact inv_setLux h (by simp [htick]) nofun fun _ => luxSecond_halved s.lux
  | unlock =>
    simp only [htick] at hstep
    obtain rfl := Option.some.inj hstep
    have hhandler : ¬∃ i, s.handler = .copy i := fun ⟨i, hi⟩ =>
      h.not_copy (by simp [htick]) i hi
    exact ⟨iff_of_false nofun fun hno => absurd rfl hno, iff_of_false nofun hhandler,
      fun _ => h.halved (by simp [htick]), h.window, h.copied, h.sampled⟩

/-- One pass of the loop. -/
theorem inv_copy (h : Inv s) {i : ℕ} (hi : i < 2) (hcopy : s.handler = .copy i) :
    Inv { s with data := Function.update s.data i (s.lux ⟨i, hi⟩), handler := .copy (i + 1) } where
  tickLock := h.tickLock
  handlerLock := iff_of_true (h.handlerLock.mpr ⟨i, hcopy⟩) ⟨i + 1, rfl⟩
  halved := h.halved
  window _ := h.window (by simp [hcopy])
  copied j hj c hc := by
    obtain rfl := HandlerPc.copy.inj hj
    dsimp only
    rcases Nat.lt_succ_iff_lt_or_eq.mp hc with hlt | heq
    · rw [Function.update_of_ne hlt.ne]
      exact h.copied i hcopy c hlt
    · obtain rfl := heq
      rw [Function.update_self]
  sampled hpush := nomatch hpush

/-- The release of the lock after both passes : the data is what the channels have at this
instant. -/
theorem inv_unlock (h : Inv s) {i : ℕ} (hi : ¬i < 2) (hcopy : s.handler = .copy i) :
    Inv { s with lock := none, handler := .push } where
  tickLock := by
    have htick : s.tick = .idle := by
      by_contra hno
      exact h.not_copy hno i hcopy
    exact iff_of_false nofun fun hno => hno htick
  handlerLock := iff_of_false nofun nofun
  halved := h.halved
  window _ := h.window (by simp [hcopy])
  copied _ hno := nomatch hno
  sampled _ := by
    have htick : s.tick ≠ .second := fun hsecond =>
      h.not_copy (by simp [hsecond]) i hcopy
    exact ⟨s.lux, h.window (by simp [hcopy]), h.halved htick,
      fun c => h.copied i hcopy c (by omega)⟩

theorem inv_handler (h : Inv s) (hstep : handlerStep s = some s') : Inv s' := by
  unfold handlerStep at hstep
  cases hhandler : s.handler with
  | idle =>
    simp only [hhandler] at hstep
    obtain rfl := Option.some.inj hstep
    have hlock : s.lock ≠ some .handler := by
      rw [ne_eq, h.handlerLock, hhandler]
      exact nofun
    exact ⟨h.tickLock, iff_of_false hlock nofun, h.halved, fun _ => List.mem_singleton_self _,
      nofun, nofun⟩
  | lock =>
    simp only [hhandler] at hstep
    split_ifs at hstep with hlock
    obtain rfl := Option.some.inj hstep
    have htick : ¬s.tick ≠ .idle := by
      rw [← h.tickLock, hlock]
      exact nofun
    exact ⟨iff_of_false nofun htick, iff_of_true rfl ⟨0, rfl⟩, h.halved,
      fun _ => h.window (by simp [hhandler]),
      fun i hi c hc => absurd (HandlerPc.copy.inj hi ▸ hc) (Nat.not_lt_zero _), nofun⟩
  | copy i =>
    simp only [hhandler] at hstep
    split_ifs at hstep with hi
    · obtain rfl := Option.some.inj hstep
      exact inv_copy h hi hhandler
    · obtain rfl := Option.some.inj hstep
      exact inv_unlock h hi hhandler
  | push =>
    simp only [hhandler] at hstep
    obtain rfl := Option.some.inj hstep
    have hlock : s.lock ≠ some .handler := by
      rw [ne_eq, h.handlerLock, hhandler]
      exact nofun
    exact ⟨h.tickLock, iff_of_false hlock nofun, h.halved, fun hno => absurd rfl hno, nofun, nofun⟩

theorem inv_step {a : Action} (h : Inv s) (hstep : step s a = some s') : Inv s' := by
  cases a with
  | tick => exact inv_tick h hstep
  | handler time => exact inv_handler h hstep

/-! ## Runs -/

/-- Where the handler's two bytes are where the core takes them, a push delivers the
sampled pair. -/
theorem recordRight_of_pos {m : ScanMask} (hm : m.chan 0 = true ∨ m.chan 1 = false) (h : Inv s)
    (a : Action) : RecordRight m s a s' := by
  cases a with
  | tick => exact True.intro
  | handler time =>
    intro hpush
    obtain ⟨lux, hmem, hhalf, hdata⟩ := h.sampled hpush
    refine ⟨lux, hmem, fun c hc => ?_, fun _ => hhalf⟩
    rw [record_pos hc, ScanMask.pos_eq hm hc, hdata c]

/-- A tick, and then the handler up to its push. -/
def tickThenHandler : List Action :=
  [.tick, .tick, .tick, .tick, .handler 0, .handler 0, .handler 0, .handler 0, .handler 0]

/-- The push after it, with 1 and 0 in the channels. -/
theorem run_tickThenHandler :
    ∃ s, Transition.run step start tickThenHandler = some s ∧ s.handler = .push ∧
      s.data 0 = 1 ∧ s.window.map (· 1) = [0] :=
  ⟨_, rfl, rfl, rfl, rfl⟩

/-- With the second channel alone its position has the value of the first. -/
theorem not_recordRight {m : ScanMask} (h0 : m.chan 0 = false) (h1 : m.chan 1 = true) :
    ¬Transition.Always step (RecordRight m) start (tickThenHandler ++ [.handler 0]) := by
  intro h
  obtain ⟨s, hrun, hpush, hdata, hwindow⟩ := run_tickThenHandler
  have hstep : step s (.handler 0) = some { s with handler := .idle } := by
    simp only [step, handlerStep, hpush]
  obtain ⟨lux, hmem, hpos, -⟩ := h.last hstep hrun hpush
  have hlux : lux 1 = 0 := by
    have := List.mem_map_of_mem (f := (· 1)) hmem
    simpa [hwindow] using this
  have hzero : m.pos 1 = 0 := by
    simp [ScanMask.pos, List.finRange_succ, h0]
  have hbyte := hpos 1 h1
  rw [record_pos h1, hzero, hdata, hlux] at hbyte
  exact absurd (Option.some.inj hbyte) (by decide)

/-- For every set of enabled elements : all records of all interleavings of ticks and handler
runs are right if and only if the first channel is enabled or the second is not. -/
theorem records_iff (m : ScanMask) :
    (∀ as, Transition.Always step (RecordRight m) start as) ↔
      m.chan 0 = true ∨ m.chan 1 = false := by
  constructor
  · intro h
    by_contra hno
    obtain ⟨h0, h1⟩ := not_or.mp hno
    exact not_recordRight (Bool.eq_false_of_not_eq_true h0) (Bool.eq_true_of_not_eq_false h1)
      (h _)
  · intro hm as
    refine Transition.always_of_inv (I := Inv) (fun s a s' h hstep => ?_) inv_start
    exact ⟨inv_step h hstep, recordRight_of_pos hm h a⟩

/-- The second channel alone : at 1 and 0 the record has a 1. -/
theorem second_alone :
    let m : ScanMask := ⟨![false, true], false, .inl ⟨1, rfl⟩⟩
    m.pos 1 = 0 ∧ record m (fun i => if i = 0 then 1 else 0) 0 = [1] ∧
      ¬∀ as, Transition.Always step (RecordRight m) start as :=
  ⟨by decide, by decide, fun h => not_recordRight rfl rfl (h _)⟩

end Buffer

end FakeIiodev

end LinuxDriverKb
