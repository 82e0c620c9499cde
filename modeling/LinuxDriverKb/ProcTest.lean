import LinuxDriverKb.Lib.Decimal
import LinuxDriverKb.Lib.PeriodicTimer
import LinuxDriverKb.Lib.SeqFile

/-!
# The counter in `/proc` of chapter 34

A timer of `proc.c` counts the seconds, and arms itself again for the next. `proc_test_show`
prints the count into a sequence file with one record, from which any number of readers take
what they want, while the timer goes on.

`proc_timer_value` : what a reader has got since it opened the file, or last went to another
place in it, is of one line, with a count of that time.
-/

set_option autoImplicit false

namespace LinuxDriverKb

namespace ProcTest

/-! ## The driver -/

/-- `timer_value` counts what has fired. -/
structure State where
  timer : PeriodicTimer.State
  timerValue : BitVec 32
  files : ℕ → SeqFile.File
  removed : Bool

/-- The characters of a text. -/
def bytes (str : String) : List UInt8 :=
  str.toList.map fun c => .ofNat c.toNat

/-- `proc_test_show`. -/
def procTestShow (timerValue : BitVec 32) : List UInt8 :=
  bytes "timer_value:" ++ Decimal.print timerValue.toInt ++ [10]

/-- The operations of `single_open`. -/
def ops : SeqFile.Ops (BitVec 32) Unit :=
  SeqFile.single procTestShow

/-- `PAGE_SIZE`. -/
def pageSize : ℕ := 4096

/-- The second half of `timer_handler`, which arms the timer; `hz` : jiffies in a second. -/
def timerHandler (hz latency : ℕ) : PeriodicTimer.Config :=
  ⟨PeriodicTimer.modTimer (1 * hz), latency⟩

/-- `proc_test_init`, when it succeeds. -/
def procTestInit (hz jiffies : ℕ) : State where
  timer := PeriodicTimer.armed jiffies (1 * hz)
  timerValue := 0
  files _ := SeqFile.File.opened
  removed := false

/-- The file of reader `i` becomes `f`. -/
def State.withFile (s : State) (i : ℕ) (f : SeqFile.File) : State :=
  { s with files := fun j => if j = i then f else s.files j }

/-! ## The system -/

/-- What a reader has got from where, and the timer when it went there. -/
structure Reading where
  offset : ℕ
  got : List UInt8
  opened : PeriodicTimer.State

/-- The module, and what each reader has got. -/
structure Watched where
  state : State
  reading : ℕ → Reading

/-- What reader `i` has got becomes `r`. -/
def Watched.withReading (x : Watched) (i : ℕ) (r : Reading) : ℕ → Reading :=
  fun j => if j = i then r else x.reading j

/-- Time passes, the handler starts or arms the timer; readers open, read and seek; the two
calls of `proc_test_exit`. -/
inductive Action
  | tick
  | timerHandler
  | modTimer
  | procTestOpen (i : ℕ)
  | read (i size : ℕ)
  | seek (i : ℕ) (offset : ℤ)
  | delTimerSync
  | removeProcSubtree

variable (hz latency : ℕ)

/-- A step of the timer, with the counter that it leaves. -/
def timerStep (x : Watched) (a : PeriodicTimer.Action) (timerValue : BitVec 32) : Option Watched :=
  (PeriodicTimer.step (timerHandler hz latency) x.state.timer a).map fun t =>
    { x with state := { x.state with timer := t, timerValue := timerValue } }

/-- What is removed can neither be opened nor read. -/
def step (x : Watched) : Action → Option Watched
  | .tick => timerStep hz latency x .tick x.state.timerValue
  | .timerHandler => timerStep hz latency x .expire (x.state.timerValue + 1)
  | .modTimer => timerStep hz latency x .rearm x.state.timerValue
  | .delTimerSync => timerStep hz latency x .cancel x.state.timerValue
  | .removeProcSubtree =>
    if x.state.timer.Armed then none else some { x with state := { x.state with removed := true } }
  | .procTestOpen i =>
    if x.state.removed then none
    else some ⟨x.state.withFile i SeqFile.File.opened, x.withReading i ⟨0, [], x.state.timer⟩⟩
  | .read i size =>
    if x.state.removed then none
    else
      let r := SeqFile.read ops pageSize x.state.timerValue size (x.state.files i)
      some ⟨x.state.withFile i r.2,
        x.withReading i { x.reading i with got := (x.reading i).got ++ r.1 }⟩
  | .seek i offset =>
    if x.state.removed then none
    else
      let f := x.state.files i
      some ⟨x.state.withFile i (SeqFile.seek ops x.state.timerValue offset f).2,
        if offset < 0 ∨ offset.toNat = f.readPos then x.reading
        else x.withReading i ⟨offset.toNat, [], x.state.timer⟩⟩

/-- The module is loaded, and no one has read. -/
def init (jiffies : ℕ) : Watched :=
  ⟨procTestInit hz jiffies, fun _ => ⟨0, [], (procTestInit hz jiffies).timer⟩⟩

/-! ## What a reader should get -/

/-- The line of a count. -/
def line (count : ℕ) : List UInt8 :=
  procTestShow (.ofNat 32 count)

/-- What a reader has got and is to get is the line of one count, from its offset on. -/
structure OneLine (x : Watched) (i count : ℕ) : Prop where
  got : (x.reading i).got = ((line count).drop (x.reading i).offset).take (x.reading i).got.length
  next : ∀ size, (SeqFile.read ops pageSize x.state.timerValue size (x.state.files i)).1 =
    ((line count).drop ((x.reading i).offset + (x.reading i).got.length)).take size

/-- The count is one of the time since the reader opened the file, or went to its offset. -/
structure Current (start : ℕ) (x : Watched) (i count : ℕ) : Prop where
  past : start + count * hz ≤ x.state.timer.now
  recent : (x.reading i).opened.Armed →
    (x.reading i).opened.now ≤ start + (count + 1) * (hz + latency)

/-! ## One reader -/

theorem Watched.withReading_self (x : Watched) (i : ℕ) :
    x.withReading i (x.reading i) = x.reading := by
  funext j
  rw [Watched.withReading]
  split_ifs with hj
  · rw [hj]
  · rfl

/-- Nothing is printed yet for the reader, or what it got and the buffer are of one line. -/
def Latched (timerFired : ℕ) (f : SeqFile.File) (r : Reading) : Prop :=
  (¬f.Printed ∧ r.offset = 0 ∧ r.got = [] ∧ r.opened.fired ≤ timerFired) ∨
    f.Printed ∧ ∃ count, r.opened.fired ≤ count ∧ count ≤ timerFired ∧
      r.got ++ f.buf = (line count).drop r.offset

variable {hz latency}

theorem Latched.mono {fired fired' : ℕ} {f : SeqFile.File} {r : Reading}
    (h : Latched fired f r) (hle : fired ≤ fired') : Latched fired' f r := by
  rcases h with ⟨hfresh, hoffset, hgot, hopened⟩ | ⟨hprinted, count, hlow, hhigh, heq⟩
  · exact .inl ⟨hfresh, hoffset, hgot, hopened.trans hle⟩
  · exact .inr ⟨hprinted, count, hlow, hhigh.trans hle, heq⟩

theorem not_printed_opened : ¬SeqFile.File.opened.Printed := by
  rintro (hindex | hbuf)
  · exact hindex rfl
  · exact hbuf rfl

theorem latched_opened (t : PeriodicTimer.State) :
    Latched t.fired SeqFile.File.opened ⟨0, [], t⟩ :=
  .inl ⟨not_printed_opened, rfl, rfl, Nat.le_refl _⟩

/-- A read goes on with the line, and prints it first if it is not printed. -/
theorem Latched.read {fired : ℕ} {f : SeqFile.File} {r : Reading} (h : Latched fired f r)
    (size : ℕ) :
    let t := SeqFile.read ops pageSize (.ofNat 32 fired) size f
    Latched fired t.2 { r with got := r.got ++ t.1 } := by
  intro t
  rcases h with ⟨hfresh, hoffset, hgot, hopened⟩ | ⟨hprinted, count, hlow, hhigh, heq⟩
  · obtain ⟨hout, hnew, hbuf⟩ := SeqFile.read_single (s := BitVec.ofNat 32 fired) hfresh
    have hall : t.1 ++ t.2.buf = line fired :=
      (congr (congrArg HAppend.hAppend hout) hbuf).trans (List.take_append_drop _ _)
    refine .inr ⟨hnew, fired, hopened, Nat.le_refl _, ?_⟩
    show (r.got ++ t.1) ++ t.2.buf = (line fired).drop r.offset
    rw [hgot, hoffset, List.nil_append, hall, List.drop_zero]
  · obtain ⟨hout, hnew, hbuf⟩ := SeqFile.read_single_printed (s := BitVec.ofNat 32 fired) hprinted
    have hall : t.1 ++ t.2.buf = f.buf :=
      (congr (congrArg HAppend.hAppend hout) hbuf).trans (List.take_append_drop _ _)
    refine .inr ⟨hnew, count, hlow, hhigh, ?_⟩
    show (r.got ++ t.1) ++ t.2.buf = (line count).drop r.offset
    rw [List.append_assoc, hall, heq]

/-- A seek starts with the line of the moment, or later if it is to the start. -/
theorem latched_seek (t : PeriodicTimer.State) (offset readPos : ℕ) :
    let r := SeqFile.traverse ops (BitVec.ofNat 32 t.fired) offset
    Latched t.fired ⟨r.1, r.2, readPos⟩ ⟨offset, [], t⟩ := by
  intro r
  have h := SeqFile.traverse_single procTestShow (.ofNat 32 t.fired) offset readPos
  dsimp only at h
  split_ifs at h with hzero
  · exact .inl ⟨h, hzero, rfl, Nat.le_refl _⟩
  · exact .inr ⟨h.1, t.fired, Nat.le_refl _, Nat.le_refl _, h.2⟩

theorem Latched.oneLine {x : Watched} {i : ℕ}
    (h : Latched x.state.timer.fired (x.state.files i) (x.reading i))
    (hvalue : x.state.timerValue = .ofNat 32 x.state.timer.fired) :
    ∃ count, (x.reading i).opened.fired ≤ count ∧ count ≤ x.state.timer.fired ∧
      OneLine x i count := by
  rcases h with ⟨hfresh, hoffset, hgot, hopened⟩ | ⟨hprinted, count, hlow, hhigh, heq⟩
  · refine ⟨_, hopened, Nat.le_refl _, by rw [hgot]; rfl, fun size => ?_⟩
    rw [hgot, hoffset, hvalue]
    exact (SeqFile.read_single (s := BitVec.ofNat 32 x.state.timer.fired) hfresh).1
  · refine ⟨count, hlow, hhigh, by rw [← heq, List.take_left], fun size => ?_⟩
    rw [← List.drop_drop, ← heq, List.drop_left]
    exact (SeqFile.read_single_printed (s := x.state.timerValue) hprinted).1

/-! ## Runs -/

/-- The timer is on time, also when the readers opened the file, and the counter counts. -/
structure Inv (hz latency start : ℕ) (x : Watched) : Prop where
  timer : ∃ k, PeriodicTimer.Placed (timerHandler hz latency) start (1 * hz) latency k x.state.timer
  value : x.state.timerValue = .ofNat 32 x.state.timer.fired
  opened : ∀ i, PeriodicTimer.OnTime (timerHandler hz latency) start (1 * hz) latency
    (x.reading i).opened
  latched : ∀ i, Latched x.state.timer.fired (x.state.files i) (x.reading i)

variable {start : ℕ} {x x' : Watched}

theorem inv_init : Inv hz latency start (init hz start) where
  timer := ⟨0, PeriodicTimer.placed_armed _ start (1 * hz) latency⟩
  value := rfl
  opened _ := (PeriodicTimer.placed_armed _ start (1 * hz) latency).onTime
  latched _ := latched_opened _

theorem Inv.onTime (h : Inv hz latency start x) :
    PeriodicTimer.OnTime (timerHandler hz latency) start (1 * hz) latency x.state.timer := by
  obtain ⟨k, hk⟩ := h.timer
  exact hk.onTime

/-- A step of the timer that sets the counter to what has fired. -/
theorem Inv.timerStep (h : Inv hz latency start x) {a : PeriodicTimer.Action} {v : BitVec 32}
    (hv : ∀ t, PeriodicTimer.step (timerHandler hz latency) x.state.timer a = some t →
      v = .ofNat 32 t.fired)
    (hstep : timerStep hz latency x a v = some x') : Inv hz latency start x' := by
  obtain ⟨t, ht, rfl⟩ := Option.map_eq_some_iff.mp hstep
  obtain ⟨k, hk⟩ := h.timer
  refine ⟨hk.step (PeriodicTimer.modTimer_within _ _) ht, hv t ht, h.opened, fun i => ?_⟩
  exact (h.latched i).mono ((PeriodicTimer.step_fired ht).symm ▸ Nat.le_add_right _ _)

/-- A step of the reader `i`. -/
theorem Inv.reader (h : Inv hz latency start x) {i : ℕ} {f : SeqFile.File} {r : Reading}
    (hopened : PeriodicTimer.OnTime (timerHandler hz latency) start (1 * hz) latency r.opened)
    (hlatched : Latched x.state.timer.fired f r) :
    Inv hz latency start ⟨x.state.withFile i f, x.withReading i r⟩ := by
  refine ⟨h.timer, h.value, fun j => ?_, fun j => ?_⟩
  · show PeriodicTimer.OnTime _ _ _ _ (if j = i then r else x.reading j).opened
    split_ifs
    · exact hopened
    · exact h.opened j
  · show Latched _ (if j = i then f else x.state.files j) (if j = i then r else x.reading j)
    split_ifs
    · exact hlatched
    · exact h.latched j

theorem Inv.step (h : Inv hz latency start x) {a : Action}
    (hstep : step hz latency x a = some x') : Inv hz latency start x' := by
  cases a with
  | tick =>
    refine h.timerStep (fun t ht => ?_) hstep
    rw [PeriodicTimer.step_fired ht]
    exact h.value
  | timerHandler =>
    refine h.timerStep (fun t ht => ?_) hstep
    rw [PeriodicTimer.step_fired ht, h.value]
    exact (BitVec.ofNat_add _ _).symm
  | modTimer =>
    refine h.timerStep (fun t ht => ?_) hstep
    rw [PeriodicTimer.step_fired ht]
    exact h.value
  | delTimerSync =>
    refine h.timerStep (fun t ht => ?_) hstep
    rw [PeriodicTimer.step_fired ht]
    exact h.value
  | removeProcSubtree =>
    simp only [ProcTest.step] at hstep
    split_ifs at hstep
    obtain rfl := Option.some.inj hstep
    exact ⟨h.timer, h.value, h.opened, h.latched⟩
  | procTestOpen i =>
    simp only [ProcTest.step] at hstep
    split_ifs at hstep
    obtain rfl := Option.some.inj hstep
    exact h.reader h.onTime (latched_opened _)
  | read i size =>
    simp only [ProcTest.step] at hstep
    split_ifs at hstep
    obtain rfl := Option.some.inj hstep
    rw [h.value]
    exact h.reader (h.opened i) ((h.latched i).read size)
  | seek i offset =>
    simp only [ProcTest.step] at hstep
    split_ifs at hstep with hremoved hstay
    · obtain rfl := Option.some.inj hstep
      rw [SeqFile.seek_stay hstay, ← x.withReading_self i]
      exact h.reader (h.opened i) (h.latched i)
    · obtain rfl := Option.some.inj hstep
      rw [SeqFile.seek_go hstay, h.value]
      exact h.reader h.onTime (latched_seek _ _ _)

/-- In any run of the timer with the given latency, of any readers' opens, reads and seeks,
and of an exit : each reader gets one line, with a count that had passed when it got it, and
that was due when it opened the file or went to its offset. -/
theorem proc_timer_value {as : List Action}
    (hrun : Transition.run (step hz latency) (init hz start) as = some x) (i : ℕ) :
    ∃ count, OneLine x i count ∧ Current hz latency start x i count := by
  have h := Transition.inv_run (I := Inv hz latency start) (fun s a s' hs hstep => hs.step hstep)
    inv_init hrun
  obtain ⟨count, hlow, hhigh, hline⟩ := (h.latched i).oneLine h.value
  have hnow := h.onTime.early
  rw [Nat.one_mul] at hnow
  refine ⟨count, hline, ?_, fun harmed => ?_⟩
  · exact Nat.le_trans (Nat.add_le_add_left (Nat.mul_le_mul_right hz hhigh) start) hnow
  · have hlate := (h.opened i).late harmed
    have hmul : (x.reading i).opened.fired * (hz + latency) ≤ count * (hz + latency) :=
      Nat.mul_le_mul_right _ hlow
    rw [Nat.one_mul, Nat.add_mul, Nat.one_mul] at hlate
    rw [Nat.add_mul count, Nat.one_mul]
    rw [Nat.mul_add] at hmul
    simp only [timerHandler] at hlate
    omega

/-- A reader gets the first 12 bytes after a second, and after two seconds the rest of that
line. -/
theorem proc_timer_value_two_reads :
    ∃ x, Transition.run (step 1 0) (init 1 0) [.tick, .timerHandler, .modTimer, .procTestOpen 0,
        .read 0 12, .tick, .timerHandler, .modTimer, .read 0 20] = some x ∧
      (x.reading 0).got = bytes "timer_value:1" ++ [10] ∧
      ∃ count, OneLine x 0 count ∧ Current 1 0 0 x 0 count := by
  have hgot : (Transition.run (step 1 0) (init 1 0) [.tick, .timerHandler, .modTimer,
      .procTestOpen 0, .read 0 12, .tick, .timerHandler, .modTimer, .read 0 20]).map
        (fun x => (x.reading 0).got) = some (bytes "timer_value:1" ++ [10]) := by
    decide
  obtain ⟨x, hrun, hx⟩ := Option.map_eq_some_iff.mp hgot
  exact ⟨x, hrun, hx, proc_timer_value hrun 0⟩

end ProcTest

end LinuxDriverKb
