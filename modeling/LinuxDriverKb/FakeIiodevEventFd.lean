import LinuxDriverKb.FakeIiodev
import LinuxDriverKb.Lib.BoundedQueue
import LinuxDriverKb.Lib.PackedWord
import LinuxDriverKb.Lib.Transition

/-!
# The events of `fake_iiodev.c` as `test_fake_iiodev.c` prints them

`lux_auto_change` packs the channel and the direction of an event into a 64-bit code, and
pushes one event after the other. While the descriptor of events is open, the core queues
codes with their timestamps, 16 at most, and drops what finds no room; to open it empties the
queue. The program reads the codes one by one, takes them apart and prints a line.

`event_lines` : over any run the lines are those of the events that were pushed, in their
order, and different for different events; none is missing exactly as long as each event finds
an open descriptor and room, and the queue is empty when the descriptor is opened.
-/

set_option autoImplicit false

namespace LinuxDriverKb

namespace FakeIiodev

open PackedWord (field extract)

/-! ## Event codes -/

/-- `IIO_EVENT_CODE`. -/
def iioEventCode (chanType : BitVec 8) (diff : BitVec 1) (modifier : BitVec 8)
    (direction : BitVec 7) (type : BitVec 8) (chan chan1 chan2 : BitVec 16) : BitVec 64 :=
  field 64 56 type ||| field 64 55 diff ||| field 64 48 direction ||| field 64 40 modifier |||
    field 64 32 chanType ||| field 64 16 chan2 ||| field 64 0 chan1 ||| field 64 0 chan

/-- `IIO_UNMOD_EVENT_CODE`. -/
def iioUnmodEventCode (chanType : BitVec 8) (number : BitVec 16) (type : BitVec 8)
    (direction : BitVec 7) : BitVec 64 :=
  iioEventCode chanType 0 0 direction type number 0 0

/-- `IIO_EVENT_CODE_EXTRACT_TYPE`. -/
def extractType (mask : BitVec 64) : BitVec 8 :=
  extract 56 8 mask

/-- `IIO_EVENT_CODE_EXTRACT_DIR`. -/
def extractDir (mask : BitVec 64) : BitVec 7 :=
  extract 48 7 mask

/-- `IIO_EVENT_CODE_EXTRACT_CHAN_TYPE`. -/
def extractChanType (mask : BitVec 64) : BitVec 8 :=
  extract 32 8 mask

/-- `IIO_EVENT_CODE_EXTRACT_CHAN`, a signed 16-bit number. -/
def extractChan (mask : BitVec 64) : ℤ :=
  (extract 0 16 mask).toInt

/-- `IIO_EVENT_CODE_EXTRACT_CHAN2`, a signed 16-bit number. -/
def extractChan2 (mask : BitVec 64) : ℤ :=
  (extract 16 16 mask).toInt

/-- `IIO_EVENT_CODE_EXTRACT_DIFF`. -/
def extractDiff (mask : BitVec 64) : Bool :=
  extract 55 1 mask ≠ 0

/-- `IIO_LIGHT`. -/
def iioLight : BitVec 8 :=
  6

/-- `IIO_EV_TYPE_THRESH`. -/
def iioEvTypeThresh : BitVec 8 :=
  0

/-- The value of `enum iio_event_direction`. -/
def Direction.code : Direction → BitVec 7
  | .either => 0
  | .rising => 1
  | .falling => 2
  | .none => 3

/-- The code `lux_auto_change` pushes for an event. -/
def Event.code (e : Event) : BitVec 64 :=
  iioUnmodEventCode iioLight (BitVec.ofNat 16 e.chan) iioEvTypeThresh e.dir.code

/-! ## The program -/

/-- `struct iio_event_data`. -/
structure EventData where
  id : BitVec 64
  timestamp : ℤ

/-- What one conversion of `printf` prints, or the text between them. -/
inductive Piece
  | text (s : String)
  | lld (n : ℤ)
  | d (n : ℤ)
  | llx (n : BitVec 64)
  deriving DecidableEq

/-- `iio_ev_dir_text`. -/
def iioEvDirText : List String :=
  ["either", "rising", "falling"]

/-- `print_event`, but for reads behind the table of directions. -/
def printEvent (event : EventData) : List Piece :=
  let type := extractChanType event.id
  let evType := extractType event.id
  let dir := extractDir event.id
  let chan := extractChan event.id
  let chan2 := extractChan2 event.id
  let diff := extractDiff event.id
  if type ≠ iioLight ∨ evType ≠ iioEvTypeThresh then
    [.text "Unknown event: time: ", .lld event.timestamp, .text ", id: ", .llx event.id,
      .text "\n"]
  else
    [.text "Event: time: ", .lld event.timestamp, .text ", type: ", .text "illuminance"] ++
      (if 0 ≤ chan then
        [.text ", channel: ", .d chan] ++
          if diff = true ∧ 0 ≤ chan2 then [.text "-", .d chan2] else []
      else []) ++
      [.text ", evtype: ", .text "thresh"] ++
      (if dir ≠ Direction.none.code then
        [.text ", direction: ", .text ((iioEvDirText[dir.toNat]?).getD "")]
      else []) ++
      [.text "\n"]

/-- The size of `det_events`. -/
def detEvents : ℕ :=
  16

/-- The device, the events that its running handler has to push, whether the descriptor is
open, the events that were pushed with their times, the queue of the core, and the lines that
were printed. -/
structure EventState where
  iio : State
  todo : List Event
  opened : Bool
  pushed : List (Event × ℤ)
  queue : List EventData
  printed : List (List Piece)

/-- What happens next. -/
inductive EventAction
  | iio (a : Action)
  /-- `lux_auto_change` pushes its next event, at `now`. -/
  | push (now : ℤ)
  /-- `IIO_GET_EVENT_FD_IOCTL`. -/
  | getfd
  /-- The descriptor is closed. -/
  | release
  /-- `read` and `print_event`. -/
  | read

/-- The events of an action of the device. -/
def events (P : Params) (s : State) : Action → List Event
  | .expire => (luxAutoChange P.hz s.jiffies s.priv).1
  | .call _ | .tick => []

/-- The entry of the queue for an event. -/
def eventData (e : Event × ℤ) : EventData :=
  ⟨e.1.code, e.2⟩

/-- `iio_push_event`, while the descriptor is open. -/
def iioPushEvent (opened : Bool) (queue : List EventData) (e : Event × ℤ) : List EventData :=
  if opened then BoundedQueue.put detEvents queue (eventData e) else queue

/-- One action. The device goes on once its handler, which has the lock, has pushed all its
events. -/
def eventStep (P : Params) (s : EventState) : EventAction → Option EventState
  | .iio a =>
    if s.todo = [] then
      (step P s.iio a).map fun iio => { s with iio := iio, todo := events P s.iio a }
    else none
  | .push now =>
    match s.todo with
    | [] => none
    | e :: todo =>
      some { s with
        todo := todo
        pushed := s.pushed ++ [(e, now)]
        queue := iioPushEvent s.opened s.queue (e, now) }
  | .getfd => if s.opened then none else some { s with opened := true, queue := [] }
  | .release => if s.opened then some { s with opened := false } else none
  | .read =>
    match s.opened, s.queue with
    | true, event :: queue =>
      some { s with queue := queue, printed := s.printed ++ [printEvent event] }
    | _, _ => none

/-- The device as probed, with no descriptor. -/
def eventStart (P : Params) (jiffies : ℕ) : EventState :=
  ⟨⟨jiffies, probed P.hz jiffies⟩, [], false, [], [], []⟩

/-! ## What the program should print -/

/-- The word for a direction of the event specification. -/
def Direction.text : Direction → String
  | .rising => "rising"
  | .falling => "falling"
  | _ => ""

/-- The line of an event. -/
def eventLine (e : Event × ℤ) : List Piece :=
  [.text "Event: time: ", .lld e.2, .text ", type: ", .text "illuminance", .text ", channel: ",
    .d e.1.chan, .text ", evtype: ", .text "thresh", .text ", direction: ", .text e.1.dir.text,
    .text "\n"]

/-- The lines, and those that are queued, are those of pushed events in their order, and
different events have different lines. -/
structure InOrder (_ : EventState) (_ : EventAction) (s' : EventState) : Prop where
  order : (s'.printed ++ s'.queue.map printEvent).Sublist (s'.pushed.map eventLine)
  injective : ∀ e ∈ s'.pushed, ∀ e' ∈ s'.pushed, eventLine e = eventLine e' → e = e'

/-- No line is missing. -/
def AllPrinted (_ : EventState) (_ : EventAction) (s' : EventState) : Prop :=
  s'.printed ++ s'.queue.map printEvent = s'.pushed.map eventLine

/-- An event finds the descriptor open and room in the queue, which was empty when the
descriptor was opened. -/
def Room (s : EventState) (a : EventAction) (_ : EventState) : Prop :=
  match a with
  | .push _ => s.opened = true ∧ s.queue.length < detEvents
  | .getfd => s.queue = []
  | .iio _ | .release | .read => True

/-! ## Codes taken apart -/

section Extract

variable {chanType modifier type : BitVec 8} {diff : BitVec 1} {direction : BitVec 7}
  {chan chan1 chan2 : BitVec 16}

/-- The fields of a code read back, but for a channel that two arguments give. -/
theorem extract_iioEventCode :
    let code := iioEventCode chanType diff modifier direction type chan chan1 chan2
    extractType code = type ∧ extractDir code = direction ∧ extractChanType code = chanType ∧
      extractChan code = (chan1 ||| chan).toInt ∧ extractChan2 code = chan2.toInt ∧
      (extractDiff code = true ↔ diff ≠ 0) := by
  simp [extractType, extractDir, extractChanType, extractChan, extractChan2, extractDiff,
    iioEventCode, PackedWord.extract_field, PackedWord.extract_field_of_disjoint]

end Extract

/-- The code of an event, taken apart. -/
theorem extract_eventCode (e : Event) :
    extractType e.code = iioEvTypeThresh ∧ extractDir e.code = e.dir.code ∧
      extractChanType e.code = iioLight ∧ extractChan e.code = e.chan ∧
      extractDiff e.code = false := by
  obtain ⟨htype, hdir, hchanType, hchan, -, hdiff⟩ := @extract_iioEventCode iioLight 0
    iioEvTypeThresh 0 e.dir.code (BitVec.ofNat 16 e.chan) 0 0
  refine ⟨htype, hdir, hchanType, hchan.trans ?_,
    Bool.eq_false_iff.mpr fun h => hdiff.mp h rfl⟩
  match e.chan with
  | 0 => rfl
  | 1 => rfl

/-- The program prints the line of an event. -/
theorem printEvent_eventData {e : Event × ℤ} (hdir : e.1.dir ∈ eventSpec) :
    printEvent (eventData e) = eventLine e := by
  obtain ⟨⟨chan, dir⟩, t⟩ := e
  obtain ⟨htype, hcode, hchanType, hchan, hdiff⟩ := extract_eventCode ⟨chan, dir⟩
  have hnonneg : 0 ≤ ((chan : ℕ) : ℤ) := Int.natCast_nonneg _
  simp only [printEvent, eventData, htype, hcode, hchanType, hchan, hdiff, ne_eq, not_true_eq_false,
    or_self, if_false, if_pos hnonneg, Bool.false_eq_true, false_and, eventLine]
  simp only [eventSpec, List.mem_cons, List.not_mem_nil, or_false] at hdir
  rcases hdir with rfl | rfl <;> rfl

/-- Different events have different lines. -/
theorem eventLine_injective {e e' : Event × ℤ} (hdir : e.1.dir ∈ eventSpec)
    (hdir' : e'.1.dir ∈ eventSpec) (h : eventLine e = eventLine e') : e = e' := by
  obtain ⟨⟨chan, dir⟩, t⟩ := e
  obtain ⟨⟨chan', dir'⟩, t'⟩ := e'
  simp only [eventLine, List.cons.injEq, Piece.lld.injEq, Piece.d.injEq, Piece.text.injEq, true_and,
    and_true] at h
  obtain ⟨rfl, hchan, htext⟩ := h
  have hchan : chan = chan' := Fin.ext (Int.ofNat.inj hchan)
  simp only [eventSpec, List.mem_cons, List.not_mem_nil, or_false] at hdir hdir'
  rcases hdir with rfl | rfl <;> rcases hdir' with rfl | rfl <;> simp_all [Direction.text]

/-! ## Runs -/

/-- Pushed events have a direction of the specification. -/
theorem dir_of_mem_events {P : Params} {s : State} {a : Action} {e : Event}
    (h : e ∈ events P s a) : e.dir ∈ eventSpec := by
  cases a with
  | call c => exact absurd h List.not_mem_nil
  | tick => exact absurd h List.not_mem_nil
  | expire =>
    obtain ⟨i, -, hi⟩ := List.mem_flatMap.mp h
    have hcases : e = ⟨i, .rising⟩ ∨ e = ⟨i, .falling⟩ := by
      unfold pushEvents at hi
      split_ifs at hi <;> simp_all
    rcases hcases with rfl | rfl <;> simp [eventSpec]

/-- The events that were taken, and those that are queued. -/
structure Taken (s : EventState) (taken queued : List (Event × ℤ)) : Prop where
  printed : s.printed = taken.map eventLine
  queue : s.queue = queued.map eventData
  room : queued.length ≤ detEvents
  dir : ∀ e ∈ s.pushed, e.1.dir ∈ eventSpec
  todo : ∀ e ∈ s.todo, e.dir ∈ eventSpec
  kept : BoundedQueue.Kept s.pushed taken queued

theorem taken_start (P : Params) (jiffies : ℕ) : Taken (eventStart P jiffies) [] [] where
  printed := rfl
  queue := rfl
  room := Nat.zero_le _
  dir _ h := absurd h List.not_mem_nil
  todo _ h := absurd h List.not_mem_nil
  kept := .slnil

variable {P : Params} {s s' : EventState} {taken queued : List (Event × ℤ)}

theorem Taken.dir_queued (h : Taken s taken queued) {e : Event × ℤ} (he : e ∈ queued) :
    e.1.dir ∈ eventSpec :=
  h.dir e (h.kept.subset (List.mem_append_right taken he))

/-- The lines of a state. -/
theorem Taken.lines (h : Taken s taken queued) :
    s.printed ++ s.queue.map printEvent = (taken ++ queued).map eventLine := by
  have hqueued : (queued.map eventData).map printEvent = queued.map eventLine := by
    rw [List.map_map]
    exact List.map_congr_left fun e he => printEvent_eventData (h.dir_queued he)
  rw [h.printed, h.queue, hqueued, List.map_append]

theorem Taken.allPrinted_iff (h : Taken s taken queued) {s₀ : EventState} {a : EventAction} :
    AllPrinted s₀ a s ↔ BoundedQueue.KeptAll s.pushed taken queued := by
  rw [AllPrinted, h.lines]
  refine ⟨fun hlines => h.kept.eq_of_length ?_, fun hall => by rw [hall]⟩
  simpa using congrArg List.length hlines

/-- A push keeps all that was kept exactly if it finds the descriptor open and room. -/
theorem Taken.push (h : Taken s taken queued) {e : Event} {todo : List Event}
    (htodo : s.todo = e :: todo) (now : ℤ) :
    ∃ queued', Taken { s with
        todo := todo
        pushed := s.pushed ++ [(e, now)]
        queue := iioPushEvent s.opened s.queue (e, now) } taken queued' ∧
      (BoundedQueue.KeptAll s.pushed taken queued →
        (BoundedQueue.KeptAll (s.pushed ++ [(e, now)]) taken queued' ↔
          s.opened = true ∧ s.queue.length < detEvents)) := by
  have hall : ∀ e' ∈ e :: todo, e'.dir ∈ eventSpec := htodo ▸ h.todo
  have hrest : ∀ e' ∈ todo, e'.dir ∈ eventSpec := fun e' he => hall e' (List.mem_cons_of_mem e he)
  have hdir : ∀ e' ∈ s.pushed ++ [(e, now)], e'.1.dir ∈ eventSpec := by
    intro e' he
    rcases List.mem_append.mp he with he | he
    · exact h.dir e' he
    · rw [List.mem_singleton.mp he]
      exact hall e List.mem_cons_self
  cases hopened : s.opened with
  | false =>
    refine ⟨queued, ⟨h.printed, h.queue, h.room, hdir, hrest, h.kept.skip _⟩, fun hkept => ?_⟩
    exact iff_of_false (hkept.not_skip _) fun hroom => Bool.false_ne_true hroom.1
  | true =>
    refine ⟨BoundedQueue.putAll detEvents queued [(e, now)],
      ⟨h.printed, ?_, BoundedQueue.length_putAll_le h.room _, hdir, hrest, h.kept.put _ _⟩,
      fun hkept => ?_⟩
    · rw [BoundedQueue.map_putAll, ← h.queue]
      rfl
    · rw [BoundedQueue.keptAll_put_iff hkept _ h.room, h.queue, List.length_map,
        List.length_singleton, Nat.succ_le_iff, eq_self_iff_true, true_and]

/-- A line for the first event of the queue. -/
theorem Taken.read (h : Taken s taken queued) {event : EventData} {queue : List EventData}
    (hs : s.queue = event :: queue) :
    ∃ taken' queued',
      Taken { s with queue := queue, printed := s.printed ++ [printEvent event] } taken' queued' ∧
      (BoundedQueue.KeptAll s.pushed taken queued →
        BoundedQueue.KeptAll s.pushed taken' queued') := by
  have hqueue := h.queue
  rw [hs] at hqueue
  cases queued with
  | nil => cases hqueue
  | cons e queued =>
    obtain ⟨rfl, rfl⟩ := List.cons.inj hqueue
    have hline := printEvent_eventData (h.dir_queued List.mem_cons_self)
    refine ⟨taken ++ [e], queued, ⟨?_, rfl, ?_, h.dir, h.todo, h.kept.take 1⟩, fun hall => ?_⟩
    · rw [h.printed, hline, List.map_append, List.map_singleton]
    · exact Nat.le_of_succ_le h.room
    · exact hall.take 1

/-- A step keeps all that was kept exactly if it finds room. -/
theorem Taken.step (h : Taken s taken queued) {a : EventAction}
    (hstep : eventStep P s a = some s') :
    ∃ taken' queued', Taken s' taken' queued' ∧ (BoundedQueue.KeptAll s.pushed taken queued →
      (BoundedQueue.KeptAll s'.pushed taken' queued' ↔ Room s a s')) := by
  cases a with
  | iio a =>
    simp only [eventStep] at hstep
    split_ifs at hstep with htodo
    obtain ⟨iio, -, rfl⟩ := Option.map_eq_some_iff.mp hstep
    exact ⟨taken, queued, ⟨h.printed, h.queue, h.room, h.dir, fun _ he => dir_of_mem_events he,
      h.kept⟩, fun hall => iff_of_true hall True.intro⟩
  | push now =>
    simp only [eventStep] at hstep
    split at hstep
    · cases hstep
    · rename_i e todo htodo
      obtain rfl := Option.some.inj hstep
      obtain ⟨queued', h', hiff⟩ := h.push htodo now
      exact ⟨taken, queued', h', hiff⟩
  | getfd =>
    simp only [eventStep] at hstep
    split_ifs at hstep
    obtain rfl := Option.some.inj hstep
    refine ⟨taken, [], ⟨h.printed, rfl, Nat.zero_le _, h.dir, h.todo, h.kept.clear⟩,
      fun hall => ?_⟩
    rw [hall.clear_iff, Room, h.queue, List.map_eq_nil_iff]
  | release =>
    simp only [eventStep] at hstep
    split_ifs at hstep
    obtain rfl := Option.some.inj hstep
    exact ⟨taken, queued, ⟨h.printed, h.queue, h.room, h.dir, h.todo, h.kept⟩,
      fun hall => iff_of_true hall True.intro⟩
  | read =>
    simp only [eventStep] at hstep
    split at hstep
    · obtain rfl := Option.some.inj hstep
      obtain ⟨taken', queued', h', hkeep⟩ := h.read ‹_›
      exact ⟨taken', queued', h', fun hall => iff_of_true (hkeep hall) True.intro⟩
    · cases hstep

/-- Over any run of ticks, of calls of user space, of the single events that a tick pushes, and
of openings, closings and reads of the descriptor : the lines printed, followed by those that
are queued, are those of pushed events, in their order; they name the channel, the direction
and the time, and differ for different events; and at every step none is missing if and only
if at every step an event that is pushed finds the descriptor open and one of 16 places, and
the queue is empty when the descriptor is opened. -/
theorem event_lines (P : Params) (jiffies : ℕ) (as : List EventAction) :
    Transition.Always (eventStep P) InOrder (eventStart P jiffies) as ∧
      (Transition.Always (eventStep P) AllPrinted (eventStart P jiffies) as ↔
        Transition.Always (eventStep P) Room (eventStart P jiffies) as) := by
  constructor
  · refine Transition.always_of_inv (I := fun s => ∃ taken queued, Taken s taken queued)
      (fun s a s' hs hstep => ?_) ⟨[], [], taken_start P jiffies⟩
    obtain ⟨taken, queued, h⟩ := hs
    obtain ⟨taken', queued', h', -⟩ := h.step hstep
    refine ⟨⟨taken', queued', h'⟩, ?_, fun e he e' he' hline => ?_⟩
    · rw [h'.lines]
      exact h'.kept.map eventLine
    · exact eventLine_injective (h'.dir e he) (h'.dir e' he') hline
  · refine Transition.always_congr (I := fun s => ∃ taken queued, Taken s taken queued ∧
      BoundedQueue.KeptAll s.pushed taken queued) (fun s a s' hs hstep => ?_)
      (fun s a s' hs hstep hall => ?_) ⟨[], [], taken_start P jiffies, rfl⟩
    · obtain ⟨taken, queued, h, hall⟩ := hs
      obtain ⟨taken', queued', h', hiff⟩ := h.step hstep
      rw [h'.allPrinted_iff, hiff hall]
    · obtain ⟨taken, queued, h, -⟩ := hs
      obtain ⟨taken', queued', h', -⟩ := h.step hstep
      exact ⟨taken', queued', h', h'.allPrinted_iff.mp hall⟩

end FakeIiodev

end LinuxDriverKb
