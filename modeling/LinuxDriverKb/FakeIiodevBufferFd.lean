import LinuxDriverKb.FakeIiodevBuffer
import LinuxDriverKb.Lib.BoundedQueue
import LinuxDriverKb.Lib.Records

/-!
# The records of `fake_iiodev.c` as `test_fake_iiodev.c` prints them

The program enables both channels and the timestamp, reads up to 100 bytes at a time and
prints each byte, a `char`, as `%x` with its number in the array. The core queues the records
of the trigger handler, drops those that find no room, and returns whole records only.

`buffer_lines` : over any interleaving of ticks, handler runs and reads, what the lines say is
the samples that were pushed, in their order, each of one instant; none is missing exactly as
long as every push finds room.
-/

set_option autoImplicit false

namespace LinuxDriverKb

namespace FakeIiodev

namespace Buffer

/-! ## The program -/

/-- What `read_buffer` enables. -/
def enabled : ScanMask :=
  ⟨fun _ => true, true, .inr rfl⟩

/-- The size of its array. -/
def dataSize : ℕ := 100

/-- A `char` as an argument of `printf`. -/
def charArg (signed : Bool) (b : UInt8) : BitVec 32 :=
  if signed then b.toBitVec.signExtend 32 else b.toBitVec.setWidth 32

/-- The numbers in `data[%d]= %x`. -/
structure Line where
  i : ℕ
  x : BitVec 32

/-- The loop over the bytes of a read. -/
def printData (signed : Bool) (data : List UInt8) : List Line :=
  data.zipIdx.map fun b => ⟨b.2, charArg signed b.1⟩

/-! ## The core's queue -/

/-- The values of the channels and the timestamp of a push. -/
structure Sample where
  lux : Fin 2 → UInt8
  time : BitVec 64

/-- The device, the records in the queue, what the program has printed, and all samples that
were pushed. -/
structure FdState where
  dev : State
  queue : List (List UInt8)
  printed : List Line
  pushed : List Sample

/-- The device takes a step, or the program reads; a read can fail. -/
inductive FdAction
  | dev (a : Action)
  | read (failed : Bool)

/-- What a step of the device pushes : the record, and the sample. -/
def push? (s : State) : Action → Option (List UInt8 × Sample)
  | .tick => none
  | .handler time =>
    if s.handler = .push then
      some (record enabled s.data time, ⟨fun c => s.data c, BitVec.ofNat 64 time⟩)
    else none

/-- The records that a read of `dataSize` bytes returns. -/
def readRecords : ℕ :=
  dataSize / enabled.scanBytes

variable (signed : Bool) (cap : ℕ)

/-- A read blocks while there is no record. -/
def fdStep (s : FdState) : FdAction → Option FdState
  | .dev a => (step s.dev a).map fun dev =>
    match push? s.dev a with
    | some (r, p) => ⟨dev, BoundedQueue.put cap s.queue r, s.printed, s.pushed ++ [p]⟩
    | none => { s with dev := dev }
  | .read true => some s
  | .read false =>
    if s.queue = [] then none
    else some { s with
      queue := s.queue.drop readRecords
      printed := s.printed ++ printData signed (s.queue.take readRecords).flatten }

/-- Nothing is queued or printed. -/
def fdStart : FdState :=
  ⟨start, [], [], []⟩

/-! ## What the lines say -/

/-- The byte of a line. -/
def Line.byte (l : Line) : UInt8 :=
  ⟨l.x.setWidth 8⟩

/-- The sample in a record. -/
def decode (r : List UInt8) : Sample where
  lux c := r.getD c 0
  time := BitVec.ofNat 64 (Nat.ofDigits 256 ((r.drop 8).map UInt8.toNat))

/-- The samples in the lines. -/
def readBack (lines : List Line) : List Sample :=
  (Records.split enabled.scanBytes (lines.map Line.byte)).map decode

/-- The samples in the lines, and those that are queued, are pushed ones in their order. A push is
of the values at one instant since the handler was called. And the number in a line tells its
place in the record. -/
structure LinesRight (s : FdState) (_ : FdAction) (s' : FdState) : Prop where
  order : (readBack s'.printed ++ s'.queue.map decode).Sublist s'.pushed
  pushed : s'.pushed = s.pushed ∨ ∃ lux ∈ s.dev.window, Halved lux ∧ ∃ time,
    s'.pushed = s.pushed ++ [⟨lux, time⟩]
  place : ∀ (k : ℕ) (l : Line), s'.printed[k]? = some l →
    l.i % enabled.scanBytes = k % enabled.scanBytes

/-- No sample is missing. -/
def AllShown (_ : FdState) (_ : FdAction) (s' : FdState) : Prop :=
  readBack s'.printed ++ s'.queue.map decode = s'.pushed

/-- A push finds room. -/
def PushRoom (s : FdState) (a : FdAction) (_ : FdState) : Prop :=
  match a with
  | .dev (.handler _) => s.dev.handler = .push → s.queue.length < cap
  | _ => True

/-! ## One record -/

theorem scanBytes_enabled : enabled.scanBytes = 16 := by
  decide

theorem length_record (data : ℕ → UInt8) (time : ℕ) :
    (record enabled data time).length = enabled.scanBytes :=
  ByteMem.bytes_length _ _

/-- The timestamp is at the end of a record. -/
theorem drop_record (data : ℕ → UInt8) (time : ℕ) :
    (record enabled data time).drop 8 = (List.range 8).map (timestampBytes time) := by
  have hpos : enabled.timestampPos = 8 := by decide
  have hmem : ∀ i ∈ List.range 8,
      ByteMem.memcpy data 8 (timestampBytes time) 0 8 (8 + i) = timestampBytes time i := by
    intro i hi
    rw [ByteMem.memcpy_apply_of_mem ⟨Nat.le_add_right 8 i, by grind⟩, Nat.zero_add,
      Nat.add_sub_cancel_left]
  calc (record enabled data time).drop 8
    _ = (List.range 8).map
        fun i => ByteMem.memcpy data 8 (timestampBytes time) 0 8 (8 + i) := by
      rw [record, hpos, scanBytes_enabled]
      rfl
    _ = (List.range 8).map (timestampBytes time) := List.map_congr_left hmem

/-- A record has its sample. -/
theorem decode_record (data : ℕ → UInt8) (time : ℕ) :
    decode (record enabled data time) = ⟨fun c => data c, BitVec.ofNat 64 time⟩ := by
  have hlux : ∀ c : Fin 2, (record enabled data time).getD c 0 = data c := by
    intro c
    have hpos := record_pos (m := enabled) (c := c) rfl data time
    rw [ScanMask.pos_eq (.inl rfl) rfl] at hpos
    rw [List.getD_eq_getElem?_getD, hpos, Option.getD_some]
  have hdigit : ∀ i, (timestampBytes time i).toNat = time / 256 ^ i % 256 := by
    intro i
    rw [timestampBytes, UInt8.toNat_ofNat']
  have hdigits : (((List.range 8).map (timestampBytes time)).map UInt8.toNat) =
      (List.range 8).map fun i => time / 256 ^ i % 256 := by
    rw [List.map_map]
    exact List.map_congr_left fun i _ => hdigit i
  have htime : BitVec.ofNat 64 (time % 256 ^ 8) = BitVec.ofNat 64 time := by
    refine BitVec.eq_of_toNat_eq ?_
    rw [BitVec.toNat_ofNat, BitVec.toNat_ofNat]
    exact Nat.mod_mod_of_dvd time (by decide)
  rw [decode, drop_record, hdigits, Records.ofDigits_range, htime]
  simp only [hlux]

/-! ## Lines -/

theorem byte_charArg (i : ℕ) (b : UInt8) : Line.byte ⟨i, charArg signed b⟩ = b := by
  refine UInt8.toBitVec_inj.mp ?_
  refine BitVec.eq_of_getLsbD_eq fun k hk => ?_
  have hlt : k < 32 := by omega
  cases signed with
  | true => simp [Line.byte, charArg, BitVec.getElem_signExtend, hk, hlt]
  | false => simp [Line.byte, charArg, hk]

theorem byte_printData (data : List UInt8) :
    (printData signed data).map Line.byte = data := by
  rw [printData, List.map_map]
  calc (data.zipIdx.map (Line.byte ∘ fun b => ⟨b.2, charArg signed b.1⟩))
    _ = data.zipIdx.map Prod.fst := List.map_congr_left fun b _ => byte_charArg signed b.2 b.1
    _ = data := List.zipIdx_map_fst 0 data

theorem length_printData (data : List UInt8) : (printData signed data).length = data.length := by
  rw [printData, List.length_map, List.length_zipIdx]

theorem printData_getElem? (data : List UInt8) {k : ℕ} {l : Line}
    (h : (printData signed data)[k]? = some l) : l.i = k := by
  rw [printData, List.getElem?_map, List.getElem?_zipIdx, Option.map_map] at h
  obtain ⟨b, -, rfl⟩ := Option.map_eq_some_iff.mp h
  exact Nat.zero_add k

/-! ## One step -/

variable {signed cap} {s s' : FdState}

/-- A step of the device pushes a sample, or changes nothing else. -/
theorem fdStep_dev {a : Action} (h : fdStep signed cap s (.dev a) = some s') :
    ∃ dev, step s.dev a = some dev ∧
      ((∃ time, a = .handler time ∧ s.dev.handler = .push ∧
          s' = ⟨dev, BoundedQueue.put cap s.queue (record enabled s.dev.data time), s.printed,
            s.pushed ++ [⟨fun c => s.dev.data c, BitVec.ofNat 64 time⟩]⟩) ∨
        ((∀ time, a = .handler time → s.dev.handler ≠ .push) ∧ s' = { s with dev := dev })) := by
  obtain ⟨dev, hdev, rfl⟩ := Option.map_eq_some_iff.mp h
  refine ⟨dev, hdev, ?_⟩
  cases a with
  | tick => exact Or.inr ⟨by simp, rfl⟩
  | handler time =>
    by_cases hpush : s.dev.handler = .push
    · exact Or.inl ⟨time, rfl, hpush, by rw [push?, if_pos hpush]⟩
    · exact Or.inr ⟨fun _ _ => hpush, by rw [push?, if_neg hpush]⟩

/-- A read takes whole records. -/
theorem fdStep_read {failed : Bool} (h : fdStep signed cap s (.read failed) = some s') :
    s' = s ∨ s' = { s with
      queue := s.queue.drop readRecords
      printed := s.printed ++ printData signed (s.queue.take readRecords).flatten } := by
  cases failed with
  | true => exact Or.inl (Option.some.inj h).symm
  | false =>
    unfold fdStep at h
    split_ifs at h
    exact Or.inr (Option.some.inj h).symm

/-- `taken` are the records that the program has read. -/
structure Shown (cap : ℕ) (s : FdState) (taken : List (List UInt8)) : Prop where
  dev : Inv s.dev
  printed : s.printed.map Line.byte = taken.flatten
  length : ∀ r ∈ taken ++ s.queue, r.length = enabled.scanBytes
  place : ∀ (k : ℕ) (l : Line), s.printed[k]? = some l →
    l.i % enabled.scanBytes = k % enabled.scanBytes
  room : s.queue.length ≤ cap
  kept : BoundedQueue.Kept s.pushed (taken.map decode) (s.queue.map decode)

theorem shown_start (cap : ℕ) : Shown cap fdStart [] where
  dev := inv_start
  printed := rfl
  length _ h := absurd h List.not_mem_nil
  place _ _ h := by simp [fdStart] at h
  room := Nat.zero_le cap
  kept := .slnil

variable {taken : List (List UInt8)}

/-- The lines say what the records do. -/
theorem Shown.readBack_eq (h : Shown cap s taken) : readBack s.printed = taken.map decode := by
  have hlen : ∀ r ∈ taken, r.length = enabled.scanBytes := fun r hr =>
    h.length r (List.mem_append_left s.queue hr)
  rw [readBack, h.printed, Records.split_flatten (by decide) hlen]

/-- The lines printed so far are those of whole records. -/
theorem Shown.length_printed (h : Shown cap s taken) :
    s.printed.length % enabled.scanBytes = 0 := by
  have hlen : ∀ r ∈ taken, r.length = enabled.scanBytes := fun r hr =>
    h.length r (List.mem_append_left s.queue hr)
  have hbytes := congrArg List.length h.printed
  rw [List.length_map, Records.length_flatten hlen] at hbytes
  rw [hbytes, Nat.mul_mod_left]

theorem map_decode_put (data : ℕ → UInt8) (time : ℕ) (queue : List (List UInt8)) :
    (BoundedQueue.put cap queue (record enabled data time)).map decode =
      BoundedQueue.putAll cap (queue.map decode) [⟨fun c => data c, BitVec.ofNat 64 time⟩] := by
  rw [← decode_record]
  exact BoundedQueue.map_putAll decode cap queue [record enabled data time]

theorem Shown.push (h : Shown cap s taken) {dev : State} (hdev : Inv dev) (data : ℕ → UInt8)
    (time : ℕ) :
    Shown cap ⟨dev, BoundedQueue.put cap s.queue (record enabled data time), s.printed,
      s.pushed ++ [⟨fun c => data c, BitVec.ofNat 64 time⟩]⟩ taken where
  dev := hdev
  printed := h.printed
  length r hr := by
    unfold BoundedQueue.put at hr
    split_ifs at hr
    · rw [← List.append_assoc] at hr
      rcases List.mem_append.mp hr with hr | hr
      · exact h.length r hr
      · rw [List.mem_singleton.mp hr]
        exact length_record data time
    · exact h.length r hr
  place := h.place
  room := BoundedQueue.length_putAll_le h.room [record enabled data time]
  kept := by
    rw [map_decode_put]
    exact h.kept.put cap _

theorem Shown.read (signed : Bool) (h : Shown cap s taken) :
    Shown cap { s with
      queue := s.queue.drop readRecords
      printed := s.printed ++ printData signed (s.queue.take readRecords).flatten }
      (taken ++ s.queue.take readRecords) where
  dev := h.dev
  printed := by rw [List.map_append, h.printed, byte_printData, List.flatten_append]
  length r hr := by
    rw [List.append_assoc, List.take_append_drop] at hr
    exact h.length r hr
  place k l hl := by
    rcases Nat.lt_or_ge k s.printed.length with hk | hk
    · rw [List.getElem?_append_left hk] at hl
      exact h.place k l hl
    · rw [List.getElem?_append_right hk] at hl
      have hzero := h.length_printed
      rw [printData_getElem? signed _ hl]
      rw [scanBytes_enabled] at hzero ⊢
      omega
  room := by
    rw [List.length_drop]
    exact (Nat.sub_le _ _).trans h.room
  kept := by
    rw [List.map_append, List.map_take, List.map_drop]
    exact h.kept.take readRecords

theorem Shown.order (h : Shown cap s taken) :
    (readBack s.printed ++ s.queue.map decode).Sublist s.pushed := by
  rw [h.readBack_eq]
  exact h.kept

theorem Shown.allShown_iff (h : Shown cap s taken) {s₀ : FdState} {a : FdAction} :
    AllShown s₀ a s ↔
      BoundedQueue.KeptAll s.pushed (taken.map decode) (s.queue.map decode) := by
  rw [AllShown, h.readBack_eq]
  rfl

theorem Shown.of_dev (h : Shown cap s taken) {dev : State} (hdev : Inv dev) :
    Shown cap { s with dev := dev } taken :=
  ⟨hdev, h.printed, h.length, h.place, h.room, h.kept⟩

/-- A step of the device. -/
theorem Shown.step_dev (h : Shown cap s taken) {a : Action}
    (hstep : fdStep signed cap s (.dev a) = some s') :
    Shown cap s' taken ∧ LinesRight s (.dev a) s' ∧
      (BoundedQueue.KeptAll s.pushed (taken.map decode) (s.queue.map decode) →
        (AllShown s (.dev a) s' ↔ PushRoom cap s (.dev a) s')) := by
  obtain ⟨dev, hdev, ⟨time, rfl, hpush, rfl⟩ | ⟨hno, rfl⟩⟩ := fdStep_dev hstep
  · have h' := h.push (inv_step h.dev hdev) s.dev.data time
    obtain ⟨lux, hmem, hhalf, hdata⟩ := h.dev.sampled hpush
    have hlux : (fun c : Fin 2 => s.dev.data c) = lux := funext hdata
    refine ⟨h', ⟨h'.order, Or.inr ⟨lux, hmem, hhalf, BitVec.ofNat 64 time, ?_⟩, h'.place⟩,
      fun hall => ?_⟩
    · rw [← hlux]
    · have hcap : (s.queue.map decode).length ≤ cap := (List.length_map decode).trans_le h.room
      rw [h'.allShown_iff, map_decode_put, BoundedQueue.keptAll_put_iff hall _ hcap,
        List.length_map, List.length_singleton]
      exact ⟨fun hlt _ => hlt, fun hroom => hroom hpush⟩
  · have h' := h.of_dev (inv_step h.dev hdev)
    refine ⟨h', ⟨h'.order, Or.inl rfl, h'.place⟩, fun hall => ?_⟩
    refine iff_of_true (h'.allShown_iff.mpr hall) ?_
    cases a with
    | tick => exact True.intro
    | handler time => exact fun hpush => absurd hpush (hno time rfl)

/-- A read. -/
theorem Shown.step_read (h : Shown cap s taken) {failed : Bool}
    (hstep : fdStep signed cap s (.read failed) = some s') :
    ∃ taken', Shown cap s' taken' ∧ LinesRight s (.read failed) s' ∧
      (BoundedQueue.KeptAll s.pushed (taken.map decode) (s.queue.map decode) →
        AllShown s (.read failed) s') := by
  rcases fdStep_read hstep with rfl | rfl
  · exact ⟨taken, h, ⟨h.order, Or.inl rfl, h.place⟩, h.allShown_iff.mpr⟩
  · have h' := h.read signed
    refine ⟨_, h', ⟨h'.order, Or.inl rfl, h'.place⟩, fun hall => h'.allShown_iff.mpr ?_⟩
    rw [List.map_append, List.map_take, List.map_drop]
    exact hall.take readRecords

theorem Shown.step (h : Shown cap s taken) {a : FdAction}
    (hstep : fdStep signed cap s a = some s') :
    ∃ taken', Shown cap s' taken' ∧ LinesRight s a s' ∧
      (BoundedQueue.KeptAll s.pushed (taken.map decode) (s.queue.map decode) →
        (AllShown s a s' ↔ PushRoom cap s a s')) := by
  cases a with
  | dev a => exact ⟨taken, h.step_dev hstep⟩
  | read failed =>
    obtain ⟨taken', h', hright, hall⟩ := h.step_read hstep
    exact ⟨taken', h', hright, fun hkept => iff_of_true (hall hkept) True.intro⟩

/-! ## Runs -/

/-- For a signed or an unsigned `char` and every length of the queue, over any interleaving of
ticks, handler runs and reads : the samples in the lines, followed by those that are queued, are
pushed ones in their order; every push is of the values at one instant since the handler was
called, and the number in a line tells its place in the record; and at every step none is
missing if and only if at every step a push finds room. -/
theorem buffer_lines (signed : Bool) (cap : ℕ) (as : List FdAction) :
    Transition.Always (fdStep signed cap) LinesRight fdStart as ∧
      (Transition.Always (fdStep signed cap) AllShown fdStart as ↔
        Transition.Always (fdStep signed cap) (PushRoom cap) fdStart as) := by
  constructor
  · refine Transition.always_of_inv (I := fun s => ∃ taken, Shown cap s taken)
      (fun s a s' hs hstep => ?_) ⟨[], shown_start cap⟩
    obtain ⟨taken, h⟩ := hs
    obtain ⟨taken', h', hright, -⟩ := h.step hstep
    exact ⟨⟨taken', h'⟩, hright⟩
  · refine Transition.always_congr (I := fun s => ∃ taken, Shown cap s taken ∧
      BoundedQueue.KeptAll s.pushed (taken.map decode) (s.queue.map decode))
      (fun s a s' hs hstep => ?_) (fun s a s' hs hstep hall => ?_) ⟨[], shown_start cap, rfl⟩
    · obtain ⟨taken, h, hkept⟩ := hs
      obtain ⟨-, -, -, hiff⟩ := h.step hstep
      exact hiff hkept
    · obtain ⟨taken, h, -⟩ := hs
      obtain ⟨taken', h', -, -⟩ := h.step hstep
      exact ⟨taken', h', h'.allShown_iff.mp hall⟩

/-- A record with 1, 0 and the time 255 : with a signed `char` its last nonzero line is
`data[8]= ffffffff`. -/
example : (Transition.run (fdStep true 2) fdStart
    ((tickThenHandler ++ [Action.handler 255]).map FdAction.dev ++ [.read false])).map
      (fun s => (s.printed.filter fun l => l.x ≠ 0).map fun l => (l.i, l.x)) =
        some [(0, 1), (8, 0xffffffff)] := by
  decide

end Buffer

end FakeIiodev

end LinuxDriverKb
