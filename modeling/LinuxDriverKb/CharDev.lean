import Mathlib.Data.List.Basic
import Mathlib.Data.Nat.Cast.Basic
import Mathlib.Data.Int.Cast.Basic
import LinuxDriverKb.Lib.ByteMem
import LinuxDriverKb.Lib.CInt
import LinuxDriverKb.Lib.Transition

/-!
# The memory device of `c-drv.c`

The device is `MEM_SIZE` bytes that every open file shares and every open clears; each
file has a position of its own. `char_dev_read` and `char_dev_write` narrow the 64-bit
position to an `unsigned long`, clip the length at the end of the memory, and advance the
position by what they transferred. `char_dev_llseek` moves it.

`Abs` is what the device is for : a history of opens and writes, and a cursor per file. A
byte reads as the latest write that covers it since the last open (`byteAt`).
`charDev_refines` : every run of the driver is a run of `Abs`, with the same results.
-/

set_option autoImplicit false

namespace LinuxDriverKb

open CInt ByteMem

namespace CharDev

/-! ## The driver -/

/-- `MEM_SIZE`. -/
def memSize : ℕ := 1024

/-- `EFAULT`. -/
def efault : ℤ := 14

/-- `EINVAL`. -/
def einval : ℤ := 22

/-- Width of `unsigned long` and `size_t`. -/
inductive Width
  | bits32
  | bits64

/-- The number of bits. -/
def Width.bits : Width → ℕ
  | .bits32 => 32
  | .bits64 => 64

/-- `unsigned long p = *loff_t`. -/
def Width.toULong (w : Width) (pos : ℤ) : ℕ :=
  (pos % 2 ^ w.bits).toNat

/-- A position and a length that a system call can pass. -/
structure Request where
  pos : ℤ
  len : ℕ
  pos_nonneg : 0 ≤ pos
  pos_lt : pos < 2 ^ 63
  len_le : len ≤ 2 ^ 31

/-- What a call leaves : its return value, the memory, the position, and the bytes copied
to the user buffer. -/
structure Transfer where
  ret : ℤ
  mem : ℕ → UInt8
  pos : ℤ
  out : List UInt8

/-- The length after `if (len > MEM_SIZE - p) len = MEM_SIZE - p`. -/
def clip (p len : ℕ) : ℕ :=
  if len > memSize - p then memSize - p else len

/-- `char_dev_write`. `fault` is the number of bytes `copy_from_user` gets before it
fails; it zeroes the rest. `none` if the copy leaves `mem`. -/
def charDevWrite (w : Width) (mem : ℕ → UInt8) (buf : ℕ → UInt8) (len : ℕ) (fault : Option ℕ)
    (pos : ℤ) : Option Transfer :=
  let p := w.toULong pos
  if p ≥ memSize then some ⟨0, mem, pos, []⟩
  else
    let n := clip p len
    if p + n ≤ memSize then
      match fault with
      | none => some ⟨n, memcpy mem p buf 0 n, toInt64 (pos + n), []⟩
      | some k =>
        some ⟨-efault, memset (memcpy mem p buf 0 (min k n)) (p + min k n) 0 (n - min k n), pos, []⟩
    else none

/-- `char_dev_read`. `fault` is the number of bytes `copy_to_user` gets across before it
fails. `none` if the copy leaves `mem`. -/
def charDevRead (w : Width) (mem : ℕ → UInt8) (len : ℕ) (fault : Option ℕ) (pos : ℤ) :
    Option Transfer :=
  let p := w.toULong pos
  if p ≥ memSize then some ⟨0, mem, pos, []⟩
  else
    let n := clip p len
    if p + n ≤ memSize then
      match fault with
      | none => some ⟨n, mem, toInt64 (pos + n), (List.range n).map fun i => mem (p + i)⟩
      | some k =>
        some ⟨-efault, mem, pos, (List.range (min k n)).map fun i => mem (p + i)⟩
    else none

/-- `SEEK_SET`. -/
def seekSet : ℤ := 0

/-- `SEEK_CUR`. -/
def seekCur : ℤ := 1

/-- `char_dev_llseek` : the return value and the new `f_pos`. -/
def charDevLlseek (fpos offset orig : ℤ) : ℤ × ℤ :=
  if orig = seekSet then
    if offset < 0 ∨ offset ≥ memSize then (-einval, fpos) else (offset, offset)
  else if orig = seekCur then
    if toInt64 (fpos + offset) ≥ memSize ∨ toInt64 (fpos + offset) < 0 then (-einval, fpos)
    else (toInt64 (fpos + offset), toInt64 (fpos + offset))
  else (-einval, fpos)

/-- `dev->mem`, and `f_pos` of every file opened so far. -/
structure State where
  mem : ℕ → UInt8
  files : List ℤ

/-- `char_dev_open` clears the memory; the new file starts at 0. -/
def charDevOpen (s : State) : State :=
  ⟨memset s.mem 0 0 memSize, s.files ++ [0]⟩

/-- The calls, on the `k`-th file opened. -/
inductive Op
  | open
  | read (k len : ℕ)
  | write (k : ℕ) (buf : ℕ → UInt8) (len : ℕ)
  | llseek (k : ℕ) (offset orig : ℤ)

/-- What a call gives its caller : the return value and the bytes read. -/
structure Result where
  ret : ℤ
  out : List UInt8

/-- One call, user copies succeeding. `none` on a file that is not open. -/
def call (w : Width) (s : State) : Op → Option (State × Result)
  | .open => some (charDevOpen s, ⟨0, []⟩)
  | .read k len => do
    let pos ← s.files[k]?
    let t ← charDevRead w s.mem len none pos
    return (⟨t.mem, s.files.set k t.pos⟩, ⟨t.ret, t.out⟩)
  | .write k buf len => do
    let pos ← s.files[k]?
    let t ← charDevWrite w s.mem buf len none pos
    return (⟨t.mem, s.files.set k t.pos⟩, ⟨t.ret, t.out⟩)
  | .llseek k offset orig => do
    let pos ← s.files[k]?
    return (⟨s.mem, s.files.set k (charDevLlseek pos offset orig).2⟩,
      ⟨(charDevLlseek pos offset orig).1, []⟩)

/-- A call, without what it returns. -/
def step (w : Width) (s : State) (op : Op) : Option State :=
  (call w s op).map Prod.fst

/-- The module as loaded : `mem` is static and zero, and nothing is open. -/
def init : State :=
  ⟨fun _ => 0, []⟩

/-- The file a call is on. -/
def Op.file : Op → Option ℕ
  | .open => none
  | .read k _ => some k
  | .write k _ _ => some k
  | .llseek k _ _ => some k

/-- The call is on an open file. -/
def Op.Legal (s : State) (op : Op) : Prop :=
  ∀ k, op.file = some k → k < s.files.length

/-! ## The abstract device -/

/-- What the bytes of the device depend on. -/
inductive Event
  | opened
  | wrote (pos n : ℕ) (buf : ℕ → UInt8)

/-- Byte `i` after the events, the latest first : that of the latest write covering `i`
since the latest open, 0 if there is none. -/
def byteAt : List Event → ℕ → UInt8
  | [], _ => 0
  | .opened :: _, _ => 0
  | .wrote pos n buf :: es, i => if pos ≤ i ∧ i < pos + n then buf (i - pos) else byteAt es i

/-- The events, the latest first, and a cursor per file. -/
structure Abs where
  events : List Event
  cursors : List ℕ

/-- Number of bytes a transfer at the cursor `c` moves. -/
def avail (c len : ℕ) : ℕ :=
  min len (memSize - c)

/-- Where a seek from `c` goes, `none` if it is refused. -/
def seekTarget (c : ℕ) (offset orig : ℤ) : Option ℕ :=
  if orig = seekSet then
    if 0 ≤ offset ∧ offset < memSize then some offset.toNat else none
  else if orig = seekCur then
    if 0 ≤ toInt64 (c + offset) ∧ toInt64 (c + offset) < memSize then
      some (toInt64 (c + offset)).toNat
    else none
  else none

/-- One call on the abstract device. -/
def Abs.call (a : Abs) : Op → Option (Abs × Result)
  | .open => some (⟨.opened :: a.events, a.cursors ++ [0]⟩, ⟨0, []⟩)
  | .read k len => do
    let c ← a.cursors[k]?
    return (⟨a.events, a.cursors.set k (c + avail c len)⟩,
      ⟨avail c len, (List.range (avail c len)).map fun i => byteAt a.events (c + i)⟩)
  | .write k buf len => do
    let c ← a.cursors[k]?
    return (⟨.wrote c (avail c len) buf :: a.events, a.cursors.set k (c + avail c len)⟩,
      ⟨avail c len, []⟩)
  | .llseek k offset orig => do
    let c ← a.cursors[k]?
    match seekTarget c offset orig with
    | some t => return (⟨a.events, a.cursors.set k t⟩, ⟨t, []⟩)
    | none => return (a, ⟨-einval, []⟩)

/-- A call, without what it returns. -/
def Abs.step (a : Abs) (op : Op) : Option Abs :=
  (a.call op).map Prod.fst

/-- Nothing is written, and no file is open. -/
def Abs.init : Abs :=
  ⟨[], []⟩

/-! ## Refinement -/

/-- The driver's positions are the cursors, inside the memory, and its bytes are the
latest ones written. -/
structure Rel (s : State) (a : Abs) : Prop where
  files : s.files = a.cursors.map Nat.cast
  bound : ∀ c ∈ a.cursors, c ≤ memSize
  mem : ∀ i < memSize, s.mem i = byteAt a.events i

theorem Rel.init : Rel init Abs.init :=
  ⟨rfl, by simp [Abs.init], fun _ _ => rfl⟩

theorem avail_le {c : ℕ} (h : c ≤ memSize) (len : ℕ) : c + avail c len ≤ memSize := by
  unfold avail
  omega

theorem clip_eq (c len : ℕ) : clip c len = avail c len := by
  unfold clip avail
  split_ifs <;> omega

/-- A position inside the memory survives the conversion to `unsigned long`. -/
theorem toULong_cursor (w : Width) {c : ℕ} (h : c ≤ memSize) : w.toULong c = c := by
  simp only [memSize] at h
  cases w <;> simp only [Width.toULong, Width.bits] <;> omega

/-- The advanced position does not wrap inside the memory. -/
theorem toInt64_cursor {c n : ℕ} (h : c + n ≤ memSize) :
    toInt64 ((c : ℤ) + (n : ℤ)) = ((c + n : ℕ) : ℤ) := by
  simp only [memSize] at h
  rw [toInt64_eq (by omega) (by omega)]
  exact (Int.natCast_add c n).symm

/-- Nothing is available behind the memory. -/
theorem avail_of_le {c : ℕ} (h : memSize ≤ c) (len : ℕ) : avail c len = 0 := by
  unfold avail
  omega

/-- A transfer moves what is available at the converted position, if the advance does not
wrap. -/
theorem charDevRead_eq (w : Width) (mem : ℕ → UInt8) (len : ℕ) {pos : ℤ}
    (h : toInt64 (pos + avail (w.toULong pos) len) = pos + avail (w.toULong pos) len) :
    charDevRead w mem len none pos = some ⟨avail (w.toULong pos) len, mem,
      pos + avail (w.toULong pos) len,
      (List.range (avail (w.toULong pos) len)).map fun i => mem (w.toULong pos + i)⟩ := by
  unfold charDevRead
  simp only [clip_eq]
  split_ifs with hend hin
  · simp [avail_of_le hend len]
  · rw [h]
  · exact absurd (avail_le (Nat.le_of_not_le hend) len) hin

theorem charDevWrite_eq (w : Width) (mem buf : ℕ → UInt8) (len : ℕ) {pos : ℤ}
    (h : toInt64 (pos + avail (w.toULong pos) len) = pos + avail (w.toULong pos) len) :
    charDevWrite w mem buf len none pos = some ⟨avail (w.toULong pos) len,
      memcpy mem (w.toULong pos) buf 0 (avail (w.toULong pos) len),
      pos + avail (w.toULong pos) len, []⟩ := by
  unfold charDevWrite
  simp only [clip_eq]
  split_ifs with hend hin
  · simp [avail_of_le hend len]
  · rw [h]
  · exact absurd (avail_le (Nat.le_of_not_le hend) len) hin

theorem toInt64_avail {c : ℕ} (h : c ≤ memSize) (w : Width) (len : ℕ) :
    toInt64 ((c : ℤ) + avail (w.toULong c) len) = (c : ℤ) + avail (w.toULong c) len := by
  rw [toULong_cursor w h]
  exact (toInt64_cursor (avail_le h len)).trans (Int.natCast_add c _)

theorem charDevRead_cursor (w : Width) (mem : ℕ → UInt8) (len : ℕ) {c : ℕ} (h : c ≤ memSize) :
    charDevRead w mem len none c = some ⟨avail c len, mem, (c + avail c len : ℕ),
      (List.range (avail c len)).map fun i => mem (c + i)⟩ := by
  rw [charDevRead_eq w mem len (toInt64_avail h w len), toULong_cursor w h, Int.natCast_add]

theorem charDevWrite_cursor (w : Width) (mem buf : ℕ → UInt8) (len : ℕ) {c : ℕ}
    (h : c ≤ memSize) :
    charDevWrite w mem buf len none c = some ⟨avail c len, memcpy mem c buf 0 (avail c len),
      (c + avail c len : ℕ), []⟩ := by
  rw [charDevWrite_eq w mem buf len (toInt64_avail h w len), toULong_cursor w h, Int.natCast_add]

/-- A seek goes to its target, or is refused and leaves the position. -/
theorem charDevLlseek_cursor (c : ℕ) (offset orig : ℤ) :
    charDevLlseek c offset orig =
      (seekTarget c offset orig).elim (-einval, (c : ℤ)) fun t => ((t : ℤ), (t : ℤ)) := by
  unfold charDevLlseek seekTarget
  split_ifs <;> first | rfl | omega | (simp; omega)

theorem seekTarget_lt {c t : ℕ} {offset orig : ℤ} (h : seekTarget c offset orig = some t) :
    t < memSize := by
  unfold seekTarget at h
  split_ifs at h <;> cases h <;> omega

theorem Rel.cursor {s : State} {a : Abs} (h : Rel s a) {k : ℕ} (hk : k < s.files.length) :
    ∃ c, a.cursors[k]? = some c ∧ s.files[k]? = some (c : ℤ) ∧ c ≤ memSize := by
  rw [h.files, List.length_map] at hk
  refine ⟨a.cursors[k], List.getElem?_eq_getElem hk, ?_, h.bound _ (List.getElem_mem hk)⟩
  rw [h.files, List.getElem?_map, List.getElem?_eq_getElem hk]
  rfl

/-- Moving one cursor inside the memory. -/
theorem Rel.setCursor {s : State} {a : Abs} (h : Rel s a) (k : ℕ) {t : ℕ} (ht : t ≤ memSize) :
    Rel ⟨s.mem, s.files.set k t⟩ ⟨a.events, a.cursors.set k t⟩ := by
  refine ⟨by rw [h.files, List.map_set], fun c hc => ?_, h.mem⟩
  rcases List.mem_or_eq_of_mem_set hc with hc | rfl
  · exact h.bound c hc
  · exact ht

/-- A write adds its event and moves its cursor. -/
theorem Rel.write {s : State} {a : Abs} (h : Rel s a) (k : ℕ) (buf : ℕ → UInt8) {c n : ℕ}
    (hn : c + n ≤ memSize) :
    Rel ⟨memcpy s.mem c buf 0 n, s.files.set k (c + n : ℕ)⟩
      ⟨.wrote c n buf :: a.events, a.cursors.set k (c + n)⟩ := by
  have hset := h.setCursor k hn
  refine ⟨hset.files, hset.bound, fun i hi => ?_⟩
  show memcpy s.mem c buf 0 n i = byteAt (.wrote c n buf :: a.events) i
  by_cases hin : c ≤ i ∧ i < c + n
  · rw [byteAt, if_pos hin, memcpy_apply_of_mem hin, Nat.zero_add]
  · rw [byteAt, if_neg hin, memcpy_apply_of_not_mem hin, h.mem i hi]

/-- An open clears every byte and adds a cursor at 0. -/
theorem Rel.open {s : State} {a : Abs} (h : Rel s a) :
    Rel (charDevOpen s) ⟨.opened :: a.events, a.cursors ++ [0]⟩ := by
  refine ⟨?_, fun c hc => ?_, fun i hi => memset_apply_of_mem ⟨by omega, by omega⟩⟩
  · simp [charDevOpen, h.files]
  · rcases List.mem_append.mp hc with hc | hc
    · exact h.bound c hc
    · simp [List.mem_singleton.mp hc]

/-- A read inside the memory gives the latest bytes written. -/
theorem Rel.bytes {s : State} {a : Abs} (h : Rel s a) {c n : ℕ} (hn : c + n ≤ memSize) :
    (List.range n).map (fun i => s.mem (c + i)) =
      (List.range n).map fun i => byteAt a.events (c + i) := by
  refine List.map_congr_left fun i hi => h.mem _ ?_
  have := List.mem_range.mp hi
  omega

/-- Byte counts and positions are not error codes. -/
theorem natCast_ne_einval (n : ℕ) : (n : ℤ) ≠ -einval := by
  simp only [einval]
  omega

/-- A call on an open file stays inside the memory, is the abstract call, and changes
nothing if it gives `-EINVAL`. -/
theorem call_refines (w : Width) {s : State} {a : Abs} (h : Rel s a) (op : Op)
    (hop : op.Legal s) :
    ∃ s' a' r, call w s op = some (s', r) ∧ a.call op = some (a', r) ∧ Rel s' a' ∧
      (r.ret = -einval → s' = s) := by
  cases op with
  | «open» => exact ⟨_, _, _, rfl, rfl, h.open, fun hr => absurd hr (natCast_ne_einval 0)⟩
  | read k len =>
    obtain ⟨c, hc, hpos, hle⟩ := h.cursor (hop k rfl)
    have hin := avail_le hle len
    refine ⟨⟨s.mem, s.files.set k (c + avail c len : ℕ)⟩,
      ⟨a.events, a.cursors.set k (c + avail c len)⟩,
      ⟨avail c len, (List.range (avail c len)).map fun i => byteAt a.events (c + i)⟩,
      ?_, ?_, h.setCursor k hin, fun hr => absurd hr (natCast_ne_einval _)⟩
    · simp only [call, hpos, Option.bind_eq_bind, Option.bind_some, charDevRead_cursor w _ _ hle,
        h.bytes hin]
      rfl
    · simp [Abs.call, hc]
  | write k buf len =>
    obtain ⟨c, hc, hpos, hle⟩ := h.cursor (hop k rfl)
    refine ⟨⟨memcpy s.mem c buf 0 (avail c len), s.files.set k (c + avail c len : ℕ)⟩,
      ⟨.wrote c (avail c len) buf :: a.events, a.cursors.set k (c + avail c len)⟩,
      ⟨avail c len, []⟩, ?_, ?_, h.write k buf (avail_le hle len),
      fun hr => absurd hr (natCast_ne_einval _)⟩
    · simp only [call, hpos, Option.bind_eq_bind, Option.bind_some, charDevWrite_cursor w _ _ _ hle]
      rfl
    · simp [Abs.call, hc]
  | llseek k offset orig =>
    obtain ⟨c, hc, hpos, hle⟩ := h.cursor (hop k rfl)
    cases ht : seekTarget c offset orig with
    | some t =>
      refine ⟨⟨s.mem, s.files.set k (t : ℤ)⟩, ⟨a.events, a.cursors.set k t⟩, ⟨t, []⟩,
        ?_, ?_, h.setCursor k (Nat.le_of_lt (seekTarget_lt ht)),
        fun hr => absurd hr (natCast_ne_einval t)⟩
      · simp only [call, hpos, Option.bind_eq_bind, Option.bind_some, charDevLlseek_cursor, ht]
        rfl
      · simp [Abs.call, hc, ht]
    | none =>
      refine ⟨s, a, ⟨-einval, []⟩, ?_, ?_, h, fun _ => rfl⟩
      · have hself : s.files.set k (c : ℤ) = s.files := by
          obtain ⟨hk, hget⟩ := List.getElem?_eq_some_iff.mp hpos
          rw [← hget, List.set_getElem_self]
        simp only [call, hpos, Option.bind_eq_bind, Option.bind_some, charDevLlseek_cursor, ht,
          Option.elim_none, hself]
        rfl
      · simp [Abs.call, hc, ht]

/-- A call the driver takes is on an open file. -/
theorem legal_of_step {w : Width} {s s' : State} {op : Op} (h : step w s op = some s') :
    op.Legal s := by
  intro k hk
  by_contra hlt
  have hnone : s.files[k]? = none := List.getElem?_eq_none (Nat.le_of_not_lt hlt)
  cases op <;> simp_all [Op.file, step, call]

/-- The run of the driver is a run of the abstract device. -/
theorem run_refines (w : Width) : ∀ {ops : List Op} {s s' : State} {a : Abs}, Rel s a →
    Transition.run (step w) s ops = some s' →
    ∃ a', Transition.run Abs.step a ops = some a' ∧ Rel s' a'
  | [], s, s', a, h, hrun => by
    obtain rfl := Option.some.inj hrun
    exact ⟨a, rfl, h⟩
  | op :: ops, s, s', a, h, hrun => by
    obtain ⟨t, ht, hrun⟩ := Option.bind_eq_some_iff.mp hrun
    obtain ⟨t', b, r, hcall, habs, hrel, -⟩ := call_refines w h op (legal_of_step ht)
    have heq : t' = t := by simpa [step, hcall] using ht
    obtain ⟨a', harun, hrel'⟩ := run_refines w (heq ▸ hrel) hrun
    exact ⟨a', by simp [Abs.step, habs, harun], hrel'⟩

/-- Every run of the driver is a run of the abstract device, to a state with the same
cursors, all inside the memory, and the same bytes. From there every call on an open file
stays inside the memory and does and returns what the abstract one does; one that returns
`-EINVAL` changes nothing. -/
theorem charDev_refines (w : Width) (ops : List Op) (s : State)
    (hrun : Transition.run (step w) init ops = some s) :
    ∃ a, Transition.run Abs.step Abs.init ops = some a ∧ Rel s a ∧
      ∀ op : Op, op.Legal s → ∃ s' a' r, call w s op = some (s', r) ∧ a.call op = some (a', r) ∧
        Rel s' a' ∧ (r.ret = -einval → s' = s) := by
  obtain ⟨a, harun, hrel⟩ := run_refines w Rel.init hrun
  exact ⟨a, harun, hrel, call_refines w hrel⟩

/-- Two files on a 64-bit machine : the first writes at 1020 past the end, the second's
seek is refused. -/
theorem charDev_refines_twoFiles :
    ∃ s a, Transition.run (step .bits64) init
        [.open, .open, .llseek 0 1020 seekSet, .write 0 (fun _ => 7) 10, .llseek 1 (-1) seekCur]
          = some s ∧
      Transition.run Abs.step Abs.init
        [.open, .open, .llseek 0 1020 seekSet, .write 0 (fun _ => 7) 10, .llseek 1 (-1) seekCur]
          = some a ∧
      Rel s a ∧ a.cursors = [1024, 0] := by
  have hrun : ∃ s, Transition.run (step .bits64) init
      [.open, .open, .llseek 0 1020 seekSet, .write 0 (fun _ => 7) 10, .llseek 1 (-1) seekCur]
        = some s := ⟨_, rfl⟩
  obtain ⟨s, hs⟩ := hrun
  obtain ⟨a, ha, hrel, -⟩ := charDev_refines .bits64 _ s hs
  refine ⟨s, a, hs, ha, hrel, ?_⟩
  have := Option.some.inj ha
  rw [← this]
  rfl

end CharDev

end LinuxDriverKb
