import Mathlib.Data.Nat.Notation
import Mathlib.Data.Int.Notation
import Mathlib.Tactic.SplitIfs

/-!
# Sequence files

A file whose text is the records of an iterator one after the other. `read` gives what is
left in the buffer, then prints records into it until there is enough; a record that is read
in part stays in the buffer. `seek` prints the records again from the first one.

`read_spec`, `traverse_spec` : for an iterator that enumerates its records, what is pending
after a read is what was pending without the bytes read, and after a seek it is the text
from the offset on. So a file of which the text stays is a plain one (`plain_read`,
`plain_seek`).
-/

set_option autoImplicit false

namespace SeqFile

/-- The operations of an iterator. `τ` : its tokens; `σ` : what a record is printed from. -/
structure Ops (σ τ : Type) where
  start : ℕ → Option τ
  next : τ → ℕ → Option τ × ℕ
  print : σ → τ → List UInt8

/-- An open file : the record printed last, or the next one if the buffer is empty; what is
printed and not read; and the position. -/
structure File where
  index : ℕ
  buf : List UInt8
  readPos : ℕ

/-- `seq_open`. -/
def File.opened : File :=
  ⟨0, [], 0⟩

variable {σ τ : Type} (ops : Ops σ τ) (cap : ℕ) (s : σ)

/-! ## Reading -/

/-- Prints records while the reader wants more and they fit into the buffer; each has a
byte, so `size` of them are enough. -/
def fill (size : ℕ) : ℕ → τ → ℕ → List UInt8 → ℕ × List UInt8
  | 0, _, pos, buf => (pos, buf)
  | fuel + 1, v, pos, buf =>
    if buf.length < size then
      match ops.next v pos with
      | (none, _) => (pos, buf)
      | (some v, next) =>
        if buf.length + (ops.print s v).length < cap then
          fill size fuel v next (buf ++ ops.print s v)
        else (pos, buf)
    else (pos, buf)

/-- The part of a read after the buffer is empty. -/
def readFresh (size : ℕ) (f : File) : List UInt8 × File :=
  match ops.start f.index with
  | none => ([], f)
  | some v =>
    let r := fill ops cap s size size v f.index (ops.print s v)
    let rest := r.2.drop size
    (r.2.take size, { f with index := if rest = [] then r.1 + 1 else r.1, buf := rest })

/-- `seq_read`. -/
def read (size : ℕ) (f : File) : List UInt8 × File :=
  let r :=
    if f.buf = [] then readFresh ops cap s size f
    else
      let rest := f.buf.drop size
      let g := { f with index := if rest = [] then f.index + 1 else f.index, buf := rest }
      if size ≤ f.buf.length then (f.buf.take size, g)
      else
        let r := readFresh ops cap s (size - f.buf.length) g
        (f.buf ++ r.1, r.2)
  (r.1, { r.2 with readPos := f.readPos + r.1.length })

/-! ## Seeking -/

/-- Prints records until the offset is reached; `pos` is where the record starts. -/
def traverseLoop (offset : ℕ) : ℕ → τ → ℕ → ℕ → ℕ × List UInt8
  | 0, _, index, _ => (index, [])
  | fuel + 1, v, index, pos =>
    let text := ops.print s v
    if offset < pos + text.length then (index, text.drop (offset - pos))
    else if pos + text.length = offset then (index + 1, [])
    else
      match ops.next v index with
      | (none, index) => (index, [])
      | (some v, index) => traverseLoop offset fuel v index (pos + text.length)

/-- `traverse`. -/
def traverse (offset : ℕ) : ℕ × List UInt8 :=
  if offset = 0 then (0, [])
  else
    match ops.start 0 with
    | none => (0, [])
    | some v => traverseLoop ops s offset offset v 0 0

/-- `seq_lseek` to an offset from the start; a negative one is an error. -/
def seek (offset : ℤ) (f : File) : Option ℕ × File :=
  if offset < 0 then (none, f)
  else if offset.toNat = f.readPos then (some offset.toNat, f)
  else
    let r := traverse ops s offset.toNat
    (some offset.toNat, ⟨r.1, r.2, offset.toNat⟩)

/-! ## What an iterator should do -/

/-- The text of a record. -/
def text (i : ℕ) : List UInt8 :=
  ((ops.start i).map (ops.print s)).getD []

/-- The records from the `i`-th on. -/
def rest (n i : ℕ) : List UInt8 :=
  ((List.range n).drop i).flatMap (text ops s)

/-- What is to be read : the buffer, and the records after it. -/
def pending (n : ℕ) (f : File) : List UInt8 :=
  f.buf ++ rest ops s n (if f.buf = [] then f.index else f.index + 1)

/-- The iterator has the records below `n`, none is empty, and the buffer holds them all. -/
structure Enumerates (n : ℕ) : Prop where
  start : ∀ i, (ops.start i).isSome ↔ i < n
  next : ∀ i v, ops.start i = some v → ops.next v i = (ops.start (i + 1), i + 1)
  print : ∀ s i v, ops.start i = some v → ops.print s v ≠ []
  fits : ∀ s, (rest ops s n 0).length < cap

/-! ## Records -/

variable {ops cap s} {n : ℕ}

theorem rest_of_le {i : ℕ} (h : n ≤ i) : rest ops s n i = [] := by
  rw [rest, List.drop_eq_nil_of_le (by simpa using h)]
  rfl

theorem rest_of_lt {i : ℕ} (h : i < n) :
    rest ops s n i = text ops s i ++ rest ops s n (i + 1) := by
  rw [rest, List.drop_eq_getElem_cons (by simpa using h), List.flatMap_cons]
  simp [rest]

theorem text_of_start {i : ℕ} {v : τ} (h : ops.start i = some v) :
    text ops s i = ops.print s v := by
  rw [text, h]
  rfl

theorem Enumerates.lt (h : Enumerates ops cap n) {i : ℕ} {v : τ} (hv : ops.start i = some v) :
    i < n :=
  (h.start i).mp (hv ▸ rfl)

theorem Enumerates.le (h : Enumerates ops cap n) {i : ℕ} (hv : ops.start i = none) :
    n ≤ i := by
  refine Nat.le_of_not_lt fun hlt => ?_
  have hsome := (h.start i).mpr hlt
  rw [hv] at hsome
  exact absurd hsome (by simp)

theorem Enumerates.rest_eq (h : Enumerates ops cap n) {i : ℕ} {v : τ}
    (hv : ops.start i = some v) : rest ops s n i = ops.print s v ++ rest ops s n (i + 1) := by
  rw [rest_of_lt (h.lt hv), text_of_start hv]

theorem Enumerates.length_rest_lt (h : Enumerates ops cap n) (s : σ) (i : ℕ) :
    (rest ops s n i).length < cap := by
  induction i with
  | zero => exact h.fits s
  | succ i ih =>
    refine Nat.lt_of_le_of_lt ?_ ih
    by_cases hi : i < n
    · rw [rest_of_lt hi, List.length_append]
      exact Nat.le_add_left _ _
    · rw [rest_of_le (Nat.le_succ_of_le (Nat.le_of_not_lt hi))]
      exact Nat.zero_le _

/-! ## Reading is taking from what is pending -/

/-- What is filled in comes from the records that follow, and is enough or all of them. -/
theorem fill_spec (h : Enumerates ops cap n) (size : ℕ) :
    ∀ (fuel : ℕ) (v : τ) (pos : ℕ) (buf : List UInt8), ops.start pos = some v →
      size ≤ buf.length + fuel → buf.length + (rest ops s n (pos + 1)).length < cap →
      let r := fill ops cap s size fuel v pos buf
      r.2 ++ rest ops s n (r.1 + 1) = buf ++ rest ops s n (pos + 1) ∧
        (size ≤ r.2.length ∨ n ≤ r.1 + 1)
  | 0, v, pos, buf, _, hfuel, _ => ⟨rfl, .inl hfuel⟩
  | fuel + 1, v, pos, buf, hv, hfuel, hcap => by
    intro r
    by_cases hsize : buf.length < size
    · cases hnext : ops.start (pos + 1) with
      | none =>
        have hr : r = (pos, buf) := by
          simp only [r, fill, if_pos hsize, h.next pos v hv, hnext]
        rw [hr]
        exact ⟨rfl, .inr (h.le hnext)⟩
      | some w =>
        have hrest := h.rest_eq (s := s) hnext
        have hpos : 0 < (ops.print s w).length := List.length_pos_iff.mpr (h.print s _ w hnext)
        rw [hrest, List.length_append] at hcap
        have hr : r = fill ops cap s size fuel w (pos + 1) (buf ++ ops.print s w) := by
          have hfits : buf.length + (ops.print s w).length < cap := by omega
          simp only [r, fill, if_pos hsize, h.next pos v hv, hnext, if_pos hfits]
        obtain ⟨heq, henough⟩ := fill_spec h size fuel w (pos + 1) (buf ++ ops.print s w) hnext
          (by rw [List.length_append]; omega) (by rw [List.length_append]; omega)
        rw [hr]
        exact ⟨by rw [heq, hrest, List.append_assoc], henough⟩
    · have hr : r = (pos, buf) := if_neg hsize
      rw [hr]
      exact ⟨rfl, .inl (Nat.le_of_not_lt hsize)⟩

/-- A read with nothing in the buffer. -/
theorem readFresh_spec (h : Enumerates ops cap n) (size : ℕ) {f : File} (hbuf : f.buf = []) :
    let r := readFresh ops cap s size f
    r.1 = (pending ops s n f).take size ∧ pending ops s n r.2 = (pending ops s n f).drop size := by
  intro r
  have hpending : pending ops s n f = rest ops s n f.index := by
    rw [pending, hbuf, if_pos rfl, List.nil_append]
  rw [hpending]
  cases hv : ops.start f.index with
  | none =>
    have hr : r = ([], f) := by simp only [r, readFresh, hv]
    rw [hr, hpending, rest_of_le (h.le hv)]
    simp
  | some v =>
    have hcap := h.length_rest_lt s f.index
    rw [h.rest_eq hv, List.length_append] at hcap
    obtain ⟨heq, henough⟩ := fill_spec h size size v f.index (ops.print s v) hv
      (Nat.le_add_left _ _) hcap
    let t := fill ops cap s size size v f.index (ops.print s v)
    have hr : r = (t.2.take size,
        { f with index := if t.2.drop size = [] then t.1 + 1 else t.1, buf := t.2.drop size }) := by
      simp only [r, readFresh, hv]
      rfl
    have hnew : pending ops s n r.2 = t.2.drop size ++ rest ops s n (t.1 + 1) := by
      rw [hr, pending]
      split_ifs <;> rfl
    rw [hnew, h.rest_eq hv, ← heq, hr]
    rcases henough with hlen | hend
    · exact ⟨(List.take_append_of_le_length hlen).symm, (List.drop_append_of_le_length hlen).symm⟩
    · rw [rest_of_le hend, List.append_nil, List.append_nil]
      exact ⟨rfl, rfl⟩

/-- A read takes from what is pending. -/
theorem read_spec (h : Enumerates ops cap n) (size : ℕ) (f : File) :
    let r := read ops cap s size f
    r.1 = (pending ops s n f).take size ∧ pending ops s n r.2 = (pending ops s n f).drop size ∧
      r.2.readPos = f.readPos + r.1.length := by
  intro r
  by_cases hbuf : f.buf = []
  · have hr : r = ((readFresh ops cap s size f).1, { (readFresh ops cap s size f).2 with
        readPos := f.readPos + (readFresh ops cap s size f).1.length }) := by
      simp only [r, read, if_pos hbuf]
    obtain ⟨hout, hnew⟩ := readFresh_spec (s := s) h size hbuf
    rw [hr]
    exact ⟨hout, hnew, rfl⟩
  · let g : File :=
      { f with
        index := if f.buf.drop size = [] then f.index + 1 else f.index, buf := f.buf.drop size }
    have hf : pending ops s n f = f.buf ++ rest ops s n (f.index + 1) := by
      rw [pending, if_neg hbuf]
    have hg : pending ops s n g = f.buf.drop size ++ rest ops s n (f.index + 1) := by
      simp only [pending, g]
      split_ifs <;> rfl
    rw [hf]
    by_cases hsize : size ≤ f.buf.length
    · have hr : r = (f.buf.take size,
          { g with readPos := f.readPos + (f.buf.take size).length }) := by
        simp only [r, read, if_neg hbuf, if_pos hsize]
        rfl
      rw [hr]
      exact ⟨(List.take_append_of_le_length hsize).symm,
        hg.trans (List.drop_append_of_le_length hsize).symm, rfl⟩
    · have hlen := Nat.le_of_not_le hsize
      have hnil : g.buf = [] := List.drop_eq_nil_of_le hlen
      have hdrop : f.buf.drop size = [] := hnil
      let t := readFresh ops cap s (size - f.buf.length) g
      have hr : r = (f.buf ++ t.1,
          { t.2 with readPos := f.readPos + (f.buf ++ t.1).length }) := by
        simp only [r, read, if_neg hbuf, if_neg hsize]
        rfl
      obtain ⟨hout, hnew⟩ := readFresh_spec (s := s) h (size - f.buf.length) hnil
      rw [hg, hdrop, List.nil_append] at hout hnew
      rw [hr, List.take_append, List.take_of_length_le hlen, List.drop_append, hdrop,
        List.nil_append]
      exact ⟨congrArg (f.buf ++ ·) hout, hnew, rfl⟩

/-! ## Seeking is dropping from the text -/

theorem traverseLoop_spec (h : Enumerates ops cap n) {offset : ℕ} :
    ∀ (fuel : ℕ) {v : τ} {index pos : ℕ}, ops.start index = some v → pos < offset →
      offset ≤ pos + fuel →
      let r := traverseLoop ops s offset fuel v index pos
      pending ops s n ⟨r.1, r.2, offset⟩ = (rest ops s n index).drop (offset - pos)
  | 0, v, index, pos, _, hpos, hfuel => by omega
  | fuel + 1, v, index, pos, hv, hpos, hfuel => by
    intro r
    have hrest := h.rest_eq (s := s) hv
    have hlen : 0 < (ops.print s v).length := List.length_pos_iff.mpr (h.print s _ v hv)
    rw [hrest, List.drop_append]
    by_cases hin : offset < pos + (ops.print s v).length
    · have hr : r = (index, (ops.print s v).drop (offset - pos)) := by
        simp only [r, traverseLoop, if_pos hin]
      have hne : (ops.print s v).drop (offset - pos) ≠ [] := by
        rw [Ne, List.drop_eq_nil_iff]
        omega
      have hzero : offset - pos - (ops.print s v).length = 0 := by omega
      rw [hr, pending, if_neg hne, hzero, List.drop_zero]
    · have hdrop : (ops.print s v).drop (offset - pos) = [] := by
        rw [List.drop_eq_nil_iff]
        omega
      rw [hdrop, List.nil_append]
      by_cases hend : pos + (ops.print s v).length = offset
      · have hr : r = (index + 1, []) := by
          simp only [r, traverseLoop, if_neg hin, if_pos hend]
        have hzero : offset - pos - (ops.print s v).length = 0 := by omega
        rw [hr, pending, if_pos rfl, hzero, List.drop_zero, List.nil_append]
      · cases hnext : ops.start (index + 1) with
        | none =>
          have hr : r = (index + 1, []) := by
            simp only [r, traverseLoop, if_neg hin, if_neg hend, h.next index v hv, hnext]
          rw [hr, pending, if_pos rfl, rest_of_le (h.le hnext), List.drop_nil, List.nil_append]
        | some w =>
          have hr : r = traverseLoop ops s offset fuel w (index + 1)
              (pos + (ops.print s v).length) := by
            simp only [r, traverseLoop, if_neg hin, if_neg hend, h.next index v hv, hnext]
          have hsub : offset - pos - (ops.print s v).length =
              offset - (pos + (ops.print s v).length) := by omega
          rw [hr, hsub]
          exact traverseLoop_spec h fuel hnext (by omega) (by omega)

/-- After a seek the text is pending from the offset on. -/
theorem traverse_spec (h : Enumerates ops cap n) (offset : ℕ) :
    pending ops s n ⟨(traverse ops s offset).1, (traverse ops s offset).2, offset⟩ =
      (rest ops s n 0).drop offset := by
  unfold traverse
  split_ifs with hzero
  · rw [hzero, pending, if_pos rfl, List.drop_zero, List.nil_append]
  · cases hv : ops.start 0 with
    | none =>
      rw [pending, if_pos rfl, rest_of_le (h.le hv), List.drop_nil, List.nil_append]
    | some v =>
      exact traverseLoop_spec h offset hv (Nat.pos_of_ne_zero hzero) (Nat.le_add_left _ _)

/-! ## Files that stay -/

/-- A file that is read like a plain one with the text of its records. -/
def Plain (ops : Ops σ τ) (s : σ) (n : ℕ) (f : File) : Prop :=
  pending ops s n f = (rest ops s n 0).drop f.readPos

theorem plain_opened : Plain ops s n File.opened := by
  rw [Plain, File.opened, pending, if_pos rfl]
  rfl

theorem plain_read (h : Enumerates ops cap n) {f : File} (hf : Plain ops s n f) (size : ℕ) :
    let r := read ops cap s size f
    r.1 = ((rest ops s n 0).drop f.readPos).take size ∧ Plain ops s n r.2 ∧
      r.2.readPos = f.readPos + r.1.length := by
  intro r
  obtain ⟨hout, hnew, hpos⟩ := read_spec (s := s) h size f
  rw [Plain] at hf
  rw [hf] at hout hnew
  refine ⟨hout, ?_, hpos⟩
  rw [Plain, hnew, hpos, List.drop_drop, hout, List.length_take]
  -- at the end of the text the position goes no farther
  rcases Nat.le_total size ((rest ops s n 0).drop f.readPos).length with hle | hle
  · rw [Nat.min_eq_left hle]
  · rw [Nat.min_eq_right hle, List.length_drop]
    rw [List.length_drop] at hle
    rw [List.drop_eq_nil_of_le (by omega), List.drop_eq_nil_of_le (by omega)]

theorem plain_seek (h : Enumerates ops cap n) {f : File} (hf : Plain ops s n f) (offset : ℤ) :
    Plain ops s n (seek ops s offset f).2 ∧
      (0 ≤ offset → (seek ops s offset f).2.readPos = offset.toNat) ∧
      (offset < 0 → seek ops s offset f = (none, f)) := by
  unfold seek
  split_ifs with hneg heq
  · exact ⟨hf, fun hle => absurd hneg (Int.not_lt.mpr hle), fun _ => rfl⟩
  · exact ⟨hf, fun _ => heq.symm, fun hlt => absurd hlt hneg⟩
  · exact ⟨traverse_spec h offset.toNat, fun _ => rfl, fun hlt => absurd hlt hneg⟩

theorem seek_stay {offset : ℤ} {f : File} (h : offset < 0 ∨ offset.toNat = f.readPos) :
    (seek ops s offset f).2 = f := by
  unfold seek
  split_ifs with hneg heq
  · rfl
  · rfl
  · exact absurd (h.resolve_left hneg) heq

theorem seek_go {offset : ℤ} {f : File} (h : ¬(offset < 0 ∨ offset.toNat = f.readPos)) :
    (seek ops s offset f).2 =
      ⟨(traverse ops s offset.toNat).1, (traverse ops s offset.toNat).2, offset.toNat⟩ := by
  rw [seek, if_neg fun hneg => h (.inl hneg), if_neg fun heq => h (.inr heq)]

/-! ## A single record -/

/-- `single_start` and `single_next`. -/
def single (print : σ → List UInt8) : Ops σ Unit where
  start pos := if pos = 0 then some () else none
  next _ pos := (none, pos + 1)
  print s _ := print s

/-- The record is printed, and what is left of it is in the buffer. -/
def File.Printed (f : File) : Prop :=
  f.index ≠ 0 ∨ f.buf ≠ []

variable {print : σ → List UInt8}

theorem printed_ite (i : ℕ) (buf : List UInt8) (readPos : ℕ) :
    File.Printed ⟨if buf = [] then i + 1 else i, buf, readPos⟩ := by
  by_cases h : buf = []
  · exact .inl (by simp [h])
  · exact .inr h

theorem readFresh_single {size : ℕ} {f : File} (h : f.index = 0) :
    readFresh (single print) cap s size f = ((print s).take size, { f with
      index := if (print s).drop size = [] then 1 else 0
      buf := (print s).drop size }) := by
  have hstart : (single print).start f.index = some () := if_pos h
  have hfill : fill (single print) cap s size size () 0 ((single print).print s ()) =
      (0, print s) := by
    cases size with
    | zero => rfl
    | succ size =>
      rw [fill]
      split_ifs <;> rfl
  simp only [readFresh, hstart]
  rw [h, hfill]

/-- The first read of a record prints it. -/
theorem read_single {size : ℕ} {f : File} (h : ¬f.Printed) :
    let r := read (single print) cap s size f
    r.1 = (print s).take size ∧ r.2.Printed ∧ r.2.buf = (print s).drop size := by
  intro r
  have hindex : f.index = 0 := Decidable.not_not.mp fun hne => h (.inl hne)
  have hbuf : f.buf = [] := Decidable.not_not.mp fun hne => h (.inr hne)
  have hr : r = read (single print) cap s size f := rfl
  simp only [read, if_pos hbuf, readFresh_single hindex] at hr
  rw [hr]
  exact ⟨rfl, printed_ite 0 _ _, rfl⟩

/-- Another read goes on in the buffer. -/
theorem read_single_printed {size : ℕ} {f : File} (h : f.Printed) :
    let r := read (single print) cap s size f
    r.1 = f.buf.take size ∧ r.2.Printed ∧ r.2.buf = f.buf.drop size := by
  intro r
  have hend : ∀ (k : ℕ) {g : File}, g.index ≠ 0 → readFresh (single print) cap s k g = ([], g) := by
    intro k g hg
    simp only [readFresh, single, if_neg hg]
  by_cases hbuf : f.buf = []
  · have hindex : f.index ≠ 0 := h.resolve_right (not_not_intro hbuf)
    have hr : r = ([], { f with readPos := f.readPos + 0 }) := by
      simp only [r, read, if_pos hbuf, hend size hindex, List.length_nil]
    rw [hr, hbuf]
    exact ⟨List.take_nil.symm, .inl hindex, List.drop_nil.symm⟩
  · by_cases hsize : size ≤ f.buf.length
    · have hr : r = (f.buf.take size, { f with
          index := if f.buf.drop size = [] then f.index + 1 else f.index
          buf := f.buf.drop size
          readPos := f.readPos + (f.buf.take size).length }) := by
        simp only [r, read, if_neg hbuf, if_pos hsize]
      rw [hr]
      exact ⟨rfl, printed_ite _ _ _, rfl⟩
    · have hlen := Nat.le_of_not_le hsize
      have hdrop : f.buf.drop size = [] := List.drop_eq_nil_of_le hlen
      have hr : r = (f.buf ++ [], { f with
          index := f.index + 1
          buf := f.buf.drop size
          readPos := f.readPos + (f.buf ++ []).length }) := by
        have hg := hend (size - f.buf.length)
          (g := { f with index := f.index + 1, buf := f.buf.drop size }) (Nat.succ_ne_zero _)
        simp only [r, read, if_neg hbuf, if_neg hsize, if_pos hdrop]
        rw [hg]
      rw [hr, List.take_of_length_le hlen, List.append_nil]
      exact ⟨rfl, .inl (Nat.succ_ne_zero _), rfl⟩

/-- A seek elsewhere prints the record, from the offset on. -/
theorem traverse_single (print : σ → List UInt8) (s : σ) (offset readPos : ℕ) :
    let f : File :=
      ⟨(traverse (single print) s offset).1, (traverse (single print) s offset).2, readPos⟩
    if offset = 0 then ¬f.Printed else f.Printed ∧ f.buf = (print s).drop offset := by
  intro f
  split_ifs with hzero
  · have hf : f = ⟨0, [], readPos⟩ := by simp only [f, traverse, if_pos hzero]
    rw [hf]
    rintro (hindex | hbuf)
    · exact hindex rfl
    · exact hbuf rfl
  · obtain ⟨fuel, rfl⟩ := Nat.exists_eq_succ_of_ne_zero hzero
    have hf : f = (if fuel + 1 < (print s).length then
        ⟨0, (print s).drop (fuel + 1), readPos⟩ else ⟨1, [], readPos⟩) := by
      simp only [f, traverse, if_neg hzero, single, if_true, traverseLoop, Nat.zero_add,
        Nat.sub_zero]
      split_ifs <;> rfl
    rw [hf]
    split_ifs with hin
    · have hne : (print s).drop (fuel + 1) ≠ [] := by
        rw [Ne, List.drop_eq_nil_iff]
        omega
      exact ⟨.inr hne, rfl⟩
    · exact ⟨.inl Nat.one_ne_zero, (List.drop_eq_nil_of_le (Nat.le_of_not_lt hin)).symm⟩

end SeqFile
