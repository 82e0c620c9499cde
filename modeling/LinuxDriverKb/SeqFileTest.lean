import LinuxDriverKb.Lib.Decimal
import LinuxDriverKb.Lib.SeqFile

/-!
# The sequence file of chapter 1

`seq_file.c` shows a table through a sequence file. Its iterator is the position itself :
`seq_start` and `seq_next` return the pointer to it, and `seq_show` takes it as the index.
Each line is padded to 63 characters.

`seqfile_plain` : for any calls of `read` and `lseek`, the file is a plain one with the
lines of the table, and no index is outside the table.
-/

set_option autoImplicit false

namespace LinuxDriverKb

namespace SeqFileTest

/-! ## The driver -/

/-- `struct seqfile_entry`. -/
structure SeqfileEntry where
  str : String
  num : ℤ

/-- `seqfile_entrys`. -/
def seqfileEntrys : List SeqfileEntry :=
  [⟨"first", 1⟩, ⟨"second", 2⟩, ⟨"third", 3⟩]

/-- The bytes of a string. -/
def bytes (str : String) : List UInt8 :=
  str.toList.map fun c => .ofNat c.toNat

/-- `seq_setwidth`, `seq_printf` and `seq_pad` of one line. -/
def seqPad (width : ℕ) (text : List UInt8) (c : UInt8) : List UInt8 :=
  text ++ List.replicate (width - text.length) 32 ++ [c]

/-- What `seq_show` prints of an entry. -/
def line (e : SeqfileEntry) : List UInt8 :=
  seqPad 63 (bytes e.str ++ bytes ": " ++ Decimal.print e.num) 10

/-- `seq_start`. -/
def seqStart (pos : ℕ) : Option ℕ :=
  if seqfileEntrys.length ≤ pos then none else some pos

/-- `seq_next`. -/
def seqNext (_ : ℕ) (pos : ℕ) : Option ℕ × ℕ :=
  (if seqfileEntrys.length ≤ pos + 1 then none else some (pos + 1), pos + 1)

/-- `seq_show`; outside the table it would print what is there. -/
def seqShow (outside : List UInt8) (i : ℕ) : List UInt8 :=
  match seqfileEntrys[i]? with
  | some e => line e
  | none => outside

/-- `seq_ops`. -/
def seqOps : SeqFile.Ops (List UInt8) ℕ :=
  ⟨seqStart, seqNext, seqShow⟩

/-- The buffer of a sequence file is a page at first. -/
def pageSize : ℕ := 4096

/-! ## Calls -/

/-- A call of `read`, or of `lseek` with `SEEK_SET` or `SEEK_CUR`. -/
inductive Call
  | read (size : ℕ)
  | seekSet (offset : BitVec 64)
  | seekCur (offset : BitVec 64)

/-- What a call returns. -/
inductive Result
  | bytes (bs : List UInt8)
  | offset (o : ℕ)
  | einval
  deriving DecidableEq

/-- The positions of a file are below it : `loff_t` has a sign. -/
def posEnd : ℕ := 2 ^ 63

/-- `seq_lseek`. -/
def seqLseek (outside : List UInt8) (f : SeqFile.File) (offset : BitVec 64) :
    Result × SeqFile.File :=
  match SeqFile.seek seqOps outside offset.toInt f with
  | (some o, f) => (.offset o, f)
  | (none, f) => (.einval, f)

/-- A call on the file of `seqfile_test_fops`. A read that would go past the last position is
refused; the sum of `SEEK_CUR` wraps around. -/
def call (outside : List UInt8) (f : SeqFile.File) : Call → Result × SeqFile.File
  | .read size =>
    if posEnd ≤ f.readPos + size then (.einval, f)
    else
      let r := SeqFile.read seqOps pageSize outside size f
      (.bytes r.1, r.2)
  | .seekSet offset => seqLseek outside f offset
  | .seekCur offset => seqLseek outside f (offset + .ofNat 64 f.readPos)

/-- What the calls return, one after the other. -/
def calls (outside : List UInt8) : SeqFile.File → List Call → List Result
  | _, [] => []
  | f, c :: cs => (call outside f c).1 :: calls outside (call outside f c).2 cs

/-! ## A plain file -/

/-- A call on a file with the bytes `text`, of which the state is the position. -/
def plainCall (text : List UInt8) (pos : ℕ) : Call → Result × ℕ
  | .read size =>
    if posEnd ≤ pos + size then (.einval, pos)
    else (.bytes ((text.drop pos).take size), pos + ((text.drop pos).take size).length)
  | .seekSet offset => plainSeek pos offset.toInt
  | .seekCur offset => plainSeek pos (pos + offset.toInt)
where
  /-- The position goes to an offset that is one. -/
  plainSeek (pos : ℕ) (offset : ℤ) : Result × ℕ :=
    if 0 ≤ offset ∧ offset < posEnd then (.offset offset.toNat, offset.toNat) else (.einval, pos)

/-- What the calls return on the plain file. -/
def plainCalls (text : List UInt8) : ℕ → List Call → List Result
  | _, [] => []
  | pos, c :: cs => (plainCall text pos c).1 :: plainCalls text (plainCall text pos c).2 cs

/-- The lines of the table. -/
def table : List UInt8 :=
  seqfileEntrys.flatMap line

/-! ## The iterator -/

variable {outside : List UInt8}

theorem length_line {e : SeqfileEntry}
    (h : (bytes e.str ++ bytes ": " ++ Decimal.print e.num).length ≤ 63) :
    (line e).length = 64 := by
  unfold line seqPad
  rw [List.length_append, List.length_append, List.length_replicate]
  show _ + 1 = 64
  omega

/-- Every record is a line of the table. -/
theorem rest_seqOps : SeqFile.rest seqOps outside seqfileEntrys.length 0 = table :=
  rfl

theorem length_table : table.length = 192 := by
  have hfits : ∀ e ∈ seqfileEntrys,
      (bytes e.str ++ bytes ": " ++ Decimal.print e.num).length ≤ 63 := by decide
  have hlines : seqfileEntrys.map (fun e => (line e).length) = seqfileEntrys.map fun _ => 64 :=
    List.map_congr_left fun e he => length_line (hfits e he)
  rw [table, List.length_flatMap, hlines]
  rfl

theorem seqShow_of_lt {i : ℕ} (h : i < seqfileEntrys.length) :
    seqShow outside i = line seqfileEntrys[i] := by
  rw [seqShow, List.getElem?_eq_getElem h]

theorem line_ne_nil (e : SeqfileEntry) : line e ≠ [] := by
  unfold line seqPad
  simp

theorem seqStart_eq_some_iff {i v : ℕ} :
    seqStart i = some v ↔ v = i ∧ i < seqfileEntrys.length := by
  unfold seqStart
  split_ifs with hle
  · simp [Nat.not_lt.mpr hle]
  · simp [Nat.lt_of_not_le hle, eq_comm]

theorem seqOps_enumerates :
    SeqFile.Enumerates seqOps pageSize seqfileEntrys.length where
  start i := by
    rw [Option.isSome_iff_exists]
    constructor
    · rintro ⟨v, hv⟩
      exact (seqStart_eq_some_iff.mp hv).2
    · intro hlt
      exact ⟨i, seqStart_eq_some_iff.mpr ⟨rfl, hlt⟩⟩
  next _ _ _ := rfl
  print s i v hv := by
    obtain ⟨rfl, hlt⟩ := seqStart_eq_some_iff.mp hv
    show seqShow s v ≠ []
    rw [seqShow_of_lt hlt]
    exact line_ne_nil _
  fits s := by
    rw [rest_seqOps, length_table]
    decide

/-! ## Runs -/

/-- A file that is like a plain one, at a position. -/
structure Like (outside : List UInt8) (f : SeqFile.File) : Prop where
  plain : SeqFile.Plain seqOps outside seqfileEntrys.length f
  lt : f.readPos < posEnd

/-- A call returns the same on both files, and leaves them alike. -/
def Agrees (outside : List UInt8) (r : Result × SeqFile.File) (p : Result × ℕ) : Prop :=
  r.1 = p.1 ∧ r.2.readPos = p.2 ∧ Like outside r.2

/-- A seek to an offset that may be `v`, unless there is no such position. -/
theorem seqLseek_plain {f : SeqFile.File} (h : Like outside f) {offset : BitVec 64} {v : ℤ}
    (hv : if 0 ≤ v ∧ v < posEnd then offset.toInt = v else offset.toInt < 0) :
    Agrees outside (seqLseek outside f offset) (plainCall.plainSeek f.readPos v) := by
  obtain ⟨hplain, hpos, hneg⟩ := SeqFile.plain_seek seqOps_enumerates h.plain offset.toInt
  unfold plainCall.plainSeek seqLseek
  split_ifs at hv ⊢ with hrange
  · rw [hv] at hplain hpos ⊢
    have hret : SeqFile.seek seqOps outside v f =
        (some v.toNat, (SeqFile.seek seqOps outside v f).2) := by
      rw [SeqFile.seek, if_neg (Int.not_lt.mpr hrange.1)]
      split_ifs <;> rfl
    rw [hret]
    refine ⟨rfl, hpos hrange.1, hplain, ?_⟩
    dsimp only
    rw [hpos hrange.1]
    exact (Int.toNat_lt hrange.1).mpr hrange.2
  · rw [hneg hv]
    exact ⟨rfl, rfl, h⟩

/-- An offset as it is. -/
theorem toInt_seekSet (offset : BitVec 64) :
    if 0 ≤ offset.toInt ∧ offset.toInt < posEnd then offset.toInt = offset.toInt
    else offset.toInt < 0 := by
  have hhigh := BitVec.toInt_lt (x := offset)
  unfold posEnd
  split_ifs with h
  · rfl
  · omega

/-- The sum of `SEEK_CUR` wraps to a negative number if it is no position. -/
theorem toInt_seekCur {pos : ℕ} (h : pos < posEnd) (offset : BitVec 64) :
    if 0 ≤ pos + offset.toInt ∧ pos + offset.toInt < posEnd then
      (offset + .ofNat 64 pos).toInt = pos + offset.toInt
    else (offset + .ofNat 64 pos).toInt < 0 := by
  have hlow := BitVec.le_toInt offset
  have hhigh := BitVec.toInt_lt (x := offset)
  unfold posEnd at h ⊢
  have hpos : (BitVec.ofNat 64 pos).toInt = pos := by
    rw [BitVec.toInt_eq_toNat_of_lt] <;> rw [BitVec.toNat_ofNat, Nat.mod_eq_of_lt] <;> omega
  rw [BitVec.toInt_add, hpos]
  split_ifs with hrange
  · rw [Int.bmod_eq_of_le (by omega) (by omega)]
    omega
  · by_cases hneg : pos + offset.toInt < 0
    · rw [Int.bmod_eq_of_le (by omega) (by omega)]
      omega
    · rw [Int.bmod_def]
      omega

/-- A call on a file that is like a plain one. -/
theorem call_plain {f : SeqFile.File} (h : Like outside f) (c : Call) :
    Agrees outside (call outside f c) (plainCall table f.readPos c) := by
  cases c with
  | read size =>
    simp only [call, plainCall]
    split_ifs with hend
    · exact ⟨rfl, rfl, h⟩
    · obtain ⟨hout, hnew, hpos⟩ := SeqFile.plain_read seqOps_enumerates h.plain size
      rw [rest_seqOps] at hout
      have hpos' := hpos.trans (congrArg (fun bs => f.readPos + bs.length) hout)
      refine ⟨congrArg Result.bytes hout, hpos', hnew, ?_⟩
      dsimp only at hpos' ⊢
      rw [hpos', List.length_take]
      omega
  | seekSet offset => exact seqLseek_plain h (toInt_seekSet offset)
  | seekCur offset => exact seqLseek_plain h (toInt_seekCur h.lt offset)

theorem like_opened : Like outside SeqFile.File.opened :=
  ⟨SeqFile.plain_opened, show 0 < 2 ^ 63 by decide⟩

theorem calls_plain :
    ∀ (cs : List Call) {f : SeqFile.File}, Like outside f →
      calls outside f cs = plainCalls table f.readPos cs
  | [], _, _ => rfl
  | c :: cs, f, h => by
    obtain ⟨hresult, hpos, hnew⟩ := call_plain h c
    rw [calls, plainCalls, hresult, calls_plain cs hnew, hpos]

/-- For any sequence of reads of any sizes and seeks by any offsets after an open, every call
returns what it returns on a plain file with the lines of the table, errors at the last
position included, whatever is outside the table. -/
theorem seqfile_plain (outside : List UInt8) (cs : List Call) :
    calls outside SeqFile.File.opened cs = plainCalls table 0 cs :=
  calls_plain cs like_opened

/-- The sum of a seek past the last position wraps around and is refused; the position
stays. -/
example : calls [] SeqFile.File.opened [.seekSet 0x7fffffffffffffff, .seekCur 1, .seekCur 0] =
    [.offset 0x7fffffffffffffff, .einval, .offset 0x7fffffffffffffff] :=
  (calls_plain _ like_opened).trans (by decide)

end SeqFileTest

end LinuxDriverKb
