import Mathlib.Algebra.BigOperators.Group.List.Basic
import LinuxDriverKb.Lib.ByteMem
import LinuxDriverKb.Lib.CInt

/-!
# Programming an image into `virt_mtd`

The driver is a flash chip in memory, 32 KiB in blocks of 512 bytes, with two partitions.
`mtdchar_test` erases as many blocks as a file needs, writes the file in the chunks it
reads, and reads it back. The MTD core adds the offset of the partition, checks the bounds,
and may split a read or write in pieces.

`mtdcharTest_exact` : the run ends with 0, no access leaves the buffer, the file is in the
partition, the rest of its last block is erased, and all else is as it was.
-/

set_option autoImplicit false

namespace LinuxDriverKb

namespace VirtMtd

open ByteMem

/-! ## The driver -/

/-- `EINVAL`. -/
def einval : ℤ := 22

/-- `EIO`. -/
def eio : ℤ := 5

/-- `VIRT_MTD_SIZE`. -/
def virtMtdSize : ℕ := 32 * 1024

/-- `mtd->erasesize`. -/
def erasesize : ℕ := 512

/-- `priv->buffer`. -/
abbrev Buffer := ℕ → UInt8

/-- The state of an erasure. -/
inductive EraseState
  | pending
  | done
  | failed
  deriving DecidableEq

/-- `struct erase_info`. -/
structure EraseInfo where
  addr : ℕ
  len : ℕ
  state : EraseState

/-- `virt_mtd_erase`; `none` if it leaves the buffer. -/
def virtMtdErase (instr : EraseInfo) (buffer : Buffer) : Option (ℤ × EraseInfo × Buffer) :=
  if instr.addr % erasesize ≠ 0 then some (-einval, instr, buffer)
  else if instr.len % erasesize ≠ 0 then some (-einval, instr, buffer)
  else if instr.addr + instr.len > virtMtdSize then none
  else some (0, { instr with state := .done }, memset buffer instr.addr 0xff instr.len)

/-- `virt_mtd_read` into `buf` : the return value, `*retlen` and the content of `buf`. -/
def virtMtdRead (fromPos len : ℕ) (buf buffer : Buffer) : Option (ℤ × ℕ × Buffer) :=
  if fromPos + len > virtMtdSize then none
  else some (0, len, memcpy buf 0 buffer fromPos len)

/-- `virt_mtd_write` of `buf` : the return value, `*retlen` and the chip. -/
def virtMtdWrite (toPos len : ℕ) (buf buffer : Buffer) : Option (ℤ × ℕ × Buffer) :=
  if toPos + len > virtMtdSize then none else some (0, len, memcpy buffer toPos buf 0 len)

/-! ## The MTD core -/

/-- `MTDPART_OFS_APPEND` and `MTDPART_SIZ_FULL`, or a number. -/
inductive Extent
  | rest
  | bytes (n : ℕ)

/-- `struct mtd_partition`. -/
structure MtdPartition where
  size : Extent
  offset : Extent

/-- `virt_mtd_partitions`. -/
def virtMtdPartitions : List MtdPartition :=
  [⟨.bytes (16 * 1024), .bytes 0⟩, ⟨.rest, .rest⟩]

/-- A partition as the core has registered it. -/
structure Partition where
  offset : ℕ
  size : ℕ
  deriving DecidableEq

/-- The core places the partitions one after the other : an appended one starts where the
last one ends, and a full one goes to the end of the chip. -/
def addMtdPartitions (cur : ℕ) : List MtdPartition → List Partition
  | [] => []
  | p :: ps =>
    let offset := match p.offset with
      | .rest => cur
      | .bytes n => n
    let size := match p.size with
      | .rest => virtMtdSize - offset
      | .bytes n => n
    ⟨offset, size⟩ :: addMtdPartitions (offset + size) ps

/-- The partitions that the core makes of them. -/
def partitions : List Partition :=
  addMtdPartitions 0 virtMtdPartitions

section

variable (part : Partition)

/-- The ioctl `MEMERASE` : the core checks the bounds, adds the offset, and waits until the
driver has set the state. An erase that stays pending never returns. -/
def memErase (addr len : ℕ) (buffer : Buffer) : Option (ℤ × Buffer) :=
  if addr ≥ part.size ∨ len > part.size - addr then some (-einval, buffer)
  else if len = 0 then some (0, buffer)
  else (virtMtdErase ⟨addr + part.offset, len, .pending⟩ buffer).bind fun r =>
    if r.1 < 0 then some (r.1, r.2.2)
    else match r.2.1.state with
      | .pending => none
      | .done => some (0, r.2.2)
      | .failed => some (-eio, r.2.2)

/-- `mtd_read` on a partition. -/
def mtdRead (fromPos len : ℕ) (buf buffer : Buffer) : Option (ℤ × ℕ × Buffer) :=
  if fromPos > part.size ∨ len > part.size - fromPos then some (-einval, 0, buf)
  else virtMtdRead (fromPos + part.offset) len buf buffer

/-- `mtd_write` on a partition. -/
def mtdWrite (toPos len : ℕ) (buf buffer : Buffer) : Option (ℤ × ℕ × Buffer) :=
  if toPos > part.size ∨ len > part.size - toPos then some (-einval, 0, buffer)
  else virtMtdWrite (toPos + part.offset) len buf buffer

/-- `write` on the character device at `pos`, in pieces, through a buffer of the kernel;
`count` bytes are written already. -/
def mtdcharWrite (src kbuf : Buffer) : List ℕ → ℕ → ℕ → Buffer → Option (ℤ × Buffer)
  | [], _, count, buffer => some (count, buffer)
  | len :: pieces, pos, count, buffer =>
    (mtdWrite part pos len (memcpy kbuf 0 src count len) buffer).bind fun r =>
      if r.1 < 0 then some (r.1, r.2.2)
      else mtdcharWrite src (memcpy kbuf 0 src count len) pieces (pos + r.2.1) (count + r.2.1) r.2.2

/-- `read` on the character device at `pos` into `dest`, in pieces. -/
def mtdcharRead (buffer kbuf : Buffer) : List ℕ → ℕ → ℕ → Buffer → Option (ℤ × Buffer)
  | [], _, count, dest => some (count, dest)
  | len :: pieces, pos, count, dest =>
    (mtdRead part pos len kbuf buffer).bind fun r =>
      if r.1 < 0 then some (r.1, dest)
      else mtdcharRead buffer r.2.2 pieces (pos + r.2.1) (count + r.2.1)
        (memcpy dest count r.2.2 0 r.2.1)

end

/-! ## The test program -/

/-- `BUFSIZE`. -/
def bufsize : ℕ := 10 * 1024

/-- One chunk the program reads of the file, and the pieces the core makes of its transfer
to or from the device. -/
structure Chunk where
  pieces : List ℕ
  pos : 0 < pieces.sum
  le : pieces.sum ≤ bufsize

/-- The length of a chunk. -/
def Chunk.len (c : Chunk) : ℕ :=
  c.pieces.sum

/-- The chunks in which a file of `n` bytes is read. -/
structure Chunking (n : ℕ) where
  chunks : List Chunk
  sum_len : (chunks.map Chunk.len).sum = n

/-- `size -= ret` on a `size_t`. -/
def subSize (size ret : ℕ) : ℕ :=
  (size + 2 ^ 32 - ret) % 2 ^ 32

/-- `erase.length` for a file of `n` bytes. -/
def eraseLength (n : ℕ) : ℕ :=
  if n % erasesize = 0 then n else (n / erasesize + 1) * erasesize

section

variable (part : Partition) (file kbuf : Buffer)

/-- The loop that writes; `filPos` and `devPos` are the positions of the two files. `none`
if the file has no chunk left to read. -/
def writeLoop : List Chunk → ℕ → ℕ → ℕ → Buffer → Buffer → Option (ℤ × Buffer)
  | chunks, size, filPos, devPos, src, buffer =>
    if size = 0 then some (0, buffer)
    else match chunks with
      | [] => none
      | c :: cs =>
        let src := memcpy src 0 file filPos c.len
        (mtdcharWrite part src kbuf c.pieces devPos 0 buffer).bind fun r =>
          if r.1 ≠ c.len then some (-1, r.2)
          else writeLoop cs (subSize size c.len) (filPos + c.len) (devPos + c.len) src r.2

/-- The loop that reads back and compares. -/
def verifyLoop (buffer : Buffer) : List Chunk → ℕ → ℕ → ℕ → Buffer → Buffer → Option ℤ
  | chunks, size, filPos, devPos, src, dest =>
    if size = 0 then some 0
    else match chunks with
      | [] => none
      | c :: cs =>
        let src := memcpy src 0 file filPos c.len
        (mtdcharRead part buffer kbuf c.pieces devPos 0 dest).bind fun r =>
          if r.1 ≠ c.len then some (-1)
          else if ¬ ∀ i < c.len, src i = r.2 i then some (-1)
          else verifyLoop buffer cs (subSize size c.len) (filPos + c.len) (devPos + c.len) src r.2

/-- `main` of `mtdchar_test` on a file of `n` bytes; `src` and `dest` are what its arrays
hold at first. -/
def mtdcharTest (n : ℕ) (wr rd : List Chunk) (src dest buffer : Buffer) : Option (ℤ × Buffer) :=
  if n > part.size then some (-1, buffer)
  else (memErase part 0 (eraseLength n) buffer).bind fun e =>
    if e.1 < 0 then some (-1, e.2)
    else (writeLoop part file kbuf wr n 0 0 src e.2).bind fun w =>
      if w.1 < 0 then some w
      else (verifyLoop part file kbuf w.2 rd n 0 0 src dest).map fun ret => (ret, w.2)

end

/-! ## Partitions -/

/-- A partition lies in the chip and is made of whole blocks. -/
structure Partition.Fits (part : Partition) : Prop where
  pos : 0 < part.size
  le : part.offset + part.size ≤ virtMtdSize
  offset_mod : part.offset % erasesize = 0
  size_mod : part.size % erasesize = 0

theorem fits_of_mem {part : Partition} (h : part ∈ partitions) : part.Fits := by
  have hall : ∀ p ∈ partitions, 0 < p.size ∧ p.offset + p.size ≤ virtMtdSize ∧
      p.offset % erasesize = 0 ∧ p.size % erasesize = 0 := by decide
  obtain ⟨hpos, hle, hoff, hsize⟩ := hall part h
  exact ⟨hpos, hle, hoff, hsize⟩

/-- Different partitions do not overlap. -/
theorem partitions_disjoint {part other : Partition} (h : part ∈ partitions)
    (h' : other ∈ partitions) (hne : other ≠ part) :
    other.offset + other.size ≤ part.offset ∨ part.offset + part.size ≤ other.offset := by
  have hall : ∀ p ∈ partitions, ∀ q ∈ partitions, q ≠ p →
      q.offset + q.size ≤ p.offset ∨ p.offset + p.size ≤ q.offset := by decide
  exact hall part h other h' hne

/-- The erase length is the file's length rounded up to whole blocks. -/
theorem eraseLength_spec (n : ℕ) :
    n ≤ eraseLength n ∧ eraseLength n < n + erasesize ∧ eraseLength n % erasesize = 0 := by
  unfold eraseLength erasesize
  split_ifs <;> omega

theorem eraseLength_le {n : ℕ} {part : Partition} (h : part.Fits) (hn : n ≤ part.size) :
    eraseLength n ≤ part.size := by
  obtain ⟨-, hlt, hmod⟩ := eraseLength_spec n
  have hsize := h.size_mod
  unfold erasesize at hlt hmod hsize
  omega

/-- The counter of the loops does not wrap. -/
theorem subSize_eq {size ret : ℕ} (hret : ret ≤ size) (hsize : size < 2 ^ 32) :
    subSize size ret = size - ret := by
  unfold subSize
  omega

/-! ## Transfers -/

section

variable {part : Partition} (h : part.Fits)

include h

theorem memErase_eq {len : ℕ} (hlen : len ≤ part.size) (hmod : len % erasesize = 0)
    (buffer : Buffer) :
    memErase part 0 len buffer = some (0, memset buffer part.offset 0xff len) := by
  have hin : ¬ (0 ≥ part.size ∨ len > part.size - 0) := by
    have := h.pos
    omega
  have hle := h.le
  have hoff : (0 + part.offset) % erasesize = 0 := by rw [Nat.zero_add, h.offset_mod]
  unfold memErase
  rw [if_neg hin]
  split_ifs with hzero
  · rw [hzero, memset, memcpy_zero]
  · rw [virtMtdErase]
    simp only [hoff, hmod, ne_eq, not_true_eq_false, if_false]
    rw [if_neg (by omega), Nat.zero_add]
    rfl

theorem mtdWrite_eq {toPos len : ℕ} (hto : toPos + len ≤ part.size) (buf buffer : Buffer) :
    mtdWrite part toPos len buf buffer =
      some (0, len, memcpy buffer (part.offset + toPos) buf 0 len) := by
  have hle := h.le
  rw [mtdWrite, if_neg (by omega), virtMtdWrite, if_neg (by omega), Nat.add_comm]

theorem mtdRead_eq {fromPos len : ℕ} (hfrom : fromPos + len ≤ part.size) (buf buffer : Buffer) :
    mtdRead part fromPos len buf buffer =
      some (0, len, memcpy buf 0 buffer (part.offset + fromPos) len) := by
  have hle := h.le
  rw [mtdRead, if_neg (by omega), virtMtdRead, if_neg (by omega), Nat.add_comm]

/-- A write in any pieces is one copy. -/
theorem mtdcharWrite_eq (src : Buffer) {pieces : List ℕ} {kbuf buffer : Buffer} {pos count : ℕ}
    (hpos : pos + pieces.sum ≤ part.size) :
    mtdcharWrite part src kbuf pieces pos count buffer =
      some (((count + pieces.sum : ℕ) : ℤ),
        memcpy buffer (part.offset + pos) src count pieces.sum) := by
  induction pieces generalizing kbuf buffer pos count with
  | nil => simp [mtdcharWrite]
  | cons len pieces ih =>
    rw [List.sum_cons] at hpos ⊢
    rw [mtdcharWrite, mtdWrite_eq h (by omega), Option.bind_some, if_neg (by simp)]
    dsimp only
    rw [ih (by omega), memcpy_memcpy, ← Nat.add_assoc part.offset, memcpy_append, Nat.add_assoc]

/-- A read in any pieces is one copy. -/
theorem mtdcharRead_eq (buffer : Buffer) {pieces : List ℕ} {kbuf dest : Buffer} {pos count : ℕ}
    (hpos : pos + pieces.sum ≤ part.size) :
    mtdcharRead part buffer kbuf pieces pos count dest =
      some (((count + pieces.sum : ℕ) : ℤ),
        memcpy dest count buffer (part.offset + pos) pieces.sum) := by
  induction pieces generalizing kbuf dest pos count with
  | nil => simp [mtdcharRead]
  | cons len pieces ih =>
    rw [List.sum_cons] at hpos ⊢
    rw [mtdcharRead, mtdRead_eq h (by omega), Option.bind_some, if_neg (by simp)]
    dsimp only
    rw [ih (by omega), memcpy_memcpy, ← Nat.add_assoc part.offset, memcpy_append, Nat.add_assoc]

/-! ## The loops -/

/-- The write loop copies the rest of the file behind what is written. -/
theorem writeLoop_eq (file : Buffer) {kbuf : Buffer} {chunks : List Chunk} {size filPos devPos : ℕ}
    {src buffer : Buffer} (hsum : (chunks.map Chunk.len).sum = size)
    (hpos : devPos + size ≤ part.size) :
    writeLoop part file kbuf chunks size filPos devPos src buffer =
      some (0, memcpy buffer (part.offset + devPos) file filPos size) := by
  have hle := h.le
  have hchip : virtMtdSize < 2 ^ 32 := by decide
  induction chunks generalizing size filPos devPos src buffer with
  | nil =>
    obtain rfl : 0 = size := hsum
    rw [writeLoop, if_pos rfl, memcpy_zero]
  | cons c cs ih =>
    have hc : 0 < c.len := c.pos
    have hlen : c.pieces.sum = c.len := rfl
    rw [List.map_cons, List.sum_cons] at hsum
    rw [writeLoop, if_neg (by omega)]
    dsimp only
    rw [mtdcharWrite_eq h _ (by omega), Option.bind_some, hlen, Nat.zero_add, memcpy_memcpy,
      if_neg (by simp), subSize_eq (by omega) (by omega)]
    dsimp only
    have hrest : c.len + (size - c.len) = size := by omega
    rw [ih (by omega) (by omega), ← Nat.add_assoc part.offset, memcpy_append, hrest]

/-- The verify loop finds what the file has. -/
theorem verifyLoop_eq {file buffer kbuf : Buffer} {chunks : List Chunk} {size filPos devPos : ℕ}
    {src dest : Buffer} (hsum : (chunks.map Chunk.len).sum = size)
    (hpos : devPos + size ≤ part.size)
    (heq : ∀ i < size, buffer (part.offset + devPos + i) = file (filPos + i)) :
    verifyLoop part file kbuf buffer chunks size filPos devPos src dest = some 0 := by
  have hle := h.le
  have hchip : virtMtdSize < 2 ^ 32 := by decide
  induction chunks generalizing size filPos devPos src dest with
  | nil =>
    obtain rfl : 0 = size := hsum
    rw [verifyLoop, if_pos rfl]
  | cons c cs ih =>
    have hc : 0 < c.len := c.pos
    have hlen : c.pieces.sum = c.len := rfl
    rw [List.map_cons, List.sum_cons] at hsum
    have hsame : ∀ i < c.len, memcpy src 0 file filPos c.len i =
        memcpy dest 0 buffer (part.offset + devPos) c.len i := by
      intro i hi
      rw [memcpy_apply_of_mem (by omega), memcpy_apply_of_mem (by omega), Nat.sub_zero,
        heq i (by omega)]
    rw [verifyLoop, if_neg (by omega)]
    dsimp only
    rw [mtdcharRead_eq h _ (by omega), Option.bind_some, hlen, Nat.zero_add, if_neg (by simp),
      if_neg (not_not.mpr hsame), subSize_eq (by omega) (by omega)]
    refine ih (by omega) (by omega) fun i hi => ?_
    have hshift := heq (c.len + i) (by omega)
    rwa [← Nat.add_assoc, ← Nat.add_assoc, Nat.add_assoc part.offset] at hshift

end

/-! ## The whole program -/

/-- For either partition, any content of the chip, any file that fits and any chunks : the
program returns 0 and no access leaves the buffer; the partition has the file, the rest of
its last block is erased, and all other bytes are as they were, those of the other
partition too. -/
theorem mtdcharTest_exact (part : Partition) (hpart : part ∈ partitions) (n : ℕ)
    (hn : n ≤ part.size) (file kbuf : Buffer) (wr rd : Chunking n) (src dest buffer : Buffer) :
    ∃ buffer', mtdcharTest part file kbuf n wr.chunks rd.chunks src dest buffer =
        some (0, buffer') ∧
      (∀ i < n, buffer' (part.offset + i) = file i) ∧
      (∀ i, n ≤ i → i < eraseLength n → buffer' (part.offset + i) = 0xff) ∧
      (∀ j, ¬ (part.offset ≤ j ∧ j < part.offset + eraseLength n) → buffer' j = buffer j) ∧
      ∀ other ∈ partitions, other ≠ part → ∀ i < other.size,
        buffer' (other.offset + i) = buffer (other.offset + i) := by
  have h := fits_of_mem hpart
  obtain ⟨hle, -, hmod⟩ := eraseLength_spec n
  have hlen := eraseLength_le h hn
  have hwrite : writeLoop part file kbuf wr.chunks n 0 0 src
      (memset buffer part.offset 0xff (eraseLength n)) =
        some (0, memcpy (memset buffer part.offset 0xff (eraseLength n)) (part.offset + 0)
          file 0 n) :=
    writeLoop_eq h file wr.sum_len (by omega)
  have hframe : ∀ j, ¬ (part.offset ≤ j ∧ j < part.offset + eraseLength n) →
      memcpy (memset buffer part.offset 0xff (eraseLength n)) (part.offset + 0) file 0 n j =
        buffer j := by
    intro j hj
    rw [memcpy_apply_of_not_mem (by omega), memset, memcpy_apply_of_not_mem hj]
  refine ⟨memcpy (memset buffer part.offset 0xff (eraseLength n)) (part.offset + 0) file 0 n,
    ?_, fun i hi => ?_, fun i hi hi' => ?_, hframe, fun other hother hne i hi => ?_⟩
  · have hread : ∀ i < n, memcpy (memset buffer part.offset 0xff (eraseLength n))
        (part.offset + 0) file 0 n (part.offset + 0 + i) = file (0 + i) := by
      intro i hi
      rw [memcpy_apply_of_mem (by omega)]
      congr 1
      omega
    have hverify : verifyLoop part file kbuf
        (memcpy (memset buffer part.offset 0xff (eraseLength n)) (part.offset + 0) file 0 n)
        rd.chunks n 0 0 src dest = some 0 :=
      verifyLoop_eq h rd.sum_len (by omega) hread
    rw [mtdcharTest, if_neg (by omega), memErase_eq h hlen hmod, Option.bind_some]
    dsimp only
    rw [if_neg (by simp), hwrite, Option.bind_some, if_neg (by simp), hverify]
    rfl
  · rw [memcpy_apply_of_mem (by omega)]
    congr 1
    omega
  · rw [memcpy_apply_of_not_mem (by omega)]
    exact memset_apply_of_mem (by omega)
  · have hdisj := partitions_disjoint hpart hother hne
    exact hframe _ (by omega)

/-- A file of three bytes in the second partition, written in two chunks and read back in
one. -/
theorem mtdcharTest_three :
    ∃ buffer', mtdcharTest ⟨16384, 16384⟩ (fun i => UInt8.ofNat i) (fun _ => 0) 3
        [⟨[1, 1], by decide, by decide⟩, ⟨[1], by decide, by decide⟩]
        [⟨[3], by decide, by decide⟩] (fun _ => 0) (fun _ => 0) (fun _ => 7) =
        some (0, buffer') ∧
      (∀ i < 3, buffer' (16384 + i) = UInt8.ofNat i) ∧
      (∀ i, 3 ≤ i → i < eraseLength 3 → buffer' (16384 + i) = 0xff) ∧
      (∀ j, ¬ (16384 ≤ j ∧ j < 16384 + eraseLength 3) → buffer' j = 7) ∧
      ∀ other ∈ partitions, other ≠ ⟨16384, 16384⟩ → ∀ i < other.size,
        buffer' (other.offset + i) = 7 :=
  mtdcharTest_exact ⟨16384, 16384⟩ (by decide) 3 (by decide) _ _
    ⟨[⟨[1, 1], by decide, by decide⟩, ⟨[1], by decide, by decide⟩], by decide⟩
    ⟨[⟨[3], by decide, by decide⟩], by decide⟩ _ _ _

end VirtMtd

end LinuxDriverKb
