import Mathlib.Algebra.BigOperators.Group.List.Basic
import LinuxDriverKb.Lib.ByteMem
import LinuxDriverKb.Lib.CInt
import LinuxDriverKb.Lib.WhileLoop

/-!
# The RAM disk of `virt-disk.c`

The driver keeps the disk in `virt_buffer`, `SECTOR_NUM` sectors of `SECTOR_SIZE` bytes,
and has two ways of serving it. `virt_disk_request` is one loop over a request queue :
each pass copies the current segment at the request's current sector, ends the segment,
and fetches the next request once `__blk_end_request_cur` says the old one is done.
`virt_disk_make_request` gets one bio and walks its segments with a pointer of its own.

`copyRequests` is what both are for : segment `k` of a request is copied at
`SECTOR_SIZE` times the request's sector plus the lengths of the segments before it.
Every access to `virt_buffer` is checked (`transfer`), so a result other than `none`
says that no access left the buffer.
-/

set_option autoImplicit false

namespace LinuxDriverKb

open CInt

namespace VirtDisk

/-! ## Requests and memory -/

/-- `SECTOR_SIZE`. -/
def sectorSize : ℕ := 512

/-- `SECTOR_NUM`. -/
def sectorNum : ℕ := 2048

/-- One `bio_vec` : the address of its bytes and their number. -/
structure Segment where
  addr : ℕ
  len : ℕ

/-- The direction of a request. -/
inductive Dir
  | read
  | write

/-- A request, or a bio : direction, current sector, and the segments not yet done. -/
structure Request where
  dir : Dir
  pos : ℕ
  segs : List Segment

/-- `virt_buffer`, and the memory the segments point into. -/
structure Mem where
  virtBuffer : ℕ → UInt8
  pages : ℕ → UInt8

/-- The segments have positive lengths of whole sectors and lie on the disk. -/
structure Request.Valid (r : Request) : Prop where
  pos_len : ∀ v ∈ r.segs, 0 < v.len
  dvd_len : ∀ v ∈ r.segs, sectorSize ∣ v.len
  on_disk : sectorSize * r.pos + (r.segs.map Segment.len).sum ≤ sectorSize * sectorNum

/-- The two `memcpy`s between `virt_buffer + start` and `buf`; `none` if the access
leaves `virt_buffer`. -/
def transfer (m : Mem) (dir : Dir) (start : ℤ) (buf len : ℕ) : Option Mem :=
  if 0 ≤ start ∧ start + len ≤ sectorSize * sectorNum then
    match dir with
    | .read => some { m with pages := ByteMem.memcpy m.pages buf m.virtBuffer start.toNat len }
    | .write =>
      some { m with virtBuffer := ByteMem.memcpy m.virtBuffer start.toNat m.pages buf len }
  else none

/-! ## What the disk is for -/

/-- Byte offset of segment `k` on the disk. -/
def Request.offset (r : Request) (k : ℕ) : ℕ :=
  sectorSize * r.pos + ((r.segs.take k).map Segment.len).sum

/-- Copy one segment at the disk offset `off`. -/
def copySegment (dir : Dir) (off : ℕ) (v : Segment) (m : Mem) : Mem :=
  match dir with
  | .read => { m with pages := ByteMem.memcpy m.pages v.addr m.virtBuffer off v.len }
  | .write => { m with virtBuffer := ByteMem.memcpy m.virtBuffer off m.pages v.addr v.len }

/-- The segments of a request, each copied at its offset, in order. -/
def copyRequest (m : Mem) (r : Request) : Mem :=
  (List.range r.segs.length).foldl
    (fun m k => (r.segs[k]?).elim m fun v => copySegment r.dir (r.offset k) v m) m

/-- The requests in order. -/
def copyRequests (rs : List Request) (m : Mem) : Mem :=
  rs.foldl copyRequest m

/-! ## `virt_disk_request` -/

/-- The loop's variables : `req`, the requests still queued, and memory. -/
structure LoopState where
  req : Option Request
  queue : List Request
  mem : Mem

/-- `blk_fetch_request`. -/
def blkFetchRequest (queue : List Request) (m : Mem) : LoopState :=
  ⟨queue.head?, queue.tail, m⟩

/-- `blk_rq_cur_bytes` : the length of the current segment, `0` without one. -/
def Request.curBytes (r : Request) : ℕ :=
  (r.segs.head?).elim 0 Segment.len

/-- `bio_data` : the address of the current segment, the null pointer without one. -/
def Request.bioData (r : Request) : ℕ :=
  (r.segs.head?).elim 0 Segment.addr

/-- `__blk_end_request_cur` : end the current segment and advance the sector by its
length. -/
def Request.endCur (r : Request) : Request :=
  { r with pos := r.pos + r.curBytes / sectorSize, segs := r.segs.tail }

/-- One pass of the `while (req)` loop of `virt_disk_request`. The loop leaves with the
memory, or with `none` on an access outside `virt_buffer`. -/
def virtDiskRequestBody (s : LoopState) : LoopState ⊕ Option Mem :=
  match s.req with
  | none => .inr (some s.mem)
  | some req =>
    let start := toInt32 (toInt32 req.pos * sectorSize)
    (transfer s.mem req.dir start req.bioData req.curBytes).elim (.inr none) fun m =>
      -- `__blk_end_request_cur` returns false after the last segment
      if req.endCur.segs.isEmpty then .inl (blkFetchRequest s.queue m)
      else .inl { s with req := some req.endCur, mem := m }

/-- `virt_disk_request` on the queue leaves with `r`. -/
def VirtDiskRequest (queue : List Request) (m : Mem) (r : Option Mem) : Prop :=
  WhileLoop.Returns virtDiskRequestBody (blkFetchRequest queue m) r

/-! ## `virt_disk_make_request` -/

/-- The `bio_for_each_segment` loop : copy at `start`, advance `start` by `bv_len`. -/
def makeRequestLoop (dir : Dir) : ℕ → List Segment → Mem → Option Mem
  | _, [], m => some m
  | start, v :: vs, m =>
    (transfer m dir start v.addr v.len).bind (makeRequestLoop dir (start + v.len) vs)

/-- `virt_disk_make_request`. The offset is computed in a 64-bit `sector_t`. -/
def virtDiskMakeRequest (m : Mem) (bio : Request) : Option Mem :=
  makeRequestLoop bio.dir (bio.pos * sectorSize % 2 ^ 64) bio.segs m

/-- The bios, submitted one after another. -/
def virtDiskMakeRequests (bios : List Request) (m : Mem) : Option Mem :=
  bios.foldlM virtDiskMakeRequest m

/-! ## Both paths copy each segment at its offset -/

theorem transfer_eq (m : Mem) (dir : Dir) (off : ℕ) (v : Segment)
    (h : off + v.len ≤ sectorSize * sectorNum) :
    transfer m dir off v.addr v.len = some (copySegment dir off v m) := by
  unfold transfer copySegment
  rw [if_pos ⟨by omega, by exact_mod_cast h⟩]
  cases dir <;> simp

/-- On the disk the 32-bit offset of a sector does not overflow. -/
theorem toInt32_offset {pos : ℕ} (h : sectorSize * pos ≤ sectorSize * sectorNum) :
    toInt32 (toInt32 pos * sectorSize) = (sectorSize * pos : ℕ) := by
  simp only [sectorSize, sectorNum] at h ⊢
  have hpos : toInt32 pos = pos := toInt32_eq (by omega) (by omega)
  rw [hpos, toInt32_eq (by omega) (by omega)]
  omega

theorem Request.Valid.pos_le {r : Request} (hr : r.Valid) :
    sectorSize * r.pos ≤ sectorSize * sectorNum :=
  Nat.le_trans (Nat.le_add_right _ _) hr.on_disk

/-- The current segment ends on the disk. -/
theorem Request.Valid.cur_le {r : Request} (hr : r.Valid) {v : Segment} {vs : List Segment}
    (hs : r.segs = v :: vs) : sectorSize * r.pos + v.len ≤ sectorSize * sectorNum := by
  have hdisk := hr.on_disk
  rw [hs, List.map_cons, List.sum_cons] at hdisk
  omega

theorem Request.Valid.endCur {r : Request} (hr : r.Valid) {v : Segment} {vs : List Segment}
    (hs : r.segs = v :: vs) : r.endCur.Valid := by
  obtain ⟨hpos, hdvd, hdisk⟩ := hr
  rw [hs] at hpos hdvd hdisk
  have hlen : sectorSize * (v.len / sectorSize) = v.len :=
    Nat.mul_div_cancel' (hdvd v List.mem_cons_self)
  refine ⟨fun w hw => hpos w ?_, fun w hw => hdvd w ?_, ?_⟩
  · simpa [Request.endCur, hs] using List.mem_cons_of_mem v hw
  · simpa [Request.endCur, hs] using List.mem_cons_of_mem v hw
  · simp only [List.map_cons, List.sum_cons] at hdisk
    simp only [Request.endCur, Request.curBytes, hs, List.head?_cons, Option.elim_some,
      List.tail_cons, Nat.mul_add, hlen]
    omega

/-- The first segment is copied at the request's sector, the others as the segments of
the request that is left. -/
theorem copyRequest_cons {r : Request} {v : Segment} {vs : List Segment} (hs : r.segs = v :: vs)
    (hv : sectorSize ∣ v.len) (m : Mem) :
    copyRequest m r = copyRequest (copySegment r.dir (sectorSize * r.pos) v m) r.endCur := by
  have hlen : sectorSize * (v.len / sectorSize) = v.len := Nat.mul_div_cancel' hv
  have hoff : ∀ k, r.offset (k + 1) = r.endCur.offset k := by
    intro k
    simp only [Request.offset, Request.endCur, Request.curBytes, hs, List.take_succ_cons,
      List.map_cons, List.sum_cons, List.head?_cons, Option.elim_some, List.tail_cons,
      Nat.mul_add, hlen]
    omega
  have hsegs : r.endCur.segs = vs := by simp [Request.endCur, hs]
  have h0 : r.offset 0 = sectorSize * r.pos := by simp [Request.offset]
  unfold copyRequest
  rw [hsegs, hs, List.length_cons, List.range_succ_eq_map, List.foldl_cons, List.foldl_map]
  simp only [List.getElem?_cons_zero, Option.elim_some, List.getElem?_cons_succ, h0, hoff]
  rfl

theorem copyRequest_nil {r : Request} (hs : r.segs = []) (m : Mem) : copyRequest m r = m := by
  simp [copyRequest, hs]

/-- A pass with a current segment copies it at the request's sector. -/
theorem virtDiskRequestBody_cons {r : Request} (hr : r.Valid) {v : Segment} {vs : List Segment}
    (hs : r.segs = v :: vs) (queue : List Request) (m : Mem) :
    virtDiskRequestBody ⟨some r, queue, m⟩ =
      if vs.isEmpty then .inl (blkFetchRequest queue (copySegment r.dir (sectorSize * r.pos) v m))
      else .inl ⟨some r.endCur, queue, copySegment r.dir (sectorSize * r.pos) v m⟩ := by
  have hsegs : r.endCur.segs = vs := by simp [Request.endCur, hs]
  have haddr : r.bioData = v.addr := by simp [Request.bioData, hs]
  have hlen : r.curBytes = v.len := by simp [Request.curBytes, hs]
  have ht := transfer_eq m r.dir (sectorSize * r.pos) v (hr.cur_le hs)
  simp only [virtDiskRequestBody, toInt32_offset hr.pos_le, haddr, hlen, ht, hsegs,
    Option.elim_some]

/-- A request without a segment copies nothing and is done at once. -/
theorem virtDiskRequestBody_nil {r : Request} (hr : r.Valid) (hs : r.segs = [])
    (queue : List Request) (m : Mem) :
    virtDiskRequestBody ⟨some r, queue, m⟩ = .inl (blkFetchRequest queue m) := by
  have haddr : r.bioData = 0 := by simp [Request.bioData, hs]
  have hlen : r.curBytes = 0 := by simp [Request.curBytes, hs]
  have hsegs : r.endCur.segs = [] := by simp [Request.endCur, hs]
  have ht := transfer_eq m r.dir (sectorSize * r.pos) ⟨0, 0⟩ hr.pos_le
  have hcopy : copySegment r.dir (sectorSize * r.pos) ⟨0, 0⟩ m = m := by
    unfold copySegment
    cases r.dir <;> simp
  rw [hcopy] at ht
  simp only [virtDiskRequestBody, toInt32_offset hr.pos_le, haddr, hlen, ht, hsegs,
    Option.elim_some, List.isEmpty_nil, if_true]

/-- From a request the loop comes to the next one with the request's segments copied. -/
theorem returns_of_request (queue : List Request) {res : Option Mem} :
    ∀ (segs : List Segment) {r : Request} (m : Mem), r.segs = segs → r.Valid →
      WhileLoop.Returns virtDiskRequestBody (blkFetchRequest queue (copyRequest m r)) res →
      WhileLoop.Returns virtDiskRequestBody ⟨some r, queue, m⟩ res
  | [], r, m, hs, hr, hres => by
    rw [copyRequest_nil hs] at hres
    exact .next (virtDiskRequestBody_nil hr hs queue m) hres
  | v :: vs, r, m, hs, hr, hres => by
    have hsegs : r.endCur.segs = vs := by simp [Request.endCur, hs]
    rw [copyRequest_cons hs (hr.dvd_len v (by simp [hs]))] at hres
    have hbody := virtDiskRequestBody_cons hr hs queue m
    cases vs with
    | nil =>
      rw [copyRequest_nil hsegs] at hres
      exact .next hbody hres
    | cons w vs =>
      exact .next hbody (returns_of_request queue (w :: vs) _ hsegs (hr.endCur hs) hres)

/-- The request loop, by induction on the queue. -/
theorem virtDiskRequest_copies : ∀ (queue : List Request) (m : Mem), (∀ r ∈ queue, r.Valid) →
    VirtDiskRequest queue m (some (copyRequests queue m))
  | [], m, _ => .exit rfl
  | r :: queue, m, h =>
    returns_of_request queue r.segs m rfl (h r (by simp))
      (virtDiskRequest_copies queue (copyRequest m r) fun q hq => h q (by simp [hq]))

/-- The pointer of `virt_disk_make_request` is at the offset of the current segment. -/
theorem makeRequestLoop_copies : ∀ (segs : List Segment) {r : Request} (m : Mem), r.segs = segs →
    r.Valid → makeRequestLoop r.dir (sectorSize * r.pos) segs m = some (copyRequest m r)
  | [], r, m, hs, _ => by rw [copyRequest_nil hs]; rfl
  | v :: vs, r, m, hs, hr => by
    have hdvd := hr.dvd_len v (by simp [hs])
    have hsegs : r.endCur.segs = vs := by simp [Request.endCur, hs]
    have hpos : sectorSize * r.endCur.pos = sectorSize * r.pos + v.len := by
      simp [Request.endCur, Request.curBytes, hs, Nat.mul_add, Nat.mul_div_cancel' hdvd]
    have ih := makeRequestLoop_copies vs (r := r.endCur)
      (copySegment r.dir (sectorSize * r.pos) v m) hsegs (hr.endCur hs)
    rw [hpos] at ih
    rw [makeRequestLoop, transfer_eq m r.dir _ v (hr.cur_le hs), copyRequest_cons hs hdvd]
    exact ih

theorem virtDiskMakeRequest_copies {r : Request} (hr : r.Valid) (m : Mem) :
    virtDiskMakeRequest m r = some (copyRequest m r) := by
  have hle := hr.pos_le
  have hpos : r.pos * sectorSize % 2 ^ 64 = sectorSize * r.pos := by
    simp only [sectorSize, sectorNum] at hle ⊢
    omega
  rw [virtDiskMakeRequest, hpos]
  exact makeRequestLoop_copies r.segs m rfl hr

theorem virtDiskMakeRequests_copies : ∀ (bios : List Request) (m : Mem), (∀ r ∈ bios, r.Valid) →
    virtDiskMakeRequests bios m = some (copyRequests bios m)
  | [], _, _ => rfl
  | r :: bios, m, h => by
    rw [virtDiskMakeRequests, List.foldlM_cons, virtDiskMakeRequest_copies (h r (by simp))]
    exact virtDiskMakeRequests_copies bios (copyRequest m r) fun q hq => h q (by simp [hq])

/-- On valid requests the loop of `virt_disk_request` ends without leaving `virt_buffer`,
with every segment copied at its offset in order, and `virt_disk_make_request` on the
same segment lists leaves the same memory. -/
theorem ramDisk_semantics (queue : List Request) (m : Mem) (h : ∀ r ∈ queue, r.Valid) :
    VirtDiskRequest queue m (some (copyRequests queue m)) ∧
      virtDiskMakeRequests queue m = some (copyRequests queue m) :=
  ⟨virtDiskRequest_copies queue m h, virtDiskMakeRequests_copies queue m h⟩

/-- Three sectors at the end of the disk, written from two segments and read back to two of
other lengths : the bytes of the pages, a quarter of their addresses, have moved. -/
theorem ramDisk_semantics_readBack :
    let queue : List Request :=
      [⟨.write, 2045, [⟨0, 512⟩, ⟨1024, 1024⟩]⟩, ⟨.read, 2045, [⟨8192, 1024⟩, ⟨4096, 512⟩]⟩]
    let m : Mem := ⟨fun _ => 0, fun a => .ofNat (a / 4)⟩
    ∃ m' : Mem, VirtDiskRequest queue m (some m') ∧ virtDiskMakeRequests queue m = some m' ∧
      m'.pages 8792 = m.pages 1112 ∧ m'.pages 4100 = m.pages 1540 ∧
      m.pages 8792 = 150 ∧ m.pages 1112 = 22 ∧ m.pages 4100 = 1 ∧ m.pages 1540 = 129 := by
  intro queue m
  have h := ramDisk_semantics queue m (by
    intro r hr
    simp only [queue, List.mem_cons, List.not_mem_nil, or_false] at hr
    rcases hr with rfl | rfl <;> constructor <;> simp [sectorSize, sectorNum])
  exact ⟨_, h.1, h.2, by decide, by decide, by decide, by decide, by decide, by decide⟩

end VirtDisk

end LinuxDriverKb
