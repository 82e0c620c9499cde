import Mathlib.Data.Int.Notation
import Mathlib.Data.List.Basic
import Mathlib.Data.Nat.Notation

/-!
# The SSD1306 panel

The backlight and the framebuffer driver send the panel I2C messages : the control byte
`0x80` and a command byte, or `0x40` and data bytes. A command that has arguments waits
for them in later command bytes, across messages. Data bytes go to the display memory at a
pointer that moves through the window set by the commands.

The panel has the registers the two drivers set and something here reads; other commands
change nothing. Reads of the panel are up to its two mirrorings, so the remappings `0xa1`
and `0xc8` have no register.
-/

set_option autoImplicit false

namespace LinuxDriverKb

namespace Ssd1306

/-- The memory addressing mode, command `0x20`. -/
inductive Mode
  | horizontal
  | vertical
  | page

/-- The panel, as far as the pixels and the contrast need it. -/
structure Panel where
  /-- The command waiting for arguments and the arguments so far. -/
  pending : List UInt8
  contrast : UInt8
  mode : Mode
  colStart : ℕ
  colEnd : ℕ
  pageStart : ℕ
  pageEnd : ℕ
  col : ℕ
  page : ℕ
  /-- The display memory, by page and column. -/
  gddram : ℕ → ℕ → UInt8

/-- The panel after a reset; the display memory keeps what it had. -/
def Panel.reset (gddram : ℕ → ℕ → UInt8) : Panel where
  pending := []
  contrast := 0x7f
  mode := .page
  colStart := 0
  colEnd := 127
  pageStart := 0
  pageEnd := 7
  col := 0
  page := 0
  gddram := gddram

/-- Number of arguments a command byte takes. -/
def argCount (c : UInt8) : ℕ :=
  if c ∈ [0x20, 0x81, 0x8d, 0xa8, 0xd3, 0xd5, 0xd9, 0xda, 0xdb] then 1
  else if c ∈ [0x21, 0x22] then 2
  else 0

/-- The mode of an argument of `0x20`. -/
def modeOf (a : UInt8) : Mode :=
  if a &&& 3 = 0 then .horizontal else if a &&& 3 = 1 then .vertical else .page

/-- A command with all its arguments takes effect. -/
def Panel.exec (p : Panel) : List UInt8 → Panel
  | [c, a] =>
    if c = 0x81 then { p with contrast := a }
    else if c = 0x20 then { p with mode := modeOf a }
    else p
  | [c, a, b] =>
    if c = 0x21 then
      { p with colStart := a.toNat % 128, colEnd := b.toNat % 128, col := a.toNat % 128 }
    else if c = 0x22 then
      { p with pageStart := a.toNat % 8, pageEnd := b.toNat % 8, page := a.toNat % 8 }
    else p
  | _ => p

/-- A command byte : an argument of the pending command, otherwise a new command. -/
def Panel.command (p : Panel) (b : UInt8) : Panel :=
  match p.pending with
  | [] => if argCount b = 0 then p.exec [b] else { p with pending := [b] }
  | c :: args =>
    if args.length + 1 = argCount c then { p.exec (c :: args ++ [b]) with pending := [] }
    else { p with pending := c :: args ++ [b] }

/-- Page and column after those of the pointer, in the window. -/
def Panel.next (p : Panel) : ℕ × ℕ :=
  match p.mode with
  | .horizontal =>
    if p.col = p.colEnd then (if p.page = p.pageEnd then p.pageStart else p.page + 1, p.colStart)
    else (p.page, p.col + 1)
  | .vertical =>
    if p.page = p.pageEnd then (p.pageStart, if p.col = p.colEnd then p.colStart else p.col + 1)
    else (p.page + 1, p.col)
  | .page => (p.page, (p.col + 1) % 128)

/-- A data byte is stored at the pointer. -/
def Panel.data (p : Panel) (b : UInt8) : Panel :=
  { p with
    gddram := fun g c => if g = p.page ∧ c = p.col then b else p.gddram g c
    page := p.next.1
    col := p.next.2 }

/-- The panel takes the bytes of one I2C message. -/
def Panel.receive (p : Panel) : List UInt8 → Panel
  | 0x80 :: b :: bs => (p.command b).receive bs
  | 0x40 :: bs => bs.foldl Panel.data p
  | _ => p

/-- Pixel `(x, y)`, with the left-right mirroring `mx` and the top-bottom one `my` : row
`8 * g + b` of a column is bit `b` of its byte in page `g`. -/
def Panel.pixel (p : Panel) (mx my : Bool) (x y : ℕ) : Bool :=
  let c := if mx then 127 - x else x
  let r := if my then 63 - y else y
  (p.gddram (r / 8) c).toNat.testBit (r % 8)

/-! ## The bus -/

/-- `i2c_master_send` on a bus with the state `σ` : the number of bytes sent, or an error. -/
abbrev MasterSend (σ : Type) :=
  List UInt8 → σ → ℤ × σ

/-- The bus on which every message arrives. -/
def sendOk : MasterSend Panel := fun msg p =>
  (msg.length, p.receive msg)

/-! ## Data in the full window -/

/-- Data bytes do not answer a pending command. -/
theorem pending_foldl (p : Panel) (bs : List UInt8) :
    (bs.foldl Panel.data p).pending = p.pending := by
  induction bs generalizing p with
  | nil => rfl
  | cons b bs ih => exact ih (p.data b)

/-- Horizontal mode, the window is the whole panel and the pointer is in it. -/
structure Panel.FullWindow (p : Panel) : Prop where
  mode : p.mode = .horizontal
  colStart : p.colStart = 0
  colEnd : p.colEnd = 127
  pageStart : p.pageStart = 0
  pageEnd : p.pageEnd = 7
  page : p.page < 8
  col : p.col < 128

/-- The pointer as a byte number of the data stream. -/
def Panel.ptr (p : Panel) : ℕ :=
  128 * p.page + p.col

/-- Byte `i` of the display memory, in the order of the data stream. -/
def Panel.ram (p : Panel) (i : ℕ) : UInt8 :=
  p.gddram (i / 128) (i % 128)

theorem Panel.FullWindow.ptr_lt {p : Panel} (h : p.FullWindow) : p.ptr < 1024 := by
  have hp := h.page
  have hc := h.col
  unfold Panel.ptr
  omega

theorem Panel.FullWindow.next_eq {p : Panel} (h : p.FullWindow) :
    p.next = ((p.ptr + 1) % 1024 / 128, (p.ptr + 1) % 128) := by
  have hp := h.page
  have hc := h.col
  simp only [Panel.next, Panel.ptr, h.mode, h.colEnd, h.pageEnd, h.colStart, h.pageStart,
    Prod.ext_iff]
  split_ifs <;> simp only [and_comm] <;> omega

theorem Panel.FullWindow.data {p : Panel} (h : p.FullWindow) (b : UInt8) :
    (p.data b).FullWindow := by
  refine ⟨h.mode, h.colStart, h.colEnd, h.pageStart, h.pageEnd, ?_, ?_⟩ <;>
    simp only [Panel.data, h.next_eq] <;> omega

theorem Panel.FullWindow.ptr_data {p : Panel} (h : p.FullWindow) (b : UInt8) :
    (p.data b).ptr = (p.ptr + 1) % 1024 := by
  simp only [Panel.data, h.next_eq, Panel.ptr]
  omega

theorem Panel.FullWindow.ram_data {p : Panel} (h : p.FullWindow) (b : UInt8) (i : ℕ) :
    (p.data b).ram i = if i = p.ptr then b else p.ram i := by
  have hc := h.col
  have hiff : (i / 128 = p.page ∧ i % 128 = p.col) ↔ i = p.ptr := by
    unfold Panel.ptr
    omega
  simp only [Panel.ram, Panel.data, hiff]

theorem Panel.FullWindow.foldl {p : Panel} (h : p.FullWindow) (bs : List UInt8) :
    (bs.foldl Panel.data p).FullWindow := by
  induction bs generalizing p with
  | nil => exact h
  | cons b bs ih => exact ih (h.data b)

/-- The pointer wraps after the last byte of the window. -/
theorem Panel.FullWindow.ptr_foldl {p : Panel} (h : p.FullWindow) (bs : List UInt8) :
    (bs.foldl Panel.data p).ptr = (p.ptr + bs.length) % 1024 := by
  induction bs generalizing p with
  | nil => exact (Nat.mod_eq_of_lt h.ptr_lt).symm
  | cons b bs ih =>
    rw [List.foldl_cons, ih (h.data b), h.ptr_data, List.length_cons]
    omega

/-- Bytes the stream does not come to keep their value. -/
theorem Panel.FullWindow.ram_foldl_of_ne {p : Panel} (h : p.FullWindow) (bs : List UInt8) {i : ℕ}
    (hne : ∀ k < bs.length, (p.ptr + k) % 1024 ≠ i) :
    (bs.foldl Panel.data p).ram i = p.ram i := by
  induction bs generalizing p with
  | nil => rfl
  | cons b bs ih =>
    have hfirst : i ≠ p.ptr := by
      have h0 := hne 0 (by simp)
      have hlt := h.ptr_lt
      omega
    rw [List.foldl_cons, ih (h.data b), h.ram_data b, if_neg hfirst]
    intro k hk
    have := hne (k + 1) (by simpa using hk)
    rw [h.ptr_data]
    omega

/-- At most 1024 data bytes are stored in order from the pointer on. -/
theorem Panel.FullWindow.ram_foldl {p : Panel} (h : p.FullWindow) (bs : List UInt8)
    (hlen : bs.length ≤ 1024) {k : ℕ} (hk : k < bs.length) :
    (bs.foldl Panel.data p).ram ((p.ptr + k) % 1024) = bs[k] := by
  induction bs generalizing p k with
  | nil => exact absurd hk (Nat.not_lt_zero k)
  | cons b bs ih =>
    rw [List.length_cons] at hlen hk
    have hptr := h.ptr_data b
    rw [List.foldl_cons]
    cases k with
    | zero =>
      -- the rest of the stream stops before it comes back to the first byte
      have hzero : (p.ptr + 0) % 1024 = p.ptr := Nat.mod_eq_of_lt h.ptr_lt
      rw [hzero, (h.data b).ram_foldl_of_ne bs (by omega), h.ram_data b, if_pos rfl]
      rfl
    | succ k =>
      have hind := ih (h.data b) (by omega) (k := k) (by omega)
      rw [hptr] at hind
      rw [← show ((p.ptr + 1) % 1024 + k) % 1024 = (p.ptr + (k + 1)) % 1024 by omega, hind]
      rfl

end Ssd1306

end LinuxDriverKb
