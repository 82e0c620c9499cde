import Mathlib.Algebra.Ring.Parity
import Mathlib.Data.Fin.Rev
import Mathlib.Logic.Function.Iterate
import LinuxDriverKb.Lib.BitRotation
import LinuxDriverKb.Ssd1306

/-!
# The framebuffer of `ssd1306fb.c`

`ssd1306fb_init` sets the panel to horizontal addressing with the window on the whole
display memory, and `ssd1306fb_display` streams the frame buffer into it. So byte `i` of
the frame buffer is eight pixels of column `i % 128`, below each other, while the layout
the driver advertises makes it eight pixels of row `i / 16`, beside each other.

`display_matches_iff` : the two agree on a frame buffer exactly if each page of it (128
bytes, 1024 bits) is left unchanged when the 10-bit numbers of its bits are rotated by
one place, up to a mask for the mirrorings and the bit order.
-/

set_option autoImplicit false

namespace LinuxDriverKb

open BitRotation

namespace Ssd1306

/-! ## The driver -/

/-- `OLED_WIDTH`. -/
def oledWidth : ℕ := 128

/-- `OLED_HEIGHT`. -/
def oledHeight : ℕ := 64

/-- The fields of `ssd1306fb_par` the panel is set up from. -/
structure Par where
  width : UInt8
  height : UInt8

/-- `info->fix`, the fields about the layout of the pixels. -/
structure Info where
  lineLength : ℕ
  smemLen : ℕ

/-- What `ssd1306fb_probe` makes of `ssd1306fb_fix` and `ssd1306fb_var`. -/
def ssd1306fbInfo : Info where
  lineLength := oledWidth / 8
  smemLen := oledWidth * oledHeight / 8

/-- `par` as `ssd1306fb_probe` fills it. -/
def ssd1306fbPar : Par where
  width := UInt8.ofNat oledWidth
  height := UInt8.ofNat oledHeight

section

variable {σ : Type} (send : MasterSend σ)

/-- `ssd1306fb_write_cmd`. -/
def ssd1306fbWriteCmd (cmd : UInt8) (s : σ) : ℤ × σ :=
  let r := send [0x80, cmd] s
  if r.1 ≠ 2 then r else (0, r.2)

/-- `ssd1306fb_write_data`. -/
def ssd1306fbWriteData (data : List UInt8) (s : σ) : ℤ × σ :=
  let r := send (0x40 :: data) s
  if r.1 ≠ 1 + data.length then r else (0, r.2)

/-- `ssd1306fb_display` drops the return value. -/
def ssd1306fbDisplay (vmem : ℕ → UInt8) (s : σ) : σ :=
  (ssd1306fbWriteData send ((List.range ssd1306fbInfo.smemLen).map vmem) s).2

/-- Commands one after the other, up to the first that fails. -/
def writeCmds : List UInt8 → σ → ℤ × σ
  | [], s => (0, s)
  | cmd :: cmds, s =>
    let r := ssd1306fbWriteCmd send cmd s
    if r.1 < 0 then r else writeCmds cmds r.2

/-- The commands of `ssd1306fb_init` before it shows the frame buffer. -/
def initCmds (par : Par) : List UInt8 :=
  [0x81, 127, 0xa1, 0xc8, 0xa8, par.height - 1, 0xd3, 0, 0xd5, 0x80, 0xd9, 0x1f, 0xda, 0x12,
    0xdb, 0x40, 0x8d, 0x14, 0x20, 0x00, 0x21, 0x00, par.width - 1, 0x22, 0x00, par.height / 8 - 1]

/-- `ssd1306fb_init`. -/
def ssd1306fbInit (par : Par) (vmem : ℕ → UInt8) (s : σ) : ℤ × σ :=
  let r := writeCmds send (initCmds par) s
  if r.1 < 0 then r
  else writeCmds send [0xaf] (ssd1306fbDisplay send vmem r.2)

end

/-- The panel on which `ssd1306fb_init` has shown `vmem₀` and `ssd1306fb_display` then
`vmem`. -/
def displayed (gddram : ℕ → ℕ → UInt8) (vmem₀ vmem : ℕ → UInt8) : Panel :=
  ssd1306fbDisplay sendOk vmem (ssd1306fbInit sendOk ssd1306fbPar vmem₀ (.reset gddram)).2

/-- The pixel `(x, y)` in the layout the driver advertises : bit `x % 8`, from the most
significant one if `msb`, of byte `x / 8` of line `y`. -/
def fbPixel (vmem : ℕ → UInt8) (msb : Bool) (x y : ℕ) : Bool :=
  (vmem (ssd1306fbInfo.lineLength * y + x / 8)).toNat.testBit
    (if msb then 7 - x % 8 else x % 8)

/-! ## What the panel shows -/

/-- Init leaves horizontal addressing, the full window, and the pointer at its start. -/
theorem writeCmds_initCmds (gddram : ℕ → ℕ → UInt8) :
    writeCmds sendOk (initCmds ssd1306fbPar) (.reset gddram) =
      (0, { Panel.reset gddram with contrast := 127, mode := .horizontal }) :=
  rfl

theorem writeCmds_af {p : Panel} (h : p.pending = []) : writeCmds sendOk [0xaf] p = (0, p) := by
  obtain ⟨⟩ := p
  cases h
  rfl

theorem ssd1306fbWriteData_snd {σ : Type} (send : MasterSend σ) (data : List UInt8) (s : σ) :
    (ssd1306fbWriteData send data s).2 = (send (0x40 :: data) s).2 := by
  unfold ssd1306fbWriteData
  dsimp only
  split_ifs <;> rfl

theorem sendOk_data (data : List UInt8) (p : Panel) :
    (sendOk (0x40 :: data) p).2 = data.foldl Panel.data p :=
  rfl

/-- A display transfer streams the whole frame buffer. -/
theorem ssd1306fbDisplay_eq (vmem : ℕ → UInt8) (p : Panel) :
    ssd1306fbDisplay sendOk vmem p = ((List.range 1024).map vmem).foldl Panel.data p := by
  have hlen : ssd1306fbInfo.smemLen = 1024 := rfl
  rw [ssd1306fbDisplay, hlen, ssd1306fbWriteData_snd, sendOk_data]

/-- A display transfer that completes puts byte `i` of the frame buffer where the pointer
is after `i` bytes, and leaves the pointer where it was. -/
theorem Panel.FullWindow.display {p : Panel} (h : p.FullWindow) (vmem : ℕ → UInt8) :
    (ssd1306fbDisplay sendOk vmem p).FullWindow ∧ (ssd1306fbDisplay sendOk vmem p).ptr = p.ptr ∧
      ∀ i < 1024, (ssd1306fbDisplay sendOk vmem p).ram ((p.ptr + i) % 1024) = vmem i := by
  have hlen : ((List.range 1024).map vmem).length = 1024 := by
    rw [List.length_map, List.length_range]
  rw [ssd1306fbDisplay_eq]
  refine ⟨h.foldl _, ?_, fun i hi => ?_⟩
  · rw [h.ptr_foldl, hlen, Nat.add_mod_right, Nat.mod_eq_of_lt h.ptr_lt]
  · have hi' : i < ((List.range 1024).map vmem).length := by rwa [hlen]
    rw [h.ram_foldl _ (Nat.le_of_eq hlen) hi', List.getElem_map, List.getElem_range]

/-- Byte `i` of the frame buffer is in page `i / 128` and column `i % 128`. -/
theorem ram_displayed (gddram : ℕ → ℕ → UInt8) (vmem₀ vmem : ℕ → UInt8) {i : ℕ} (hi : i < 1024) :
    (displayed gddram vmem₀ vmem).ram i = vmem i := by
  have hwin :
      ({ Panel.reset gddram with contrast := 127, mode := .horizontal } : Panel).FullWindow :=
    ⟨rfl, rfl, rfl, rfl, rfl, Nat.zero_lt_succ 7, Nat.zero_lt_succ 127⟩
  have hinit : (ssd1306fbInit sendOk ssd1306fbPar vmem₀ (.reset gddram)).2 =
      ssd1306fbDisplay sendOk vmem₀
        { Panel.reset gddram with contrast := 127, mode := .horizontal } := by
    unfold ssd1306fbInit
    rw [writeCmds_initCmds]
    dsimp only
    rw [if_neg (by decide), writeCmds_af]
    rw [ssd1306fbDisplay_eq, pending_foldl]
    rfl
  obtain ⟨hwin₀, hptr₀, -⟩ := hwin.display vmem₀
  have hram := (hwin₀.display vmem).2.2 i hi
  rw [hptr₀] at hram
  unfold displayed
  rw [hinit]
  convert hram using 2
  show i = (0 + i) % 1024
  omega

/-! ## When the two layouts agree -/

/-- The mirrorings of the panel and the bit order of the frame buffer. -/
structure Layout where
  mx : Bool
  my : Bool
  msb : Bool

/-- Bit `n` of page `g` of the frame buffer. -/
def pageBit (vmem : ℕ → UInt8) (z : Fin 8 × BitVec 10) : Bool :=
  (vmem (128 * z.1 + z.2.toNat / 8)).toNat.testBit (z.2.toNat % 8)

/-- The bit of its page that the pixel `(x, 8 * g + b)` has in the advertised layout. -/
def Layout.fbBit (v : Layout) (x b : ℕ) : BitVec 10 :=
  BitVec.ofNat 10 (8 * (16 * b + x / 8) + if v.msb then 7 - x % 8 else x % 8)

/-- The bit of its page that the pixel `(x, 8 * g + b)` has on the panel. -/
def Layout.panelBit (v : Layout) (x b : ℕ) : BitVec 10 :=
  BitVec.ofNat 10 (8 * (if v.mx then 127 - x else x) + if v.my then 7 - b else b)

/-- The bits that the mirrorings and the bit order flip. -/
def Layout.mask (v : Layout) : BitVec 10 :=
  (if v.mx then 1022 else 0) ^^^ (if v.my then 1 else 0) ^^^ (if v.msb then 8 else 0)

/-- Bit numbers turned by one place; the pages too are mirrored with the panel. -/
def Layout.turn (v : Layout) (z : Fin 8 × BitVec 10) : Fin 8 × BitVec 10 :=
  (if v.my then z.1.rev else z.1, BitRotation.turn v.mask z.2)

/-- Turning the bit numbers leaves the frame buffer as it is. -/
def Layout.TurnInvariant (v : Layout) (vmem : ℕ → UInt8) : Prop :=
  ∀ z, pageBit vmem (v.turn z) = pageBit vmem z

theorem fbPixel_eq_pageBit (vmem : ℕ → UInt8) (v : Layout) (g : Fin 8) {x b : ℕ} (hx : x < 128)
    (hb : b < 8) : fbPixel vmem v.msb x (8 * g + b) = pageBit vmem (g, v.fbBit x b) := by
  have hlt : 8 * (16 * b + x / 8) + (if v.msb then 7 - x % 8 else x % 8) < 1024 := by
    split_ifs <;> omega
  have hline : ssd1306fbInfo.lineLength = 16 := rfl
  simp only [fbPixel, pageBit, Layout.fbBit, BitVec.toNat_ofNat, hline]
  rw [Nat.mod_eq_of_lt hlt]
  congr 3 <;> split_ifs <;> omega

theorem pixel_eq_pageBit {p : Panel} {vmem : ℕ → UInt8} (hram : ∀ i < 1024, p.ram i = vmem i)
    (v : Layout) (g : Fin 8) {x b : ℕ} (hx : x < 128) (hb : b < 8) :
    p.pixel v.mx v.my x (8 * g + b) =
      pageBit vmem (if v.my then g.rev else g, v.panelBit x b) := by
  have hpage : ((if v.my then g.rev else g : Fin 8) : ℕ) = if v.my then 7 - (g : ℕ) else g := by
    have := Fin.val_rev g
    split_ifs <;> omega
  have hrow : (if v.my then 63 - (8 * (g : ℕ) + b) else 8 * g + b) =
      8 * (if v.my then 7 - (g : ℕ) else g) + if v.my then 7 - b else b := by
    split_ifs <;> omega
  have hcol : (if v.mx then 127 - x else x) < 128 := by split_ifs <;> omega
  have hbit : (if v.my then 7 - b else b) < 8 := by split_ifs <;> omega
  have hg : (if v.my then 7 - (g : ℕ) else g) < 8 := by split_ifs <;> omega
  simp only [Panel.pixel, pageBit, Layout.panelBit, BitVec.toNat_ofNat, hpage, hrow]
  generalize (if v.mx then 127 - x else x) = c at hcol
  generalize (if v.my then 7 - b else b) = k at hbit
  generalize (if v.my then 7 - (g : ℕ) else g) = q at hg
  rw [show (8 * c + k) % 2 ^ 10 = 8 * c + k by omega, ← hram _ (by omega), Panel.ram,
    show (8 * q + k) / 8 = q by omega, show (8 * q + k) % 8 = k by omega,
    show (128 * q + (8 * c + k) / 8) / 128 = q by omega,
    show (128 * q + (8 * c + k) / 8) % 128 = c by omega, show (8 * c + k) % 8 = k by omega]

/-- The bit order flips the lowest three bits of the number. -/
theorem fbBit_eq (v : Layout) {x b : ℕ} (hx : x < 128) (hb : b < 8) :
    v.fbBit x b = Layout.fbBit ⟨false, false, false⟩ x b ^^^ if v.msb then 7 else 0 := by
  have hmsb : ∀ x < 128, ∀ b < 8, Layout.fbBit ⟨false, false, true⟩ x b =
      Layout.fbBit ⟨false, false, false⟩ x b ^^^ 7 := by
    decide +kernel
  obtain ⟨mx, my, msb⟩ := v
  cases msb with
  | false => exact BitVec.xor_zero.symm
  | true => exact hmsb x hx b hb

/-- The mirrorings flip the bits of the column and of the row. -/
theorem panelBit_eq (v : Layout) {x b : ℕ} (hx : x < 128) (hb : b < 8) :
    v.panelBit x b = Layout.panelBit ⟨false, false, false⟩ x b ^^^
      ((if v.mx then 1016 else 0) ^^^ if v.my then 7 else 0) := by
  have hmx : ∀ x < 128, ∀ b < 8, Layout.panelBit ⟨true, false, false⟩ x b =
      Layout.panelBit ⟨false, false, false⟩ x b ^^^ 1016 := by
    decide +kernel
  have hmy : ∀ x < 128, ∀ b < 8, Layout.panelBit ⟨false, true, false⟩ x b =
      Layout.panelBit ⟨false, false, false⟩ x b ^^^ 7 := by
    decide +kernel
  obtain ⟨mx, my, msb⟩ := v
  cases mx <;> cases my
  · simp [Layout.panelBit]
  · exact (hmy x hx b hb).trans (by simp)
  · exact (hmx x hx b hb).trans (by simp)
  · calc Layout.panelBit ⟨true, true, msb⟩ x b
        = Layout.panelBit ⟨false, true, false⟩ (127 - x) b := rfl
      _ = Layout.panelBit ⟨true, false, false⟩ x b ^^^ 7 := hmy (127 - x) (by omega) b hb
      _ = Layout.panelBit ⟨false, false, false⟩ x b ^^^ (1016 ^^^ 7) := by
        rw [hmx x hx b hb, BitVec.xor_assoc]

/-- Three turns take the bit of a pixel in the frame buffer to its bit on the panel. -/
theorem turn_fbBit (v : Layout) {x b : ℕ} (hx : x < 128) (hb : b < 8) :
    (BitRotation.turn v.mask)^[3] (v.fbBit x b) = v.panelBit x b := by
  have hplain : ∀ x < 128, ∀ b < 8, (Layout.fbBit ⟨false, false, false⟩ x b).rotateLeft 3 =
      Layout.panelBit ⟨false, false, false⟩ x b := by
    decide +kernel
  -- what the turns flip is what the mirrorings and the turned bit order flip
  have hmask : ∀ mx my msb : Bool, (if msb then (7 : BitVec 10) else 0).rotateLeft 3 ^^^
      (BitRotation.turn (Layout.mask ⟨mx, my, msb⟩))^[3] 0 =
        (if mx then 1016 else 0) ^^^ if my then 7 else 0 := by
    decide
  rw [turn_iterate, fbBit_eq v hx hb, panelBit_eq v hx hb, rotateLeft_xor, hplain x hx b hb,
    BitVec.xor_assoc]
  exact congrArg (Layout.panelBit ⟨false, false, false⟩ x b ^^^ ·) (hmask v.mx v.my v.msb)

/-- Every bit of a page is the bit of a pixel. -/
theorem exists_fbBit (v : Layout) (n : BitVec 10) : ∃ x < 128, ∃ b < 8, v.fbBit x b = n := by
  have hn := n.isLt
  refine ⟨8 * (n.toNat / 8 % 16) + (if v.msb then 7 - n.toNat % 8 else n.toNat % 8),
    by split_ifs <;> omega, n.toNat / 128, by omega, BitVec.eq_of_toNat_eq ?_⟩
  simp only [Layout.fbBit, BitVec.toNat_ofNat]
  split_ifs <;> omega

theorem Layout.turn_iterate (v : Layout) (k : ℕ) (z : Fin 8 × BitVec 10) :
    v.turn^[k] z = ((fun g => if v.my then g.rev else g)^[k] z.1,
      (BitRotation.turn v.mask)^[k] z.2) := by
  induction k generalizing z with
  | zero => rfl
  | succ k ih => rw [Function.iterate_succ_apply, ih]; rfl

/-- An odd number of turns mirrors the pages as one does. -/
theorem Layout.turn_iterate_odd (v : Layout) (k : ℕ) (z : Fin 8 × BitVec 10) :
    v.turn^[2 * k + 1] z =
      (if v.my then z.1.rev else z.1, (BitRotation.turn v.mask)^[2 * k + 1] z.2) := by
  rw [v.turn_iterate]
  congr 1
  have hinv : Function.Involutive fun g : Fin 8 => if v.my then g.rev else g := by
    intro g
    cases v.my <;> simp
  rw [hinv.iterate_two_mul_add_one]

/-- What one step leaves as it is, any number of steps does. -/
theorem eq_iterate {α β : Type} {f : α → α} {F : α → β} (h : ∀ z, F (f z) = F z) (k : ℕ) (z : α) :
    F (f^[k] z) = F z := by
  have hsemi : Function.Semiconj F f id := h
  rw [hsemi.iterate_right k z, Function.iterate_id, id]

/-- The display shows what the advertised layout says exactly if turning the bit numbers
leaves the frame buffer as it is. -/
theorem display_matches_iff (gddram : ℕ → ℕ → UInt8) (vmem₀ vmem : ℕ → UInt8) (v : Layout) :
    (∀ x < 128, ∀ y < 64, (displayed gddram vmem₀ vmem).pixel v.mx v.my x y =
      fbPixel vmem v.msb x y) ↔ v.TurnInvariant vmem := by
  have hram := fun i hi => ram_displayed gddram vmem₀ vmem (i := i) hi
  -- three turns are the way from the frame buffer to the panel
  have hthree : ∀ (g : Fin 8) (x b : ℕ), x < 128 → b < 8 →
      ((displayed gddram vmem₀ vmem).pixel v.mx v.my x (8 * g + b) =
          fbPixel vmem v.msb x (8 * g + b) ↔
        pageBit vmem (v.turn^[3] (g, v.fbBit x b)) = pageBit vmem (g, v.fbBit x b)) := by
    intro g x b hx hb
    rw [pixel_eq_pageBit hram v g hx hb, fbPixel_eq_pageBit vmem v g hx hb,
      v.turn_iterate_odd 1, turn_fbBit v hx hb]
  constructor
  · intro h z
    have hinv : ∀ z, pageBit vmem (v.turn^[3] z) = pageBit vmem z := by
      rintro ⟨g, n⟩
      obtain ⟨x, hx, b, hb, rfl⟩ := exists_fbBit v n
      exact (hthree g x b hx hb).mp (h x hx _ (by omega))
    -- turns have order 20, so that one turn is seven times three turns
    have hseven : v.turn z = (v.turn^[3])^[7] z := by
      rw [← Function.iterate_mul, v.turn_iterate_odd 10, Function.iterate_succ_apply,
        turn_iterate_two_mul (w := 10)]
      rfl
    rw [hseven]
    exact eq_iterate hinv 7 z
  · intro h x hx y hy
    have hy' : y = 8 * (⟨y / 8, by omega⟩ : Fin 8) + y % 8 := by
      show y = 8 * (y / 8) + y % 8
      omega
    rw [hy']
    exact (hthree _ x (y % 8) hx (by omega)).mpr (eq_iterate h 3 _)

/-- One byte `0xff` at the start of the frame buffer : the pixel `(1, 0)` is set in the
advertised layout, in either bit order, and dark on the panel under every mirroring. -/
theorem display_mismatch : ¬ ∃ v : Layout, ∀ x < 128, ∀ y < 64,
    (displayed (fun _ _ => 0) (fun _ => 0) fun i => if i = 0 then 0xff else 0).pixel v.mx v.my x y =
      fbPixel (fun i => if i = 0 then 0xff else 0) v.msb x y := by
  have hdark : ∀ mx my msb : Bool, pageBit (fun i => if i = 0 then 0xff else 0)
      (if my then (0 : Fin 8).rev else 0, Layout.panelBit ⟨mx, my, msb⟩ 1 0) = false := by
    decide
  have hset : ∀ msb : Bool, fbPixel (fun i => if i = 0 then 0xff else 0) msb 1 0 = true := by
    decide
  rintro ⟨v, hv⟩
  have hram := fun i hi => ram_displayed (fun _ _ => 0) (fun _ => 0)
    (fun i => if i = 0 then 0xff else 0) (i := i) hi
  have hpix := pixel_eq_pageBit hram v 0 (x := 1) (b := 0) (by decide) (by decide)
  have heq := hpix.symm.trans (hv 1 (by decide) 0 (by decide))
  rw [hdark v.mx v.my v.msb, hset v.msb] at heq
  exact Bool.false_ne_true heq

end Ssd1306

end LinuxDriverKb
