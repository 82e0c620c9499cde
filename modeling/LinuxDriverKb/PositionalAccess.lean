import LinuxDriverKb.CharDev
import LinuxDriverKb.Ssd1306FbRefresh

/-!
# Positions beyond 32 bits

`char_dev_read`, `char_dev_write` and `ssd1306fb_write` check a 64-bit position after they
have narrowed it to an `unsigned long`. With 32 bits of it a position from `2 ^ 32` on can
pass the check.

`positional_iff` : each of the three respects the end of its memory exactly if the position
is narrowed to itself, or is still refused, or nothing is asked for.
-/

set_option autoImplicit false

namespace LinuxDriverKb

open CInt ByteMem CharDev

namespace CharDev

/-- The number of bytes from the position to the end of the request or of the memory. -/
def Request.span (r : Request) : ℕ :=
  min (r.pos.toNat + r.len) memSize - r.pos.toNat

/-- The position fits in an `unsigned long`, or what is left of it is behind the memory, or
no byte is asked for. -/
def Request.InReach (w : Width) (r : Request) : Prop :=
  r.pos < 2 ^ w.bits ∨ memSize ≤ w.toULong r.pos ∨ r.len = 0

instance (w : Width) (r : Request) : Decidable (r.InReach w) :=
  inferInstanceAs (Decidable (_ ∨ _ ∨ _))

end CharDev

namespace PositionalAccess

open Ssd1306 (ssd1306fbWrite)

/-! ## What a transfer should do -/

/-- A read copies the bytes of the span to the user, and advances by their number. -/
def ReadRespects (w : Width) (mem : ℕ → UInt8) (r : Request) : Prop :=
  ∃ t, charDevRead w mem r.len none r.pos = some t ∧ t.ret = r.span ∧ t.pos = r.pos + t.ret ∧
    t.mem = mem ∧ t.out = (List.range r.span).map fun i => mem (r.pos.toNat + i)

/-- A write replaces the bytes of the span by the user's, and advances by their number. -/
def WriteRespects (w : Width) (mem buf : ℕ → UInt8) (r : Request) : Prop :=
  ∃ t, charDevWrite w mem buf r.len none r.pos = some t ∧ t.ret = r.span ∧
    t.pos = r.pos + t.ret ∧ t.mem = memcpy mem r.pos.toNat buf 0 r.span ∧ t.out = []

/-- So does a write of the frame buffer, which refuses an empty span. -/
def FbWriteRespects (w : Width) (s : Ssd1306.State) (buf : ℕ → UInt8) (o : Ssd1306.Transfer)
    (r : Request) : Prop :=
  ∃ ret pos s', ssd1306fbWrite w s buf r.len none o r.pos = some (ret, pos, s') ∧
    s'.vmem = memcpy s.vmem r.pos.toNat buf 0 r.span ∧
    if memSize ≤ r.pos ∨ r.len = 0 then ret = -Ssd1306.einval ∧ pos = r.pos
    else ret = r.span ∧ pos = r.pos + ret

/-! ## The narrowed position -/

variable {w : Width} {r : Request}

theorem toULong_of_lt (h : r.pos < 2 ^ w.bits) : w.toULong r.pos = r.pos.toNat := by
  rw [Width.toULong, Int.emod_eq_of_lt r.pos_nonneg h]

/-- A position that does not fit is behind the memory. -/
theorem memSize_le_of_not_lt (h : ¬r.pos < 2 ^ w.bits) : memSize ≤ r.pos.toNat := by
  have hbits : (2 : ℤ) ^ 32 ≤ 2 ^ w.bits := by cases w <;> decide
  have hmem : memSize = 1024 := rfl
  omega

theorem span_eq (r : Request) : r.span = avail r.pos.toNat r.len := by
  unfold Request.span avail
  omega

/-- What the narrowed position leaves is the span, if the request is in reach. -/
theorem avail_eq_span (h : r.InReach w) :
    avail (w.toULong r.pos) r.len = r.span ∧ (r.span = 0 ∨ w.toULong r.pos = r.pos.toNat) := by
  by_cases hlt : r.pos < 2 ^ w.bits
  · rw [toULong_of_lt hlt]
    exact ⟨(span_eq r).symm, .inr rfl⟩
  · have hbehind := memSize_le_of_not_lt hlt
    have hspan : r.span = 0 := by
      unfold Request.span
      omega
    refine ⟨?_, .inl hspan⟩
    rw [hspan, avail]
    rcases h.resolve_left hlt with hp | hlen <;> omega

/-- Out of reach a position behind the memory is narrowed to one in it. -/
theorem avail_ne_span (h : ¬r.InReach w) :
    avail (w.toULong r.pos) r.len ≠ 0 ∧ r.span = 0 ∧ memSize ≤ r.pos.toNat ∧ r.len ≠ 0 := by
  obtain ⟨hpos, h⟩ := not_or.mp h
  obtain ⟨hp, hlen⟩ := not_or.mp h
  have hbehind := memSize_le_of_not_lt hpos
  refine ⟨?_, ?_, hbehind, hlen⟩
  · unfold avail
    omega
  · unfold Request.span
    omega

/-- The position advances in 64 bits without wrapping. -/
theorem toInt64_advance (w : Width) (r : Request) :
    toInt64 (r.pos + avail (w.toULong r.pos) r.len) = r.pos + avail (w.toULong r.pos) r.len := by
  have hpos := r.pos_nonneg
  have hlt := r.pos_lt
  have hmod : (w.toULong r.pos : ℤ) = r.pos % 2 ^ w.bits :=
    Int.toNat_of_nonneg (Int.emod_nonneg _ (by cases w <;> decide))
  refine toInt64_eq (by omega) ?_
  by_cases hzero : avail (w.toULong r.pos) r.len = 0
  · omega
  have hroom : w.toULong r.pos + avail (w.toULong r.pos) r.len ≤ memSize := by
    unfold avail at hzero ⊢
    omega
  have hmem : memSize = 1024 := rfl
  have hbits : (2 ^ w.bits : ℤ) = 2 ^ 32 ∨ (2 ^ w.bits : ℤ) = 2 ^ 64 := by
    cases w
    · exact .inl rfl
    · exact .inr rfl
  rcases hbits with hbits | hbits <;> rw [hbits] at hmod <;> omega

/-! ## One transfer -/

/-- A write of the frame buffer is refused when nothing is left of it, and transfers what is
left otherwise. -/
theorem ssd1306fbWrite_none (w : Width) (s : Ssd1306.State) (buf : ℕ → UInt8)
    (o : Ssd1306.Transfer) (r : Request) :
    let n := avail (w.toULong r.pos) r.len
    ssd1306fbWrite w s buf r.len none o r.pos =
      if n = 0 then some (-Ssd1306.einval, r.pos, s)
      else some (n, r.pos + n,
        { s with vmem := memcpy s.vmem (w.toULong r.pos) buf 0 n }.display o) := by
  have hadvance := toInt64_advance w r
  rw [Ssd1306.ssd1306fbWrite_eq]
  simp only [Ssd1306.room, Option.elim_none, lt_irrefl, if_false, hadvance]
  split_ifs <;> rfl

/-! ## In reach and out of it -/

/-- A transfer of the length of the span is in reach. -/
theorem inReach_of_avail (h : (avail (w.toULong r.pos) r.len : ℤ) = r.span) : r.InReach w := by
  by_contra hno
  obtain ⟨hne, hspan, -⟩ := avail_ne_span hno
  rw [hspan] at h
  exact hne (Int.ofNat_inj.mp h)

theorem readRespects_iff (w : Width) (mem : ℕ → UInt8) (r : Request) :
    ReadRespects w mem r ↔ r.InReach w := by
  rw [ReadRespects, charDevRead_eq w mem r.len (toInt64_advance w r)]
  constructor
  · rintro ⟨t, ht, hret, -⟩
    obtain rfl := Option.some.inj ht
    exact inReach_of_avail hret
  · intro h
    obtain ⟨havail, hsame⟩ := avail_eq_span h
    refine ⟨_, rfl, congrArg Nat.cast havail, rfl, rfl, ?_⟩
    dsimp only
    rw [havail]
    rcases hsame with hzero | hsame
    · simp [hzero]
    · rw [hsame]

theorem writeRespects_iff (w : Width) (mem buf : ℕ → UInt8) (r : Request) :
    WriteRespects w mem buf r ↔ r.InReach w := by
  rw [WriteRespects, charDevWrite_eq w mem buf r.len (toInt64_advance w r)]
  constructor
  · rintro ⟨t, ht, hret, -⟩
    obtain rfl := Option.some.inj ht
    exact inReach_of_avail hret
  · intro h
    obtain ⟨havail, hsame⟩ := avail_eq_span h
    refine ⟨_, rfl, congrArg Nat.cast havail, rfl, ?_, rfl⟩
    dsimp only
    rw [havail]
    rcases hsame with hzero | hsame
    · rw [hzero, memcpy_zero, memcpy_zero]
    · rw [hsame]

/-- A span is empty behind the memory and for no bytes. -/
theorem span_eq_zero_iff (r : Request) : r.span = 0 ↔ memSize ≤ r.pos ∨ r.len = 0 := by
  have hpos := r.pos_nonneg
  unfold Request.span
  omega

theorem fbWriteRespects_iff (w : Width) (s : Ssd1306.State) (buf : ℕ → UInt8)
    (o : Ssd1306.Transfer) (r : Request) : FbWriteRespects w s buf o r ↔ r.InReach w := by
  rw [FbWriteRespects, ssd1306fbWrite_none]
  simp only [← span_eq_zero_iff]
  constructor
  · rintro ⟨ret, pos, s', hs, -, hret⟩
    by_contra hno
    obtain ⟨hne, hspan, -⟩ := avail_ne_span hno
    rw [if_neg hne] at hs
    rw [if_pos hspan] at hret
    obtain rfl := (Prod.mk.inj (Option.some.inj hs)).1
    have hneg : -Ssd1306.einval = -22 := rfl
    omega
  · intro h
    obtain ⟨havail, hsame⟩ := avail_eq_span h
    rw [havail]
    split_ifs with hzero
    · exact ⟨_, _, s, rfl, by rw [hzero, memcpy_zero], rfl, rfl⟩
    · rw [hsame.resolve_left hzero]
      exact ⟨_, _, _, rfl, rfl, rfl, rfl⟩

/-- With 64 bits of `unsigned long` every request is in reach. -/
theorem inReach_bits64 (r : Request) : r.InReach .bits64 :=
  .inl (Int.lt_trans r.pos_lt (by decide))

/-- For both widths, every position and every length : the read, the write and the write of
the frame buffer each transfer the bytes from the position to the end of the request or of
the memory, advance by their number, and access nothing else, if and only if the position
fits in an `unsigned long`, or is narrowed to one behind the memory, or no byte is asked
for. -/
theorem positional_iff (w : Width) (r : Request) (mem buf : ℕ → UInt8) (s : Ssd1306.State)
    (o : Ssd1306.Transfer) :
    (ReadRespects w mem r ↔ r.InReach w) ∧ (WriteRespects w mem buf r ↔ r.InReach w) ∧
      (FbWriteRespects w s buf o r ↔ r.InReach w) :=
  ⟨readRespects_iff w mem r, writeRespects_iff w mem buf r, fbWriteRespects_iff w s buf o r⟩

/-- With 32 bits one byte at `2 ^ 32` is read from and written to the index 0. -/
theorem position_narrowed :
    let r : Request := ⟨2 ^ 32, 1, by decide, by decide, by decide⟩
    let s := Ssd1306.start (fun _ _ => 0) (fun _ => 0) .done
    (charDevRead .bits32 (fun i => if i = 0 then 7 else 0) 1 none (2 ^ 32)).map
        (fun t => (t.ret, t.out)) = some (1, [7]) ∧
      (charDevWrite .bits32 (fun _ => 0) (fun _ => 7) 1 none (2 ^ 32)).map
        (fun t => (t.ret, t.mem 0)) = some (1, 7) ∧
      (ssd1306fbWrite .bits32 s (fun _ => 7) 1 none .done (2 ^ 32)).map
        (fun t => (t.1, t.2.2.vmem 0)) = some (1, 7) ∧
      ¬ReadRespects .bits32 (fun i => if i = 0 then 7 else 0) r ∧
      ¬WriteRespects .bits32 (fun _ => 0) (fun _ => 7) r ∧
      ¬FbWriteRespects .bits32 s (fun _ => 7) .done r := by
  intro r s
  have hno : ¬r.InReach .bits32 := by decide
  exact ⟨by decide, by decide, rfl, mt (readRespects_iff _ _ _).mp hno,
    mt (writeRespects_iff _ _ _ _).mp hno, mt (fbWriteRespects_iff _ _ _ _ _).mp hno⟩

end PositionalAccess

end LinuxDriverKb
