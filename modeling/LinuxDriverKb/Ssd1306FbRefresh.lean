import LinuxDriverKb.CharDev
import LinuxDriverKb.Lib.ByteMem
import LinuxDriverKb.Lib.CInt
import LinuxDriverKb.Lib.Transition
import LinuxDriverKb.Ssd1306Fb

/-!
# Refreshing the panel after failed transfers

Every update of the frame buffer ends with `ssd1306fb_display`, which streams all 1024
bytes to wherever the panel's pointer is, and drops the result. The pointer is set once, by
`ssd1306fb_init`. A transfer that is cut off leaves it in the middle, and no later one moves
it back : a full transfer leaves it where it found it. `ssd1306fb_write` narrows its 64-bit
position to an `unsigned long`, as the memory device does.

`refresh_iff` : every transfer that completes makes the display memory the frame buffer,
exactly if each finds the pointer at the origin, or a frame buffer that a rotation by the
pointer leaves as it is.
-/

set_option autoImplicit false

namespace LinuxDriverKb

namespace Ssd1306

open ByteMem (memcpy memset)
open CharDev (Width Request avail memSize avail_le avail_of_le)
open CInt (toInt64)

/-! ## The driver and the bus -/

/-- `EFAULT`. -/
def efault : ℤ := 14

/-- `EINVAL`. -/
def einval : ℤ := 22

/-- A display transfer completes, or fails after the panel has taken some of its data
bytes. -/
inductive Transfer
  | done
  | aborted (accepted : ℕ) (err : ℤ) (neg : err < 0)

/-- The bus on which data messages end as `o` says. -/
def sendDisplay (o : Transfer) : MasterSend Panel := fun msg p =>
  match msg, o with
  | 0x40 :: data, .aborted accepted err _ => (err, p.receive (0x40 :: data.take accepted))
  | msg, _ => sendOk msg p

/-- The panel and the frame buffer, `screen_base`. -/
structure State where
  panel : Panel
  vmem : ℕ → UInt8

/-- `ssd1306fb_display`, with a transfer that ends as `o` says. -/
def State.display (s : State) (o : Transfer) : State :=
  { s with panel := ssd1306fbDisplay (sendDisplay o) s.vmem s.panel }

/-- `ssd1306fb_write` : the return value, the new position, and the panel with the frame buffer.
`fault` is the number of bytes `copy_from_user` can get; it zeroes the rest. `none` if the copy
leaves the frame buffer. -/
def ssd1306fbWrite (w : Width) (s : State) (buf : ℕ → UInt8) (count : ℕ) (fault : Option ℕ)
    (o : Transfer) (pos : ℤ) : Option (ℤ × ℤ × State) :=
  let p := w.toULong pos
  let totalSize := ssd1306fbInfo.smemLen
  if p > totalSize then some (-einval, pos, s)
  else
    let n := if (count + p) % 2 ^ w.bits > totalSize then totalSize - p else count
    if n = 0 then some (-einval, pos, s)
    else if p + n ≤ totalSize then
      let copied := fault.elim n (min n)
      if copied < n then
        let vmem := memset (memcpy s.vmem p buf 0 copied) (p + copied) 0 (n - copied)
        some (-efault, pos, { s with vmem := vmem })
      else some (n, toInt64 (pos + n), { s with vmem := memcpy s.vmem p buf 0 n }.display o)
    else none

/-- `ssd1306fb_imageblit`; `draw` is what `sys_imageblit` does to the frame buffer. -/
def ssd1306fbImageblit (draw : (ℕ → UInt8) → ℕ → UInt8) (o : Transfer) (s : State) : State :=
  State.display { s with vmem := draw s.vmem } o

/-- `ssd1306fb_deferred_io`. -/
def ssd1306fbDeferredIo (o : Transfer) (s : State) : State :=
  s.display o

/-- The calls, and a store to the mapped frame buffer by a process. -/
inductive Action
  | write (buf : ℕ → UInt8) (r : Request) (fault : Option ℕ) (o : Transfer)
  | imageblit (draw : (ℕ → UInt8) → ℕ → UInt8) (o : Transfer)
  | deferredIo (o : Transfer)
  | store (i : ℕ) (b : UInt8)

/-- One call or store. -/
def step (w : Width) (s : State) : Action → Option State
  | .write buf r fault o => (ssd1306fbWrite w s buf r.len fault o r.pos).map fun t => t.2.2
  | .imageblit draw o => some (ssd1306fbImageblit draw o s)
  | .deferredIo o => some (ssd1306fbDeferredIo o s)
  | .store i b => some { s with vmem := Function.update s.vmem i b }

/-- After `ssd1306fb_init`, whose own display transfer ends as `o` says. -/
def start (gddram : ℕ → ℕ → UInt8) (vmem : ℕ → UInt8) (o : Transfer) : State :=
  ⟨(ssd1306fbInit (sendDisplay o) ssd1306fbPar vmem (.reset gddram)).2, vmem⟩

/-! ## What a run should do -/

/-- The bytes a write is to copy. -/
def room (w : Width) (r : Request) : ℕ :=
  avail (w.toULong r.pos) r.len

/-- The action makes a display transfer that ends as `o` says : a write does if it is not refused,
and has copied all. -/
def Transfers (w : Width) (o : Transfer) : Action → Prop
  | .write _ r fault o' => o' = o ∧ room w r ≠ 0 ∧ ∀ k ∈ fault, room w r ≤ k
  | .imageblit _ o' => o' = o
  | .deferredIo o' => o' = o
  | .store _ _ => False

/-- A transfer that completes makes the display memory the frame buffer. -/
def Resynced (w : Width) (_ : State) (a : Action) (s' : State) : Prop :=
  Transfers w .done a → ∀ i < 1024, s'.panel.ram i = s'.vmem i

/-- A transfer that completes finds the pointer at the origin, or sends a frame buffer that
a rotation by the pointer leaves as it is. -/
def AtOrigin (w : Width) (s : State) (a : Action) (s' : State) : Prop :=
  Transfers w .done a →
    s.panel.ptr = 0 ∨ ∀ i < 1024, s'.vmem ((s.panel.ptr + i) % 1024) = s'.vmem i

/-! ## One transfer -/

/-- A transfer that ends as `o` says streams the bytes the panel takes. -/
def Transfer.taken : Transfer → ℕ
  | .done => 1024
  | .aborted accepted _ _ => min accepted 1024

theorem ssd1306fbDisplay_sendDisplay (o : Transfer) (vmem : ℕ → UInt8) (p : Panel) :
    ssd1306fbDisplay (sendDisplay o) vmem p =
      (((List.range 1024).map vmem).take o.taken).foldl Panel.data p := by
  have hlen : ssd1306fbInfo.smemLen = 1024 := rfl
  cases o with
  | done =>
    have htake : ((List.range 1024).map vmem).take 1024 = (List.range 1024).map vmem :=
      List.take_of_length_le (by simp)
    rw [Transfer.taken, htake]
    exact ssd1306fbDisplay_eq vmem p
  | aborted accepted err neg =>
    have htake : ((List.range 1024).map vmem).take (min accepted 1024) =
        ((List.range 1024).map vmem).take accepted := by
      rw [← List.take_take, List.take_of_length_le (l := (List.range 1024).map vmem) (by simp)]
    rw [ssd1306fbDisplay, hlen, ssd1306fbWriteData_snd, Transfer.taken, htake]
    rfl

/-- The pointer moves by the bytes the panel takes. -/
theorem Panel.FullWindow.display_ptr {p : Panel} (h : p.FullWindow) (o : Transfer)
    (vmem : ℕ → UInt8) :
    (ssd1306fbDisplay (sendDisplay o) vmem p).FullWindow ∧
      (ssd1306fbDisplay (sendDisplay o) vmem p).ptr = (p.ptr + o.taken) % 1024 := by
  have htaken : o.taken ≤ 1024 := by
    cases o
    · exact Nat.le_refl _
    · exact Nat.min_le_right _ _
  rw [ssd1306fbDisplay_sendDisplay]
  refine ⟨h.foldl _, ?_⟩
  rw [h.ptr_foldl, List.length_take, List.length_map, List.length_range, Nat.min_eq_left htaken]

/-- A complete transfer shows the frame buffer exactly if rotating it by the pointer leaves
it as it is. -/
theorem Panel.FullWindow.display_iff {p : Panel} (h : p.FullWindow) (vmem : ℕ → UInt8) :
    (∀ i < 1024, (ssd1306fbDisplay (sendDisplay .done) vmem p).ram i = vmem i) ↔
      p.ptr = 0 ∨ ∀ i < 1024, vmem ((p.ptr + i) % 1024) = vmem i := by
  have hptr := h.ptr_lt
  have hram := (h.display vmem).2.2
  have hdone : ssd1306fbDisplay (sendDisplay .done) vmem p = ssd1306fbDisplay sendOk vmem p := by
    rw [ssd1306fbDisplay_sendDisplay, ssd1306fbDisplay_eq]
    exact congrArg _ (List.take_of_length_le (by simp [Transfer.taken]))
  rw [hdone]
  constructor
  · intro hall
    refine Or.inr fun i hi => ?_
    rw [← hram i hi]
    exact (hall _ (Nat.mod_lt _ (by decide))).symm
  · rintro (hzero | hrot) i hi
    · have hi' := hram i hi
      rwa [hzero, Nat.zero_add, Nat.mod_eq_of_lt hi] at hi'
    · -- byte `i` is the one sent `1024 - ptr` bytes after byte `i - ptr`
      have hj : (i + (1024 - p.ptr)) % 1024 < 1024 := Nat.mod_lt _ (by decide)
      have hback : (p.ptr + (i + (1024 - p.ptr)) % 1024) % 1024 = i := by omega
      have hsent := hram _ hj
      rw [hback] at hsent
      rw [hsent, ← hrot _ hj, hback]

/-! ## One write -/

/-- No sum of a length and a position that passes the check wraps. -/
theorem add_mod_eq (w : Width) (r : Request) {p : ℕ} (h : p ≤ memSize) :
    (r.len + p) % 2 ^ w.bits = r.len + p := by
  have hlen := r.len_le
  have hmem : memSize = 1024 := rfl
  cases w <;> simp only [Width.bits] <;> omega

/-- A write is refused when nothing is left of the frame buffer, and else copies what is left of
it, or of the user's buffer. -/
theorem ssd1306fbWrite_eq (w : Width) (s : State) (buf : ℕ → UInt8) (fault : Option ℕ)
    (o : Transfer) (r : Request) :
    let n := room w r
    let p := w.toULong r.pos
    let copied := fault.elim n (min n)
    ssd1306fbWrite w s buf r.len fault o r.pos = some (
      if n = 0 then (-einval, r.pos, s)
      else if copied < n then (-efault, r.pos,
        { s with vmem := memset (memcpy s.vmem p buf 0 copied) (p + copied) 0 (n - copied) })
      else (n, toInt64 (r.pos + n), { s with vmem := memcpy s.vmem p buf 0 n }.display o)) := by
  have hsize : ssd1306fbInfo.smemLen = memSize := rfl
  unfold ssd1306fbWrite room
  simp only [hsize]
  by_cases hp : w.toULong r.pos > memSize
  · rw [if_pos hp, if_pos (avail_of_le hp.le r.len)]
  have hn : (if (r.len + w.toULong r.pos) % 2 ^ w.bits > memSize then memSize - w.toULong r.pos
      else r.len) = avail (w.toULong r.pos) r.len := by
    rw [add_mod_eq w r (Nat.le_of_not_lt hp), avail]
    split_ifs <;> omega
  rw [if_neg hp, hn, if_pos (avail_le (Nat.le_of_not_lt hp) r.len)]
  split_ifs <;> rfl

/-- All is copied exactly if no fault comes before. -/
theorem copied_lt_iff (fault : Option ℕ) (n : ℕ) :
    ¬fault.elim n (min n) < n ↔ ∀ k ∈ fault, n ≤ k := by
  cases fault with
  | none => simp
  | some k =>
    simp only [Option.elim_some, Option.mem_def, Option.some.injEq, forall_eq']
    omega

/-! ## One step -/

/-- What a step does : a transfer of the frame buffer as it then is, or none. -/
theorem step_cases {w : Width} {s s' : State} {a : Action} (h : step w s a = some s') :
    (∃ o, Transfers w o a ∧ (∀ o', Transfers w o' a → o' = o) ∧
      s'.panel = ssd1306fbDisplay (sendDisplay o) s'.vmem s.panel) ∨
    ((∀ o, ¬ Transfers w o a) ∧ s'.panel = s.panel) := by
  cases a with
  | write buf r fault o =>
    rw [step, ssd1306fbWrite_eq, Option.map_some] at h
    obtain rfl := Option.some.inj h
    by_cases hzero : room w r = 0
    · rw [if_pos hzero]
      exact Or.inr ⟨fun o' ho => ho.2.1 hzero, rfl⟩
    rw [if_neg hzero]
    split_ifs with hfault
    · exact Or.inr ⟨fun o' ho => (copied_lt_iff fault _).mpr ho.2.2 hfault, rfl⟩
    · have hall := (copied_lt_iff fault _).mp hfault
      exact Or.inl ⟨o, ⟨rfl, hzero, hall⟩, fun o' ho => ho.1.symm, rfl⟩
  | imageblit draw o =>
    obtain rfl := Option.some.inj h
    exact Or.inl ⟨o, rfl, fun o' ho => ho.symm, rfl⟩
  | deferredIo o =>
    obtain rfl := Option.some.inj h
    exact Or.inl ⟨o, rfl, fun o' ho => ho.symm, rfl⟩
  | store i b =>
    obtain rfl := Option.some.inj h
    exact Or.inr ⟨fun o ho => ho, rfl⟩

theorem fullWindow_step {w : Width} {s s' : State} {a : Action} (h : s.panel.FullWindow)
    (hstep : step w s a = some s') : s'.panel.FullWindow := by
  rcases step_cases hstep with ⟨o, -, -, hpanel⟩ | ⟨-, hpanel⟩
  · exact hpanel ▸ (h.display_ptr o s'.vmem).1
  · exact hpanel ▸ h

theorem resynced_iff {w : Width} {s s' : State} {a : Action} (h : s.panel.FullWindow)
    (hstep : step w s a = some s') : Resynced w s a s' ↔ AtOrigin w s a s' := by
  refine forall_congr' fun ha => ?_
  rcases step_cases hstep with ⟨o, -, huniq, hpanel⟩ | ⟨hnone, -⟩
  · obtain rfl := huniq _ ha
    rw [hpanel]
    exact h.display_iff s'.vmem
  · exact absurd ha (hnone _)

/-! ## Runs -/

/-- `ssd1306fb_init` succeeds whatever becomes of its display transfer, which starts at the
origin. -/
theorem ssd1306fbInit_eq (gddram : ℕ → ℕ → UInt8) (vmem : ℕ → UInt8) (o : Transfer) :
    ∃ p : Panel, p.FullWindow ∧ p.ptr = 0 ∧
      ssd1306fbInit (sendDisplay o) ssd1306fbPar vmem (.reset gddram) =
        (0, ssd1306fbDisplay (sendDisplay o) vmem p) := by
  have hcmds : writeCmds (sendDisplay o) (initCmds ssd1306fbPar) (.reset gddram) =
      (0, { Panel.reset gddram with contrast := 127, mode := .horizontal }) := by
    cases o <;> rfl
  have haf : ∀ p : Panel, p.pending = [] → writeCmds (sendDisplay o) [0xaf] p = (0, p) := by
    intro p hp
    rw [← writeCmds_af hp]
    cases o <;> rfl
  refine ⟨{ Panel.reset gddram with contrast := 127, mode := .horizontal },
    ⟨rfl, rfl, rfl, rfl, rfl, Nat.zero_lt_succ 7, Nat.zero_lt_succ 127⟩, rfl, ?_⟩
  unfold ssd1306fbInit
  rw [hcmds]
  dsimp only
  rw [if_neg (by decide), haf]
  rw [ssd1306fbDisplay_sendDisplay, pending_foldl]
  rfl

/-- The panel after init has the full window. -/
theorem start_eq (gddram : ℕ → ℕ → UInt8) (vmem : ℕ → UInt8) (o : Transfer) :
    ∃ p : Panel, p.FullWindow ∧ p.ptr = 0 ∧
      start gddram vmem o = ⟨ssd1306fbDisplay (sendDisplay o) vmem p, vmem⟩ := by
  obtain ⟨p, hp, hptr, hinit⟩ := ssd1306fbInit_eq gddram vmem o
  exact ⟨p, hp, hptr, by rw [start, hinit]⟩

/-- After an init whatever became of its transfer, with either width of `unsigned long`, over any
run of updates with any transfers aborted and any faults : each transfer that completes makes
the display memory the frame buffer, exactly if each finds the pointer at the origin, or a frame
buffer that a rotation by the pointer leaves as it is. -/
theorem refresh_iff (w : Width) (gddram : ℕ → ℕ → UInt8) (vmem : ℕ → UInt8) (o : Transfer)
    (as : List Action) :
    (ssd1306fbInit (sendDisplay o) ssd1306fbPar vmem (.reset gddram)).1 = 0 ∧
      (o = .done → ∀ i < 1024, (start gddram vmem o).panel.ram i = vmem i) ∧
      (Transition.Always (step w) (Resynced w) (start gddram vmem o) as ↔
        Transition.Always (step w) (AtOrigin w) (start gddram vmem o) as) := by
  obtain ⟨p, hp, hptr, hstart⟩ := start_eq gddram vmem o
  refine ⟨?_, ?_, ?_⟩
  · obtain ⟨q, -, -, hinit⟩ := ssd1306fbInit_eq gddram vmem o
    rw [hinit]
  · rintro rfl
    rw [hstart]
    dsimp only
    exact (hp.display_iff vmem).mpr (Or.inl hptr)
  · refine Transition.always_congr (I := fun s => s.panel.FullWindow) (fun _ _ _ => resynced_iff)
      (fun _ _ _ h hstep _ => fullWindow_step h hstep) ?_
    rw [hstart]
    dsimp only
    exact (hp.display_ptr o vmem).1

/-- The first byte of the frame buffer is set, and a transfer fails after one byte. The next
one completes and puts that byte in the second place of the display memory. -/
theorem refresh_shifted :
    ¬ Transition.Always (step .bits64) (Resynced .bits64) (start (fun _ _ => 0) (fun _ => 0) .done)
      [.store 0 0xff, .deferredIo (.aborted 1 (-5) (by decide)), .deferredIo .done] := by
  obtain ⟨p, hp, hptr, hstart⟩ := start_eq (fun _ _ => 0) (fun _ => 0) .done
  obtain ⟨hwin₀, hptr₀⟩ := hp.display_ptr .done fun _ => 0
  rw [hstart]
  generalize ssd1306fbDisplay (sendDisplay .done) (fun _ => 0) p = q at hwin₀ hptr₀
  intro h
  let cut : Transfer := .aborted 1 (-5) (by decide)
  let vmem : ℕ → UInt8 := Function.update (fun _ => 0) 0 0xff
  obtain ⟨hwin₁, hptr₁⟩ := hwin₀.display_ptr cut vmem
  have hcut : step .bits64 ⟨q, vmem⟩ (.deferredIo cut) =
      some ⟨ssd1306fbDisplay (sendDisplay cut) vmem q, vmem⟩ := rfl
  generalize ssd1306fbDisplay (sendDisplay cut) vmem q = r at hwin₁ hptr₁ hcut
  have hresynced := (((h _ rfl).2 _ hcut).2 _ rfl).1
  have hone : r.ptr = 1 := by
    rw [hptr₁, hptr₀, hptr]
    rfl
  rcases (resynced_iff (s := ⟨r, vmem⟩) hwin₁ rfl).mp hresynced rfl with hzero | hrot
  · exact absurd (hone.symm.trans hzero) (by decide)
  · have hfirst : vmem ((r.ptr + 0) % 1024) = vmem 0 := hrot 0 (by decide)
    rw [hone] at hfirst
    exact absurd hfirst (by simp [vmem])

end Ssd1306

end LinuxDriverKb
