import LinuxDriverKb.Lib.CommandStream
import LinuxDriverKb.Ssd1306FbRefresh

/-!
# Starting the panel again after a failed init

`ssd1306fb_init` gives up at the first command that fails, and nothing resets the panel before
the next attempt. A panel that still waits for arguments takes the first commands of that attempt
for them; if it waits for one, it takes the contrast value 127 for the command `0x7f`, which sets
the start line to 63, and no command of the driver ever sets it again.

`reinit_iff` : after any number of attempts one that goes through has the display memory
right, and the registers as after a reset, exactly if no attempt of two commands or more has
begun while the panel was waiting for one argument.
-/

set_option autoImplicit false

namespace LinuxDriverKb

namespace Ssd1306

open CommandStream

/-! ## The panel with its registers -/

/-- The register of a command : some commands share one. -/
def register (c : UInt8) : UInt8 :=
  if 0x40 ≤ c ∧ c ≤ 0x7f then 0x40
  else if c ∈ [0xa1, 0xa5, 0xa7, 0xaf] then c - 1
  else if c = 0xc8 then 0xc0
  else c

/-- `regs` are the commands that have been executed last since the reset, by register. -/
structure Screen where
  panel : Panel
  regs : UInt8 → List UInt8

/-- A command byte, with the registers that a complete command writes. -/
def Screen.command (s : Screen) (b : UInt8) : Screen where
  panel := s.panel.command b
  regs := writeAll register s.regs (feed argCount s.panel.pending b).1.toList

/-- The line of the display memory that is shown at the top. -/
def Screen.startLine (s : Screen) : ℕ :=
  match s.regs 0x40 with
  | [c] => c.toNat % 64
  | _ => 0

/-- After a reset. -/
def powerOn (gddram : ℕ → ℕ → UInt8) : Screen where
  panel := .reset gddram
  regs _ := []

/-! ## An attempt -/

/-- `EIO`. -/
def eio : ℤ := 5

/-- The bus on which as many commands arrive as the number in its state says, and a display
transfer ends as `o` says. -/
def sendFirst (o : Transfer) : MasterSend (ℕ × Screen) := fun msg s =>
  match msg with
  | [0x80, cmd] => if s.1 = 0 then (-eio, s) else (2, s.1 - 1, s.2.command cmd)
  | msg =>
    let r := sendDisplay o msg s.2.panel
    (r.1, s.1, { s.2 with panel := r.2 })

/-- A call of `ssd1306fb_init` : the commands that arrive, the frame buffer, and its transfer. -/
structure Attempt where
  commands : ℕ
  vmem : ℕ → UInt8
  display : Transfer

/-- `ssd1306fb_init` in an attempt. -/
def Attempt.init (a : Attempt) (s : Screen) : ℤ × Screen :=
  let r := ssd1306fbInit (sendFirst a.display) ssd1306fbPar a.vmem (a.commands, s)
  (r.1, r.2.2)

/-- What an attempt leaves. -/
def attempt (s : Screen) (a : Attempt) : Option Screen :=
  some (a.init s).2

/-- All commands of `ssd1306fb_init`. -/
def allCmds : List UInt8 :=
  initCmds ssd1306fbPar ++ [0xaf]

/-! ## What a run should do -/

/-- An attempt does not begin with its second command read as a command of its own. -/
def ReadRight (s : Screen) (a : Attempt) (_ : Screen) : Prop :=
  ¬(outstanding argCount s.panel.pending = 1 ∧ 2 ≤ a.commands)

instance (s : Screen) (a : Attempt) (s' : Screen) : Decidable (ReadRight s a s') :=
  inferInstanceAs (Decidable (¬_))

/-! ## Commands on the bus -/

theorem exec_pending (p : Panel) (cmd : List UInt8) : (p.exec cmd).pending = p.pending := by
  unfold Panel.exec
  split
  · split_ifs <;> rfl
  · split_ifs <;> rfl
  · rfl

theorem command_pending (p : Panel) (b : UInt8) :
    (p.command b).pending = (feed argCount p.pending b).2 := by
  unfold Panel.command feed
  cases hp : p.pending with
  | nil =>
    dsimp only
    split_ifs
    · rw [exec_pending, hp]
    · rfl
  | cons c args =>
    dsimp only
    split_ifs <;> rfl

theorem commands_panel : ∀ (bs : List UInt8) (s : Screen),
    (bs.foldl Screen.command s).panel = bs.foldl Panel.command s.panel
  | [], _ => rfl
  | b :: bs, s => commands_panel bs (s.command b)

/-- The panel executes what it decodes. -/
theorem commands_decode : ∀ (bs : List UInt8) (s : Screen),
    (bs.foldl Screen.command s).panel.pending = (decode argCount s.panel.pending bs).2 ∧
      (bs.foldl Screen.command s).regs =
        writeAll register s.regs (decode argCount s.panel.pending bs).1
  | [], _ => ⟨rfl, rfl⟩
  | b :: bs, s => by
    obtain ⟨hpending, hregs⟩ := commands_decode bs (s.command b)
    have hcommand : (s.command b).panel.pending = (feed argCount s.panel.pending b).2 :=
      command_pending s.panel b
    rw [hcommand] at hpending hregs
    refine ⟨hpending, ?_⟩
    rw [List.foldl_cons, hregs, decode, writeAll_append]
    rfl

/-- Commands go through up to the number that arrives. -/
theorem writeCmds_sendFirst (o : Transfer) : ∀ (cmds : List UInt8) (n : ℕ) (s : Screen),
    writeCmds (sendFirst o) cmds (n, s) =
      (if cmds.length ≤ n then 0 else -eio, n - cmds.length, (cmds.take n).foldl Screen.command s)
  | [], n, s => by simp [writeCmds]
  | cmd :: cmds, 0, s => by
    have hcmd : ssd1306fbWriteCmd (sendFirst o) cmd (0, s) = (-eio, 0, s) := rfl
    have hlen : ¬(cmd :: cmds).length ≤ 0 := Nat.not_succ_le_zero _
    rw [writeCmds, hcmd, if_neg hlen, Nat.zero_sub]
    rfl
  | cmd :: cmds, n + 1, s => by
    have hcmd : ssd1306fbWriteCmd (sendFirst o) cmd (n + 1, s) = (0, n, s.command cmd) := rfl
    have hlen : n + 1 - (cmds.length + 1) = n - cmds.length := by omega
    simp only [writeCmds, hcmd, writeCmds_sendFirst o cmds n, List.length_cons, hlen,
      List.take_succ_cons, List.foldl_cons, Nat.add_le_add_iff_right]
    rfl

theorem display_sendFirst (o : Transfer) (vmem : ℕ → UInt8) (n : ℕ) (s : Screen) :
    ssd1306fbDisplay (sendFirst o) vmem (n, s) =
      (n, { s with panel := ssd1306fbDisplay (sendDisplay o) vmem s.panel }) := by
  rw [ssd1306fbDisplay, ssd1306fbDisplay, ssd1306fbWriteData_snd, ssd1306fbWriteData_snd]
  rfl

theorem pending_display (o : Transfer) (vmem : ℕ → UInt8) (p : Panel) :
    (ssd1306fbDisplay (sendDisplay o) vmem p).pending = p.pending := by
  rw [ssd1306fbDisplay_sendDisplay, pending_foldl]

/-! ## One attempt -/

variable (a : Attempt) (s : Screen)

/-- The panel after the commands before the display transfer. -/
def Screen.setUp (s : Screen) : Screen :=
  (initCmds ssd1306fbPar).foldl Screen.command s

theorem length_initCmds : (initCmds ssd1306fbPar).length = 26 := by
  decide

/-- An attempt that fails before the display transfer. -/
theorem init_of_lt {a : Attempt} (h : a.commands < 26) (s : Screen) :
    a.init s = (-eio, ((initCmds ssd1306fbPar).take a.commands).foldl Screen.command s) := by
  have hneg : -eio < 0 := by decide
  rw [Attempt.init, ssd1306fbInit, writeCmds_sendFirst, length_initCmds,
    if_neg (Nat.not_le.mpr h)]
  dsimp only
  rw [if_pos hneg]

/-- One that comes to it. -/
theorem init_of_le {a : Attempt} (h : 26 ≤ a.commands) (s : Screen) :
    a.init s = (if 27 ≤ a.commands then 0 else -eio,
      ([0xaf].take (a.commands - 26)).foldl Screen.command { s.setUp with
        panel := ssd1306fbDisplay (sendDisplay a.display) a.vmem s.setUp.panel }) := by
  have htake : (initCmds ssd1306fbPar).take a.commands = initCmds ssd1306fbPar :=
    List.take_of_length_le (length_initCmds.trans_le h)
  have hlast : 1 ≤ a.commands - 26 ↔ 27 ≤ a.commands := by omega
  rw [Attempt.init, ssd1306fbInit, writeCmds_sendFirst, length_initCmds, if_pos h, htake]
  dsimp only
  rw [if_neg (Int.lt_irrefl 0), display_sendFirst, writeCmds_sendFirst]
  simp only [List.length_singleton, hlast]
  rfl

/-- The panel executes what it decodes of the commands that arrive. -/
theorem init_decode :
    (a.init s).2.panel.pending =
        (decode argCount s.panel.pending (allCmds.take a.commands)).2 ∧
      (a.init s).2.regs =
        writeAll register s.regs (decode argCount s.panel.pending (allCmds.take a.commands)).1 := by
  have htake : allCmds.take a.commands =
      (initCmds ssd1306fbPar).take a.commands ++ [0xaf].take (a.commands - 26) := by
    rw [allCmds, List.take_append, length_initCmds]
  rcases Nat.lt_or_ge a.commands 26 with hlt | hge
  · have hzero : a.commands - 26 = 0 := by omega
    rw [init_of_lt hlt, htake, hzero, List.take_zero, List.append_nil]
    exact commands_decode _ s
  · have hall : (initCmds ssd1306fbPar).take a.commands = initCmds ssd1306fbPar :=
      List.take_of_length_le (length_initCmds.trans_le hge)
    obtain ⟨hpending, hregs⟩ := commands_decode (initCmds ssd1306fbPar) s
    rw [init_of_le hge, htake, hall, decode_append, writeAll_append, ← hpending, ← hregs]
    have hlast := commands_decode ([0xaf].take (a.commands - 26)) { s.setUp with
      panel := ssd1306fbDisplay (sendDisplay a.display) a.vmem s.setUp.panel }
    dsimp only at hlast
    rw [pending_display] at hlast
    exact hlast

/-! ## The commands of the init -/

/-- What holds of the bytes in a list is decided on the list, not on all bytes. -/
instance (priority := 2000) decidableForallMemList (p : UInt8 → Prop) [DecidablePred p]
    (l : List UInt8) : Decidable (∀ c ∈ l, p c) :=
  List.decidableBAll p l

instance (priority := 2000) decidableForallMemOption (p : UInt8 → Prop) [DecidablePred p]
    (o : Option UInt8) : Decidable (∀ c ∈ o, p c) :=
  Option.decidableForallMem o

/-- Its commands that have arguments. -/
def argCmds : List UInt8 :=
  [0x81, 0xa8, 0xd3, 0xd5, 0xd9, 0xda, 0xdb, 0x8d, 0x20, 0x21, 0x22]

/-- The registers that it writes. -/
def initRegs : List UInt8 :=
  [0xa0, 0xc0, 0xae] ++ argCmds

/-- The commands after the contrast. -/
def tailCmds : List UInt8 :=
  allCmds.drop 2

/-- What waits is a command of the init. -/
def Wf (pending : List UInt8) : Prop :=
  pending = [] ∨ 0 < outstanding argCount pending ∧ ∀ c ∈ pending.head?, c ∈ argCmds

instance (pending : List UInt8) : Decidable (Wf pending) :=
  inferInstanceAs (Decidable (_ ∨ _))

theorem take_allCmds (m : ℕ) : allCmds.take (m + 2) = [0x81, 127] ++ tailCmds.take m :=
  rfl

theorem take_tailCmds (m : ℕ) : ∃ k < 26, tailCmds.take m = tailCmds.take k := by
  rcases Nat.lt_or_ge m 26 with hlt | hge
  · exact ⟨m, hlt, rfl⟩
  · have hlen : tailCmds.length = 25 := by decide
    refine ⟨25, by decide, ?_⟩
    rw [List.take_of_length_le (by omega), List.take_of_length_le (by omega)]

/-- Cut off anywhere, they write neither the start line nor the contrast, and what waits is one
of them. -/
theorem decode_tailCmds (m : ℕ) :
    (∀ cmd ∈ (decode argCount [] (tailCmds.take m)).1, ∀ c ∈ cmd.head?,
        register c ∈ initRegs ∧ register c ≠ 0x81) ∧
      Wf (decode argCount [] (tailCmds.take m)).2 := by
  obtain ⟨k, hk, heq⟩ := take_tailCmds m
  have hall : ∀ k < 26, (∀ cmd ∈ (decode argCount [] (tailCmds.take k)).1, ∀ c ∈ cmd.head?,
      register c ∈ initRegs ∧ register c ≠ 0x81) ∧
        Wf (decode argCount [] (tailCmds.take k)).2 := by
    decide
  rw [heq]
  exact hall k hk

/-- Nothing waits, a command for its last argument, or a window command for both. -/
theorem Wf.cases {p : List UInt8} (h : Wf p) :
    p = [] ∨ (outstanding argCount p = 1 ∧ ∃ c ∈ argCmds, ∃ args, p = c :: args) ∨
      ∃ c ∈ [0x21, 0x22], p = [c] := by
  rcases h with rfl | ⟨hpos, hc⟩
  · exact Or.inl rfl
  · cases p with
    | nil => exact absurd hpos (Nat.lt_irrefl 0)
    | cons c args =>
      have hmem : c ∈ argCmds := hc c rfl
      have hcount : ∀ c ∈ argCmds, argCount c = 1 ∨ argCount c = 2 ∧ c ∈ [0x21, 0x22] := by decide
      rw [outstanding] at hpos ⊢
      rcases hcount c hmem with hone | ⟨htwo, hwindow⟩
      · exact Or.inr (Or.inl ⟨by omega, c, hmem, args, rfl⟩)
      · cases args with
        | nil => exact Or.inr (Or.inr ⟨c, hwindow, rfl⟩)
        | cons b bs =>
          rw [List.length_cons] at hpos ⊢
          exact Or.inr (Or.inl ⟨by omega, c, hmem, b :: bs, rfl⟩)

/-- The first two commands, if nothing waits. -/
theorem decode_two_nil : decode argCount [] [0x81, 127] = ([[0x81, 127]], []) :=
  rfl

/-- They answer a window command. -/
theorem decode_two_window {c : UInt8} (h : c ∈ [0x21, 0x22]) :
    decode argCount [c] [0x81, 127] = ([[c, 0x81, 127]], []) := by
  simp only [List.mem_cons, List.not_mem_nil, or_false] at h
  rcases h with rfl | rfl <;> rfl

/-- The first is a last argument, and the second a command of its own. -/
theorem decode_two_last {p : List UInt8} (h : outstanding argCount p = 1) :
    decode argCount p [0x81, 127] = ([p ++ [0x81], [127]], []) := by
  rw [decode_of_le (by omega) (by rw [h]; decide), h]
  rfl

/-- Whatever waits, the panel is in step after two commands. -/
theorem Wf.decode_two_snd {p : List UInt8} (h : Wf p) : (decode argCount p [0x81, 127]).2 = [] := by
  rcases h.cases with rfl | ⟨hone, -⟩ | ⟨c, hc, rfl⟩
  · rfl
  · rw [decode_two_last hone]
  · rw [decode_two_window hc]

/-- What two commands and more execute. -/
theorem Wf.decode_add_two {p : List UInt8} (h : Wf p) (m : ℕ) :
    decode argCount p (allCmds.take (m + 2)) =
      ((decode argCount p [0x81, 127]).1 ++ (decode argCount [] (tailCmds.take m)).1,
        (decode argCount [] (tailCmds.take m)).2) := by
  rw [take_allCmds, decode_append, h.decode_two_snd]

/-- The first command alone. -/
theorem Wf.decode_one {p : List UInt8} (h : Wf p) :
    decode argCount p [0x81] =
      if outstanding argCount p = 1 then ([p ++ [0x81]], []) else ([], p ++ [0x81]) := by
  rcases h.cases with rfl | ⟨hone, -⟩ | ⟨c, hc, rfl⟩
  · rfl
  · rw [decode_of_le (by omega) (by rw [hone]; decide), if_pos hone, hone]
    rfl
  · simp only [List.mem_cons, List.not_mem_nil, or_false] at hc
    rcases hc with rfl | rfl <;> rfl

/-! ## What an attempt leaves -/

variable {a s}

theorem wf_init (h : Wf s.panel.pending) : Wf (a.init s).2.panel.pending := by
  rw [(init_decode a s).1]
  obtain ⟨commands, vmem, display⟩ := a
  match commands with
  | 0 => exact h
  | 1 =>
    have htake : allCmds.take 1 = [0x81] := rfl
    rw [htake, h.decode_one]
    split_ifs with hone
    · exact Or.inl rfl
    · rcases h.cases with hp | ⟨hone', -⟩ | ⟨c, hc, hp⟩
      · rw [hp]
        decide
      · exact absurd hone' hone
      · have hall : ∀ c ∈ [0x21, 0x22], Wf [c, 0x81] := by decide
        rw [hp]
        exact hall c hc
  | m + 2 =>
    rw [h.decode_add_two]
    exact (decode_tailCmds m).2

/-- What an attempt executes when it is read right is of the init. -/
theorem executed_mem {p : List UInt8} (h : Wf p) {n : ℕ}
    (hright : ¬(outstanding argCount p = 1 ∧ 2 ≤ n)) :
    ∀ cmd ∈ (decode argCount p (allCmds.take n)).1, ∀ c ∈ cmd.head?, register c ∈ initRegs := by
  have hreg : ∀ c ∈ argCmds, register c ∈ initRegs := by decide
  match n with
  | 0 => exact fun cmd hcmd => absurd hcmd List.not_mem_nil
  | 1 =>
    have htake : allCmds.take 1 = [0x81] := rfl
    rw [htake, h.decode_one]
    split_ifs with hone
    · rcases h.cases with hp | ⟨-, c, hc, args, hp⟩ | ⟨c, hc, hp⟩
      · rw [hp] at hone
        exact absurd hone Nat.zero_ne_one
      · rintro cmd hcmd d hd
        obtain rfl := List.mem_singleton.mp hcmd
        rw [hp] at hd
        obtain rfl := Option.some.inj hd
        exact hreg c hc
      · have hall : ∀ c ∈ [0x21, 0x22], outstanding argCount [c] ≠ 1 := by decide
        rw [hp] at hone
        exact absurd hone (hall c hc)
    · exact fun cmd hcmd => absurd hcmd List.not_mem_nil
  | m + 2 =>
    rw [h.decode_add_two]
    intro cmd hcmd c hc
    rcases List.mem_append.mp hcmd with hcmd | hcmd
    · rcases h.cases with hp | ⟨hone, -⟩ | ⟨d, hd, hp⟩
      · rw [hp, decode_two_nil] at hcmd
        obtain rfl := List.mem_singleton.mp hcmd
        obtain rfl := Option.some.inj hc
        decide
      · exact absurd ⟨hone, Nat.le_add_left 2 m⟩ hright
      · have hall : ∀ d ∈ [0x21, 0x22], register d ∈ initRegs := by decide
        rw [hp, decode_two_window hd] at hcmd
        obtain rfl := List.mem_singleton.mp hcmd
        obtain rfl := Option.some.inj hc
        exact hall d hd
    · exact ((decode_tailCmds m).1 cmd hcmd c hc).1

/-- An attempt that is read right does not touch the start line; any other sets it to 63. -/
theorem startReg_init (h : Wf s.panel.pending) :
    (a.init s).2.regs 0x40 =
      if outstanding argCount s.panel.pending = 1 ∧ 2 ≤ a.commands then [127]
      else s.regs 0x40 := by
  have hstart : (0x40 : UInt8) ∉ initRegs := by decide
  rw [(init_decode a s).2]
  split_ifs with hwrong
  · obtain ⟨hone, htwo⟩ := hwrong
    obtain ⟨m, hm⟩ := Nat.exists_eq_add_of_le' htwo
    have hrest : ¬Writes register 0x40 (decode argCount [] (tailCmds.take m)).1 := by
      rintro ⟨cmd, hcmd, c, hc, hreg⟩
      exact hstart (hreg ▸ ((decode_tailCmds m).1 cmd hcmd c hc).1)
    rw [hm, h.decode_add_two, decode_two_last hone, writeAll_append, writeAll_of_not_writes hrest]
    rfl
  · refine writeAll_of_not_writes ?_
    rintro ⟨cmd, hcmd, c, hc, hreg⟩
    exact hstart (hreg ▸ executed_mem h hwrong cmd hcmd c hc)

/-- A screen on which all attempts so far were read right. -/
structure InStep (s : Screen) : Prop where
  wf : Wf s.panel.pending
  untouched : ∀ r, r ∉ initRegs → s.regs r = []
  /-- A window command waits only behind the contrast. -/
  contrast : outstanding argCount s.panel.pending = 2 → s.regs 0x81 = [0x81, 127]

theorem inStep_powerOn (gddram : ℕ → ℕ → UInt8) : InStep (powerOn gddram) where
  wf := Or.inl rfl
  untouched _ _ := rfl
  contrast h := absurd (show 0 = 2 from h) (by decide)

/-- The contrast after two commands that are read right. -/
theorem InStep.contrast_two (h : InStep s)
    (hone : outstanding argCount s.panel.pending ≠ 1) :
    writeAll register s.regs (decode argCount s.panel.pending [0x81, 127]).1 0x81 =
      [0x81, 127] := by
  rcases h.wf.cases with hp | ⟨hone', -⟩ | ⟨c, hc, hp⟩
  · rw [hp, decode_two_nil]
    rfl
  · exact absurd hone' hone
  · have hall : ∀ c ∈ [0x21, 0x22], outstanding argCount [c] = 2 ∧ register c ≠ 0x81 := by decide
    have hcontrast := h.contrast (by rw [hp]; exact (hall c hc).1)
    rw [hp, decode_two_window hc, writeAll_of_not_writes, hcontrast]
    rintro ⟨cmd, hcmd, d, hd, hreg⟩
    obtain rfl := List.mem_singleton.mp hcmd
    obtain rfl := Option.some.inj hd
    exact (hall c hc).2 hreg

theorem InStep.init (h : InStep s)
    (hright : ¬(outstanding argCount s.panel.pending = 1 ∧ 2 ≤ a.commands)) :
    InStep (a.init s).2 where
  wf := wf_init h.wf
  untouched r hr := by
    rw [(init_decode a s).2, writeAll_of_not_writes]
    · exact h.untouched r hr
    · rintro ⟨cmd, hcmd, c, hc, hreg⟩
      exact hr (hreg ▸ executed_mem h.wf hright cmd hcmd c hc)
  contrast hout := by
    rw [(init_decode a s).1] at hout
    rw [(init_decode a s).2]
    obtain ⟨commands, vmem, display⟩ := a
    match commands with
    | 0 => exact h.contrast hout
    | 1 =>
      have htake : allCmds.take 1 = [0x81] := rfl
      rw [htake, h.wf.decode_one] at hout
      split_ifs at hout with hone
      · exact absurd (show 0 = 2 from hout) (by decide)
      · rcases h.wf.cases with hp | ⟨hone', -⟩ | ⟨c, hc, hp⟩
        · rw [hp] at hout
          exact absurd hout (by decide)
        · exact absurd hone' hone
        · have hall : ∀ c ∈ [0x21, 0x22], outstanding argCount [c, 0x81] ≠ 2 := by decide
          rw [hp] at hout
          exact absurd hout (hall c hc)
    | m + 2 =>
      have hrest : ¬Writes register 0x81 (decode argCount [] (tailCmds.take m)).1 := by
        rintro ⟨cmd, hcmd, c, hc, hreg⟩
        exact ((decode_tailCmds m).1 cmd hcmd c hc).2 hreg
      rw [h.wf.decode_add_two, writeAll_append, writeAll_of_not_writes hrest]
      exact h.contrast_two fun hone => hright ⟨hone, Nat.le_add_left 2 m⟩

/-! ## An attempt that goes through -/

/-- The commands that follow are those of the init. -/
theorem InStep.regs_of_le (h : InStep s) (hn : 27 ≤ a.commands) :
    (a.init s).2.regs = writeAll register
      (writeAll register s.regs (decode argCount s.panel.pending [0x81, 127]).1)
        (decode argCount [] tailCmds).1 := by
  have htake : allCmds.take a.commands = allCmds.take (25 + 2) :=
    (List.take_of_length_le hn).trans (List.take_of_length_le (by decide)).symm
  have htail : tailCmds.take 25 = tailCmds := by decide
  rw [(init_decode a s).2, htake, h.wf.decode_add_two, writeAll_append, htail]

/-- After two commands that are read right, what the other commands do not write is what the
init has set. -/
theorem InStep.regs_two (h : InStep s) (hone : outstanding argCount s.panel.pending ≠ 1) {r : UInt8}
    (hr : ¬Writes register r (decode argCount [] tailCmds).1) :
    writeAll register s.regs (decode argCount s.panel.pending [0x81, 127]).1 r =
      if r = 0x81 then [0x81, 127] else [] := by
  have hwrites : ∀ r ∈ initRegs, r ≠ 0x81 → Writes register r (decode argCount [] tailCmds).1 := by
    decide
  split_ifs with heq
  · rw [heq]
    exact h.contrast_two hone
  · have hmem : r ∉ initRegs := fun hmem => hr (hwrites r hmem heq)
    rw [writeAll_of_not_writes]
    · exact h.untouched r hmem
    · rintro ⟨cmd, hcmd, c, hc, hreg⟩
      have hexec := executed_mem h.wf (n := 2) (fun hno => hone hno.1)
      exact hmem (hreg ▸ hexec cmd hcmd c hc)

/-- Attempts that are read right and go through leave the same registers. -/
theorem InStep.regs_eq {a₀ : Attempt} {s₀ : Screen} (h : InStep s) (h₀ : InStep s₀)
    (hone : outstanding argCount s.panel.pending ≠ 1)
    (hone₀ : outstanding argCount s₀.panel.pending ≠ 1) (hn : 27 ≤ a.commands)
    (hn₀ : 27 ≤ a₀.commands) : (a.init s).2.regs = (a₀.init s₀).2.regs := by
  rw [h.regs_of_le hn, h₀.regs_of_le hn₀]
  refine writeAll_congr fun r hr => ?_
  rw [h.regs_two hone hr, h₀.regs_two hone₀ hr]

/-- Whatever waits, the commands set the panel up. -/
theorem setUp_panel (h : Wf s.panel.pending) :
    s.setUp.panel.FullWindow ∧ s.setUp.panel.ptr = 0 ∧ s.setUp.panel.pending = [] := by
  have hsplit : initCmds ssd1306fbPar = [0x81, 127] ++ (initCmds ssd1306fbPar).drop 2 := rfl
  have hpending : ([0x81, 127].foldl Screen.command s).panel.pending = [] := by
    rw [(commands_decode [0x81, 127] s).1, h.decode_two_snd]
  rw [Screen.setUp, hsplit, List.foldl_append]
  generalize [0x81, 127].foldl Screen.command s = t at hpending ⊢
  rw [commands_panel]
  generalize t.panel = p at hpending ⊢
  obtain ⟨⟩ := p
  cases hpending
  exact ⟨⟨rfl, rfl, rfl, rfl, rfl, Nat.zero_lt_succ 7, Nat.zero_lt_succ 127⟩, rfl, rfl⟩

/-- Turning the display on changes nothing else. -/
theorem command_af {p : Panel} (h : p.pending = []) : p.command 0xaf = p := by
  obtain ⟨⟩ := p
  cases h
  rfl

/-- It returns 0, and has shown the frame buffer on the panel as set up. -/
theorem init_of_success (h : Wf s.panel.pending) (hn : 27 ≤ a.commands) :
    (a.init s).1 = 0 ∧
      (a.init s).2.panel = ssd1306fbDisplay (sendDisplay a.display) a.vmem s.setUp.panel := by
  have hlast : [(0xaf : UInt8)].take (a.commands - 26) = [0xaf] :=
    List.take_of_length_le (by rw [List.length_singleton]; omega)
  have hpending := pending_display a.display a.vmem s.setUp.panel
  rw [(setUp_panel h).2.2] at hpending
  rw [init_of_le (by omega), if_pos hn, hlast]
  refine ⟨rfl, ?_⟩
  rw [commands_panel]
  exact command_af hpending

/-- With its display transfer complete, the display memory is the frame buffer. -/
theorem display_of_success (h : Wf s.panel.pending) (hn : 27 ≤ a.commands)
    (hdone : a.display = .done) :
    (a.init s).2.panel.FullWindow ∧ (a.init s).2.panel.ptr = 0 ∧
      ∀ i < 1024, (a.init s).2.panel.ram i = a.vmem i := by
  obtain ⟨hfull, hptr, -⟩ := setUp_panel h
  obtain ⟨hfull', hptr'⟩ := hfull.display_ptr a.display a.vmem
  rw [(init_of_success h hn).2]
  refine ⟨hfull', ?_, ?_⟩
  · rw [hptr', hptr, hdone]
    rfl
  · rw [hdone]
    exact (hfull.display_iff a.vmem).mpr (Or.inl hptr)

/-! ## Runs -/

theorem wf_run {as : List Attempt} : ∀ {s s' : Screen}, Wf s.panel.pending →
    Transition.run attempt s as = some s' → Wf s'.panel.pending :=
  Transition.inv_run (I := fun s : Screen => Wf s.panel.pending) fun s a s' h hstep => by
    obtain rfl := Option.some.inj hstep
    exact wf_init h

/-- Once wrong, the start line stays. -/
theorem startReg_run : ∀ {as : List Attempt} {s s' : Screen}, Wf s.panel.pending →
    Transition.run attempt s as = some s' → s.regs 0x40 = [127] → s'.regs 0x40 = [127] := by
  intro as s s' h hrun hstart
  refine (Transition.inv_run (I := fun s => Wf s.panel.pending ∧ s.regs 0x40 = [127])
    (fun s a s' hs hstep => ?_) ⟨h, hstart⟩ hrun).2
  obtain rfl := Option.some.inj hstep
  refine ⟨wf_init hs.1, ?_⟩
  rw [startReg_init hs.1]
  split_ifs
  · rfl
  · exact hs.2

/-- A run that is read right keeps the screen in step, and any other leaves the start line
at 63. -/
theorem run_cases : ∀ {as : List Attempt} {s s' : Screen}, InStep s →
    Transition.run attempt s as = some s' →
    (Transition.Always attempt ReadRight s as ∧ InStep s') ∨
      (¬Transition.Always attempt ReadRight s as ∧ Wf s'.panel.pending ∧ s'.regs 0x40 = [127])
  | [], s, s', h, hrun => by
    obtain rfl := Option.some.inj hrun
    exact Or.inl ⟨True.intro, h⟩
  | a :: as, s, s', h, hrun => by
    have hrun' : Transition.run attempt (a.init s).2 as = some s' := hrun
    have hcons : Transition.Always attempt ReadRight s (a :: as) ↔
        ReadRight s a (a.init s).2 ∧ Transition.Always attempt ReadRight (a.init s).2 as :=
      Transition.always_cons_iff rfl
    by_cases hright : outstanding argCount s.panel.pending = 1 ∧ 2 ≤ a.commands
    · refine Or.inr ⟨fun hall => (hcons.mp hall).1 hright, wf_run (wf_init h.wf) hrun', ?_⟩
      refine startReg_run (wf_init h.wf) hrun' ?_
      rw [startReg_init h.wf, if_pos hright]
    · rcases run_cases (h.init hright) hrun' with ⟨hall, hs'⟩ | ⟨hno, hs'⟩
      · exact Or.inl ⟨hcons.mpr ⟨hright, hall⟩, hs'⟩
      · exact Or.inr ⟨fun hall => hno (hcons.mp hall).2, hs'⟩

/-- After any number of attempts, each with any number of commands that arrive and any end of its
display transfer : one that goes through returns 0 and makes the display memory the frame
buffer; it leaves the registers as it does after a reset if and only if it and all before it
were read right; and otherwise the first line that is shown is 63. -/
theorem reinit_iff (gddram : ℕ → ℕ → UInt8) (as : List Attempt) (vmem : ℕ → UInt8) :
    let a : Attempt := ⟨27, vmem, .done⟩
    ∃ s, Transition.run attempt (powerOn gddram) as = some s ∧
      ((a.init s).1 = 0 ∧ (a.init s).2.panel.FullWindow ∧ (a.init s).2.panel.ptr = 0 ∧
        ∀ i < 1024, (a.init s).2.panel.ram i = vmem i) ∧
      ((a.init s).2.regs = (a.init (powerOn gddram)).2.regs ↔
        Transition.Always attempt ReadRight (powerOn gddram) (as ++ [a])) ∧
      (¬Transition.Always attempt ReadRight (powerOn gddram) (as ++ [a]) →
        (a.init s).2.startLine = 63) := by
  intro a
  obtain ⟨s, hrun, -⟩ : ∃ s, Transition.run attempt (powerOn gddram) as = some s ∧ True :=
    Transition.exists_run (I := fun _ => True) (fun _ _ _ => ⟨_, rfl, True.intro⟩) as True.intro
  have hwf : Wf s.panel.pending := wf_run (inStep_powerOn gddram).wf hrun
  have hlast : Transition.run attempt (powerOn gddram) (as ++ [a]) = some (a.init s).2 := by
    rw [Transition.run_append, hrun]
    rfl
  have hfresh : (a.init (powerOn gddram)).2.regs 0x40 = [] :=
    startReg_init (inStep_powerOn gddram).wf
  refine ⟨s, hrun, ⟨(init_of_success hwf le_rfl).1, display_of_success hwf le_rfl rfl⟩, ?_⟩
  rcases run_cases (inStep_powerOn gddram) hlast with ⟨hall, hs'⟩ | ⟨hno, -, hstart⟩
  · refine ⟨iff_of_true ?_ hall, fun hno => absurd hall hno⟩
    have hone : outstanding argCount s.panel.pending ≠ 1 := fun hone =>
      hall.last (show attempt s a = some (a.init s).2 from rfl) hrun ⟨hone, Nat.le_add_left 2 25⟩
    rcases run_cases (inStep_powerOn gddram) hrun with ⟨-, hs⟩ | ⟨-, -, hstart⟩
    · exact hs.regs_eq (inStep_powerOn gddram) hone Nat.zero_ne_one le_rfl le_rfl
    · -- a start line that is wrong before is wrong after
      have hno : ¬(outstanding argCount s.panel.pending = 1 ∧ 2 ≤ a.commands) := fun h => hone h.1
      have hsame := startReg_init (a := a) hwf
      rw [if_neg hno, hstart, hs'.untouched 0x40 (by decide)] at hsame
      cases hsame
  · refine ⟨iff_of_false (fun heq => ?_) hno, fun _ => ?_⟩
    · rw [heq, hfresh] at hstart
      cases hstart
    · rw [Screen.startLine, hstart]
      rfl

/-- The contrast value does not arrive, the next attempt goes through, and the display starts
at line 63. -/
example (gddram : ℕ → ℕ → UInt8) (vmem : ℕ → UInt8) :
    ((⟨27, vmem, .done⟩ : Attempt).init
      ((⟨1, vmem, .done⟩ : Attempt).init (powerOn gddram)).2).2.startLine = 63 := by
  have hwf := wf_init (a := ⟨1, vmem, .done⟩) (inStep_powerOn gddram).wf
  have hwaits : ((⟨1, vmem, .done⟩ : Attempt).init (powerOn gddram)).2.panel.pending = [0x81] :=
    (init_decode _ _).1
  rw [Screen.startLine, startReg_init hwf, hwaits]
  rfl

end Ssd1306

end LinuxDriverKb
