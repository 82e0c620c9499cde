import LinuxDriverKb.VirtUart

/-!
# Bytes left in the transmit ring

The serial core calls `start_tx` once after a write, once after an `x_char` is set, and
once when a stopped transmitter is started. Nothing in `serial-virt.c` calls it again, and
one call takes at most `fifosize` bytes, so a longer burst stays in the ring.

`drained_iff` says when that happens : between the operations of a run the ring of a
running transmitter is empty if and only if no `start_tx` of the run finds more than
`fifosize` bytes to send (`Fits`).
-/

set_option autoImplicit false

namespace LinuxDriverKb

namespace VirtUart

/-- The operations of the serial core, each with the `start_tx` it makes. -/
inductive CoreOp
  /-- `uart_write`. -/
  | write (bs : List UInt8)
  /-- `uart_send_xchar`. -/
  | sendXChar (c : UInt8)
  /-- `stop_tty`. -/
  | stop
  /-- `start_tty`. -/
  | start

/-- One call of the core. -/
def coreStep (room : ℕ → Bool) (u : Uart) : CoreOp → Option Uart
  | .write bs => virtUartStartTx room (uartWrite u bs)
  | .sendXChar c =>
    let u := { u with port := { u.port with xChar := c } }
    if c ≠ 0 then virtUartStartTx room u else some u
  | .stop => some { u with port := { u.port with txStopped := true } }
  | .start =>
    -- `start_tty` returns at once unless the tty is stopped
    if u.port.txStopped then
      virtUartStartTx room { u with port := { u.port with txStopped := false } }
    else some u

/-- No byte is left in the ring of a running transmitter. -/
def Drained (u : Uart) : Prop :=
  u.port.txStopped = false → u.ring = []

/-- The `start_tx` of the operation finds at most `fifosize` bytes to send : what a write
puts into the ring of a running transmitter, or what is pending when a stopped one is
started. -/
def Fits (u : Uart) : CoreOp → Prop
  | .write bs => u.port.txStopped = false → min bs.length u.space ≤ max 1 u.port.fifosize
  | .sendXChar _ => True
  | .stop => True
  | .start => u.port.txStopped = true → u.pending ≤ max 1 u.port.fifosize

/-- Between operations no `x_char` is pending. -/
structure CoreInv (room : ℕ → Bool) (fifosize : ℕ) (u : Uart) : Prop where
  run : RunInv room fifosize u
  xChar : u.port.xChar = 0

/-- A `start_tx` with the transmitter running empties the ring exactly when at most
`fifosize` bytes are pending. -/
theorem startTx_drains_iff {room : ℕ → Bool} {fifosize : ℕ} (hf : fifosize < 2 ^ 31) {u : Uart}
    (h : CoreInv room fifosize u) (hs : u.port.txStopped = false) :
    ∃ u', virtUartStartTx room u = some u' ∧ CoreInv room fifosize u' ∧
      u'.port.txStopped = false ∧ (u'.ring = [] ↔ u.pending ≤ max 1 fifosize) := by
  obtain ⟨⟨hi, hfl, hfs⟩, hx⟩ := h
  by_cases hempty : u.port.xmit.head = u.port.xmit.tail
  · have hp : u.pending = 0 := hi.wf.pending_eq_zero_iff.mpr hempty
    refine ⟨u, virtUartStartTx_idle hx (.inl hempty), ⟨⟨hi, hfl, hfs⟩, hx⟩, hs, ?_⟩
    rw [Uart.ring, hi.wf.contents_eq_nil_iff]
    exact ⟨fun _ => by omega, fun _ => hempty⟩
  · obtain ⟨u', hu', hi', hfr, hfl', -, hring⟩ := virtUartStartTx_take hi (by omega) hx hempty hs
    refine ⟨u', hu', ⟨⟨hi', hfl', hfr.fifosize.trans hfs⟩, hfr.xChar.trans hx⟩,
      hfr.txStopped.trans hs, ?_⟩
    rw [hring, hfs, List.drop_eq_nil_iff, Uart.ring, CircBuf.length_contents, Uart.pending]
    omega

/-- Every operation is possible, and from a drained ring it leaves the ring drained exactly
when it fits. -/
theorem coreStep_drained_iff {room : ℕ → Bool} {fifosize : ℕ} (hf : fifosize < 2 ^ 31) {u : Uart}
    (h : CoreInv room fifosize u) (op : CoreOp) :
    ∃ u', coreStep room u op = some u' ∧ CoreInv room fifosize u' ∧
      (Drained u → (Drained u' ↔ Fits u op)) := by
  obtain ⟨⟨hi, hfl, hfs⟩, hx⟩ := id h
  cases op with
  | write bs =>
    obtain ⟨hi', -, hring, hx', hst', hfs', hfl'⟩ := uartWrite_spec bs hi
    have hinv : CoreInv room fifosize (uartWrite u bs) :=
      ⟨⟨hi', hfl'.trans hfl, hfs'.trans hfs⟩, hx'.trans hx⟩
    cases hst : u.port.txStopped with
    | true =>
      have hst'' : (uartWrite u bs).port.txStopped = true := hst'.trans hst
      exact ⟨_, virtUartStartTx_idle hinv.xChar (.inr hst''), hinv,
        fun _ => by simp [Drained, Fits, hst, hst'']⟩
    | false =>
      obtain ⟨u', hu', hinv', hs', hiff⟩ := startTx_drains_iff hf hinv (hst'.trans hst)
      refine ⟨u', hu', hinv', fun hd => ?_⟩
      have hpend : (uartWrite u bs).pending = min bs.length u.space := by
        rw [Uart.pending, ← CircBuf.length_contents, ← Uart.ring, hring, hd hst]
        simp [Nat.min_comm]
      simp only [Drained, Fits, hs', hst, forall_const, hiff, hpend, hfs]
  | sendXChar c =>
    by_cases hc : c = 0
    · subst hc
      refine ⟨u, ?_, h, fun hd => by simpa [Fits] using hd⟩
      simp [coreStep, ← hx]
    · have hi' : Inv room { u with port := { u.port with xChar := c } } := by
        obtain ⟨hwf, hfifo, hdel, hover, htx⟩ := hi
        exact ⟨hwf, hfifo, hdel, hover, htx⟩
      obtain ⟨u', hu', hi', hx', hring, hst, hfs', hfl'⟩ := virtUartStartTx_xChar hi' hc
      refine ⟨u', ?_, ⟨⟨hi', hfl'.trans hfl, hfs'.trans hfs⟩, hx'⟩, fun hd => ?_⟩
      · rw [coreStep, if_pos hc]
        exact hu'
      · have hd' : Drained u' := fun hs => hring.trans (hd (hst.symm.trans hs))
        simpa [Fits] using hd'
  | stop =>
    obtain ⟨hwf, hfifo, hdel, hover, htx⟩ := hi
    exact ⟨_, rfl, ⟨⟨⟨hwf, hfifo, hdel, hover, htx⟩, hfl, hfs⟩, hx⟩,
      fun _ => by simp [Drained, Fits]⟩
  | start =>
    cases hst : u.port.txStopped with
    | true =>
      have hinv : CoreInv room fifosize { u with port := { u.port with txStopped := false } } := by
        obtain ⟨hwf, hfifo, hdel, hover, htx⟩ := hi
        exact ⟨⟨⟨hwf, hfifo, hdel, hover, htx⟩, hfl, hfs⟩, hx⟩
      obtain ⟨u', hu', hinv', hs', hiff⟩ := startTx_drains_iff hf hinv rfl
      refine ⟨u', by rw [coreStep, if_pos hst]; exact hu', hinv', fun _ => ?_⟩
      simp only [Drained, Fits, hs', hst, forall_const, hiff, hfs]
      rfl
    | false => exact ⟨u, by simp [coreStep, hst], h, fun hd => by simpa [Fits, hst] using hd⟩

theorem CoreInv.probe (room : ℕ → Bool) : CoreInv room 32 virtUartProbe :=
  ⟨⟨.init room 32, rfl, rfl⟩, rfl⟩

/-- Every run of the port `virt_uart_probe` adds goes through, and between its operations
no byte is left in the ring of a running transmitter if and only if no `start_tx` of the
run finds more than 32 bytes to send. -/
theorem drained_iff (room : ℕ → Bool) (ops : List CoreOp) :
    (∃ u, Transition.run (coreStep room) virtUartProbe ops = some u) ∧
      (Transition.Always (coreStep room) (fun _ _ u' => Drained u') virtUartProbe ops ↔
        Transition.Always (coreStep room) (fun u op _ => Fits u op) virtUartProbe ops) := by
  have hf : 32 < 2 ^ 31 := by decide
  constructor
  · obtain ⟨u, hrun, -⟩ := Transition.exists_run (I := CoreInv room 32) (fun u op h =>
      let ⟨u', hu', h', _⟩ := coreStep_drained_iff hf h op
      ⟨u', hu', h'⟩) ops (.probe room)
    exact ⟨u, hrun⟩
  · refine Transition.always_congr (I := fun u => CoreInv room 32 u ∧ Drained u) ?_ ?_
      ⟨.probe room, fun _ => ?_⟩
    · rintro u op u' ⟨h, hd⟩ hstep
      obtain ⟨v, hv, -, hiff⟩ := coreStep_drained_iff hf h op
      obtain rfl := Option.some.inj (hv.symm.trans hstep)
      exact hiff hd
    · rintro u op u' ⟨h, -⟩ hstep hd'
      obtain ⟨v, hv, h', -⟩ := coreStep_drained_iff hf h op
      obtain rfl := Option.some.inj (hv.symm.trans hstep)
      exact ⟨h', hd'⟩
    · exact (CoreInv.probe room).run.inv.wf.contents_eq_nil_iff.mpr rfl

/-- One write of 33 bytes leaves a byte in the ring. -/
theorem burst_not_drained :
    ¬∀ (room : ℕ → Bool) (ops : List CoreOp),
      Transition.Always (coreStep room) (fun _ _ u' => Drained u') virtUartProbe ops := by
  intro h
  have hinv := CoreInv.probe fun _ => true
  obtain ⟨u', hu', -, hiff⟩ :=
    coreStep_drained_iff (by decide) hinv (.write (List.replicate 33 0))
  have hd : Drained virtUartProbe := fun _ => hinv.run.inv.wf.contents_eq_nil_iff.mpr rfl
  have hfits := (hiff hd).mp (h (fun _ => true) [.write (List.replicate 33 0)] u' hu').1 rfl
  have hspace : virtUartProbe.space = 4095 := by
    simp [Uart.space, virtUartProbe, uartInit, CircBuf.space, CircBuf.cnt, uartXmitSize]
  have hsize : virtUartProbe.port.fifosize = 32 := rfl
  rw [hspace, hsize, List.length_replicate] at hfits
  omega

end VirtUart

end LinuxDriverKb
