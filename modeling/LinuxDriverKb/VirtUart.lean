import Mathlib.Data.List.Induction
import LinuxDriverKb.Lib.CInt
import LinuxDriverKb.Lib.CircBuf
import LinuxDriverKb.Lib.Transition
import LinuxDriverKb.Lib.WhileLoop

/-!
# The loopback UART of `serial-virt.c`

`virt_uart_start_tx` hands the bytes of the transmit ring to the receive side of the same
port. It serves a pending `x_char` first and returns; otherwise, unless the ring is empty
or the transmitter stopped, a do-while loop takes one byte a round until the ring is empty
or `count`, started from `fifosize`, has run down.

The serial core stores written bytes in the ring, sets `x_char`, stops and starts the
transmitter, and calls `start_tx`. `room k` says whether the `k`-th call of
`tty_insert_flip_char` finds room in the flip buffer. `History` is not part of the
driver : it logs the bytes written and taken and the `x_char`s handled.

`Inv` ties them together on every run : the bytes taken followed by the pending ones are
the bytes written, what the receive side got are the taken bytes that found room, and the
32-bit counters count modulo `2 ^ 32`.
-/

set_option autoImplicit false

namespace LinuxDriverKb

open CInt

namespace VirtUart

/-! ## The port -/

/-- `UART_XMIT_SIZE`, a page. -/
def uartXmitSize : ℕ := 4096

/-- `WAKEUP_CHARS`. -/
def wakeupChars : ℕ := 256

/-- `struct uart_port`, with its transmit ring, its counters, and the receive side. -/
structure Port where
  xmit : CircBuf UInt8
  xChar : UInt8
  /-- `uart_tx_stopped`. -/
  txStopped : Bool
  fifosize : ℕ
  /-- `icount.tx`, a `__u32`. -/
  icountTx : ℕ
  /-- `icount.buf_overrun`, a `__u32`. -/
  icountBufOverrun : ℕ
  /-- Bytes in the flip buffer. -/
  flip : List UInt8
  /-- Bytes pushed to the line discipline. -/
  received : List UInt8
  /-- Calls of `uart_write_wakeup`. -/
  wakeups : ℕ

/-- What happened so far. -/
structure History where
  written : List UInt8
  taken : List UInt8
  xHandled : ℕ

/-- The port and its history. -/
structure Uart where
  port : Port
  hist : History

/-- A zeroed port, with nothing written yet. -/
def uartInit (fifosize : ℕ) : Uart where
  port := ⟨⟨fun _ => 0, 0, 0⟩, 0, false, fifosize, 0, 0, [], [], 0⟩
  hist := ⟨[], [], 0⟩

/-- `virt_uart_probe` : the port it adds has `fifosize` 32. -/
def virtUartProbe : Uart :=
  uartInit 32

/-- `uart_circ_empty`. -/
def uartCircEmpty (b : CircBuf UInt8) : Bool :=
  b.head == b.tail

/-- `virt_uart_tx_empty`. -/
def virtUartTxEmpty (u : Uart) : Bool :=
  uartCircEmpty u.port.xmit

/-- Bytes pending in the transmit ring, `uart_circ_chars_pending`. -/
def Uart.pending (u : Uart) : ℕ :=
  u.port.xmit.pending uartXmitSize

/-- The pending bytes, the oldest first. -/
def Uart.ring (u : Uart) : List UInt8 :=
  u.port.xmit.contents uartXmitSize

/-- Room left in the transmit ring. -/
def Uart.space (u : Uart) : ℕ :=
  u.port.xmit.space uartXmitSize

/-! ## `virt_uart_start_tx` -/

/-- `uart_insert_char` with status 0 : one `tty_insert_flip_char`, counted in
`buf_overrun` when it fails. -/
def uartInsertChar (room : Bool) (p : Port) (ch : UInt8) : Port :=
  if room then { p with flip := p.flip ++ [ch] }
  else { p with icountBufOverrun := inc32 p.icountBufOverrun }

/-- The body of the do-while loop up to its first test : insert the byte at `tail`,
advance `tail`, count. -/
def takeChar (room : ℕ → Bool) (u : Uart) : Uart :=
  let ch := u.port.xmit.buf u.port.xmit.tail
  let p := uartInsertChar (room u.hist.taken.length) u.port ch
  { port :=
      { p with
        xmit := { p.xmit with tail := (p.xmit.tail + 1) &&& (uartXmitSize - 1) }
        icountTx := inc32 p.icountTx }
    hist := { u.hist with taken := u.hist.taken ++ [ch] } }

/-- One round of the do-while loop, on the port and `count`. -/
def txLoopBody (room : ℕ → Bool) (s : Uart × ℤ) : Uart × ℤ ⊕ Uart :=
  let u := takeChar room s.1
  if uartCircEmpty u.port.xmit then .inr u
  else if toInt32 (s.2 - 1) > 0 then .inl (u, toInt32 (s.2 - 1))
  else .inr u

/-- `tty_flip_buffer_push`. -/
def ttyFlipBufferPush (p : Port) : Port :=
  { p with received := p.received ++ p.flip, flip := [] }

/-- After the loop : wake up writers once few bytes are pending, push the flip buffer. -/
def finishTx (u : Uart) : Uart :=
  let p := if u.pending < wakeupChars then { u.port with wakeups := u.port.wakeups + 1 } else u.port
  { u with port := ttyFlipBufferPush p }

/-- `virt_uart_start_tx`. The loop gets a round for every cell of the ring; `none` if it
were still running after them. -/
def virtUartStartTx (room : ℕ → Bool) (u : Uart) : Option Uart :=
  if u.port.xChar ≠ 0 then
    some
      { port := { u.port with icountTx := inc32 u.port.icountTx, xChar := 0 }
        hist := { u.hist with xHandled := u.hist.xHandled + 1 } }
  else if uartCircEmpty u.port.xmit || u.port.txStopped then some u
  else (WhileLoop.iter (txLoopBody room) uartXmitSize (u, toInt32 u.port.fifosize)).map finishTx

/-! ## The serial core -/

/-- Store one byte at `head`. -/
def Uart.store (u : Uart) (b : UInt8) : Uart where
  port := { u.port with xmit := u.port.xmit.put uartXmitSize b }
  hist := { u.hist with written := u.hist.written ++ [b] }

/-- `uart_write` : store the bytes while there is room. -/
def uartWrite (u : Uart) : List UInt8 → Uart
  | [] => u
  | b :: bs => if 0 < u.space then uartWrite (u.store b) bs else u

/-- The steps of the serial core, one by one. -/
inductive Op
  | write (bs : List UInt8)
  | setXChar (c : UInt8)
  | stop
  | start
  | startTx

/-- One operation. -/
def step (room : ℕ → Bool) (u : Uart) : Op → Option Uart
  | .write bs => some (uartWrite u bs)
  | .setXChar c => some { u with port := { u.port with xChar := c } }
  | .stop => some { u with port := { u.port with txStopped := true } }
  | .start => some { u with port := { u.port with txStopped := false } }
  | .startTx => virtUartStartTx room u

/-! ## The invariant -/

/-- The bytes of `bs` whose `tty_insert_flip_char` found room, in order. -/
def delivered (room : ℕ → Bool) (bs : List UInt8) : List UInt8 :=
  (bs.zipIdx.filter fun p => room p.2).map Prod.fst

/-- Number of the first `n` calls of `tty_insert_flip_char` that failed. -/
def lost (room : ℕ → Bool) (n : ℕ) : ℕ :=
  (List.range n).countP fun k => !room k

theorem delivered_snoc (room : ℕ → Bool) (bs : List UInt8) (b : UInt8) :
    delivered room (bs ++ [b]) =
      if room bs.length then delivered room bs ++ [b] else delivered room bs := by
  unfold delivered
  rw [List.zipIdx_append, List.filter_append, List.map_append]
  split_ifs with h <;> simp [h]

theorem lost_succ (room : ℕ → Bool) (n : ℕ) :
    lost room (n + 1) = if room n then lost room n else lost room n + 1 := by
  unfold lost
  rw [List.range_succ, List.countP_append]
  split_ifs with h <;> simp [h]

/-- The ring, the counters, and the receive side agree with the history. -/
structure Inv (room : ℕ → Bool) (u : Uart) : Prop where
  wf : u.port.xmit.Wf uartXmitSize
  fifo : u.hist.taken ++ u.ring = u.hist.written
  deliver : u.port.received ++ u.port.flip = delivered room u.hist.taken
  overrun : u.port.icountBufOverrun = lost room u.hist.taken.length % 2 ^ 32
  tx : u.port.icountTx = (u.hist.taken.length + u.hist.xHandled) % 2 ^ 32

/-- The fields that taking bytes leaves alone. -/
structure Frame (u u' : Uart) : Prop where
  xChar : u'.port.xChar = u.port.xChar
  txStopped : u'.port.txStopped = u.port.txStopped
  fifosize : u'.port.fifosize = u.port.fifosize
  written : u'.hist.written = u.hist.written
  xHandled : u'.hist.xHandled = u.hist.xHandled

theorem Frame.refl (u : Uart) : Frame u u :=
  ⟨rfl, rfl, rfl, rfl, rfl⟩

theorem Frame.trans {u v w : Uart} (h : Frame u v) (h' : Frame v w) : Frame u w :=
  ⟨h'.xChar.trans h.xChar, h'.txStopped.trans h.txStopped, h'.fifosize.trans h.fifosize,
    h'.written.trans h.written, h'.xHandled.trans h.xHandled⟩

theorem Inv.init (room : ℕ → Bool) (fifosize : ℕ) : Inv room (uartInit fifosize) := by
  have hwf : (uartInit fifosize).port.xmit.Wf uartXmitSize :=
    ⟨by simp [uartInit, uartXmitSize], by simp [uartInit, uartXmitSize]⟩
  have hring : (uartInit fifosize).ring = [] := hwf.contents_eq_nil_iff.mpr rfl
  refine ⟨hwf, ?_, ?_, ?_, ?_⟩
  · rw [hring]
    rfl
  · rfl
  · simp [uartInit, lost]
  · simp [uartInit]

/-- Taking a byte pops the ring. -/
theorem takeChar_xmit (room : ℕ → Bool) (u : Uart) :
    (takeChar room u).port.xmit = u.port.xmit.pop uartXmitSize := by
  have hand : ∀ x : ℕ, x &&& (uartXmitSize - 1) = x % uartXmitSize :=
    fun x => Nat.and_two_pow_sub_one_eq_mod x 12
  unfold takeChar uartInsertChar CircBuf.pop
  simp only [hand]
  split_ifs <;> rfl

theorem takeChar_frame (room : ℕ → Bool) (u : Uart) : Frame u (takeChar room u) := by
  unfold takeChar uartInsertChar
  split_ifs <;> exact ⟨rfl, rfl, rfl, rfl, rfl⟩

theorem takeChar_length (room : ℕ → Bool) (u : Uart) :
    (takeChar room u).hist.taken.length = u.hist.taken.length + 1 := by
  simp [takeChar]

/-- A taken byte moves from the ring to the history, and to the flip buffer or the
overrun count. -/
theorem takeChar_inv {room : ℕ → Bool} {u : Uart} (h : Inv room u)
    (hne : u.port.xmit.head ≠ u.port.xmit.tail) : Inv room (takeChar room u) := by
  obtain ⟨hwf, hfifo, hdel, hover, htx⟩ := h
  have htaken : (takeChar room u).hist.taken =
      u.hist.taken ++ [u.port.xmit.buf u.port.xmit.tail] := rfl
  refine ⟨?_, ?_, ?_, ?_, ?_⟩
  · rw [takeChar_xmit]
    exact hwf.pop
  · rw [Uart.ring, hwf.contents_of_ne hne] at hfifo
    rw [Uart.ring, takeChar_xmit, htaken, (takeChar_frame room u).written, ← hfifo]
    simp
  · rw [htaken, delivered_snoc]
    unfold takeChar uartInsertChar
    split_ifs with hroom
    · simp [← hdel]
    · simp [← hdel]
  · rw [takeChar_length, lost_succ]
    unfold takeChar uartInsertChar
    split_ifs with hroom
    · exact hover
    · simp only [hover]
      exact inc32_mod _
  · rw [takeChar_length, (takeChar_frame room u).xHandled]
    have htx' : (takeChar room u).port.icountTx = inc32 u.port.icountTx := by
      unfold takeChar uartInsertChar
      split_ifs <;> rfl
    rw [htx', htx, inc32_mod]
    congr 1
    omega

/-! ## One call of `start_tx` -/

theorem uartCircEmpty_iff (b : CircBuf UInt8) : uartCircEmpty b = true ↔ b.head = b.tail := by
  simp [uartCircEmpty]

/-- `virt_uart_tx_empty` says whether every written byte has been taken. -/
theorem virtUartTxEmpty_iff {room : ℕ → Bool} {u : Uart} (hi : Inv room u) :
    virtUartTxEmpty u = true ↔ u.hist.taken = u.hist.written := by
  rw [virtUartTxEmpty, uartCircEmpty_iff, ← hi.wf.contents_eq_nil_iff, ← hi.fifo]
  exact List.self_eq_append_right.symm

/-- The do-while loop from a non-empty ring takes `min pending (max 1 count)` bytes. -/
theorem txLoop_spec {room : ℕ → Bool} {u : Uart} {c : ℤ} (hi : Inv room u)
    (hne : u.port.xmit.head ≠ u.port.xmit.tail) (hc : 0 ≤ c ∧ c < 2 ^ 31) :
    ∃ u', WhileLoop.iter (txLoopBody room) uartXmitSize (u, c) = some u' ∧
      Inv room u' ∧ Frame u u' ∧
      u'.hist.taken.length = u.hist.taken.length + min u.pending (max 1 c.toNat) := by
  -- bytes taken and bytes this call will still take add up to a constant
  refine WhileLoop.iter_spec (I := fun s => Inv room s.1 ∧ Frame u s.1 ∧
    s.1.port.xmit.head ≠ s.1.port.xmit.tail ∧ (0 ≤ s.2 ∧ s.2 < 2 ^ 31) ∧
    s.1.hist.taken.length + min s.1.pending (max 1 s.2.toNat) =
      u.hist.taken.length + min u.pending (max 1 c.toNat))
    (fun s => s.1.pending) ?_ ?_ ⟨hi, .refl u, hne, hc, rfl⟩ ?_
  · rintro ⟨v, k⟩ s' ⟨hv, hfr, hvne, hk, hsum⟩ hbody
    dsimp only at hv hfr hvne hk hsum
    have hpop := hv.wf.pending_pop hvne
    have hinv := takeChar_inv hv hvne
    unfold txLoopBody at hbody
    simp only [toInt32_eq (by omega : -2 ^ 31 ≤ k - 1) (by omega)] at hbody
    split_ifs at hbody with hempty hpos
    cases hbody
    rw [uartCircEmpty_iff] at hempty
    dsimp only [Uart.pending] at hsum ⊢
    rw [takeChar_length, takeChar_xmit]
    exact ⟨⟨hinv, hfr.trans (takeChar_frame room v), by rwa [← takeChar_xmit],
      ⟨by omega, by omega⟩, by omega⟩, by omega⟩
  · rintro ⟨v, k⟩ r ⟨hv, hfr, hvne, hk, hsum⟩ hbody
    dsimp only at hv hfr hvne hk hsum
    have hpop := hv.wf.pending_pop hvne
    have hinv := takeChar_inv hv hvne
    have hframe := hfr.trans (takeChar_frame room v)
    unfold txLoopBody at hbody
    simp only [toInt32_eq (by omega : -2 ^ 31 ≤ k - 1) (by omega)] at hbody
    split_ifs at hbody with hempty hpos
    · cases hbody
      rw [uartCircEmpty_iff, ← hinv.wf.pending_eq_zero_iff, takeChar_xmit] at hempty
      dsimp only [Uart.pending] at hsum ⊢
      rw [takeChar_length]
      exact ⟨hinv, hframe, by omega⟩
    · cases hbody
      dsimp only [Uart.pending] at hsum ⊢
      rw [takeChar_length]
      exact ⟨hinv, hframe, by omega⟩
  · have hlt := hi.wf.pending_add_space
    have hn : uartXmitSize = 4096 := rfl
    show u.port.xmit.pending uartXmitSize < uartXmitSize
    omega

theorem finishTx_inv {room : ℕ → Bool} {u : Uart} (h : Inv room u) : Inv room (finishTx u) := by
  obtain ⟨hwf, hfifo, hdel, hover, htx⟩ := h
  unfold finishTx ttyFlipBufferPush
  split_ifs <;> exact ⟨hwf, hfifo, by simpa using hdel, hover, htx⟩

theorem finishTx_frame (u : Uart) : Frame u (finishTx u) := by
  unfold finishTx ttyFlipBufferPush
  split_ifs <;> exact ⟨rfl, rfl, rfl, rfl, rfl⟩

theorem finishTx_flip (u : Uart) : (finishTx u).port.flip = [] :=
  rfl

/-- With the bytes written fixed, the number of bytes taken fixes which were taken and
which are left. -/
theorem Inv.take_ring {room : ℕ → Bool} {u u' : Uart} (h : Inv room u) (h' : Inv room u')
    (hw : u'.hist.written = u.hist.written) {k : ℕ}
    (hlen : u'.hist.taken.length = u.hist.taken.length + k) (hk : k ≤ u.ring.length) :
    u'.hist.taken = u.hist.taken ++ u.ring.take k ∧ u'.ring = u.ring.drop k := by
  have heq : u'.hist.taken ++ u'.ring = (u.hist.taken ++ u.ring.take k) ++ u.ring.drop k := by
    rw [h'.fifo, hw, ← h.fifo, List.append_assoc, List.take_append_drop]
  exact List.append_inj heq (by simp [hlen]; omega)

/-- The `x_char` branch. -/
theorem virtUartStartTx_xChar {room : ℕ → Bool} {u : Uart} (hi : Inv room u)
    (hx : u.port.xChar ≠ 0) :
    ∃ u', virtUartStartTx room u = some u' ∧ Inv room u' ∧ u'.port.xChar = 0 ∧
      u'.ring = u.ring ∧ u'.port.txStopped = u.port.txStopped ∧
      u'.port.fifosize = u.port.fifosize ∧ u'.port.flip = u.port.flip := by
  obtain ⟨hwf, hfifo, hdel, hover, htx⟩ := hi
  refine ⟨_, if_pos hx, ⟨hwf, hfifo, hdel, hover, ?_⟩, rfl, rfl, rfl, rfl, rfl⟩
  simp only [htx, inc32_mod]
  rfl

/-- With nothing to send, or stopped, the call does nothing. -/
theorem virtUartStartTx_idle {room : ℕ → Bool} {u : Uart} (hx : u.port.xChar = 0)
    (h : u.port.xmit.head = u.port.xmit.tail ∨ u.port.txStopped = true) :
    virtUartStartTx room u = some u := by
  have hidle : (uartCircEmpty u.port.xmit || u.port.txStopped) = true := by
    rw [Bool.or_eq_true, uartCircEmpty_iff]
    exact h
  rw [virtUartStartTx, if_neg (by simpa using hx), if_pos hidle]

/-- With bytes pending and the transmitter running the call takes `min pending
(max 1 fifosize)` of them, pushes the flip buffer, and leaves the rest in the ring. -/
theorem virtUartStartTx_take {room : ℕ → Bool} {u : Uart} (hi : Inv room u)
    (hf : u.port.fifosize < 2 ^ 31) (hx : u.port.xChar = 0)
    (hne : u.port.xmit.head ≠ u.port.xmit.tail) (hs : u.port.txStopped = false) :
    ∃ u', virtUartStartTx room u = some u' ∧ Inv room u' ∧ Frame u u' ∧ u'.port.flip = [] ∧
      u'.hist.taken =
        u.hist.taken ++ u.ring.take (min u.pending (max 1 u.port.fifosize)) ∧
      u'.ring = u.ring.drop (min u.pending (max 1 u.port.fifosize)) := by
  have hbusy : ¬(uartCircEmpty u.port.xmit || u.port.txStopped) = true := by
    rw [Bool.or_eq_true, uartCircEmpty_iff, hs]
    simpa using hne
  have hcount : toInt32 u.port.fifosize = u.port.fifosize := toInt32_eq (by omega) (by omega)
  obtain ⟨v, hv, hinv, hframe, hlen⟩ := txLoop_spec (c := u.port.fifosize) hi hne (by omega)
  rw [Int.toNat_natCast] at hlen
  have hinv' := finishTx_inv hinv
  have hframe' := hframe.trans (finishTx_frame v)
  refine ⟨finishTx v, ?_, hinv', hframe', finishTx_flip v,
    hi.take_ring hinv' hframe'.written hlen ?_⟩
  · rw [virtUartStartTx, if_neg (by simpa using hx), if_neg hbusy, hcount, hv]
    rfl
  · rw [Uart.ring, CircBuf.length_contents]
    exact Nat.min_le_left _ _

/-! ## Writes -/

theorem Inv.store {room : ℕ → Bool} {u : Uart} (h : Inv room u) (hs : 0 < u.space) (b : UInt8) :
    Inv room (u.store b) := by
  obtain ⟨hwf, hfifo, hdel, hover, htx⟩ := h
  refine ⟨hwf.put b, ?_, hdel, hover, htx⟩
  simp only [Uart.store, Uart.ring] at hfifo ⊢
  rw [hwf.contents_put hs, ← List.append_assoc, hfifo]

/-- A write stores its first `space` bytes behind the pending ones. -/
theorem uartWrite_spec {room : ℕ → Bool} : ∀ {u : Uart} (bs : List UInt8), Inv room u →
    Inv room (uartWrite u bs) ∧
      (uartWrite u bs).hist.written = u.hist.written ++ bs.take u.space ∧
      (uartWrite u bs).ring = u.ring ++ bs.take u.space ∧
      (uartWrite u bs).port.xChar = u.port.xChar ∧
      (uartWrite u bs).port.txStopped = u.port.txStopped ∧
      (uartWrite u bs).port.fifosize = u.port.fifosize ∧
      (uartWrite u bs).port.flip = u.port.flip
  | u, [], h => by simp [uartWrite, h]
  | u, b :: bs, h => by
    rcases Nat.eq_zero_or_pos u.space with hs | hs
    · simp [uartWrite, hs, h]
    · have hsum := h.wf.pending_add_space
      have hsum' := (h.store hs b).wf.pending_add_space
      have hput : (u.store b).ring = u.ring ++ [b] := h.wf.contents_put hs b
      have hpend : (u.store b).pending = u.pending + 1 := h.wf.pending_put hs b
      have hspace : u.space = (u.store b).space + 1 := by
        unfold Uart.space Uart.pending at *
        omega
      obtain ⟨hinv, hw, hr, hx, hst, hf, hfl⟩ := uartWrite_spec bs (h.store hs b)
      rw [uartWrite, if_pos hs, hspace, List.take_succ_cons]
      refine ⟨hinv, ?_, ?_, hx, hst, hf, hfl⟩
      · rw [hw]
        simp [Uart.store]
      · rw [hr, hput]
        simp

/-! ## Runs -/

/-- Between the steps of the serial core : `Inv`, and the flip buffer is pushed. -/
structure RunInv (room : ℕ → Bool) (fifosize : ℕ) (u : Uart) : Prop where
  inv : Inv room u
  flip : u.port.flip = []
  fifosize_eq : u.port.fifosize = fifosize

theorem virtUartStartTx_runInv {room : ℕ → Bool} {fifosize : ℕ} (hf : fifosize < 2 ^ 31)
    {u : Uart} (h : RunInv room fifosize u) :
    ∃ u', virtUartStartTx room u = some u' ∧ RunInv room fifosize u' := by
  obtain ⟨hi, hfl, hfs⟩ := h
  by_cases hx : u.port.xChar = 0
  · by_cases hidle : u.port.xmit.head = u.port.xmit.tail ∨ u.port.txStopped = true
    · exact ⟨u, virtUartStartTx_idle hx hidle, hi, hfl, hfs⟩
    · rw [not_or, Bool.not_eq_true] at hidle
      obtain ⟨u', hu', hi', hfr, hfl', -⟩ :=
        virtUartStartTx_take hi (by omega) hx hidle.1 hidle.2
      exact ⟨u', hu', hi', hfl', hfr.fifosize.trans hfs⟩
  · obtain ⟨u', hu', hi', -, -, -, hfs', hfl'⟩ := virtUartStartTx_xChar hi hx
    exact ⟨u', hu', hi', hfl'.trans hfl, hfs'.trans hfs⟩

theorem step_runInv {room : ℕ → Bool} {fifosize : ℕ} (hf : fifosize < 2 ^ 31) (u : Uart)
    (op : Op) (h : RunInv room fifosize u) :
    ∃ u', step room u op = some u' ∧ RunInv room fifosize u' := by
  cases op with
  | write bs =>
    obtain ⟨hi, -, -, -, -, hfs, hfl⟩ := uartWrite_spec bs h.inv
    exact ⟨_, rfl, hi, hfl.trans h.flip, hfs.trans h.fifosize_eq⟩
  | setXChar c =>
    obtain ⟨⟨hwf, hfifo, hdel, hover, htx⟩, hfl, hfs⟩ := h
    exact ⟨_, rfl, ⟨hwf, hfifo, hdel, hover, htx⟩, hfl, hfs⟩
  | stop =>
    obtain ⟨⟨hwf, hfifo, hdel, hover, htx⟩, hfl, hfs⟩ := h
    exact ⟨_, rfl, ⟨hwf, hfifo, hdel, hover, htx⟩, hfl, hfs⟩
  | start =>
    obtain ⟨⟨hwf, hfifo, hdel, hover, htx⟩, hfl, hfs⟩ := h
    exact ⟨_, rfl, ⟨hwf, hfifo, hdel, hover, htx⟩, hfl, hfs⟩
  | startTx => exact virtUartStartTx_runInv hf h

theorem length_delivered_add_lost (room : ℕ → Bool) (bs : List UInt8) :
    (delivered room bs).length + lost room bs.length = bs.length := by
  induction bs using List.reverseRecOn with
  | nil => rfl
  | append_singleton bs b ih =>
    rw [delivered_snoc, List.length_append, List.length_singleton, lost_succ]
    split_ifs
    · rw [List.length_append, List.length_singleton]
      omega
    · omega

/-- The UART is an order-preserving FIFO. Every run goes through, with the indices in the
ring, the bytes taken and pending those written, the taken bytes received in order or lost
to a full flip buffer, and the counters exact modulo `2 ^ 32`. From every state it
reaches, a `start_tx` with bytes to send takes `min pending (max 1 fifosize)` of them. -/
theorem virtUart_fifo {fifosize : ℕ} (hf : fifosize < 2 ^ 31) (room : ℕ → Bool) (ops : List Op) :
    ∃ u, Transition.run (step room) (uartInit fifosize) ops = some u ∧
      u.port.xmit.head < uartXmitSize ∧ u.port.xmit.tail < uartXmitSize ∧
      u.hist.taken ++ u.ring = u.hist.written ∧
      u.port.received = delivered room u.hist.taken ∧
      u.port.received.length + lost room u.hist.taken.length = u.hist.taken.length ∧
      u.port.icountBufOverrun = lost room u.hist.taken.length % 2 ^ 32 ∧
      u.port.icountTx = (u.hist.taken.length + u.hist.xHandled) % 2 ^ 32 ∧
      (u.port.xChar = 0 → u.port.xmit.head ≠ u.port.xmit.tail → u.port.txStopped = false →
        ∃ u', virtUartStartTx room u = some u' ∧
          u'.hist.taken = u.hist.taken ++ u.ring.take (min u.pending (max 1 fifosize))) := by
  obtain ⟨u, hrun, hi, hfl, hfs⟩ := Transition.exists_run (step_runInv hf) ops
    (s := uartInit fifosize) ⟨.init room fifosize, rfl, rfl⟩
  have hrec : u.port.received = delivered room u.hist.taken := by
    rw [← hi.deliver, hfl, List.append_nil]
  refine ⟨u, hrun, hi.wf.head_lt, hi.wf.tail_lt, hi.fifo, hrec, ?_, hi.overrun, hi.tx, ?_⟩
  · rw [hrec]
    exact length_delivered_add_lost room u.hist.taken
  · intro hx hne hs
    obtain ⟨u', hu', -, -, -, htaken, -⟩ := virtUartStartTx_take hi (by omega) hx hne hs
    exact ⟨u', hu', by rw [htaken, hfs]⟩

/-- The port of `virt_uart_probe`, with every second byte finding no room. -/
theorem virtUart_fifo_probe :
    ∃ u, Transition.run (step fun k => k % 2 == 0) (uartInit 32)
        [.write [1, 2, 3], .setXChar 17, .startTx, .startTx] = some u ∧
      u.hist.taken ++ u.ring = u.hist.written ∧
      u.port.received = delivered (fun k => k % 2 == 0) u.hist.taken := by
  obtain ⟨u, hrun, -, -, hfifo, hrec, -⟩ := virtUart_fifo (show 32 < 2 ^ 31 by decide)
    (fun k => k % 2 == 0) [.write [1, 2, 3], .setXChar 17, .startTx, .startTx]
  exact ⟨u, hrun, hfifo, hrec⟩

/-- `n` requests to send an `x_char`. -/
theorem run_xChars (room : ℕ → Bool) (fifosize : ℕ) : ∀ n : ℕ, ∃ ops u,
    Transition.run (step room) (uartInit fifosize) ops = some u ∧ u.hist.taken = [] ∧
      u.hist.xHandled = n ∧ u.port.icountTx = n % 2 ^ 32
  | 0 => ⟨[], uartInit fifosize, rfl, rfl, rfl, rfl⟩
  | n + 1 => by
    obtain ⟨ops, u, hrun, htaken, hx, htx⟩ := run_xChars room fifosize n
    refine ⟨ops ++ [.setXChar 17, .startTx],
      { port := { u.port with icountTx := inc32 u.port.icountTx, xChar := 0 }
        hist := { u.hist with xHandled := u.hist.xHandled + 1 } },
      ?_, htaken, congrArg (· + 1) hx, ?_⟩
    · rw [Transition.run_append, hrun]
      rfl
    · simp only [htx, inc32_mod]

/-- The counter `icount.tx` itself is not the number of bytes and `x_char`s sent : after
`2 ^ 32` of them it is back at 0. -/
theorem icountTx_wraps :
    ¬∀ (fifosize : ℕ) (room : ℕ → Bool) (ops : List Op) (u : Uart), fifosize < 2 ^ 31 →
      Transition.run (step room) (uartInit fifosize) ops = some u →
      u.port.icountTx = u.hist.taken.length + u.hist.xHandled := by
  intro h
  obtain ⟨ops, u, hrun, htaken, hx, htx⟩ := run_xChars (fun _ => true) 32 (2 ^ 32)
  have := h 32 (fun _ => true) ops u (by decide) hrun
  rw [htaken, hx, htx, List.length_nil] at this
  omega

end VirtUart

end LinuxDriverKb
