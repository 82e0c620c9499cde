import LinuxDriverKb.Lib.BitField
import Mathlib.Data.Int.Notation

/-!
# The serial port settings of chapter 24

`set_uart_opt` takes the settings of the port, makes them raw, replaces the speed and the
format of a character, and activates them. What is not supported gets a default. It sets
and clears bits of the flags one after the other.

`setUartOpt_run` : after any calls, with any failures, the port has the format that the last
successful call asked for, raw mode, and outside of these bits the flags it had at first. It
is as that call alone would have made it, but for the bit of the odd parity if it asked for
none.
-/

set_option autoImplicit false

namespace LinuxDriverKb

namespace SetUartOpt

open BitField

/-! ## `termios.h` -/

/-- `IGNBRK`. -/
def ignbrk : BitVec 32 := 0o1

/-- `BRKINT`. -/
def brkint : BitVec 32 := 0o2

/-- `PARMRK`. -/
def parmrk : BitVec 32 := 0o10

/-- `INPCK`. -/
def inpck : BitVec 32 := 0o20

/-- `ISTRIP`. -/
def istrip : BitVec 32 := 0o40

/-- `INLCR`. -/
def inlcr : BitVec 32 := 0o100

/-- `IGNCR`. -/
def igncr : BitVec 32 := 0o200

/-- `ICRNL`. -/
def icrnl : BitVec 32 := 0o400

/-- `IXON`. -/
def ixon : BitVec 32 := 0o2000

/-- The flag for the input speed 0. -/
def ibaud0 : BitVec 32 := 0o20000000000

/-- `OPOST`. -/
def opost : BitVec 32 := 0o1

/-- `ISIG`. -/
def isig : BitVec 32 := 0o1

/-- `ICANON`. -/
def icanon : BitVec 32 := 0o2

/-- `ECHO`. -/
def echo : BitVec 32 := 0o10

/-- `ECHONL`. -/
def echonl : BitVec 32 := 0o100

/-- `IEXTEN`. -/
def iexten : BitVec 32 := 0o100000

/-- `CBAUD`. -/
def cbaud : BitVec 32 := 0o10017

/-- `CSIZE`. -/
def csize : BitVec 32 := 0o60

/-- `CS7`. -/
def cs7 : BitVec 32 := 0o40

/-- `CS8`. -/
def cs8 : BitVec 32 := 0o60

/-- `CSTOPB`. -/
def cstopb : BitVec 32 := 0o100

/-- `PARENB`. -/
def parenb : BitVec 32 := 0o400

/-- `PARODD`. -/
def parodd : BitVec 32 := 0o1000

/-- `B2400`. -/
def b2400 : BitVec 32 := 0o13

/-- `B4800`. -/
def b4800 : BitVec 32 := 0o14

/-- `B9600`. -/
def b9600 : BitVec 32 := 0o15

/-- `B19200`. -/
def b19200 : BitVec 32 := 0o16

/-- `B38400`. -/
def b38400 : BitVec 32 := 0o17

/-- `B115200`. -/
def b115200 : BitVec 32 := 0o10002

/-- `B230400`. -/
def b230400 : BitVec 32 := 0o10003

/-- `VTIME`. -/
def vtime : ℕ := 5

/-- `VMIN`. -/
def vmin : ℕ := 6

/-- `struct termios`. -/
structure Termios where
  cIflag : BitVec 32
  cOflag : BitVec 32
  cCflag : BitVec 32
  cLflag : BitVec 32
  cLine : UInt8
  cCc : ℕ → UInt8
  cIspeed : BitVec 32
  cOspeed : BitVec 32

/-- A control character is set. -/
def Termios.withCc (t : Termios) (i : ℕ) (b : UInt8) : Termios :=
  { t with cCc := fun j => if j = i then b else t.cCc j }

/-- The input flags that `cfmakeraw` clears. -/
def rawIflag : BitVec 32 :=
  ignbrk ||| brkint ||| parmrk ||| istrip ||| inlcr ||| igncr ||| icrnl ||| ixon

/-- The local flags that it clears. -/
def rawLflag : BitVec 32 :=
  echo ||| echonl ||| icanon ||| isig ||| iexten

/-- `cfmakeraw`. -/
def cfmakeraw (t : Termios) : Termios :=
  let t := { t with
    cIflag := t.cIflag &&& ~~~rawIflag
    cOflag := t.cOflag &&& ~~~opost
    cLflag := t.cLflag &&& ~~~rawLflag
    cCflag := t.cCflag &&& ~~~(csize ||| parenb) ||| cs8 }
  (t.withCc vmin 1).withCc vtime 0

/-- A speed that is none is refused. -/
def cfsetispeed (speed : BitVec 32) (t : Termios) : Termios :=
  if speed &&& ~~~cbaud ≠ 0 then t
  else if speed = 0 then { t with cIspeed := speed, cIflag := t.cIflag ||| ibaud0 }
  else { t with
    cIspeed := speed
    cIflag := t.cIflag &&& ~~~ibaud0
    cCflag := t.cCflag &&& ~~~cbaud ||| speed }

/-- `cfsetospeed`, of the same speeds. -/
def cfsetospeed (speed : BitVec 32) (t : Termios) : Termios :=
  if speed &&& ~~~cbaud ≠ 0 then t
  else { t with cOspeed := speed, cCflag := t.cCflag &&& ~~~cbaud ||| speed }

/-! ## `uart.c` -/

/-- The parity of a character. -/
inductive Parity
  | none
  | odd
  | even
deriving DecidableEq

/-- The arguments. -/
structure Args where
  baudRate : ℤ
  dataBits : ℤ
  parity : Char
  stopBits : ℤ

/-- `speed`, by the switch on the baud rate. -/
def speed (baudRate : ℤ) : BitVec 32 :=
  if baudRate = 2400 then b2400
  else if baudRate = 4800 then b4800
  else if baudRate = 9600 then b9600
  else if baudRate = 19200 then b19200
  else if baudRate = 38400 then b38400
  else if baudRate = 230400 then b230400
  else b115200

/-- The case of the switch on the parity. -/
def parityCase (parity : Char) : Parity :=
  if parity = 'o' ∨ parity = 'O' then .odd
  else if parity = 'e' ∨ parity = 'E' then .even
  else .none

/-- The switch on the data bits. -/
def setDataBits (seven : Bool) (t : Termios) : Termios :=
  match seven with
  | true => { t with cCflag := t.cCflag ||| cs7 }
  | false => { t with cCflag := t.cCflag ||| cs8 }

/-- The switch on the parity. -/
def setParity (parity : Parity) (t : Termios) : Termios :=
  match parity with
  | .none => { t with cCflag := t.cCflag &&& ~~~parenb, cIflag := t.cIflag &&& ~~~inpck }
  | .odd => { t with cCflag := t.cCflag ||| (parodd ||| parenb), cIflag := t.cIflag ||| inpck }
  | .even =>
    { t with cCflag := (t.cCflag ||| parenb) &&& ~~~parodd, cIflag := t.cIflag ||| inpck }

/-- The switch on the stop bits. -/
def setStopBits (two : Bool) (t : Termios) : Termios :=
  match two with
  | true => { t with cCflag := t.cCflag ||| cstopb }
  | false => { t with cCflag := t.cCflag &&& ~~~cstopb }

/-- `new_cfg` with the cases of the switches. -/
def newCfgOf (speed : BitVec 32) (seven : Bool) (parity : Parity) (two : Bool) (t : Termios) :
    Termios :=
  let t := cfmakeraw t
  let t := { t with cCflag := t.cCflag &&& ~~~csize }
  let t := cfsetospeed speed (cfsetispeed speed t)
  let t := setStopBits two (setParity parity (setDataBits seven t))
  (t.withCc vtime 0).withCc vmin 1

/-- `new_cfg` from `old_cfg`. -/
def newCfg (c : Args) (t : Termios) : Termios :=
  newCfgOf (speed c.baudRate) (c.dataBits = 7) (parityCase c.parity) (c.stopBits = 2) t

/-- The port : its settings, and what is received and not read. -/
structure Port where
  termios : Termios
  input : List UInt8

/-- `set_uart_opt`; `tcgetattr` and `tcsetattr` work or return -1. -/
def setUartOpt (c : Args) (tcgetattr tcsetattr : Bool) (p : Port) : ℤ × Port :=
  if tcgetattr = false then (-1, p)
  else
    -- `tcflush` drops the input
    if tcsetattr = false then (-1, { p with input := [] })
    else (0, ⟨newCfg c p.termios, []⟩)

/-- A call, or a byte that the port receives. -/
inductive Action
  | setUartOpt (c : Args) (tcgetattr tcsetattr : Bool)
  | receive (b : UInt8)

/-- One action on the port. -/
def step (p : Port) : Action → Port
  | .setUartOpt c tcgetattr tcsetattr => (setUartOpt c tcgetattr tcsetattr p).2
  | .receive b => { p with input := p.input ++ [b] }

/-! ## What the settings are -/

/-- `baud_table` of the kernel. -/
def baudTable : List ℕ :=
  [0, 50, 75, 110, 134, 150, 200, 300, 600, 1200, 1800, 2400, 4800, 9600, 19200, 38400, 57600,
    115200, 230400, 460800, 500000, 576000, 921600, 1000000, 1152000, 1500000, 2000000, 2500000,
    3000000, 3500000, 4000000]

/-- The speed in the flags; the bit 12 is `CBAUDEX`. -/
def baudOf (cflag : BitVec 32) : Option ℕ :=
  let low := (cflag &&& 0o17).toNat
  baudTable[if cflag &&& 0o10000 = 0 then low else low + 15]?

/-- The bits of a character, from 5 to 8. -/
def dataBitsOf (cflag : BitVec 32) : ℕ :=
  5 + ((cflag &&& csize) >>> 4).toNat

/-- The parity in the flags. -/
def parityOf (cflag : BitVec 32) : Parity :=
  if cflag &&& parenb = 0 then .none
  else if cflag &&& parodd = 0 then .even
  else .odd

/-- The stop bits in the flags. -/
def stopBitsOf (cflag : BitVec 32) : ℕ :=
  if cflag &&& cstopb = 0 then 1 else 2

/-- What a call asks for, with the defaults that are documented. -/
structure Format where
  baudRate : ℕ
  dataBits : ℕ
  parity : Parity
  stopBits : ℕ

/-- The baud rates of the switch. -/
def supported : List ℕ :=
  [2400, 4800, 9600, 19200, 38400, 115200, 230400]

/-- What is asked for. -/
def Args.format (c : Args) : Format where
  baudRate := if c.baudRate.toNat ∈ supported then c.baudRate.toNat else 115200
  dataBits := if c.dataBits = 7 then 7 else 8
  parity := parityCase c.parity
  stopBits := if c.stopBits = 2 then 2 else 1

/-- The port has a format. -/
structure Has (t : Termios) (f : Format) : Prop where
  baudRate : baudOf t.cCflag = some f.baudRate
  dataBits : dataBitsOf t.cCflag = f.dataBits
  parity : parityOf t.cCflag = f.parity
  stopBits : stopBitsOf t.cCflag = f.stopBits
  -- the parity of what is received is checked if there is one
  check : t.cIflag &&& inpck = 0 ↔ f.parity = .none

/-- Nothing is translated, echoed or waited for but one byte. -/
structure Raw (t : Termios) : Prop where
  iflag : t.cIflag &&& rawIflag = 0
  oflag : t.cOflag &&& opost = 0
  lflag : t.cLflag &&& rawLflag = 0
  min : t.cCc vmin = 1
  time : t.cCc vtime = 0

/-- All bits that a call can change. -/
def iflagMask : BitVec 32 :=
  rawIflag ||| ibaud0 ||| inpck

/-- The same for `c_cflag`. -/
def cflagMask : BitVec 32 :=
  cbaud ||| csize ||| cstopb ||| parenb ||| parodd

/-- The settings differ where calls change them only. -/
structure Frame (t t' : Termios) : Prop where
  iflag : Outside iflagMask t.cIflag t'.cIflag
  oflag : Outside opost t.cOflag t'.cOflag
  cflag : Outside cflagMask t.cCflag t'.cCflag
  lflag : Outside rawLflag t.cLflag t'.cLflag
  line : t.cLine = t'.cLine
  cc : ∀ i, i ≠ vmin → i ≠ vtime → t.cCc i = t'.cCc i

/-- The settings are the same, but for the bit of the odd parity if there is none. -/
structure Agree (t t' : Termios) : Prop where
  iflag : t.cIflag = t'.cIflag
  oflag : t.cOflag = t'.cOflag
  cflag : Outside parodd t.cCflag t'.cCflag
  parodd : parityOf t.cCflag ≠ .none → t.cCflag = t'.cCflag
  lflag : t.cLflag = t'.cLflag
  line : t.cLine = t'.cLine
  cc : t.cCc = t'.cCc
  ispeed : t.cIspeed = t'.cIspeed
  ospeed : t.cOspeed = t'.cOspeed

/-- The last call that has worked. -/
def lastDone (old : Option Args) : Action → Option Args
  | .setUartOpt c true true => some c
  | _ => old

/-- The bytes since the last call that has come to drop them. -/
def unread (old : List UInt8) : Action → List UInt8
  | .setUartOpt _ true _ => []
  | .setUartOpt _ false _ => old
  | .receive b => old ++ [b]

/-! ## The flags -/

/-- The speeds there are, with their numbers. -/
def speeds : List (BitVec 32 × ℕ) :=
  [(b2400, 2400), (b4800, 4800), (b9600, 9600), (b19200, 19200), (b38400, 38400),
    (b230400, 230400), (b115200, 115200)]

theorem speed_mem (c : Args) : (speed c.baudRate, c.format.baudRate) ∈ speeds := by
  have hnat : ∀ {b : ℤ} {n : ℕ}, 0 < n → (b.toNat = n ↔ b = n) := by
    intro b n hn
    omega
  unfold speed Args.format supported speeds
  split_ifs
  all_goals simp_all

/-- What becomes of `c_cflag` up to the data bits. -/
def cflagData (sp : BitVec 32) (seven : Bool) (x : BitVec 32) : BitVec 32 :=
  let x := x &&& ~~~(csize ||| parenb) ||| cs8
  let x := x &&& ~~~csize
  let x := x &&& ~~~cbaud ||| sp
  let x := x &&& ~~~cbaud ||| sp
  x ||| if seven then cs7 else cs8

/-- And up to the parity. -/
def cflagParity (parity : Parity) (x : BitVec 32) : BitVec 32 :=
  match parity with
  | .none => x &&& ~~~parenb
  | .odd => x ||| (parodd ||| parenb)
  | .even => (x ||| parenb) &&& ~~~parodd

/-- And of the stop bits. -/
def cflagStop (two : Bool) (x : BitVec 32) : BitVec 32 :=
  if two then x ||| cstopb else x &&& ~~~cstopb

/-- What becomes of `c_cflag`. -/
def cflagOf (sp : BitVec 32) (seven : Bool) (parity : Parity) (two : Bool) (x : BitVec 32) :
    BitVec 32 :=
  cflagStop two (cflagParity parity (cflagData sp seven x))

/-- What becomes of `c_iflag`. -/
def iflagOf (parity : Parity) (x : BitVec 32) : BitVec 32 :=
  let x := x &&& ~~~rawIflag &&& ~~~ibaud0
  match parity with
  | .none => x &&& ~~~inpck
  | _ => x ||| inpck

variable {sp : BitVec 32} {baud : ℕ}

theorem newCfgOf_eq (h : (sp, baud) ∈ speeds) (seven : Bool) (parity : Parity) (two : Bool)
    (t : Termios) :
    newCfgOf sp seven parity two t =
      ⟨iflagOf parity t.cIflag, t.cOflag &&& ~~~opost, cflagOf sp seven parity two t.cCflag,
        t.cLflag &&& ~~~rawLflag, t.cLine,
        fun i => if i = vmin then 1 else if i = vtime then 0 else t.cCc i, sp, sp⟩ := by
  have hspeed : ∀ e ∈ speeds, ¬(e.1 &&& ~~~cbaud ≠ 0) ∧ ¬e.1 = 0 := by decide
  obtain ⟨hvalid, hzero⟩ := hspeed _ h
  have hcc : ∀ i, (if i = vmin then (1 : UInt8) else if i = vtime then 0 else
      if i = vtime then 0 else if i = vmin then 1 else t.cCc i) =
        if i = vmin then 1 else if i = vtime then 0 else t.cCc i := by
    intro i
    split_ifs <;> rfl
  cases seven <;> cases parity <;> cases two
  all_goals
    simp only [newCfgOf, cfmakeraw, cfsetispeed, cfsetospeed, if_neg hvalid, if_neg hzero,
      Termios.withCc, setDataBits, setParity, setStopBits, iflagOf, cflagOf, hcc]
    rfl

theorem isPut_cflagOf (sp : BitVec 32) (seven : Bool) (parity : Parity) (two : Bool) :
    IsPut (cflagOf sp seven parity two) := by
  have hdata : IsPut (cflagData sp seven) :=
    ((((((IsPut.id.clear _).set _).clear _).clear _).set _).clear _).set _ |>.set _
  have hparity : IsPut (cflagParity parity) := by
    cases parity
    · exact IsPut.id.clear parenb
    · exact IsPut.id.set (parodd ||| parenb)
    · exact (IsPut.id.set parenb).clear parodd
  have hstop : IsPut (cflagStop two) := by
    cases two
    · exact IsPut.id.clear cstopb
    · exact IsPut.id.set cstopb
  exact hstop.comp (hparity.comp hdata)

theorem isPut_iflagOf (parity : Parity) : IsPut (iflagOf parity) := by
  have hraw : IsPut fun x => x &&& ~~~rawIflag &&& ~~~ibaud0 := (IsPut.id.clear _).clear _
  cases parity
  · exact hraw.clear inpck
  · exact hraw.set inpck
  · exact hraw.set inpck

/-- The bits of `c_cflag` that a call replaces, and with what. -/
structure CflagSpec (sp : BitVec 32) (baud : ℕ) (seven : Bool) (parity : Parity) (two : Bool) :
    Prop where
  touched : Sub (touched (cflagOf sp seven parity two)) cflagMask
  left : Sub (cflagMask &&& ~~~BitField.touched (cflagOf sp seven parity two)) parodd
  all : parity ≠ .none → Sub cflagMask (BitField.touched (cflagOf sp seven parity two))
  baud_eq : baudOf (cflagOf sp seven parity two 0) = some baud
  data_eq : dataBitsOf (cflagOf sp seven parity two 0) = if seven then 7 else 8
  parity_eq : parityOf (cflagOf sp seven parity two 0) = parity
  stop_eq : stopBitsOf (cflagOf sp seven parity two 0) = if two then 2 else 1

theorem cflagSpec (h : (sp, baud) ∈ speeds) (seven : Bool) (parity : Parity) (two : Bool) :
    CflagSpec sp baud seven parity two := by
  have hall : ∀ e ∈ speeds,
      Sub (touched (cflagOf e.1 seven parity two)) cflagMask ∧
      Sub (cflagMask &&& ~~~touched (cflagOf e.1 seven parity two)) parodd ∧
      (parity ≠ .none → Sub cflagMask (touched (cflagOf e.1 seven parity two))) ∧
      baudOf (cflagOf e.1 seven parity two 0) = some e.2 ∧
      (dataBitsOf (cflagOf e.1 seven parity two 0) = if seven then 7 else 8) ∧
      parityOf (cflagOf e.1 seven parity two 0) = parity ∧
      (stopBitsOf (cflagOf e.1 seven parity two 0) = if two then 2 else 1) := by
    cases seven <;> cases parity <;> cases two <;> decide
  obtain ⟨htouched, hleft, hodd, hbaud, hdata, hparity, hstop⟩ := hall _ h
  exact ⟨htouched, hleft, hodd, hbaud, hdata, hparity, hstop⟩

/-- A field of `c_cflag` that is not the bit of the odd parity is read back. -/
theorem CflagSpec.and_eq {seven : Bool} {parity : Parity} {two : Bool}
    (h : CflagSpec sp baud seven parity two) {k : BitVec 32} (hk : Sub k cflagMask)
    (hodd : k &&& parodd = 0) (x : BitVec 32) :
    cflagOf sp seven parity two x &&& k = cflagOf sp seven parity two 0 &&& k :=
  (isPut_cflagOf sp seven parity two).and_eq (hk.of_left h.left hodd) x

theorem CflagSpec.parityOf {seven : Bool} {parity : Parity} {two : Bool}
    (h : CflagSpec sp baud seven parity two) (x : BitVec 32) :
    parityOf (cflagOf sp seven parity two x) = parity := by
  have henb := h.and_eq (k := parenb) (by decide) (by decide) x
  have hzero := h.parity_eq
  by_cases hnone : parity = .none
  · subst hnone
    unfold SetUartOpt.parityOf at hzero ⊢
    rw [henb]
    split_ifs at hzero with hoff
    rw [if_pos hoff]
  · have hodd := (isPut_cflagOf sp seven parity two).and_eq
      (k := parodd) ((show Sub parodd cflagMask by decide).trans (h.all hnone)) x
    refine Eq.trans ?_ hzero
    unfold SetUartOpt.parityOf
    rw [henb, hodd]

/-! ## A call -/

variable {t t' : Termios}

/-- A call has the format it asks for. -/
theorem has_newCfg (c : Args) (t : Termios) : Has (newCfg c t) c.format := by
  have h := cflagSpec (speed_mem c) (c.dataBits = 7) (parityCase c.parity) (c.stopBits = 2)
  have hcheck : ∀ p : Parity, Sub inpck (touched (iflagOf p)) ∧
      (iflagOf p 0 &&& inpck = 0 ↔ p = .none) := by
    intro p
    cases p <;> decide
  obtain ⟨htouched, hinpck⟩ := hcheck (parityCase c.parity)
  rw [newCfg, newCfgOf_eq (speed_mem c)]
  refine ⟨?_, ?_, h.parityOf _, ?_, ?_⟩
  · have hlow := h.and_eq (k := 0o17) (by decide) (by decide) t.cCflag
    have hex := h.and_eq (k := 0o10000) (by decide) (by decide) t.cCflag
    refine Eq.trans ?_ h.baud_eq
    simp only [baudOf, hlow, hex]
  · have hdata : dataBitsOf (cflagOf (speed c.baudRate) (c.dataBits = 7) (parityCase c.parity)
        (c.stopBits = 2) t.cCflag) = if decide (c.dataBits = 7) = true then 7 else 8 := by
      rw [← h.data_eq, dataBitsOf, dataBitsOf, h.and_eq (by decide) (by decide)]
    simpa [Args.format] using hdata
  · have hstop : stopBitsOf (cflagOf (speed c.baudRate) (c.dataBits = 7) (parityCase c.parity)
        (c.stopBits = 2) t.cCflag) = if decide (c.stopBits = 2) = true then 2 else 1 := by
      rw [← h.stop_eq, stopBitsOf, stopBitsOf, h.and_eq (by decide) (by decide)]
    simpa [Args.format] using hstop
  · show iflagOf (parityCase c.parity) t.cIflag &&& inpck = 0 ↔ _
    rw [(isPut_iflagOf _).and_eq htouched]
    exact hinpck

theorem raw_newCfg (c : Args) (t : Termios) : Raw (newCfg c t) := by
  have hraw : ∀ p : Parity, Sub rawIflag (touched (iflagOf p)) ∧ iflagOf p 0 &&& rawIflag = 0 := by
    intro p
    cases p <;> decide
  obtain ⟨htouched, hzero⟩ := hraw (parityCase c.parity)
  have hclear : ∀ x k : BitVec 32, x &&& ~~~k &&& k = 0 := by
    intro x k
    rw [BitVec.and_assoc, BitVec.and_comm (~~~k), BitVec.and_not_self]
    exact BitVec.and_zero
  rw [newCfg, newCfgOf_eq (speed_mem c)]
  refine ⟨?_, hclear _ _, hclear _ _, rfl, rfl⟩
  show iflagOf (parityCase c.parity) t.cIflag &&& rawIflag = 0
  rw [(isPut_iflagOf _).and_eq htouched, hzero]

/-- A call changes nothing outside of its bits. -/
theorem frame_newCfg (c : Args) (t : Termios) : Frame t (newCfg c t) := by
  have h := cflagSpec (speed_mem c) (c.dataBits = 7) (parityCase c.parity) (c.stopBits = 2)
  have hiflag : ∀ p : Parity, Sub (touched (iflagOf p)) iflagMask := by
    intro p
    cases p <;> decide
  rw [newCfg, newCfgOf_eq (speed_mem c)]
  refine ⟨(isPut_iflagOf _).outside (hiflag _) _, ?_, (isPut_cflagOf _ _ _ _).outside h.touched _,
    ?_, rfl, fun i hmin htime => ?_⟩
  · exact (IsPut.id.clear opost).outside (by decide) t.cOflag
  · exact (IsPut.id.clear rawLflag).outside (by decide) t.cLflag
  · show t.cCc i = if i = vmin then 1 else if i = vtime then 0 else t.cCc i
    rw [if_neg hmin, if_neg htime]

/-- A call makes the same of settings that differ where calls change them only. -/
theorem agree_newCfg (c : Args) (h : Frame t t') : Agree (newCfg c t) (newCfg c t') := by
  have hspec := cflagSpec (speed_mem c) (c.dataBits = 7) (parityCase c.parity) (c.stopBits = 2)
  have hiflag : ∀ p : Parity, Sub iflagMask (touched (iflagOf p)) := by
    intro p
    cases p <;> decide
  have hput := isPut_cflagOf (speed c.baudRate) (c.dataBits = 7) (parityCase c.parity)
    (c.stopBits = 2)
  rw [newCfg, newCfg, newCfgOf_eq (speed_mem c), newCfgOf_eq (speed_mem c)]
  refine ⟨?_, h.oflag, ?_, fun hparity => ?_, h.lflag, h.line, ?_, rfl, rfl⟩
  · show iflagOf _ t.cIflag = iflagOf _ t'.cIflag
    rw [(isPut_iflagOf _).eq_put t.cIflag, (isPut_iflagOf _).eq_put t'.cIflag]
    exact h.iflag.put_eq (hiflag _)
  · show Outside parodd (cflagOf _ _ _ _ t.cCflag) (cflagOf _ _ _ _ t'.cCflag)
    rw [hput.eq_put t.cCflag, hput.eq_put t'.cCflag]
    exact h.cflag.put hspec.left
  · have hall := hspec.all (hspec.parityOf t.cCflag ▸ hparity)
    show cflagOf _ _ _ _ t.cCflag = cflagOf _ _ _ _ t'.cCflag
    rw [hput.eq_put t.cCflag, hput.eq_put t'.cCflag]
    exact h.cflag.put_eq hall
  · funext i
    show (if i = vmin then 1 else if i = vtime then 0 else t.cCc i) =
      if i = vmin then 1 else if i = vtime then 0 else t'.cCc i
    split_ifs with hmin htime
    · rfl
    · rfl
    · exact h.cc i hmin htime

theorem Frame.refl (t : Termios) : Frame t t :=
  ⟨.refl _ _, .refl _ _, .refl _ _, .refl _ _, rfl, fun _ _ _ => rfl⟩

theorem Frame.trans {t'' : Termios} (h : Frame t t') (h' : Frame t' t'') : Frame t t'' :=
  ⟨h.iflag.trans h'.iflag, h.oflag.trans h'.oflag, h.cflag.trans h'.cflag, h.lflag.trans h'.lflag,
    h.line.trans h'.line, fun i hmin htime => (h.cc i hmin htime).trans (h'.cc i hmin htime)⟩

/-! ## Runs -/

/-- The settings are those of the last call that worked, from some with the same frame. -/
structure Inv (t : Termios) (last : Option Args) (unread : List UInt8) (p : Port) : Prop where
  frame : Frame t p.termios
  none : last = none → p.termios = t
  some : ∀ c ∈ last, ∃ t', Frame t' t ∧ p.termios = newCfg c t'
  input : p.input = unread

theorem Frame.symm (h : Frame t t') : Frame t' t :=
  ⟨Eq.symm h.iflag, Eq.symm h.oflag, Eq.symm h.cflag, Eq.symm h.lflag,
    h.line.symm, fun i hmin htime => (h.cc i hmin htime).symm⟩

theorem Inv.step {last : Option Args} {bytes : List UInt8} {p : Port} (h : Inv t last bytes p)
    (a : Action) : Inv t (lastDone last a) (unread bytes a) (step p a) := by
  cases a with
  | receive b => exact ⟨h.frame, h.none, h.some, congrArg (· ++ [b]) h.input⟩
  | setUartOpt c tcgetattr tcsetattr =>
    cases tcgetattr with
    | false => exact ⟨h.frame, h.none, h.some, h.input⟩
    | true =>
      cases tcsetattr with
      | false => exact ⟨h.frame, h.none, h.some, rfl⟩
      | true =>
        refine ⟨h.frame.trans (frame_newCfg c p.termios),
          fun hnone => absurd hnone (by simp [lastDone]), fun c' hc' => ?_, rfl⟩
        obtain rfl := Option.some.inj hc'
        exact ⟨p.termios, h.frame.symm, rfl⟩

theorem run_inv :
    ∀ (as : List Action) {last : Option Args} {bytes : List UInt8} {p : Port},
      Inv t last bytes p → Inv t (as.foldl lastDone last) (as.foldl unread bytes) (as.foldl step p)
  | [], _, _, _, h => h
  | a :: as, _, _, _, h => run_inv as (h.step a)

/-- After any calls of `set_uart_opt` and any bytes received, from any settings and with any
failures of the two ioctls : if a call has worked, the port has the format of the last that
has, it is raw, its other bits are those it had at first, and it is as if that call were the
only one, but for the odd parity bit; if none has, nothing has changed. What is not read is
what has come since the last call that could get the settings. -/
theorem setUartOpt_run (p : Port) (as : List Action) :
    let q := as.foldl step p
    (as.foldl lastDone none = none → q.termios = p.termios) ∧
      (∀ c, as.foldl lastDone none = some c → Has q.termios c.format ∧ Raw q.termios ∧
        Frame p.termios q.termios ∧ Agree q.termios (newCfg c p.termios)) ∧
      q.input = as.foldl unread p.input := by
  intro q
  have hinit : Inv p.termios none p.input p :=
    ⟨.refl _, fun _ => rfl, fun c hc => absurd hc (Option.not_mem_none c), rfl⟩
  have h := run_inv as hinit
  refine ⟨h.none, fun c hc => ?_, h.input⟩
  obtain ⟨t', hframe, hq⟩ := h.some c hc
  have hq : q.termios = newCfg c t' := hq
  refine ⟨?_, ?_, h.frame, ?_⟩
  · rw [hq]
    exact has_newCfg c t'
  · rw [hq]
    exact raw_newCfg c t'
  · rw [hq]
    exact agree_newCfg c hframe

/-- The odd parity bit stays when a call with odd parity is followed by one with none. -/
theorem parodd_stays :
    let c : Args := ⟨9600, 8, 'n', 1⟩
    let odd : Args := ⟨9600, 8, 'o', 1⟩
    let t : Termios := ⟨0, 0, 0, 0, 0, fun _ => 0, 0, 0⟩
    (newCfg c (newCfg odd t)).cCflag ≠ (newCfg c t).cCflag := by
  decide

end SetUartOpt

end LinuxDriverKb
