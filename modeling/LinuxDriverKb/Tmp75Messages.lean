import LinuxDriverKb.Lib.ByteMem
import LinuxDriverKb.Tmp75I2c

/-!
# The I2C messages of the TMP75 driver and of its test program

The driver of chapter 15 and the program that tests it write and read registers of the chip
with the same two functions over two interfaces, `i2c_transfer` in the kernel and the ioctl
`I2C_RDWR`. A message has a length of its own next to its buffer.

`messages_iff` : the reads are the same. The writes are the same exactly if there is no
payload, because the program's message has the length 1; so its `tmp75_set_resolution` leaves
the configuration register as it is.
-/

set_option autoImplicit false

namespace LinuxDriverKb

namespace Tmp75Messages

open ByteMem
open Tmp75 (Chip ResolutionCfg regTmp75Conf regTmp75ConfResolution)

/-! ## Messages -/

/-- `struct i2c_msg`. -/
structure I2cMsg where
  addr : UInt16
  flags : UInt16
  len : UInt16
  buf : ℕ → BitVec 8

/-- `I2C_M_RD`. -/
def i2cMRd : UInt16 := 1

/-- What a message is on the bus : the bytes that are sent, or the number that is read. -/
inductive Transaction
  | write (addr : UInt16) (bytes : List (BitVec 8))
  | read (addr : UInt16) (len : ℕ)
  deriving DecidableEq

/-- What a message does on the bus. -/
def I2cMsg.onBus (m : I2cMsg) : Transaction :=
  if m.flags &&& i2cMRd = 0 then .write m.addr (bytes m.buf m.len.toNat)
  else .read m.addr m.len.toNat

theorem onBus_write (addr len : UInt16) (buf : ℕ → BitVec 8) :
    I2cMsg.onBus ⟨addr, 0, len, buf⟩ = .write addr (bytes buf len.toNat) :=
  if_pos (by decide : (0 &&& i2cMRd) = 0)

theorem onBus_read (addr len : UInt16) (buf : ℕ → BitVec 8) :
    I2cMsg.onBus ⟨addr, i2cMRd, len, buf⟩ = .read addr len.toNat :=
  if_neg (by decide : ¬(i2cMRd &&& i2cMRd) = 0)

/-- What a message does to the chip at `addr`. -/
def Transaction.exec (addr : UInt16) (chip : Chip) : Transaction → Chip
  | .write a bytes => if a = addr then chip.write bytes else chip
  | .read _ _ => chip

/-- The messages one after the other. -/
def exec (addr : UInt16) (msgs : List I2cMsg) (chip : Chip) : Chip :=
  (msgs.map I2cMsg.onBus).foldl (Transaction.exec addr) chip

/-! ## The driver -/

/-- `i2c_master_send` to a client with the address `addr`. -/
def i2cMasterSend (addr : UInt16) (buf : ℕ → BitVec 8) (count : ℕ) : List I2cMsg :=
  [⟨addr, 0, .ofNat count, buf⟩]

/-- `tmp75_write_reg`; `temp` is what is in the array before it is filled. -/
def tmp75WriteReg (addr : UInt16) (temp : ℕ → BitVec 8) (reg : BitVec 8) (buf : ℕ → BitVec 8)
    (len : UInt16) : List I2cMsg :=
  let temp := Function.update temp 0 reg
  let temp := memcpy temp 1 buf 0 len.toNat
  i2cMasterSend addr temp (len.toNat + 1)

/-- `tmp75_read_reg`. -/
def tmp75ReadReg (addr : UInt16) (reg : BitVec 8) (buf : ℕ → BitVec 8) (len : UInt16) :
    List I2cMsg :=
  [⟨addr, 0, 1, fun _ => reg⟩, ⟨addr, i2cMRd, len, buf⟩]

/-- `tmp75_set_resolution` of the driver. -/
def tmp75SetResolution (addr : UInt16) (temp : ℕ → BitVec 8) (resCfg : ResolutionCfg) :
    List I2cMsg :=
  tmp75WriteReg addr temp regTmp75Conf (fun _ => (regTmp75ConfResolution resCfg).setWidth 8) 1

/-! ## The test program -/

/-- `TMP75_ADDRESS`. -/
def tmp75Address : UInt16 := 0x4f

/-- `i2c_write`, with the messages of its ioctl. -/
def i2cWrite (addr : UInt16) (temp : ℕ → BitVec 8) (reg : BitVec 8) (buf : ℕ → BitVec 8)
    (len : UInt16) : List I2cMsg :=
  let temp := Function.update temp 0 reg
  let temp := memcpy temp 1 buf 0 len.toNat
  [⟨addr, 0, 1, temp⟩]

/-- `i2c_read`. -/
def i2cRead (addr : UInt16) (reg : BitVec 8) (buf : ℕ → BitVec 8) (len : UInt16) :
    List I2cMsg :=
  [⟨addr, 0, 1, fun _ => reg⟩, ⟨addr, i2cMRd, len, buf⟩]

/-- `tmp75_set_resolution` of the program. -/
def Test.tmp75SetResolution (temp : ℕ → BitVec 8) (resCfg : ResolutionCfg) : List I2cMsg :=
  i2cWrite tmp75Address temp regTmp75Conf
    (fun _ => (regTmp75ConfResolution resCfg).setWidth 8) 1

/-! ## What they should put on the bus -/

/-- The bytes to write to a register. With its register they fit a message. -/
structure Payload where
  buf : ℕ → BitVec 8
  len : UInt16
  len_le : len.toNat ≤ 65534

/-- The bytes to be written. -/
def Payload.bytes (p : Payload) : List (BitVec 8) :=
  ByteMem.bytes p.buf p.len.toNat

/-- One transaction, of the register and the payload. -/
def Writes (addr : UInt16) (reg : BitVec 8) (p : Payload) (msgs : List I2cMsg) : Prop :=
  msgs.map I2cMsg.onBus = [.write addr (reg :: p.bytes)]

/-- A transaction of the register, and a read of the length. -/
def Reads (addr : UInt16) (reg : BitVec 8) (len : UInt16) (msgs : List I2cMsg) : Prop :=
  msgs.map I2cMsg.onBus = [.write addr [reg], .read addr len.toNat]

/-! ## The writes -/

variable (addr : UInt16) (temp : ℕ → BitVec 8) (reg : BitVec 8)

/-- The array both writes fill. -/
theorem bytes_temp (buf : ℕ → BitVec 8) (n k : ℕ) (h : k ≤ n) :
    bytes (memcpy (Function.update temp 0 reg) 1 buf 0 n) (k + 1) = reg :: bytes buf k := by
  rw [bytes, List.range_succ_eq_map, List.map_cons, List.map_map]
  refine congrArg₂ List.cons ?_ (bytes_congr fun i hi => ?_)
  · rw [memcpy_apply_of_not_mem (by omega), Function.update_self]
  · rw [Function.comp_apply, memcpy_apply_of_mem (by omega)]
    congr 1
    omega

/-- The driver's message has the length of its array. -/
theorem tmp75WriteReg_writes (p : Payload) :
    Writes addr reg p (tmp75WriteReg addr temp reg p.buf p.len) := by
  have hlen : (UInt16.ofNat (p.len.toNat + 1)).toNat = p.len.toNat + 1 := by
    have hle := p.len_le
    rw [UInt16.toNat_ofNat']
    omega
  have hbytes := bytes_temp temp reg p.buf p.len.toNat p.len.toNat le_rfl
  rw [← hlen] at hbytes
  simp only [Writes, tmp75WriteReg, i2cMasterSend, List.map_cons, List.map_nil, onBus_write]
  rw [hbytes]
  rfl

/-- The program's message ends behind the register. -/
theorem i2cWrite_onBus (buf : ℕ → BitVec 8) (len : UInt16) :
    (i2cWrite addr temp reg buf len).map I2cMsg.onBus = [.write addr [reg]] := by
  have hbytes := bytes_temp temp reg buf len.toNat 0 (Nat.zero_le _)
  simp only [i2cWrite, List.map_cons, List.map_nil, onBus_write]
  exact congrArg (fun bs => [Transaction.write addr bs]) hbytes

theorem i2cWrite_writes_iff (p : Payload) :
    Writes addr reg p (i2cWrite addr temp reg p.buf p.len) ↔ p.len = 0 := by
  rw [Writes, i2cWrite_onBus]
  constructor
  · intro h
    have hnil : [] = p.bytes := by simpa using h
    have hlen : p.bytes.length = p.len.toNat := bytes_length p.buf p.len.toNat
    rw [← hnil] at hlen
    exact UInt16.toNat_inj.mp hlen.symm
  · intro h
    rw [Payload.bytes, h]
    rfl

/-! ## The reads -/

theorem tmp75ReadReg_reads (buf : ℕ → BitVec 8) (len : UInt16) :
    Reads addr reg len (tmp75ReadReg addr reg buf len) := by
  simp only [Reads, tmp75ReadReg, List.map_cons, List.map_nil, onBus_write, onBus_read]
  rfl

theorem i2cRead_reads (buf : ℕ → BitVec 8) (len : UInt16) :
    Reads addr reg len (i2cRead addr reg buf len) := by
  simp only [Reads, i2cRead, List.map_cons, List.map_nil, onBus_write, onBus_read]
  rfl

/-! ## The resolution -/

variable (resCfg : ResolutionCfg) (chip : Chip)

/-- The driver's messages do to the chip what its setting does where a transfer works. -/
theorem exec_tmp75SetResolution : exec addr (tmp75SetResolution addr temp resCfg) chip =
    (Tmp75I2c.tmp75SetResolution .done resCfg chip).2 := by
  let val := (regTmp75ConfResolution resCfg).setWidth 8
  have hwrites := tmp75WriteReg_writes addr temp regTmp75Conf ⟨fun _ => val, 1, by decide⟩
  rw [exec, tmp75SetResolution]
  rw [Writes] at hwrites
  rw [hwrites]
  exact if_pos rfl

theorem conf_tmp75SetResolution : (exec addr (tmp75SetResolution addr temp resCfg) chip).conf =
    (regTmp75ConfResolution resCfg).setWidth 8 := by
  rw [exec_tmp75SetResolution]
  rfl

/-- The program's messages leave the chip. -/
theorem exec_test_tmp75SetResolution :
    exec addr (Test.tmp75SetResolution temp resCfg) chip = chip := by
  rw [exec, Test.tmp75SetResolution, i2cWrite_onBus]
  by_cases h : tmp75Address = addr
  · exact if_pos h
  · exact if_neg h

/-- For every register and payload : the driver writes the register and the payload, and the
test program does if and only if the payload is empty; both read in the same two
transactions; and both settings leave the same configuration if and only if the chip has it
before. -/
theorem messages_iff (temp' : ℕ → BitVec 8) (p : Payload) (buf buf' : ℕ → BitVec 8)
    (len : UInt16) :
    (Writes addr reg p (tmp75WriteReg addr temp reg p.buf p.len) ∧
        Writes addr reg p (i2cWrite addr temp' reg p.buf p.len) ↔ p.len = 0) ∧
      Reads addr reg len (tmp75ReadReg addr reg buf len) ∧
      Reads addr reg len (i2cRead addr reg buf' len) ∧
      ((exec tmp75Address (tmp75SetResolution tmp75Address temp resCfg) chip).conf =
          (exec tmp75Address (Test.tmp75SetResolution temp' resCfg) chip).conf ↔
        chip.conf = (regTmp75ConfResolution resCfg).setWidth 8) := by
  refine ⟨?_, tmp75ReadReg_reads addr reg buf len, i2cRead_reads addr reg buf' len, ?_⟩
  · rw [i2cWrite_writes_iff]
    exact and_iff_right (tmp75WriteReg_writes addr temp reg p)
  · rw [conf_tmp75SetResolution, exec_test_tmp75SetResolution]
    exact eq_comm

/-- A setting of 12 bits on a chip at 9 : the driver's bytes are `0x01`, `0x60`, those of the
program `0x01`, and its chip stays at 9. -/
theorem payload_dropped :
    let p : Payload := ⟨fun _ => 0x60, 1, by decide⟩
    let chip : Chip := ⟨0, 0⟩
    (tmp75SetResolution tmp75Address (fun _ => 0) 3).map I2cMsg.onBus =
        [.write tmp75Address [0x01, 0x60]] ∧
      (Test.tmp75SetResolution (fun _ => 0) 3).map I2cMsg.onBus = [.write tmp75Address [0x01]] ∧
      (exec tmp75Address (tmp75SetResolution tmp75Address (fun _ => 0) 3) chip).conf = 0x60 ∧
      (exec tmp75Address (Test.tmp75SetResolution (fun _ => 0) 3) chip).conf = 0 ∧
      ¬Writes tmp75Address regTmp75Conf p
        (i2cWrite tmp75Address (fun _ => 0) regTmp75Conf p.buf p.len) := by
  refine ⟨by decide, by decide, by decide, by decide, ?_⟩
  rw [i2cWrite_writes_iff]
  decide

end Tmp75Messages

end LinuxDriverKb
