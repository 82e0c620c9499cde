import Mathlib.Data.Int.Notation
import Mathlib.Data.Nat.Notation
import Mathlib.Tactic.SplitIfs

/-!
# Register maps

A register map with 8-bit register numbers, 16-bit big-endian values and a register cache,
over a device reached by byte transactions that can fail. A register that is not volatile is
read from the device only on the first access; a write goes to the cache and then to the
device.
-/

set_option autoImplicit false

namespace Regmap

/-- The registers there are, those that can be written, and those that are not cached. -/
structure Config where
  maxRegister : ℕ
  writeableReg : BitVec 8 → Bool
  volatileReg : BitVec 8 → Bool

/-- The device : a two-byte read of a register, the first byte the high one, and a write
transaction with what it returns. -/
structure Bus (σ : Type) where
  read : BitVec 8 → σ → Except ℤ (BitVec 8 × BitVec 8)
  write : List (BitVec 8) → σ → ℤ × σ

/-- The device, and the cached registers. -/
structure State (σ : Type) where
  dev : σ
  cache : BitVec 8 → Option (BitVec 16)

/-- `EIO`. -/
def eio : ℤ := 5

variable {σ : Type} (cfg : Config) (bus : Bus σ)

/-- A value goes to the cache, if the register is not volatile. -/
def State.store (s : State σ) (reg : BitVec 8) (v : BitVec 16) : State σ :=
  if cfg.volatileReg reg then s
  else { s with cache := fun r => if r = reg then some v else s.cache r }

/-- `regmap_read`; a cached register needs no transaction. -/
def read (reg : BitVec 8) (s : State σ) : Except ℤ (BitVec 16) × State σ :=
  match s.cache reg with
  | some v => (.ok v, s)
  | none =>
    match bus.read reg s.dev with
    | .error err => (.error err, s)
    | .ok b => (.ok (b.1 ++ b.2), s.store cfg reg (b.1 ++ b.2))

/-- The register byte, the high byte and the low byte. -/
def bytes (reg : BitVec 8) (v : BitVec 16) : List (BitVec 8) :=
  [reg, v.extractLsb' 8 8, v.extractLsb' 0 8]

/-- `regmap_write` : the cache has the value also if the transaction fails. -/
def write (reg : BitVec 8) (v : BitVec 16) (s : State σ) : ℤ × State σ :=
  if reg.toNat > cfg.maxRegister ∨ cfg.writeableReg reg = false then (-eio, s)
  else
    let r := bus.write (bytes reg v) s.dev
    (r.1, { s.store cfg reg v with dev := r.2 })

/-- The bits of the mask from `val`, the others from `orig`. -/
def merge (orig : BitVec 16) (mask val : BitVec 32) : BitVec 32 :=
  (orig.setWidth 32 &&& ~~~mask) ||| (val &&& mask)

/-- `regmap_update_bits` writes only a value that is not the one read. -/
def updateBits (reg : BitVec 8) (mask val : BitVec 32) (s : State σ) : ℤ × State σ :=
  match read cfg bus reg s with
  | (.error err, s) => (err, s)
  | (.ok orig, s) =>
    if merge orig mask val = orig.setWidth 32 then (0, s)
    else write cfg bus reg ((merge orig mask val).setWidth 16) s

/-! ## A mask in the low byte -/

/-- A mask in the low byte leaves the high byte, which is the first one written. -/
theorem extractLsb'_merge {mask : BitVec 32} (h : ∀ i, 8 ≤ i → i < 16 → mask.getLsbD i = false)
    (orig : BitVec 16) (val : BitVec 32) :
    ((merge orig mask val).setWidth 16).extractLsb' 8 8 = orig.extractLsb' 8 8 := by
  refine BitVec.eq_of_getLsbD_eq fun i hi => ?_
  have hmask := h (8 + i) (by omega) (by omega)
  simp only [merge, BitVec.getLsbD_extractLsb', BitVec.getLsbD_setWidth, BitVec.getLsbD_or,
    BitVec.getLsbD_and, BitVec.getLsbD_not, hmask]
  simp [hi, show 8 + i < 16 by omega, show 8 + i < 32 by omega]

/-- The cached value of `reg` has the high byte `hi`, or none is cached and a read gives it
that high byte. -/
def State.HighByte (s : State σ) (reg : BitVec 8) (hi : BitVec 8) : Prop :=
  match s.cache reg with
  | some v => v.extractLsb' 8 8 = hi
  | none => ∃ lo, bus.read reg s.dev = .ok (hi, lo)

theorem State.store_dev (s : State σ) (reg : BitVec 8) (v : BitVec 16) :
    (s.store cfg reg v).dev = s.dev := by
  unfold State.store
  split <;> rfl

theorem State.store_cache {cfg : Config} {reg : BitVec 8} (hvol : cfg.volatileReg reg = false)
    (s : State σ) (v : BitVec 16) : (s.store cfg reg v).cache reg = some v := by
  simp [State.store, hvol]

/-- A read gives and caches a value with the high byte, and leaves the device. -/
theorem read_highByte {cfg : Config} {bus : Bus σ} {reg : BitVec 8}
    (hvol : cfg.volatileReg reg = false) {s : State σ} {hi : BitVec 8}
    (h : s.HighByte bus reg hi) :
    ∃ v s', read cfg bus reg s = (.ok v, s') ∧ v.extractLsb' 8 8 = hi ∧ s'.dev = s.dev ∧
      s'.cache reg = some v := by
  unfold State.HighByte at h
  unfold read
  cases hc : s.cache reg with
  | some v =>
    rw [hc] at h
    exact ⟨v, s, rfl, h, rfl, hc⟩
  | none =>
    rw [hc] at h
    obtain ⟨lo, hlo⟩ := h
    rw [hlo]
    exact ⟨_, _, rfl, BitVec.extractLsb'_append_eq_left, s.store_dev cfg _ _,
      State.store_cache hvol s _⟩

/-- A masked update in the low byte is no transaction, or is a write whose first byte is the
high byte that was there; the cache has that byte too. -/
theorem updateBits_highByte {cfg : Config} {bus : Bus σ} {reg : BitVec 8}
    (hvol : cfg.volatileReg reg = false) (hwr : cfg.writeableReg reg = true)
    (hmax : reg.toNat ≤ cfg.maxRegister) {mask : BitVec 32}
    (hmask : ∀ i, 8 ≤ i → i < 16 → mask.getLsbD i = false) (val : BitVec 32) {s : State σ}
    {hi : BitVec 8} (h : s.HighByte bus reg hi) :
    ∃ r v lo, updateBits cfg bus reg mask val s = r ∧ r.2.cache reg = some v ∧
      v.extractLsb' 8 8 = hi ∧
      (r.1 = 0 ∧ r.2.dev = s.dev ∨ (r.1, r.2.dev) = bus.write [reg, hi, lo] s.dev) := by
  obtain ⟨v, s', hread, hhi, hdev, hcache⟩ := read_highByte hvol h
  have hmerge := (extractLsb'_merge hmask v val).trans hhi
  unfold updateBits
  rw [hread]
  dsimp only
  split_ifs
  · exact ⟨_, v, 0, rfl, hcache, hhi, .inl ⟨rfl, hdev⟩⟩
  · have hok : ¬ (reg.toNat > cfg.maxRegister ∨ cfg.writeableReg reg = false) := by
      rw [hwr]
      simp [hmax]
    rw [write, if_neg hok]
    refine ⟨_, _, ((merge v mask val).setWidth 16).extractLsb' 0 8, rfl,
      State.store_cache hvol s' _, hmerge, .inr ?_⟩
    rw [bytes, hmerge, hdev]

/-! ## What an access leaves -/

/-- Storing a value in the cache leaves the other registers. -/
theorem State.store_other {reg r : BitVec 8} (h : r ≠ reg) (s : State σ) (v : BitVec 16) :
    (s.store cfg reg v).cache r = s.cache r := by
  unfold State.store
  split_ifs
  · rfl
  · exact if_neg h

/-- A read leaves the device, and the cache of the other registers. -/
theorem read_frame (reg : BitVec 8) (s : State σ) :
    (read cfg bus reg s).2.dev = s.dev ∧
      ∀ r, r ≠ reg → (read cfg bus reg s).2.cache r = s.cache r := by
  unfold read
  split
  · exact ⟨rfl, fun _ _ => rfl⟩
  · split
    · exact ⟨rfl, fun _ _ => rfl⟩
    · exact ⟨s.store_dev cfg reg _, fun r h => s.store_other cfg h _⟩

/-- A read of a volatile register that is not cached is a read of the device. -/
theorem read_volatile {cfg : Config} {bus : Bus σ} {reg : BitVec 8}
    (hvol : cfg.volatileReg reg = true) {s : State σ} (h : s.cache reg = none) :
    read cfg bus reg s = ((bus.read reg s.dev).map fun b => b.1 ++ b.2, s) := by
  unfold read
  rw [h]
  cases hread : bus.read reg s.dev with
  | error err => rfl
  | ok b => simp [Except.map, State.store, hvol]

/-- A masked update is at most one write of its register, and leaves the cache of the
others. -/
theorem updateBits_frame (reg : BitVec 8) (mask val : BitVec 32) (s : State σ) :
    ((updateBits cfg bus reg mask val s).2.dev = s.dev ∨
        ∃ bytes, (updateBits cfg bus reg mask val s).2.dev = (bus.write (reg :: bytes) s.dev).2) ∧
      ∀ r, r ≠ reg → (updateBits cfg bus reg mask val s).2.cache r = s.cache r := by
  obtain ⟨hdev, hcache⟩ := read_frame cfg bus reg s
  unfold updateBits
  split
  next err s' hread =>
    rw [hread] at hdev hcache
    exact ⟨.inl hdev, hcache⟩
  next orig s' hread =>
    rw [hread] at hdev hcache
    dsimp only at hdev hcache
    split_ifs
    · exact ⟨.inl hdev, hcache⟩
    · unfold write
      split_ifs
      · exact ⟨.inl hdev, hcache⟩
      · rw [← hdev]
        exact ⟨.inr ⟨_, rfl⟩, fun r h => (State.store_other cfg h _ _).trans (hcache r h)⟩

end Regmap
