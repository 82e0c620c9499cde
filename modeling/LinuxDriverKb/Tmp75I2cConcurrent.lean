import LinuxDriverKb.Lib.Calls
import LinuxDriverKb.Tmp75I2c

/-!
# Concurrent settings of the TMP75 driver on raw I2C

`tmp75_ioctl` takes no lock. Setting the resolution is two steps, the transfer to the chip
and the store to `priv->resolution_cfg`, and calls of several processes interleave. If they
store in another order than they wrote the chip, the two differ for good.

`concurrent_iff` : the chip has what the driver remembers whenever no call is in progress,
exactly if the last call to store is always the last that wrote the chip, or one that asked
for the same.
-/

set_option autoImplicit false

namespace LinuxDriverKb

namespace Tmp75I2c

namespace Concurrent

open Tmp75 (Chip ResolutionCfg bit9 bit10 bit11 bit12)

/-! ## Interleavings -/

/-- Where a call is : before its transfer, before its store, or returned. -/
inductive Pc
  | write
  | store
  | done
  deriving DecidableEq

/-- An ioctl in progress : its argument, and where it is. -/
structure Call where
  resCfg : ResolutionCfg
  pc : Pc
  deriving DecidableEq

/-- The driver and the chip, the calls made so far, and, which the driver does not know, the
call that has written the chip last. -/
structure State where
  drv : Tmp75I2c.State
  calls : List Call
  writer : Option ℕ

/-- A new call, or the next step of the `i`-th one. -/
inductive Action
  | call (arg : ResolutionCfg)
  | next (i : ℕ)

/-- A new call; an argument out of range is refused. -/
def newCall (arg : ResolutionCfg) : Call :=
  ⟨arg, if arg > bit12 then .done else .write⟩

/-- One step of a call. -/
def callStep (s : State) (i : ℕ) (c : Call) : Option State :=
  match c.pc with
  | .write => some
    { drv := { s.drv with chip := (tmp75SetResolution .done c.resCfg s.drv.chip).2 }
      calls := s.calls.set i { c with pc := .store }
      writer := some i }
  | .store => some
    { s with drv := { s.drv with resolutionCfg := c.resCfg }
             calls := s.calls.set i { c with pc := .done } }
  | .done => none

/-- One action. -/
def step (s : State) : Action → Option State
  | .call arg => some { s with calls := s.calls ++ [newCall arg] }
  | .next i => s.calls[i]?.bind (callStep s i)

/-- No call has come. -/
def start (drv : Tmp75I2c.State) : State :=
  ⟨drv, [], none⟩

/-- A call that runs alone does what the ioctl does. -/
theorem callStep_alone (s : State) (i : ℕ) (c : Tmp75I2c.Call) (hbus : c.bus = .done)
    (harg : c.arg ≤ bit12) :
    (callStep s i ⟨c.arg, .write⟩).bind (fun t => (callStep t i ⟨c.arg, .store⟩).map State.drv) =
      some (setResolution c s.drv).state := by
  rw [setResolution, if_neg (BitVec.not_lt.mpr harg), hbus]
  rfl

/-! ## What a run should do -/

/-- No call is in progress. -/
def Quiescent (s : State) : Prop :=
  ∀ (i : ℕ) (c : Call), s.calls[i]? = some c → c.pc = .done

/-- The resolution of the chip is the one the driver remembers. -/
def Agree (s : State) : Prop :=
  s.drv.chip.resolution.toNat = s.drv.resolutionCfg.toNat

/-- When no call is in progress, chip and driver agree. -/
def Holds (_ : State) (_ : Action) (s' : State) : Prop :=
  Quiescent s' → Agree s'

/-- The step is the store of `c`, and no other call is in progress. -/
structure LastStore (s : State) (a : Action) (c : Call) : Prop where
  store : c.pc = .store
  last : ∃ i, a = .next i ∧ s.calls[i]? = some c ∧
    ∀ (j : ℕ) (c' : Call), j ≠ i → s.calls[j]? = some c' → c'.pc = .done

/-- The last call to store asks for what the call asked for that wrote the chip last. -/
def InOrder (s : State) (a : Action) (_ : State) : Prop :=
  ∀ c, LastStore s a c → ∃ k w, s.writer = some k ∧ s.calls[k]? = some w ∧ w.resCfg = c.resCfg

/-! ## The writer of the chip -/

/-- What the last writer of the chip and the calls in progress ask for. -/
structure Inv (s : State) : Prop where
  /-- Only arguments in range get as far as the chip. -/
  valid : ∀ (i : ℕ) (c : Call), s.calls[i]? = some c → c.pc ≠ .done → c.resCfg ≤ bit12
  /-- The chip has what its writer asked for. -/
  writer : ∀ k, s.writer = some k → ∃ w, s.calls[k]? = some w ∧ w.pc ≠ .write ∧
    s.drv.chip.resolution.toNat = w.resCfg.toNat
  /-- A call about to store has written. -/
  written : s.writer = none → ∀ (i : ℕ) (c : Call), s.calls[i]? = some c → c.pc ≠ .store
  agree : Quiescent s → Agree s

theorem inv_start {drv : Tmp75I2c.State} (h : Agrees drv) : Inv (start drv) where
  valid _ _ hc := by simp [start] at hc
  writer _ hk := by simp [start] at hk
  written _ _ _ hc := by simp [start] at hc
  agree _ := h.resolution_eq

/-- What a step does. -/
theorem step_cases {s s' : State} {a : Action} (h : step s a = some s') :
    (∃ arg, a = .call arg ∧ s' = { s with calls := s.calls ++ [newCall arg] }) ∨
    (∃ i c, a = .next i ∧ s.calls[i]? = some c ∧ c.pc = .write ∧
      s' = { drv := { s.drv with chip := (tmp75SetResolution .done c.resCfg s.drv.chip).2 }
             calls := s.calls.set i { c with pc := .store }, writer := some i }) ∨
    (∃ i c, a = .next i ∧ s.calls[i]? = some c ∧ c.pc = .store ∧
      s' = { s with drv := { s.drv with resolutionCfg := c.resCfg }
                    calls := s.calls.set i { c with pc := .done } }) := by
  cases a with
  | call arg => exact Or.inl ⟨arg, rfl, (Option.some.inj h).symm⟩
  | next i =>
    obtain ⟨c, hc, hstep⟩ := Option.bind_eq_some_iff.mp h
    unfold callStep at hstep
    cases hpc : c.pc <;> rw [hpc] at hstep
    · exact Or.inr (Or.inl ⟨i, c, rfl, hc, hpc, (Option.some.inj hstep).symm⟩)
    · exact Or.inr (Or.inr ⟨i, c, rfl, hc, hpc, (Option.some.inj hstep).symm⟩)
    · exact absurd hstep (by simp)

/-- After the store of a call, the others are as before. -/
theorem quiescent_store (s : State) (i : ℕ) (c : Call) (drv : Tmp75I2c.State) :
    Quiescent { s with drv := drv, calls := s.calls.set i { c with pc := .done } } ↔
      ∀ (j : ℕ) (c' : Call), j ≠ i → s.calls[j]? = some c' → c'.pc = .done := by
  constructor
  · intro h j c' hj hc'
    exact h j c' (Calls.set_other hj hc')
  · intro h j c' hc'
    rcases Calls.set_cases hc' with ⟨-, rfl⟩ | ⟨hj, hc'⟩
    · rfl
    · exact h j c' hj hc'

/-- A step that ends with chip and driver in agreement, or with calls in progress, keeps
the invariant. -/
theorem inv_step {s s' : State} {a : Action} (hinv : Inv s) (hstep : step s a = some s')
    (hholds : Holds s a s') : Inv s' := by
  rcases step_cases hstep with
    ⟨arg, rfl, rfl⟩ | ⟨i, c, rfl, hc, hpc, rfl⟩ | ⟨i, c, rfl, hc, hpc, rfl⟩
  · refine ⟨fun j d hd hpc => ?_, fun k hk => ?_, fun hw j d hd => ?_, hholds⟩
    · rcases Calls.append_cases hd with ⟨-, rfl⟩ | hd
      · by_contra hle
        exact hpc (if_pos (BitVec.not_le.mp hle))
      · exact hinv.valid j d hd hpc
    · obtain ⟨w, hw, hrest⟩ := hinv.writer k hk
      exact ⟨w, Calls.append_old hw, hrest⟩
    · rcases Calls.append_cases hd with ⟨-, rfl⟩ | hd
      · unfold newCall
        split_ifs <;> simp
      · exact hinv.written hw j d hd
  · have hvalid : c.resCfg ≤ bit12 := hinv.valid i c hc (by simp [hpc])
    refine ⟨fun j d hd hne => ?_, fun k hk => ?_, fun hw => absurd hw (by simp), hholds⟩
    · rcases Calls.set_cases hd with ⟨-, rfl⟩ | ⟨-, hd⟩
      · exact hvalid
      · exact hinv.valid j d hd hne
    · obtain rfl := Option.some.inj hk
      exact ⟨_, Calls.set_self hc, by simp, resolution_write hvalid s.drv.chip⟩
  · refine ⟨fun j d hd hne => ?_, fun k hk => ?_, fun hw j d hd => ?_, hholds⟩
    · rcases Calls.set_cases hd with ⟨-, rfl⟩ | ⟨-, hd⟩
      · exact absurd rfl hne
      · exact hinv.valid j d hd hne
    · obtain ⟨w, hw, hwpc, hchip⟩ := hinv.writer k hk
      by_cases hki : k = i
      · subst hki
        obtain rfl := Option.some.inj (hc.symm.trans hw)
        exact ⟨_, Calls.set_self hc, by simp, hchip⟩
      · exact ⟨w, Calls.set_other hki hw, hwpc, hchip⟩
    · exact absurd hpc (hinv.written hw i c hc)

/-- A step ends in agreement, or with calls in progress, exactly if it is in order. -/
theorem holds_iff {s s' : State} {a : Action} (hinv : Inv s) (hstep : step s a = some s') :
    Holds s a s' ↔ InOrder s a s' := by
  rcases step_cases hstep with
    ⟨arg, rfl, rfl⟩ | ⟨i, c, rfl, hc, hpc, rfl⟩ | ⟨i, c, rfl, hc, hpc, rfl⟩
  · refine iff_of_true (fun hq => hinv.agree fun j d hd => ?_) ?_
    · exact hq j d (Calls.append_old hd)
    · rintro d ⟨-, j, hj, -⟩
      exact nomatch hj
  · refine iff_of_true (fun hq => ?_) ?_
    · exact absurd (hq i _ (Calls.set_self hc)) (by simp)
    · rintro d ⟨hd, j, hj, hdj, -⟩
      obtain rfl := Action.next.inj hj
      obtain rfl := Option.some.inj (hc.symm.trans hdj)
      exact absurd (hpc.symm.trans hd) (by simp)
  · obtain ⟨k, hk⟩ : ∃ k, s.writer = some k := by
      by_contra hne
      exact hinv.written (Option.eq_none_iff_forall_ne_some.mpr fun k hk => hne ⟨k, hk⟩) i c hc hpc
    obtain ⟨w, hw, -, hchip⟩ := hinv.writer k hk
    rw [Holds, quiescent_store]
    constructor
    · rintro h d ⟨-, j, hj, hdj, hlast⟩
      obtain rfl := Action.next.inj hj
      obtain rfl := Option.some.inj (hc.symm.trans hdj)
      exact ⟨k, w, hk, hw, BitVec.eq_of_toNat_eq (hchip.symm.trans (h hlast))⟩
    · intro h hlast
      obtain ⟨k', w', hk', hw', hres⟩ := h c ⟨hpc, i, rfl, hc, hlast⟩
      obtain rfl := Option.some.inj (hk.symm.trans hk')
      obtain rfl := Option.some.inj (hw.symm.trans hw')
      exact hchip.trans (congrArg BitVec.toNat hres)

/-! ## Runs -/

/-- Over any interleaving of calls : chip and driver agree whenever no call is in
progress, exactly if each time the last call to store asks for what the last writer of the
chip asked for. -/
theorem concurrent_iff (drv : Tmp75I2c.State) (hdrv : Agrees drv) (as : List Action) :
    Transition.Always step Holds (start drv) as ↔
      Transition.Always step InOrder (start drv) as :=
  Transition.always_congr (I := Inv) (fun _ _ _ => holds_iff) (fun _ _ _ => inv_step)
    (inv_start hdrv)

/-- 10 bits and 11 bits are set at once, and stored in the order of the writes. -/
theorem concurrent_iff_two :
    let as : List Action := [.call bit10, .call bit11, .next 0, .next 1, .next 0, .next 1]
    (Transition.run step (start (init ⟨0, 0⟩)) as).map
        (fun s => (s.calls.map Call.pc, s.drv.chip.resolution, s.drv.resolutionCfg)) =
      some ([.done, .done], 2, bit11) ∧
    (Transition.Always step Holds (start (init ⟨0, 0⟩)) as ↔
      Transition.Always step InOrder (start (init ⟨0, 0⟩)) as) :=
  ⟨by decide, concurrent_iff (init ⟨0, 0⟩) ⟨rfl, Nat.zero_lt_succ 3⟩ _⟩

/-- 10 bits and 12 bits are set at once. The second call writes the chip after the first
and stores before it : all calls have returned, the chip has 12 bits, and the driver
remembers 10. -/
theorem concurrent_disagree :
    (Transition.run step (start (init ⟨0, 0⟩))
        [.call bit10, .call bit12, .next 0, .next 1, .next 1, .next 0]).map
      (fun s => (s.calls.map Call.pc, s.drv.chip.resolution, s.drv.resolutionCfg)) =
    some ([.done, .done], 3, bit10) := by
  decide

end Concurrent

end Tmp75I2c

end LinuxDriverKb
