import Mathlib.Data.Int.Notation
import LinuxDriverKb.Lib.Transition

/-!
# Interrupt control of `virt_uio.c`

`virt_uio_irqcontrol` first sets or clears bit 0 of `flag`, and enables or disables the
interrupt if that changed the bit. The two steps are atomic each, but not together, and
calls of several processes interleave. The kernel counts a disable depth; `enable_irq` at
depth 0 only warns.

The depth is determined by the flag and the calls between their two steps, as long as no
`enable_irq` has run at depth 0 (`Balanced`). `irqcontrol_iff` : a run is right exactly if
no `enable_irq` runs before the `disable_irq_nosync` it should undo.
-/

set_option autoImplicit false

namespace LinuxDriverKb

namespace VirtUio

/-! ## The driver -/

/-- Where a `virt_uio_irqcontrol` call is : before its bit operation, before
`enable_irq` or `disable_irq_nosync`, or returned. -/
inductive Pc
  | start (irqOn : ℤ)
  | enable
  | disable
  | done
  deriving DecidableEq

/-- The flag, the depth of the interrupt, and the calls. -/
structure State where
  flag : Bool
  depth : ℕ
  calls : List Pc

/-- A new call, or the next step of the `i`-th one. -/
inductive Action
  | call (irqOn : ℤ)
  | next (i : ℕ)

/-- After `test_and_set_bit` or `test_and_clear_bit`. -/
def afterBitOp (irqOn : ℤ) (flag : Bool) : Pc :=
  if irqOn ≠ 0 then (if flag = false then .enable else .done)
  else (if flag = true then .disable else .done)

/-- One step of a call. -/
def irqcontrolStep (s : State) (i : ℕ) : Pc → Option State
  | .start irqOn => some
    { s with flag := decide (irqOn ≠ 0), calls := s.calls.set i (afterBitOp irqOn s.flag) }
  | .enable => some { s with depth := s.depth - 1, calls := s.calls.set i .done }
  | .disable => some { s with depth := s.depth + 1, calls := s.calls.set i .done }
  | .done => none

/-- A call comes, or makes its next step. -/
def step (s : State) : Action → Option State
  | .call irqOn => some { s with calls := s.calls ++ [.start irqOn] }
  | .next i => s.calls[i]?.bind (irqcontrolStep s i)

/-- After `virt_uio_probe` : the bit is set, and the interrupt is enabled. -/
def init : State :=
  ⟨true, 0, []⟩

/-! ## What a run should do -/

/-- No call is in progress. -/
def Quiescent (s : State) : Prop :=
  ∀ pc ∈ s.calls, pc = .done

/-- The step runs `enable_irq`. -/
def Enables (s : State) (a : Action) : Prop :=
  ∃ i, a = .next i ∧ s.calls[i]? = some .enable

/-- `enable_irq` does not run at depth 0, and with no call in progress the depth is 0 or
1 as the bit says. -/
structure Holds (s : State) (a : Action) (s' : State) : Prop where
  enable : Enables s a → 0 < s.depth
  depth : Quiescent s' → s'.depth = if s'.flag then 0 else 1

/-- Calls about to run `enable_irq`. -/
def pendingEnables (s : State) : ℕ :=
  s.calls.countP (· = .enable)

/-- Calls about to run `disable_irq_nosync`. -/
def pendingDisables (s : State) : ℕ :=
  s.calls.countP (· = .disable)

/-- A call that runs `enable_irq` does so with the bit clear and no more disables than
enables outstanding, or with the bit set and less. -/
def Ordered (s : State) (a : Action) (_ : State) : Prop :=
  Enables s a → pendingDisables s + s.flag.toNat ≤ pendingEnables s

/-- The depth from the bit and the outstanding calls. -/
def Balanced (s : State) : Prop :=
  s.depth + pendingDisables s + s.flag.toNat = 1 + pendingEnables s

/-! ## One step -/

/-- One call going from `pc` to `pc'` moves the counts by what the two count for. -/
theorem countP_set {calls : List Pc} {i : ℕ} {pc : Pc} (h : calls[i]? = some pc) (p : Pc → Bool)
    (pc' : Pc) : (calls.set i pc').countP p + (p pc).toNat = calls.countP p + (p pc').toNat := by
  obtain ⟨hi, rfl⟩ := List.getElem?_eq_some_iff.mp h
  have hpos : p calls[i] = true → 0 < calls.countP p := fun hp =>
    List.countP_pos_iff.mpr ⟨_, List.getElem_mem hi, hp⟩
  rw [List.countP_set hi]
  cases hp : p calls[i] <;> cases p pc' <;> simp_all

theorem balanced_init : Balanced init :=
  rfl

/-- A step keeps the balance, unless it runs `enable_irq` at depth 0. -/
theorem balanced_step {s s' : State} {a : Action} (h : Balanced s) (hstep : step s a = some s')
    (henable : Enables s a → 0 < s.depth) : Balanced s' := by
  cases a with
  | call irqOn =>
    obtain rfl := Option.some.inj hstep
    simpa [Balanced, pendingEnables, pendingDisables, List.countP_append] using h
  | next i =>
    obtain ⟨pc, hpc, hnext⟩ := Option.bind_eq_some_iff.mp hstep
    have hcount := countP_set hpc
    unfold Balanced pendingEnables pendingDisables at h ⊢
    cases pc with
    | start irqOn =>
      obtain rfl := Option.some.inj hnext
      have hen := hcount (· = .enable) (afterBitOp irqOn s.flag)
      have hdis := hcount (· = .disable) (afterBitOp irqOn s.flag)
      -- the bit changes exactly if a call becomes outstanding
      by_cases hon : irqOn = 0 <;> cases hf : s.flag <;>
        simp [afterBitOp, hon, hf] at hen hdis h ⊢ <;> omega
    | enable =>
      obtain rfl := Option.some.inj hnext
      have hpos := henable ⟨i, rfl, hpc⟩
      have hen := hcount (· = .enable) .done
      have hdis := hcount (· = .disable) .done
      simp at hen hdis ⊢
      omega
    | disable =>
      obtain rfl := Option.some.inj hnext
      have hen := hcount (· = .enable) .done
      have hdis := hcount (· = .disable) .done
      simp at hen hdis ⊢
      omega
    | done => cases hnext

/-- With no call in progress the balance gives the depth. -/
theorem depth_of_balanced {s : State} (h : Balanced s) (hq : Quiescent s) :
    s.depth = if s.flag then 0 else 1 := by
  have hen : pendingEnables s = 0 := by
    refine List.countP_eq_zero.mpr fun pc hpc => ?_
    simp [hq pc hpc]
  have hdis : pendingDisables s = 0 := by
    refine List.countP_eq_zero.mpr fun pc hpc => ?_
    simp [hq pc hpc]
  rw [Balanced, hen, hdis] at h
  cases hf : s.flag <;> simp [hf] at h ⊢ <;> omega

theorem holds_iff_ordered {s s' : State} {a : Action} (h : Balanced s)
    (hstep : step s a = some s') : Holds s a s' ↔ Ordered s a s' := by
  have hiff : 0 < s.depth ↔ pendingDisables s + s.flag.toNat ≤ pendingEnables s := by
    unfold Balanced at h
    omega
  constructor
  · intro hh hen
    exact hiff.mp (hh.enable hen)
  · intro ho
    have hpos : Enables s a → 0 < s.depth := fun hen => hiff.mpr (ho hen)
    exact ⟨hpos, depth_of_balanced (balanced_step h hstep hpos)⟩

/-! ## Runs -/

/-- Over any calls and any interleaving : `enable_irq` never runs at depth 0, and the depth
is 0 or 1 as the bit says whenever no call is in progress, exactly if no `enable_irq` runs
before the `disable_irq_nosync` of an earlier switching off. -/
theorem irqcontrol_iff (as : List Action) :
    Transition.Always step Holds init as ↔ Transition.Always step Ordered init as :=
  Transition.always_congr (fun _ _ _ => holds_iff_ordered)
    (fun _ _ _ h hstep hh => balanced_step h hstep hh.enable) balanced_init

/-- An off, overtaken between its two steps by an on : `enable_irq` runs at depth 0, and in
the end the bit is set and the interrupt disabled. -/
theorem irqcontrol_overtaken :
    ¬ Transition.Always step Holds init
        [.call 0, .call 1, .next 0, .next 1, .next 1, .next 0] ∧
      Transition.run step init [.call 0, .call 1, .next 0, .next 1, .next 1, .next 0] =
        some ⟨true, 1, [.done, .done]⟩ := by
  refine ⟨fun h => ?_, rfl⟩
  have hlast : Holds ⟨true, 0, [.disable, .done]⟩ (.next 0) ⟨true, 1, [.done, .done]⟩ :=
    ((((((h _ rfl).2 _ rfl).2 _ rfl).2 _ rfl).2 _ rfl).2 _ rfl).1
  exact absurd (hlast.depth (by simp [Quiescent])) (by decide)

end VirtUio

end LinuxDriverKb
