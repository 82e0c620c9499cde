import Mathlib.Data.List.Perm.Basic
import Mathlib.Data.List.Perm.Lattice
import Mathlib.Tactic.SplitIfs

/-!
# A ledger of resources

A program acquires, uses and releases resources. `exec` keeps the list of the live ones over
a list of such operations, and `Valid` says that every resource is acquired while it is not
live, and used and released while it is : nothing is released twice, or before it was
acquired, and nothing is used after its release. Of a valid list of operations every resource
has been released as often as acquired, but for those that are live.
-/

set_option autoImplicit false

namespace Ledger

/-- What an operation does with a resource. -/
inductive Op (α : Type*)
  | acquire (r : α)
  | use (r : α)
  | release (r : α)
  deriving DecidableEq

variable {α : Type*} [DecidableEq α]

/-- The live resources after an operation. -/
def apply (live : List α) : Op α → List α
  | .acquire r => r :: live
  | .use _ => live
  | .release r => live.erase r

/-- The live resources after the operations. -/
def exec (live : List α) (ops : List (Op α)) : List α :=
  ops.foldl apply live

omit [DecidableEq α] in
/-- What an operation needs of the live resources. -/
def Allowed (live : List α) : Op α → Prop
  | .acquire r => r ∉ live
  | .use r | .release r => r ∈ live

/-- All operations are allowed, one after the other. -/
def Valid : List α → List (Op α) → Prop
  | _, [] => True
  | live, op :: ops => Allowed live op ∧ Valid (apply live op) ops

instance (live : List α) : DecidablePred (Allowed live)
  | .acquire r => inferInstanceAs (Decidable (r ∉ live))
  | .use r | .release r => inferInstanceAs (Decidable (r ∈ live))

instance decidableValid : ∀ (live : List α) (ops : List (Op α)), Decidable (Valid live ops)
  | _, [] => isTrue True.intro
  | live, op :: ops =>
    have : Decidable (Valid (apply live op) ops) := decidableValid (apply live op) ops
    inferInstanceAs (Decidable (Allowed live op ∧ Valid (apply live op) ops))

variable {live live' rest rs : List α} {ops ops' : List (Op α)}

@[simp] theorem exec_nil (live : List α) : exec live [] = live :=
  rfl

@[simp] theorem exec_cons (live : List α) (op : Op α) (ops : List (Op α)) :
    exec live (op :: ops) = exec (apply live op) ops :=
  rfl

theorem exec_append : exec live (ops ++ ops') = exec (exec live ops) ops' :=
  List.foldl_append

theorem valid_append : Valid live (ops ++ ops') ↔ Valid live ops ∧ Valid (exec live ops) ops' := by
  induction ops generalizing live with
  | nil => simp [Valid]
  | cons op ops ih => simp [Valid, ih, and_assoc]

/-! ## The order of the live resources -/

theorem apply_perm (h : live.Perm live') (op : Op α) : (apply live op).Perm (apply live' op) := by
  cases op with
  | acquire r => exact h.cons r
  | use r => exact h
  | release r => exact h.erase r

omit [DecidableEq α] in
theorem allowed_perm (h : live.Perm live') (op : Op α) : Allowed live op ↔ Allowed live' op := by
  cases op with
  | acquire r => exact not_congr h.mem_iff
  | use r => exact h.mem_iff
  | release r => exact h.mem_iff

theorem exec_perm (h : live.Perm live') (ops : List (Op α)) :
    (exec live ops).Perm (exec live' ops) := by
  induction ops generalizing live live' with
  | nil => exact h
  | cons op ops ih => exact ih (apply_perm h op)

theorem valid_perm (h : live.Perm live') (ops : List (Op α)) :
    Valid live ops ↔ Valid live' ops := by
  induction ops generalizing live live' with
  | nil => exact Iff.rfl
  | cons op ops ih => exact and_congr (allowed_perm h op) (ih (apply_perm h op))

/-! ## Acquiring and releasing a whole list -/

theorem exec_acquire (rs : List α) : (exec live (rs.map .acquire)).Perm (rs ++ live) := by
  induction rs generalizing live with
  | nil => exact .rfl
  | cons r rs ih => exact ih.trans List.perm_middle

/-- Distinct resources that are not live can be acquired. -/
theorem valid_acquire (hnodup : rs.Nodup) (h : ∀ r ∈ rs, r ∉ live) :
    Valid live (rs.map .acquire) := by
  induction rs generalizing live with
  | nil => exact True.intro
  | cons r rs ih =>
    obtain ⟨hr, hrs⟩ := List.nodup_cons.mp hnodup
    refine ⟨h r List.mem_cons_self, ih hrs fun x hx hlive => ?_⟩
    rcases List.mem_cons.mp hlive with rfl | hlive
    · exact hr hx
    · exact h x (List.mem_cons_of_mem r hx) hlive

theorem exec_release (h : live.Perm (rs ++ rest)) : (exec live (rs.map .release)).Perm rest := by
  induction rs generalizing live with
  | nil => exact h
  | cons r rs ih =>
    refine ih ((h.erase r).trans ?_)
    rw [List.cons_append, List.erase_cons_head]

/-- Live resources can be released, each once. -/
theorem valid_release (h : live.Perm (rs ++ rest)) : Valid live (rs.map .release) := by
  induction rs generalizing live with
  | nil => exact True.intro
  | cons r rs ih =>
    refine ⟨h.mem_iff.mpr List.mem_cons_self, ih ((h.erase r).trans ?_)⟩
    rw [List.cons_append, List.erase_cons_head]

/-- What is released was live beside what still is. -/
theorem perm_of_release (h : Valid live (rs.map .release)) :
    live.Perm (rs ++ exec live (rs.map .release)) := by
  induction rs generalizing live with
  | nil => exact .rfl
  | cons r rs ih => exact (List.perm_cons_erase h.1).trans ((ih h.2).cons r)

/-! ## Balances -/

/-- Over valid operations a resource is released as often as acquired, but for the live ones. -/
theorem count_acquire (h : Valid live ops) (r : α) :
    live.count r + ops.count (.acquire r) =
      ops.count (.release r) + (exec live ops).count r := by
  induction ops generalizing live with
  | nil => simp
  | cons op ops ih =>
    obtain ⟨hop, hops⟩ := h
    have hrest := ih hops
    rw [exec_cons, List.count_cons, List.count_cons]
    cases op with
    | acquire x => by_cases hx : x = r <;> simp [apply, hx] at hrest ⊢ <;> omega
    | use x => simpa [apply] using hrest
    | release x =>
      by_cases hx : x = r
      · have hpos : 0 < live.count r := List.count_pos_iff.mpr (hx ▸ hop)
        simp [apply, hx] at hrest ⊢
        omega
      · simp [apply, hx, List.count_erase_of_ne (Ne.symm hx)] at hrest ⊢
        omega

/-- The acquisitions among the operations, and the releases. -/
def acquired : List (Op α) → ℕ
  | [] => 0
  | .acquire _ :: ops => acquired ops + 1
  | .use _ :: ops | .release _ :: ops => acquired ops

/-- How many operations release something. -/
def released : List (Op α) → ℕ
  | [] => 0
  | .release _ :: ops => released ops + 1
  | .use _ :: ops | .acquire _ :: ops => released ops

/-- Valid operations leave as many more resources live as they acquire more than release. -/
theorem length_exec (h : Valid live ops) :
    (exec live ops).length + released ops = live.length + acquired ops := by
  induction ops generalizing live with
  | nil => simp [acquired, released]
  | cons op ops ih =>
    obtain ⟨hop, hops⟩ := h
    have hrest := ih hops
    rw [exec_cons]
    cases op with
    | acquire r =>
      simp only [apply, acquired, released, List.length_cons] at hrest ⊢
      omega
    | use r => exact hrest
    | release r =>
      have hpos : 0 < live.length := List.length_pos_of_mem hop
      simp only [apply, acquired, released, List.length_erase_of_mem hop] at hrest ⊢
      omega

end Ledger
