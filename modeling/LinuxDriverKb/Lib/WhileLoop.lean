import Mathlib.Order.Basic

/-!
# Loops with an exit

A loop body either goes on with a new state or leaves with a result. `iter body n`
runs at most `n` rounds. `Returns body s r` : the loop leaves with `r` after some number
of rounds. `iter_spec` is total correctness : an invariant that every round keeps, a
measure that every round lowers, and a result the exits guarantee.
-/

set_option autoImplicit false

namespace WhileLoop

variable {σ ρ : Type*} {body : σ → σ ⊕ ρ}

/-- At most `n` rounds of `body` from `s`; `none` if the loop is still running. -/
def iter (body : σ → σ ⊕ ρ) : ℕ → σ → Option ρ
  | 0, _ => none
  | n + 1, s =>
    match body s with
    | .inl s' => iter body n s'
    | .inr r => some r

/-- The loop leaves with `r`. -/
def Returns (body : σ → σ ⊕ ρ) (s : σ) (r : ρ) : Prop :=
  ∃ n, iter body n s = some r

theorem Returns.exit {s : σ} {r : ρ} (h : body s = .inr r) : Returns body s r :=
  ⟨1, by simp [iter, h]⟩

theorem Returns.next {s s' : σ} {r : ρ} (h : body s = .inl s') (hr : Returns body s' r) :
    Returns body s r := by
  obtain ⟨n, hn⟩ := hr
  exact ⟨n + 1, by simp [iter, h, hn]⟩

/-- Total correctness. Let each round keep `I` and lower `μ`, and each exit from `I` give
`Q`. From `I`, more rounds than `μ` leave the loop with a result in `Q`. -/
theorem iter_spec {I : σ → Prop} {Q : ρ → Prop} (μ : σ → ℕ)
    (hnext : ∀ s s', I s → body s = .inl s' → I s' ∧ μ s' < μ s)
    (hexit : ∀ s r, I s → body s = .inr r → Q r) :
    ∀ {n : ℕ} {s : σ}, I s → μ s < n → ∃ r, iter body n s = some r ∧ Q r
  | 0, _, _, hn => absurd hn (by omega)
  | n + 1, s, hs, hn => by
    cases hb : body s with
    | inl s' =>
      obtain ⟨hs', hlt⟩ := hnext s s' hs hb
      simpa [iter, hb] using iter_spec μ hnext hexit hs' (by omega)
    | inr r => exact ⟨r, by simp [iter, hb], hexit s r hs hb⟩

end WhileLoop
