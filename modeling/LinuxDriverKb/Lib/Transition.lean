import Mathlib.Data.List.Basic

/-!
# Runs of a partial step function

`step s a` is the state after the action `a`, or `none` when `a` is not enabled in `s`.
`run` folds it over a list of actions. `Always` is a property of the steps of one run :
of the state before each, the action, and the state after. If it is decidable for a step, it
is for a run.

Four rules carry a step lemma to runs. `inv_run` : an invariant holds of the state a run
reaches. `always_of_inv` : a property of the steps under an invariant holds at every step of
a run. `always_imp` : if steps that meet the condition `C` keep the invariant and have
the property `T`, so do runs. `always_congr` : if under an invariant a step has `T` exactly
when it meets `C`, a run has `T` at every step exactly when it meets `C` at every step.
Runs of actions that decrease a measure are no longer than it (`length_le_of_measure`), and
reach a state where no such action is enabled (`exists_quiescent`).

Two rules relate the runs of two step functions : a map of the states (`map_run`), and a part
of the state that some of the actions move (`run_filterMap`).
-/

set_option autoImplicit false

namespace Transition

variable {σ α : Type*} {step : σ → α → Option σ}

/-- The state after the actions `as` from `s`, `none` once one of them is not enabled. -/
def run (step : σ → α → Option σ) (s : σ) (as : List α) : Option σ :=
  as.foldlM step s

@[simp] theorem run_nil (s : σ) : run step s [] = some s :=
  rfl

@[simp] theorem run_cons (s : σ) (a : α) (as : List α) :
    run step s (a :: as) = (step s a).bind fun s' => run step s' as :=
  rfl

theorem run_append (s : σ) (as bs : List α) :
    run step s (as ++ bs) = (run step s as).bind fun s' => run step s' bs := by
  simp [run, List.foldlM_append]

/-- Every step the run `as` takes from `s` has the property `T`. -/
def Always (step : σ → α → Option σ) (T : σ → α → σ → Prop) : σ → List α → Prop
  | _, [] => True
  | s, a :: as => ∀ s', step s a = some s' → T s a s' ∧ Always step T s' as

theorem Always.cons {T : σ → α → σ → Prop} {s s' : σ} {a : α} {as : List α}
    (hstep : step s a = some s') (hT : T s a s') (h : Always step T s' as) :
    Always step T s (a :: as) := by
  intro t ht
  obtain rfl := Option.some.inj (hstep.symm.trans ht)
  exact ⟨hT, h⟩

theorem always_cons_of_none {T : σ → α → σ → Prop} {s : σ} {a : α} {as : List α}
    (hstep : step s a = none) : Always step T s (a :: as) :=
  fun _ ht => nomatch hstep.symm.trans ht

theorem always_cons_iff {T : σ → α → σ → Prop} {s s' : σ} {a : α} {as : List α}
    (hstep : step s a = some s') :
    Always step T s (a :: as) ↔ T s a s' ∧ Always step T s' as :=
  ⟨fun h => h s' hstep, fun h => .cons hstep h.1 h.2⟩

/-- The property of the last step of a run. -/
theorem Always.last {T : σ → α → σ → Prop} {a : α} {t t' : σ} (hstep : step t a = some t') :
    ∀ {as : List α} {s : σ}, Always step T s (as ++ [a]) → run step s as = some t → T t a t'
  | [], s, h, hrun => by
    obtain rfl := Option.some.inj hrun
    exact (h t' hstep).1
  | b :: as, s, h, hrun => by
    obtain ⟨u, hu, hrun⟩ := Option.bind_eq_some_iff.mp hrun
    exact Always.last hstep (h u hu).2 hrun

instance decidableAlways {T : σ → α → σ → Prop} [∀ s a s', Decidable (T s a s')] :
    ∀ (s : σ) (as : List α), Decidable (Always step T s as)
  | _, [] => isTrue True.intro
  | s, a :: as =>
    match hstep : step s a with
    | none => isTrue (always_cons_of_none hstep)
    | some s' =>
      have : Decidable (Always step T s' as) := decidableAlways s' as
      decidable_of_iff (T s a s' ∧ Always step T s' as) (always_cons_iff hstep).symm

/-- An invariant of the step function holds of every state a run reaches. -/
theorem inv_run {I : σ → Prop} (hI : ∀ s a s', I s → step s a = some s' → I s') :
    ∀ {as : List α} {s s' : σ}, I s → run step s as = some s' → I s'
  | [], s, s', hs, hrun => by
    obtain rfl := Option.some.inj hrun
    exact hs
  | a :: as, s, s', hs, hrun => by
    obtain ⟨t, ht, hrun⟩ := Option.bind_eq_some_iff.mp hrun
    exact inv_run hI (hI s a t hs ht) hrun

/-- An invariant that steps under the condition `C` keep. -/
theorem inv_run_of_always {I : σ → Prop} {C : σ → α → σ → Prop}
    (hI : ∀ s a s', I s → step s a = some s' → C s a s' → I s') :
    ∀ {as : List α} {s s' : σ}, I s → Always step C s as → run step s as = some s' → I s'
  | [], _, _, hs, _, hrun => by
    obtain rfl := Option.some.inj hrun
    exact hs
  | a :: as, s, _, hs, hC, hrun => by
    obtain ⟨t, ht, hrun⟩ := Option.bind_eq_some_iff.mp hrun
    obtain ⟨hCt, hC⟩ := hC t ht
    exact inv_run_of_always hI (hI s a t hs ht hCt) hC hrun

theorem always_of_forall_mem {T : σ → α → σ → Prop} :
    ∀ {as : List α} {s : σ}, (∀ a ∈ as, ∀ s s', T s a s') → Always step T s as
  | [], _, _ => True.intro
  | _ :: _, _, h => fun _ _ => ⟨h _ List.mem_cons_self _ _,
      always_of_forall_mem fun b hb => h b (List.mem_cons_of_mem _ hb)⟩

/-- A step function that is total on an invariant has every run from it. -/
theorem exists_run {I : σ → Prop} (hI : ∀ s a, I s → ∃ s', step s a = some s' ∧ I s') :
    ∀ (as : List α) {s : σ}, I s → ∃ s', run step s as = some s' ∧ I s'
  | [], s, hs => ⟨s, rfl, hs⟩
  | a :: as, s, hs => by
    obtain ⟨t, ht, hIt⟩ := hI s a hs
    obtain ⟨s', hrun, hs'⟩ := exists_run hI as hIt
    exact ⟨s', by simp [ht, hrun], hs'⟩

/-- Under an invariant that the property `T` carries on, `T` at every step is the
condition `C` at every step. -/
theorem always_congr {I : σ → Prop} {T C : σ → α → σ → Prop}
    (hTC : ∀ s a s', I s → step s a = some s' → (T s a s' ↔ C s a s'))
    (hI : ∀ s a s', I s → step s a = some s' → T s a s' → I s') :
    ∀ {as : List α} {s : σ}, I s → (Always step T s as ↔ Always step C s as)
  | [], _, _ => Iff.rfl
  | a :: as, s, hs => by
    refine forall₂_congr fun s' hstep => ?_
    rw [hTC s a s' hs hstep]
    refine and_congr_right fun hC => always_congr hTC hI (hI s a s' hs hstep ?_)
    exact (hTC s a s' hs hstep).mpr hC

/-- An invariant that steps under the condition `C` keep, and under which they have the
property `T`. -/
theorem always_imp {I : σ → Prop} {T C : σ → α → σ → Prop}
    (h : ∀ s a s', I s → step s a = some s' → C s a s' → I s' ∧ T s a s') :
    ∀ {as : List α} {s : σ}, I s → Always step C s as → Always step T s as
  | [], _, _, _ => True.intro
  | a :: as, s, hs, hC => fun s' hstep => by
    obtain ⟨hCs, hrest⟩ := hC s' hstep
    obtain ⟨hs', hT⟩ := h s a s' hs hstep hCs
    exact ⟨hT, always_imp h hs' hrest⟩

/-- A property of every step under an invariant. -/
theorem always_of_inv {I : σ → Prop} {T : σ → α → σ → Prop}
    (h : ∀ s a s', I s → step s a = some s' → I s' ∧ T s a s') :
    ∀ {as : List α} {s : σ}, I s → Always step T s as
  | [], _, _ => True.intro
  | a :: _, s, hs => fun s' hstep => by
    obtain ⟨hs', hT⟩ := h s a s' hs hstep
    exact ⟨hT, always_of_inv h hs'⟩

/-- A condition on the actions alone, of a step function that takes them all. -/
theorem always_forall {P : α → Prop} (hstep : ∀ s a, ∃ s', step s a = some s') :
    ∀ {as : List α} {s : σ}, Always step (fun _ a _ => P a) s as ↔ ∀ a ∈ as, P a
  | [], _ => by simp [Always]
  | a :: as, s => by
    obtain ⟨s', hs'⟩ := hstep s a
    rw [List.forall_mem_cons, ← always_forall hstep (s := s')]
    exact ⟨fun h => h s' hs', fun h t ht => Option.some.inj (hs'.symm.trans ht) ▸ h⟩

/-! ## Runs that end -/

/-- Under an invariant, actions that decrease a measure make runs no longer than it. -/
theorem length_le_of_measure {I : σ → Prop} {P : α → Prop} {μ : σ → ℕ}
    (h : ∀ s a s', I s → P a → step s a = some s' → I s' ∧ μ s' < μ s) :
    ∀ {as : List α} {s s' : σ}, I s → (∀ a ∈ as, P a) → run step s as = some s' →
      as.length + μ s' ≤ μ s
  | [], s, s', _, _, hrun => by
    obtain rfl := Option.some.inj hrun
    simp
  | a :: as, s, s', hs, hP, hrun => by
    obtain ⟨t, ht, hrun⟩ := Option.bind_eq_some_iff.mp hrun
    obtain ⟨hIt, hlt⟩ := h s a t hs (hP a List.mem_cons_self) ht
    have hrest := length_le_of_measure h hIt (fun b hb => hP b (List.mem_cons_of_mem a hb)) hrun
    rw [List.length_cons]
    omega

/-- Such actions reach a state where none of them is enabled. -/
theorem exists_quiescent {I : σ → Prop} {P : α → Prop} {μ : σ → ℕ}
    (h : ∀ s a s', I s → P a → step s a = some s' → I s' ∧ μ s' < μ s) (s : σ) (hs : I s) :
    ∃ as s', (∀ a ∈ as, P a) ∧ run step s as = some s' ∧ ∀ a, P a → step s' a = none := by
  by_cases hnone : ∀ a, P a → step s a = none
  · exact ⟨[], s, by simp, rfl, hnone⟩
  · obtain ⟨a, hsome⟩ := not_forall.mp hnone
    obtain ⟨hP, hsome⟩ := Classical.not_imp.mp hsome
    obtain ⟨t, ht⟩ := Option.ne_none_iff_exists'.mp hsome
    obtain ⟨hIt, hlt⟩ := h s a t hs hP ht
    obtain ⟨as, s', has, hrun, hquiet⟩ := exists_quiescent h t hIt
    refine ⟨a :: as, s', ?_, by rw [run_cons, ht]; exact hrun, hquiet⟩
    exact List.forall_mem_cons.mpr ⟨hP, has⟩
termination_by μ s

/-! ## Two step functions -/

variable {τ β : Type*} {stepτ : τ → α → Option τ}

/-- A map of the states that carries each step under an invariant to one of another step
function carries the runs. -/
theorem map_run {I : σ → Prop} {f : σ → τ}
    (hI : ∀ s a s', I s → step s a = some s' → I s')
    (h : ∀ s a, I s → (step s a).map f = stepτ (f s) a) :
    ∀ (as : List α) {s : σ}, I s → (run step s as).map f = run stepτ (f s) as
  | [], _, _ => rfl
  | a :: as, s, hs => by
    rw [run_cons, run_cons, ← h s a hs]
    cases ht : step s a with
    | none => rfl
    | some t => exact map_run hI h as (hI s a t hs ht)

/-- A part of the state that only some of the actions move runs by these actions alone. -/
theorem run_filterMap {stepβ : τ → β → Option τ} {f : σ → τ} {g : α → Option β}
    (hmove : ∀ s a s' b, g a = some b → step s a = some s' → stepβ (f s) b = some (f s'))
    (hstay : ∀ s a s', g a = none → step s a = some s' → f s' = f s) :
    ∀ {as : List α} {s s' : σ}, run step s as = some s' →
      run stepβ (f s) (as.filterMap g) = some (f s')
  | [], s, s', hrun => by
    obtain rfl := Option.some.inj hrun
    rfl
  | a :: as, s, s', hrun => by
    obtain ⟨t, ht, hrun⟩ := Option.bind_eq_some_iff.mp hrun
    have hrest := run_filterMap hmove hstay hrun
    cases hg : g a with
    | none =>
      rw [List.filterMap_cons_none hg, ← hstay s a t hg ht]
      exact hrest
    | some b =>
      rw [List.filterMap_cons_some hg, run_cons, hmove s a t b hg ht]
      exact hrest

end Transition
