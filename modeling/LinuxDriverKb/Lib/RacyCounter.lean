import LinuxDriverKb.Lib.SumUpdate
import LinuxDriverKb.Lib.Transition
import Mathlib.Data.List.Basic
import Mathlib.Algebra.BigOperators.Group.Finset.Basic
import Mathlib.Algebra.BigOperators.Group.Finset.Piecewise
import Mathlib.Algebra.Order.BigOperators.Group.Finset
import Mathlib.Logic.Function.Basic

/-!
# A shared counter without a lock

The workers of a finite set `S` increment one counter `M` times each. An increment is a load
and a store of the loaded value plus one; between the two the other workers run.

`inv_step` : the counter is at most the number of stores, and at least 1 or 2 after the first
or a later store of the worker that stored last. `exists_run` : from two workers with two
increments on, every value from 2 to the number of stores is the final one of some run.
-/

set_option autoImplicit false

namespace RacyCounter

variable {ι : Type*} [DecidableEq ι]

/-- A worker : its stores so far, and the value it has loaded and not yet stored. -/
structure Worker where
  stores : ℕ
  loaded : Option ℕ

/-- The counter and the workers. -/
structure State (ι : Type*) where
  count : ℕ
  workers : ι → Worker

/-- A load or a store of a worker. -/
inductive Action (ι : Type*)
  | load (i : ι)
  | store (i : ι)

/-- The worker an action is of. -/
def Action.worker : Action ι → ι
  | .load i => i
  | .store i => i

/-- Worker `i` becomes `w`. -/
def State.set (s : State ι) (i : ι) (w : Worker) : State ι :=
  { s with workers := Function.update s.workers i w }

variable (S : Finset ι) (M : ℕ)

/-- A worker in `S` with increments left loads; a worker that has loaded stores. -/
def step (s : State ι) : Action ι → Option (State ι)
  | .load i =>
    if i ∈ S ∧ (s.workers i).loaded = none ∧ (s.workers i).stores < M then
      some (s.set i { s.workers i with loaded := some s.count })
    else none
  | .store i =>
    match (s.workers i).loaded with
    | some v =>
      if i ∈ S then some ({ s with count := v + 1 }.set i ⟨(s.workers i).stores + 1, none⟩)
      else none
    | none => none

/-- No worker has begun. -/
def init : State ι := ⟨0, fun _ => ⟨0, none⟩⟩

/-- Stores of all workers. -/
def total (s : State ι) : ℕ := ∑ i ∈ S, (s.workers i).stores

/-! ## Bounds -/

/-- The bounds of the counter and of what is loaded. -/
structure Inv (s : State ι) : Prop where
  le : s.count ≤ total S s
  loaded_le : ∀ i v, (s.workers i).loaded = some v → v ≤ total S s
  /-- A worker that has stored before loads what a store has left. -/
  loaded_pos : ∀ i v, (s.workers i).loaded = some v → 0 < (s.workers i).stores → 0 < v
  /-- The worker of the last store. -/
  last : (∀ i, (s.workers i).stores = 0) ∨
    ∃ i ∈ S, 0 < (s.workers i).stores ∧ min (s.workers i).stores 2 ≤ s.count

omit [DecidableEq ι] in
theorem inv_init : Inv S (init : State ι) where
  le := Nat.zero_le _
  loaded_le _ _ h := nomatch h
  loaded_pos _ _ h := nomatch h
  last := Or.inl fun _ => rfl

variable {S M}

@[simp] theorem set_count (s : State ι) (i : ι) (w : Worker) : (s.set i w).count = s.count := rfl
@[simp] theorem set_workers (s : State ι) (i : ι) (w : Worker) :
    (s.set i w).workers = Function.update s.workers i w := rfl

/-- The stores of all after worker `i` has become `w`. -/
theorem total_set {s : State ι} {i : ι} (hi : i ∈ S) (w : Worker) :
    total S (s.set i w) + (s.workers i).stores = total S s + w.stores := by
  have hsum := SumUpdate.sum_step (f := fun j => (s.workers j).stores)
    (g := fun j => ((s.set i w).workers j).stores) hi
    fun k _ hk => by simp [Function.update_of_ne hk]
  simp only [set_workers, Function.update_self] at hsum
  simp only [total, set_workers]
  omega

theorem inv_load {s : State ι} {i : ι} (h : Inv S s) (hi : i ∈ S) :
    Inv S (s.set i { s.workers i with loaded := some s.count }) := by
  have htotal := total_set (s := s) hi { s.workers i with loaded := some s.count }
  have hstores : ∀ j, ((s.set i { s.workers i with loaded := some s.count }).workers j).stores =
      (s.workers j).stores := fun j => by
    by_cases hj : j = i
    · simp [hj]
    · simp [Function.update_of_ne hj]
  have htotal' : total S (s.set i { s.workers i with loaded := some s.count }) = total S s := by
    simpa using htotal
  refine ⟨htotal' ▸ h.le, fun j v hv => ?_, fun j v hv hpos => ?_, ?_⟩
  · rw [htotal']
    by_cases hj : j = i
    · obtain rfl : s.count = v := by simpa [hj] using hv
      exact h.le
    · exact h.loaded_le j v (by simpa [Function.update_of_ne hj] using hv)
  · rw [hstores] at hpos
    by_cases hj : j = i
    · obtain rfl : s.count = v := by simpa [hj] using hv
      rcases h.last with hzero | ⟨k, -, hk, hmin⟩
      · exact absurd (hzero j) (Nat.pos_iff_ne_zero.mp hpos)
      · omega
    · exact h.loaded_pos j v (by simpa [Function.update_of_ne hj] using hv) hpos
  · simpa only [hstores, set_count] using h.last

theorem inv_store {s : State ι} {i : ι} {v : ℕ} (h : Inv S s) (hi : i ∈ S)
    (hv : (s.workers i).loaded = some v) :
    Inv S ({ s with count := v + 1 }.set i ⟨(s.workers i).stores + 1, none⟩) := by
  have htotal : total S ({ s with count := v + 1 }.set i ⟨(s.workers i).stores + 1, none⟩) =
      total S s + 1 := by
    have := total_set (s := { s with count := v + 1 }) hi ⟨(s.workers i).stores + 1, none⟩
    simp only [total] at this ⊢
    omega
  have hle := h.loaded_le i v hv
  refine ⟨?_, fun j w hw => ?_, fun j w hw hpos => ?_, Or.inr ⟨i, hi, ?_, ?_⟩⟩
  · rw [htotal]
    exact Nat.succ_le_succ hle
  · rw [htotal]
    by_cases hj : j = i
    · simp [hj] at hw
    · have := h.loaded_le j w (by simpa [Function.update_of_ne hj] using hw)
      omega
  · by_cases hj : j = i
    · simp [hj] at hw
    · simp only [set_workers, Function.update_of_ne hj] at hw hpos
      exact h.loaded_pos j w hw hpos
  · simp
  · -- a second store is of a value another store has left
    simp only [set_workers, Function.update_self, set_count]
    rcases Nat.eq_zero_or_pos (s.workers i).stores with hzero | hpos
    · omega
    · have := h.loaded_pos i v hv hpos
      omega

theorem inv_step {s s' : State ι} {a : Action ι} (h : Inv S s) (hstep : step S M s a = some s') :
    Inv S s' := by
  cases a with
  | load i =>
    simp only [step] at hstep
    split_ifs at hstep with hc
    obtain rfl := Option.some.inj hstep
    exact inv_load h hc.1
  | store i =>
    simp only [step] at hstep
    cases hv : (s.workers i).loaded with
    | none => simp [hv] at hstep
    | some v =>
      simp only [hv] at hstep
      split_ifs at hstep with hi
      obtain rfl := Option.some.inj hstep
      exact inv_store h hi hv

omit [DecidableEq ι] in
/-- When every worker has made its `M` stores, the counter is at least `min M 2`, and at most
the number of stores. -/
theorem Inv.bounds {s : State ι} (h : Inv S s) (hne : S.Nonempty)
    (hall : ∀ i ∈ S, (s.workers i).stores = M) :
    min M 2 ≤ s.count ∧ s.count ≤ S.card * M := by
  refine ⟨?_, ?_⟩
  · rcases h.last with hzero | ⟨i, hi, -, hmin⟩
    · obtain ⟨i, hi⟩ := hne
      have := (hall i hi).symm.trans (hzero i)
      omega
    · rwa [hall i hi] at hmin
  · have hle := h.le
    rwa [total, Finset.sum_const_nat hall] at hle

/-! ## Every value is the last of some run -/

/-- The workers of a list increment the counter one after the other. -/
def increment (ts : List ι) : List (Action ι) := ts.flatMap fun i => [.load i, .store i]

theorem step_load {s : State ι} {i : ι} {n : ℕ} (hi : i ∈ S) (hw : s.workers i = ⟨n, none⟩)
    (hn : n < M) : step S M s (.load i) = some (s.set i ⟨n, some s.count⟩) := by
  simp [step, hi, hw, hn]

theorem step_store {s : State ι} {i : ι} {n v : ℕ} (hi : i ∈ S)
    (hw : s.workers i = ⟨n, some v⟩) :
    step S M s (.store i) = some ({ s with count := v + 1 }.set i ⟨n + 1, none⟩) := by
  simp [step, hi, hw]

/-- Increments that nothing comes between are not lost. -/
theorem run_increment : ∀ (ts : List ι) (s : State ι),
    (∀ i ∈ ts, i ∈ S ∧ (s.workers i).loaded = none ∧ (s.workers i).stores + ts.count i ≤ M) →
    ∃ s', Transition.run (step S M) s (increment ts) = some s' ∧
      s'.count = s.count + ts.length ∧
      ∀ i, s'.workers i = ⟨(s.workers i).stores + ts.count i, (s.workers i).loaded⟩
  | [], s, _ => ⟨s, rfl, rfl, fun _ => rfl⟩
  | i :: ts, s, h => by
    obtain ⟨hi, hnone, hle⟩ := h i List.mem_cons_self
    rw [List.count_cons_self] at hle
    obtain ⟨s', hrun, hcount, hworkers⟩ := run_increment ts
      ({ s with count := s.count + 1 }.set i ⟨(s.workers i).stores + 1, none⟩) fun j hj => by
        obtain ⟨hjS, hjnone, hjle⟩ := h j (List.mem_cons_of_mem i hj)
        by_cases hji : j = i
        · refine ⟨hjS, by simp [hji], ?_⟩
          simp only [hji, set_workers, Function.update_self]
          omega
        · rw [List.count_cons_of_ne (Ne.symm hji)] at hjle
          simp only [set_workers, Function.update_of_ne hji]
          exact ⟨hjS, hjnone, hjle⟩
    have hw : s.workers i = ⟨(s.workers i).stores, none⟩ := by rw [← hnone]
    have hload := step_load hi hw (by omega : (s.workers i).stores < M)
    have hstore : step S M (s.set i ⟨(s.workers i).stores, some s.count⟩) (.store i) =
        some ({ s with count := s.count + 1 }.set i ⟨(s.workers i).stores + 1, none⟩) := by
      simp [step, hi, State.set]
    refine ⟨s', ?_, ?_, fun j => ?_⟩
    · show Transition.run (step S M) s (.load i :: .store i :: increment ts) = some s'
      simp only [Transition.run_cons, hload, hstore, Option.bind_some, hrun]
    · rw [hcount, List.length_cons]
      show s.count + 1 + ts.length = s.count + (ts.length + 1)
      omega
    · rw [hworkers j]
      by_cases hji : j = i
      · simp only [hji, set_workers, Function.update_self, hnone, List.count_cons_self,
          Worker.mk.injEq, and_true]
        omega
      · simp [Function.update_of_ne hji, List.count_cons_of_ne (Ne.symm hji)]

/-- Nor are those of one worker. -/
theorem run_replicate {s : State ι} {a : ι} {n k : ℕ} (ha : a ∈ S)
    (hw : s.workers a = ⟨n, none⟩) (hle : n + k ≤ M) :
    ∃ s', Transition.run (step S M) s (increment (List.replicate k a)) = some s' ∧
      s'.count = s.count + k ∧ s'.workers a = ⟨n + k, none⟩ ∧
      ∀ i, i ≠ a → s'.workers i = s.workers i := by
  obtain ⟨s', hrun, hcount, hworkers⟩ := run_increment (S := S) (M := M) (List.replicate k a) s
    fun i hi => by
      obtain rfl := List.eq_of_mem_replicate hi
      rw [hw, List.count_replicate_self]
      exact ⟨ha, rfl, hle⟩
  refine ⟨s', hrun, by rw [hcount, List.length_replicate], ?_, fun i hia => ?_⟩
  · rw [hworkers, hw, List.count_replicate_self]
  · rw [hworkers, List.count_replicate, beq_eq_false_iff_ne.mpr (Ne.symm hia)]
    rfl

/-- The increments `ts₂` come after a load of `a`. -/
theorem run_overtaken {a : ι} {ts₁ ts₂ : List ι} (ha : a ∈ S) (hM : 0 < M)
    (hta : a ∉ ts₁ ++ ts₂) (hle : ∀ i ∈ ts₁ ++ ts₂, i ∈ S ∧ (ts₁ ++ ts₂).count i ≤ M) :
    ∃ s, Transition.run (step S M) init (increment ts₁ ++ .load a :: increment ts₂) = some s ∧
      s.workers a = ⟨0, some ts₁.length⟩ ∧
      ∀ i, i ≠ a → s.workers i = ⟨(ts₁ ++ ts₂).count i, none⟩ := by
  have hta₁ : ts₁.count a = 0 := List.count_eq_zero.mpr fun h => hta (List.mem_append_left _ h)
  have hta₂ : ts₂.count a = 0 := List.count_eq_zero.mpr fun h => hta (List.mem_append_right _ h)
  simp only [List.count_append] at hle ⊢
  obtain ⟨s₁, hrun₁, hc₁, hw₁⟩ := run_increment (S := S) (M := M) ts₁ init fun i hi => by
    obtain ⟨hiS, hcount⟩ := hle i (List.mem_append_left _ hi)
    exact ⟨hiS, rfl, by simp only [init]; omega⟩
  simp only [init, Nat.zero_add] at hc₁ hw₁
  obtain ⟨s₂, hrun₂, -, hw₂⟩ := run_increment (S := S) (M := M) ts₂
    (s₁.set a ⟨0, some s₁.count⟩) fun i hi => by
      obtain ⟨hiS, hcount⟩ := hle i (List.mem_append_right _ hi)
      have hia : i ≠ a := fun h => hta (List.mem_append_right _ (h ▸ hi))
      rw [set_workers, Function.update_of_ne hia, hw₁]
      exact ⟨hiS, rfl, hcount⟩
  have hload := step_load ha ((hw₁ a).trans (by rw [hta₁])) hM
  refine ⟨s₂, ?_, ?_, fun i hia => ?_⟩
  · simp only [Transition.run_append, Transition.run_cons, hrun₁, hload, hrun₂, Option.bind_some]
  · rw [hw₂, hta₂, set_workers, Function.update_self, hc₁]
  · rw [hw₂, set_workers, Function.update_of_ne hia, hw₁]

/-- Worker `a` stores what it has loaded, `b` loads that, and `a` goes on. -/
theorem run_handed {s : State ι} {a b : ι} {n k v : ℕ} (hab : a ≠ b) (ha : a ∈ S) (hb : b ∈ S)
    (hwa : s.workers a = ⟨0, some v⟩) (hwb : s.workers b = ⟨n, none⟩) (hn : n < M)
    (hk : 1 + k ≤ M) :
    ∃ s', Transition.run (step S M) s
        (.store a :: .load b :: increment (List.replicate k a)) = some s' ∧
      s'.workers a = ⟨1 + k, none⟩ ∧ s'.workers b = ⟨n, some (v + 1)⟩ ∧
      ∀ i, i ≠ a → i ≠ b → s'.workers i = s.workers i := by
  have hload := step_load (s := { s with count := v + 1 }.set a ⟨1, none⟩) hb
    (by rw [set_workers, Function.update_of_ne (Ne.symm hab), hwb]) hn
  obtain ⟨s', hrun, -, hwa', hw'⟩ := run_replicate
    (s := ({ s with count := v + 1 }.set a ⟨1, none⟩).set b ⟨n, some (v + 1)⟩) ha
    (by simp [Function.update_of_ne hab]) hk
  refine ⟨s', ?_, hwa', ?_, fun i hia hib => ?_⟩
  · rw [Transition.run_cons, step_store ha hwa, Option.bind_some, Transition.run_cons, hload]
    exact hrun
  · rw [hw' b (Ne.symm hab), set_workers, Function.update_self]
  · rw [hw' i hia, set_workers, Function.update_of_ne hib, set_workers,
      Function.update_of_ne hia]

/-- Worker `b` stores what it has loaded, and `a` goes on from there. -/
theorem run_overwritten {s : State ι} {a b : ι} {m n k v : ℕ} (hab : a ≠ b) (ha : a ∈ S)
    (hb : b ∈ S) (hwa : s.workers a = ⟨m, none⟩) (hwb : s.workers b = ⟨n, some v⟩)
    (hk : m + k ≤ M) :
    ∃ s', Transition.run (step S M) s (.store b :: increment (List.replicate k a)) = some s' ∧
      s'.count = v + 1 + k ∧ s'.workers a = ⟨m + k, none⟩ ∧ s'.workers b = ⟨n + 1, none⟩ ∧
      ∀ i, i ≠ a → i ≠ b → s'.workers i = s.workers i := by
  obtain ⟨s', hrun, hcount, hwa', hw'⟩ := run_replicate
    (s := { s with count := v + 1 }.set b ⟨n + 1, none⟩) ha
    (by rw [set_workers, Function.update_of_ne hab, hwa]) hk
  refine ⟨s', ?_, hcount, hwa', ?_, fun i hia hib => ?_⟩
  · simp only [Transition.run_cons, step_store hb hwb, Option.bind_some, hrun]
  · rw [hw' b (Ne.symm hab), set_workers, Function.update_self]
  · rw [hw' i hia, set_workers, Function.update_of_ne hib]

/-- Worker `a` loads before the increments `ts₂` and stores after them, worker `b` loads then
and stores after `k₁` more increments of `a`. -/
def schedule (a b : ι) (ts₁ ts₂ : List ι) (k₁ k₂ : ℕ) : List (Action ι) :=
  (increment ts₁ ++ .load a :: increment ts₂) ++
    ((.store a :: .load b :: increment (List.replicate k₁ a)) ++
      (.store b :: increment (List.replicate k₂ a)))

/-- The increments `ts₂` and the `k₁` increments of `a` are lost. -/
theorem run_schedule {a b : ι} {ts₁ ts₂ : List ι} {k₁ k₂ : ℕ} (hab : a ≠ b) (ha : a ∈ S)
    (hb : b ∈ S) (hS : ∀ i ∈ ts₁ ++ ts₂, i ∈ S) (hta : a ∉ ts₁ ++ ts₂)
    (htb : (ts₁ ++ ts₂).count b + 1 = M)
    (hrest : ∀ i ∈ S, i ≠ a → i ≠ b → (ts₁ ++ ts₂).count i = M) (hk : 1 + k₁ + k₂ = M) :
    ∃ s, Transition.run (step S M) init (schedule a b ts₁ ts₂ k₁ k₂) = some s ∧
      s.count = ts₁.length + 2 + k₂ ∧ ∀ i ∈ S, s.workers i = ⟨M, none⟩ := by
  have hle : ∀ i ∈ ts₁ ++ ts₂, i ∈ S ∧ (ts₁ ++ ts₂).count i ≤ M := fun i hi => by
    have hia : i ≠ a := fun h => hta (h ▸ hi)
    refine ⟨hS i hi, ?_⟩
    by_cases hib : i = b
    · rw [hib]
      omega
    · exact Nat.le_of_eq (hrest i (hS i hi) hia hib)
  obtain ⟨s₂, hrun₂, hwa₂, hw₂⟩ := run_overtaken ha (by omega) hta hle
  obtain ⟨s₃, hrun₃, hwa₃, hwb₃, hw₃⟩ := run_handed (M := M) (k := k₁) hab ha hb hwa₂
    (hw₂ b (Ne.symm hab)) (by omega) (by omega)
  obtain ⟨s₄, hrun₄, hc₄, hwa₄, hwb₄, hw₄⟩ := run_overwritten hab ha hb hwa₃ hwb₃
    (Nat.le_of_eq hk)
  refine ⟨s₄, ?_, hc₄, fun i hi => ?_⟩
  · rw [schedule, Transition.run_append, hrun₂, Option.bind_some, Transition.run_append, hrun₃,
      Option.bind_some, hrun₄]
  · by_cases hia : i = a
    · rw [hia, hwa₄, hk]
    · by_cases hib : i = b
      · rw [hib, hwb₄, htb]
      · rw [hw₄ i hia hib, hw₃ i hia hib, hw₂ i hia, hrest i hi hia hib]

/-- A list of the increments of all workers but `a`, and but the last one of `b`. -/
theorem exists_others {a b : ι} (hab : a ≠ b) (ha : a ∈ S) (hb : b ∈ S) (hM : 0 < M) :
    ∃ ts : List ι, ts.length + M + 1 = S.card * M ∧ (∀ i ∈ ts, i ∈ S) ∧ a ∉ ts ∧
      ts.count b + 1 = M ∧ ∀ i ∈ S, i ≠ a → i ≠ b → ts.count i = M := by
  let quota : ι → ℕ := fun i => if i = b then M - 1 else M
  let ts := (∑ i ∈ S.erase a, Multiset.replicate (quota i) i).toList
  have hcount : ∀ i, ts.count i = if i ∈ S.erase a then quota i else 0 := fun i => by
    rw [← Multiset.coe_count, Multiset.coe_toList, Multiset.count_sum']
    simp_rw [Multiset.count_replicate]
    exact Finset.sum_ite_eq' (S.erase a) i quota
  have hmem : ∀ i ∈ ts, i ∈ S.erase a := fun i hi => by
    by_contra hne
    have := List.count_pos_iff.mpr hi
    rw [hcount, if_neg hne] at this
    exact Nat.lt_irrefl 0 this
  have hbe : b ∈ S.erase a := Finset.mem_erase.mpr ⟨Ne.symm hab, hb⟩
  have hlen : ts.length = ∑ i ∈ S.erase a, quota i := by
    rw [← Multiset.coe_card, Multiset.coe_toList, Multiset.card_sum]
    simp
  have hsum : ∑ i ∈ S.erase a, quota i + 1 = ∑ _i ∈ S.erase a, M := by
    have := SumUpdate.sum_step (f := quota) (g := fun _ => M) hbe fun i _ hib => by
      simp [quota, hib]
    simp only [quota, if_true] at this ⊢
    omega
  refine ⟨ts, ?_, fun i hi => Finset.mem_of_mem_erase (hmem i hi),
    fun hi => Finset.notMem_erase a S (hmem a hi), ?_, fun i hi hia hib => ?_⟩
  · rw [Finset.sum_const_nat fun _ _ => rfl] at hsum
    rw [← Finset.card_erase_add_one ha, Nat.add_mul, Nat.one_mul]
    omega
  · rw [hcount, if_pos hbe]
    simp only [quota, if_true]
    omega
  · rw [hcount, if_pos (Finset.mem_erase.mpr ⟨hia, hi⟩)]
    simp [quota, hib]

/-- Two workers with two increments : the last value is any from 2 to the number of stores. -/
theorem exists_run {a b : ι} (hab : a ≠ b) (ha : a ∈ S) (hb : b ∈ S) (hM : 2 ≤ M) {v : ℕ}
    (hlow : 2 ≤ v) (hhigh : v ≤ S.card * M) :
    ∃ as s, Transition.run (step S M) init as = some s ∧ s.count = v ∧
      ∀ i ∈ S, s.workers i = ⟨M, none⟩ := by
  obtain ⟨ts, hlen, hS, hta, htb, hrest⟩ := exists_others hab ha hb (by omega : 0 < M)
  let k := min (v - 2) ts.length
  have htake : ts.take k ++ ts.drop k = ts := List.take_append_drop k ts
  rw [← htake] at hS hta htb hrest
  have hk : 1 + (M - 1 - (v - 2 - k)) + (v - 2 - k) = M := by omega
  obtain ⟨s, hrun, hcount, hworkers⟩ := run_schedule hab ha hb hS hta htb hrest hk
  refine ⟨_, s, hrun, ?_, hworkers⟩
  rw [hcount, List.length_take]
  omega

end RacyCounter
