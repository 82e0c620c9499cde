import LinuxDriverKb.ConcurrencyControl
import LinuxDriverKb.Lib.RacyCounter

/-!
# The counter of `concurrency_control.c` without a lock

With the parameter `type` 0 (or 3) no lock is taken, and between the load and the store of an
increment the other threads run. The threads of a round refine the counter without a lock
(`view_thread`) : every step leaves the counter and the workers as they are, or is a load
or a store.

`unlocked_range` : the values printed are those from 2 to the number of increments, and each
of them is printed in some run.
-/

set_option autoImplicit false

namespace LinuxDriverKb

namespace ConcurrencyControl

open CInt

/-! ## The threads of a round as workers -/

/-- What a thread has done and loaded. -/
def Thread.worker (th : Thread) : RacyCounter.Worker where
  stores := th.increments
  loaded := match th.pc with
    | .store v => some v
    | _ => none

/-- The counter and the threads of the current round. -/
def view (s : State) : RacyCounter.State ℕ where
  count := s.result
  workers i := (s.threads (s.round, i)).worker

variable (P : Params)

/-- The invariant without a lock : the counter of the round is that of its workers. -/
structure Unlocked (s : State) : Prop extends Joined P s where
  count : s.phase.Counting → RacyCounter.Inv (Finset.range P.threadCnt) (view s)
  printed : ∀ v ∈ s.printed, min P.iterations 2 ≤ v ∧ v ≤ P.threadCnt * P.iterations

variable {P}

theorem unlocked_init (result : ℕ) : Unlocked P (init result) where
  toJoined := joined_init result
  count := False.elim
  printed v h := by simp [init] at h

theorem Thread.Ok.increments_le {th : Thread} (h : th.Ok P) : th.increments ≤ P.iterations := by
  rw [Thread.increments]
  split_ifs with hpc
  · exact h.critical (by simp [hpc, Pc.Critical])
  · exact h.le

/-! ## A step of a thread -/

/-- Without a lock the counter changes as the worker of the thread does. -/
structure ThreadMove (P : Params) (s s' : State) (t : Tid) (th : Thread) : Prop extends
    Moved P s s' t th where
  /-- No change of the counter, a load, or a store. -/
  counter : (s'.result = s.result ∧ th.worker = (s.threads t).worker) ∨
    (s'.result = s.result ∧ (s.threads t).worker.loaded = none ∧
      (s.threads t).worker.stores < P.iterations ∧
      th.worker = ⟨(s.threads t).worker.stores, some s.result⟩) ∨
    ∃ v, (s.threads t).worker.loaded = some v ∧ s'.result = inc32 v ∧
      th.worker = ⟨(s.threads t).worker.stores + 1, none⟩

theorem threadMove_of_step {s s' : State} {t : Tid} (hok : (s.threads t).Ok P)
    (hstep : threadFunc P s t = some s') : ∃ th, ThreadMove P s s' t th := by
  unfold threadFunc at hstep
  cases hpc : (s.threads t).pc with
  | absent => simp [hpc] at hstep
  | returned => simp [hpc] at hstep
  | loop =>
    simp only [hpc] at hstep
    split_ifs at hstep with hlt hfree
    · obtain rfl := Option.some.inj hstep
      refine ⟨{ s.threads t with pc := .load }, ⟨by simp [hpc], rfl, rfl, rfl, rfl, by simp,
        Thread.ok_critical trivial hlt, by simp⟩, Or.inl ⟨rfl, ?_⟩⟩
      simp [Thread.worker, Thread.increments, hpc]
    · obtain rfl := Option.some.inj hstep
      refine ⟨{ s.threads t with pc := .returned }, ⟨by simp [hpc], rfl, rfl, rfl, rfl, by simp,
        ⟨hok.le, False.elim, fun _ => Nat.le_antisymm hok.le (Nat.not_lt.mp hlt)⟩, by simp⟩,
        Or.inl ⟨rfl, ?_⟩⟩
      simp [Thread.worker, Thread.increments, hpc]
  | load =>
    simp only [hpc] at hstep
    obtain rfl := Option.some.inj hstep
    have hlt : (s.threads t).i < P.iterations := hok.critical (by simp [hpc, Pc.Critical])
    refine ⟨{ s.threads t with pc := .store s.result }, ⟨by simp [hpc], rfl, rfl, rfl, rfl, by simp,
      Thread.ok_critical trivial hlt, by simp⟩, Or.inr (Or.inl ⟨rfl, ?_, ?_, ?_⟩)⟩
    · simp [Thread.worker, hpc]
    · simpa [Thread.worker, Thread.increments, hpc] using hlt
    · simp [Thread.worker, Thread.increments, hpc]
  | store v =>
    simp only [hpc] at hstep
    obtain rfl := Option.some.inj hstep
    have hlt : (s.threads t).i < P.iterations := hok.critical (by simp [hpc, Pc.Critical])
    refine ⟨{ s.threads t with pc := .unlock }, ⟨by simp [hpc], rfl, rfl, rfl, rfl, by simp,
      Thread.ok_critical trivial hlt, by simp⟩, Or.inr (Or.inr ⟨v, ?_, rfl, ?_⟩)⟩
    · simp [Thread.worker, hpc]
    · simp [Thread.worker, Thread.increments, hpc]
  | unlock =>
    simp only [hpc] at hstep
    obtain rfl := Option.some.inj hstep
    have hlt : (s.threads t).i < P.iterations := hok.critical (by simp [hpc, Pc.Critical])
    refine ⟨⟨(s.threads t).i + 1, .loop⟩, ⟨by simp [hpc], rfl, rfl, rfl, rfl, by simp,
      Thread.ok_loop hlt, by simp⟩, Or.inl ⟨rfl, ?_⟩⟩
    simp [Thread.worker, Thread.increments, hpc]

theorem Thread.worker_loaded {th : Thread} {v : ℕ} :
    th.worker.loaded = some v ↔ th.pc = .store v := by
  cases hpc : th.pc <;> simp [Thread.worker, hpc]

/-- A value about to be stored is smaller than the number of increments of the round : that
of its thread is not made yet. -/
theorem Joined.store_lt {s : State} (h : Joined P s)
    (hinv : RacyCounter.Inv (Finset.range P.threadCnt) (view s)) {i v : ℕ}
    (hpc : (s.threads (s.round, i)).pc = .store v) : v < P.threadCnt * P.iterations := by
  have hcurrent := h.current (t := (s.round, i)) (by simp [hpc]) (by simp [hpc])
  have hmem : i ∈ Finset.range P.threadCnt :=
    Finset.mem_range.mpr (Nat.lt_of_lt_of_le hcurrent.2.1 h.bounds.1)
  have hlt := (h.thread (s.round, i)).critical (by simp [hpc, Pc.Critical])
  calc v ≤ ∑ k ∈ Finset.range P.threadCnt, ((view s).workers k).stores :=
        hinv.loaded_le i v (Thread.worker_loaded.mpr hpc)
    _ < ∑ _k ∈ Finset.range P.threadCnt, P.iterations :=
        Finset.sum_lt_sum (fun k _ => (h.thread (s.round, k)).increments_le)
          ⟨i, hmem, by simpa [view, Thread.worker, Thread.increments, hpc] using hlt⟩
    _ = P.threadCnt * P.iterations := by
        rw [Finset.sum_const_nat fun _ _ => rfl, Finset.card_range]

/-- A step of a thread is a step of the counter without a lock, or none. -/
theorem view_thread {s s' : State} {t : Tid} {th : Thread} (h : Joined P s)
    (hfit : P.threadCnt * P.iterations < 2 ^ 32)
    (hinv : RacyCounter.Inv (Finset.range P.threadCnt) (view s)) (hs : ThreadMove P s s' t th) :
    view s' = view s ∨
      ∃ a, RacyCounter.step (Finset.range P.threadCnt) P.iterations (view s) a =
        some (view s') := by
  obtain ⟨ht, hlt, -⟩ := h.current hs.running.1 hs.running.2
  have hmem : t.2 ∈ Finset.range P.threadCnt :=
    Finset.mem_range.mpr (Nat.lt_of_lt_of_le hlt h.bounds.1)
  have hworker : (view s).workers t.2 = (s.threads t).worker := by
    show (s.threads (s.round, t.2)).worker = _
    rw [← ht]
  have hworkers : (view s').workers = Function.update (view s).workers t.2 th.worker := by
    funext i
    show (s'.threads (s'.round, i)).worker = _
    rw [hs.round]
    by_cases hi : i = t.2
    · rw [hi, Function.update_self, ← ht, hs.self]
    · rw [Function.update_of_ne hi, hs.other fun heq => hi (congrArg Prod.snd heq)]
      rfl
  have hview : ∀ n, s'.result = n → view s' = ({ view s with count := n }).set t.2 th.worker := by
    rintro n rfl
    rw [RacyCounter.State.set, ← hworkers]
    rfl
  rcases hs.counter with ⟨hr, hw⟩ | ⟨hr, hnone, hlt, hw⟩ | ⟨v, hv, hr, hw⟩
  · left
    rw [hview _ hr, hw, ← hworker, RacyCounter.State.set, Function.update_eq_self]
    rfl
  · refine Or.inr ⟨.load t.2, ?_⟩
    rw [hview _ hr, hw, RacyCounter.step, if_pos ⟨hmem, by rw [hworker, hnone], by rwa [hworker]⟩,
      hworker]
    rfl
  · -- the new value fits into the counter, as the stores of the round do
    refine Or.inr ⟨.store t.2, ?_⟩
    have hlt := h.store_lt hinv (i := t.2) (ht ▸ Thread.worker_loaded.mp hv)
    have hinc : inc32 v = v + 1 := Nat.mod_eq_of_lt (by omega)
    rw [hview _ (hr.trans hinc), hw]
    simp only [RacyCounter.step, hworker, hv, if_pos hmem]

/-- Without wrapping, a step of a thread keeps the invariant. -/
theorem unlocked_thread {s s' : State} {t : Tid} (h : Unlocked P s)
    (hfit : P.threadCnt * P.iterations < 2 ^ 32) (hstep : threadFunc P s t = some s') :
    Unlocked P s' := by
  obtain ⟨th, hs⟩ := threadMove_of_step (h.thread t) hstep
  refine ⟨hs.joined h.toJoined, fun hc => ?_, hs.printed ▸ h.printed⟩
  have hinv := h.count (hs.phase ▸ hc)
  rcases view_thread h.toJoined hfit hinv hs with heq | ⟨a, ha⟩
  · rw [heq]
    exact hinv
  · exact RacyCounter.inv_step hinv ha

/-! ## A step of `concurrency_control_init` -/

/-- Before a thread is created its worker has not begun. -/
theorem Joined.view_fresh {s : State} (h : Joined P s) {i : ℕ} (hi : created P s ≤ i) :
    (view s).workers i = ⟨0, none⟩ := by
  have habsent := (h.present i).mpr hi
  simp [view, Thread.worker, Thread.increments, habsent, h.fresh _ habsent]

/-- A new thread is a worker that has not begun. -/
theorem view_create {s : State} {i : ℕ} (h : Joined P s) (hph : s.phase = .create i) :
    view { s.setThread (s.round, i) ⟨0, .loop⟩ with phase := .create (i + 1) } = view s := by
  refine congrArg (RacyCounter.State.mk s.result) (funext fun k => ?_)
  show (Function.update s.threads (s.round, i) ⟨0, .loop⟩ (s.round, k)).worker = _
  by_cases hk : k = i
  · rw [hk, Function.update_self]
    exact (h.view_fresh (by simp [created, hph])).symm
  · rw [update_current_of_ne s _ hk]

/-- When all threads of the round have returned, each of them has made its stores. -/
theorem Unlocked.result_print {s : State} (h : Unlocked P s) (hN : 0 < P.threadCnt)
    (hph : s.phase = .print) :
    min P.iterations 2 ≤ s.result ∧ s.result ≤ P.threadCnt * P.iterations := by
  have hb := (h.count (by simp [hph, Phase.Counting])).bounds
    ⟨0, Finset.mem_range.mpr hN⟩ (M := P.iterations) fun i hi => by
      have hret := h.waitedFor i (by simpa [waited, hph] using hi)
      simp [view, Thread.worker, Thread.increments, hret, (h.thread _).returned hret]
  rwa [Finset.card_range] at hb

theorem unlocked_initStep {s s' : State} (hN : 0 < P.threadCnt) (h : Unlocked P s)
    (hs : InitStep P s s') : Unlocked P s' := by
  have hjoined := joined_initStep h.toJoined hs
  cases hs with
  | reset hph =>
    refine ⟨hjoined, fun _ => ?_, h.printed⟩
    have hview : view { s with result := 0, phase := .create 0 } = RacyCounter.init := by
      rw [RacyCounter.init, ← funext fun i => h.view_fresh (i := i) (by simp [created, hph])]
      rfl
    rw [hview]
    exact RacyCounter.inv_init _
  | finish => exact ⟨hjoined, False.elim, h.printed⟩
  | create i hph =>
    refine ⟨hjoined, fun _ => ?_, h.printed⟩
    rw [view_create h.toJoined hph]
    exact h.count (by simp [hph, Phase.Counting])
  | created i hph => exact ⟨hjoined, fun _ => h.count (by simp [hph, Phase.Counting]), h.printed⟩
  | wait i hph => exact ⟨hjoined, fun _ => h.count (by simp [hph, Phase.Counting]), h.printed⟩
  | waited i hph => exact ⟨hjoined, fun _ => h.count (by simp [hph, Phase.Counting]), h.printed⟩
  | print hph =>
    refine ⟨hjoined, False.elim, fun v hv => ?_⟩
    rcases List.mem_append.mp hv with hv | hv
    · exact h.printed v hv
    · obtain rfl := List.mem_singleton.mp hv
      exact h.result_print hN hph

theorem unlocked_step (hN : 0 < P.threadCnt) (hfit : P.threadCnt * P.iterations < 2 ^ 32)
    {s s' : State} {a : Action} (h : Unlocked P s) (hstep : step P s a = some s') :
    Unlocked P s' := by
  cases a with
  | thread t => exact unlocked_thread h hfit hstep
  | init => exact unlocked_initStep hN h (concurrencyControlInit_cases hstep)

/-! ## A run for every run of the counter without a lock -/

/-- The thread of a worker : at the head of its loop, or before the store. -/
def ofWorker (w : RacyCounter.Worker) : Thread where
  i := w.stores
  pc := match w.loaded with
    | none => .loop
    | some v => .store v

/-- All threads of the round are created, none is waited for, and they are at the state `a`
of the counter without a lock. -/
structure Matches (P : Params) (s : State) (a : RacyCounter.State ℕ) : Prop where
  phase : s.phase = .wait 0
  printed : s.printed = []
  result : s.result = a.count
  threads : ∀ i < P.threadCnt, s.threads (s.round, i) = ofWorker (a.workers i)

/-- A thread that has taken its step, the others and `concurrency_control_init` as before. -/
theorem matches_set {s s' : State} {a : RacyCounter.State ℕ} {i : ℕ} {n : ℕ}
    {w : RacyCounter.Worker} (h : Matches P s a) (hphase : s'.phase = s.phase)
    (hround : s'.round = s.round) (hprinted : s'.printed = s.printed) (hresult : s'.result = n)
    (hthreads : ∀ k, s'.threads (s.round, k) =
      if k = i then ofWorker w else s.threads (s.round, k)) :
    Matches P s' ({ a with count := n }.set i w) where
  phase := hphase.trans h.phase
  printed := hprinted.trans h.printed
  result := hresult
  threads k hk := by
    rw [hround, hthreads k]
    by_cases hki : k = i
    · simp [hki]
    · simp [hki, h.threads k hk]

theorem lift_step (hty : P.type = .null ∨ P.type = .max)
    (hfit : P.threadCnt * P.iterations < 2 ^ 32) {s : State} {a a' : RacyCounter.State ℕ}
    {x : RacyCounter.Action ℕ} (hinv : Unlocked P s) (h : Matches P s a)
    (hstep : RacyCounter.step (Finset.range P.threadCnt) P.iterations a x = some a') :
    ∃ as s', Transition.run (step P) s as = some s' ∧ Matches P s' a' := by
  have hfree : ∀ l : Locks, l.holder P.type = none := fun l => by
    rcases hty with hty | hty <;> rw [hty] <;> rfl
  have hset : ∀ (l : Locks) o, l.set o P.type = l := fun l o => by
    rcases hty with hty | hty <;> rw [hty] <;> rfl
  cases x with
  | load i =>
    simp only [RacyCounter.step] at hstep
    split_ifs at hstep with hc
    obtain rfl := Option.some.inj hstep
    obtain ⟨hi, hnone, hlt⟩ := hc
    have hth : s.threads (s.round, i) = ⟨(a.workers i).stores, .loop⟩ := by
      rw [h.threads i (Finset.mem_range.mp hi), ofWorker, hnone]
    refine ⟨[.thread (s.round, i), .thread (s.round, i)],
      s.setThread (s.round, i) ⟨(a.workers i).stores, .store s.result⟩, ?_,
      matches_set h rfl rfl rfl h.result fun k => ?_⟩
    · simp [step, threadFunc, hth, hlt, hfree, hset, State.setThread]
    · by_cases hk : k = i
      · simp [hk, ofWorker, h.result]
      · simp [hk]
  | store i =>
    simp only [RacyCounter.step] at hstep
    cases hv : (a.workers i).loaded with
    | none => simp [hv] at hstep
    | some v =>
      simp only [hv] at hstep
      split_ifs at hstep with hi
      obtain rfl := Option.some.inj hstep
      have hth : s.threads (s.round, i) = ⟨(a.workers i).stores, .store v⟩ := by
        rw [h.threads i (Finset.mem_range.mp hi), ofWorker, hv]
      have hlt := hinv.store_lt (hinv.count (by simp [h.phase, Phase.Counting])) (i := i) (v := v)
        (by rw [hth])
      have hinc : inc32 v = v + 1 := Nat.mod_eq_of_lt (by omega)
      refine ⟨[.thread (s.round, i), .thread (s.round, i)],
        { s with result := v + 1 }.setThread (s.round, i) ⟨(a.workers i).stores + 1, .loop⟩, ?_,
        matches_set h rfl rfl rfl rfl fun k => ?_⟩
      · simp [step, threadFunc, hth, hset, hinc, State.setThread]
      · by_cases hk : k = i
        · simp [hk, ofWorker]
        · simp [hk]

theorem lift_run (hN : 0 < P.threadCnt) (hty : P.type = .null ∨ P.type = .max)
    (hfit : P.threadCnt * P.iterations < 2 ^ 32) :
    ∀ {xs : List (RacyCounter.Action ℕ)} {s : State} {a a' : RacyCounter.State ℕ},
      Unlocked P s → Matches P s a →
      Transition.run (RacyCounter.step (Finset.range P.threadCnt) P.iterations) a xs = some a' →
      ∃ as s', Transition.run (step P) s as = some s' ∧ Matches P s' a'
  | [], s, a, a', _, h, hrun => by
    obtain rfl := Option.some.inj hrun
    exact ⟨[], s, rfl, h⟩
  | x :: xs, s, a, a', hinv, h, hrun => by
    obtain ⟨b, hstep, hrun⟩ := Option.bind_eq_some_iff.mp hrun
    obtain ⟨as, t, hs, ht⟩ := lift_step hty hfit hinv h hstep
    have hinv' : Unlocked P t :=
      Transition.inv_run (fun _ _ _ => unlocked_step hN hfit) hinv hs
    obtain ⟨bs, s', hs', h'⟩ := lift_run hN hty hfit hinv' ht hrun
    exact ⟨as ++ bs, s', by rw [Transition.run_append, hs, Option.bind_some, hs'], h'⟩

/-- The threads are created one after the other before the first of them runs. -/
theorem run_creates : ∀ (n : ℕ) {s : State} {i : ℕ}, i + n = P.threadCnt → s.phase = .create i →
    (∀ k < i, s.threads (s.round, k) = ⟨0, .loop⟩) →
    ∃ as s', Transition.run (step P) s as = some s' ∧ s'.phase = .wait 0 ∧
      s'.printed = s.printed ∧ s'.result = s.result ∧
      ∀ k < P.threadCnt, s'.threads (s'.round, k) = ⟨0, .loop⟩
  | 0, s, i, hi, hph, hthreads => by
    refine ⟨[.init], { s with phase := .wait 0 }, ?_, rfl, rfl, rfl, fun k hk => ?_⟩
    · have hnot : ¬i < P.threadCnt := by omega
      simp [step, concurrencyControlInit, hph, hnot]
    · exact hthreads k (by omega)
  | n + 1, s, i, hi, hph, hthreads => by
    have hstep : step P s .init =
        some { s.setThread (s.round, i) ⟨0, .loop⟩ with phase := .create (i + 1) } := by
      simp only [step, concurrencyControlInit, hph]
      rw [if_pos (by omega)]
    obtain ⟨as, s', hrun, h⟩ := run_creates n (by omega : i + 1 + n = P.threadCnt)
      (s := { s.setThread (s.round, i) ⟨0, .loop⟩ with phase := .create (i + 1) }) rfl
      fun k hk => by
        show Function.update s.threads (s.round, i) ⟨0, .loop⟩ (s.round, k) = _
        by_cases hki : k = i
        · rw [hki, Function.update_self]
        · rw [Function.update_of_ne fun heq => hki (Prod.mk.inj heq).2]
          exact hthreads k (by omega)
    exact ⟨.init :: as, s', by rw [Transition.run_cons, hstep, Option.bind_some, hrun], h⟩

/-- Threads that have made their increments return and are waited for. -/
theorem run_joins : ∀ (n : ℕ) {s : State} {i : ℕ}, i + n = P.threadCnt → s.phase = .wait i →
    (∀ k, i ≤ k → k < P.threadCnt → s.threads (s.round, k) = ⟨P.iterations, .loop⟩) →
    ∃ as s', Transition.run (step P) s as = some s' ∧ s'.printed = s.printed ++ [s.result]
  | 0, s, i, hi, hph, _ => by
    have hnot : ¬i < P.threadCnt := by omega
    refine ⟨[.init, .init], { s with
      printed := s.printed ++ [s.result], round := s.round + 1, phase := .reset }, ?_, rfl⟩
    simp [step, concurrencyControlInit, hph, hnot]
  | n + 1, s, i, hi, hph, hthreads => by
    have hlt : i < P.threadCnt := by omega
    have hth := hthreads i (Nat.le_refl i) hlt
    obtain ⟨as, s', hrun, h⟩ := run_joins n (by omega : i + 1 + n = P.threadCnt)
      (s := { s.setThread (s.round, i) ⟨P.iterations, .returned⟩ with phase := .wait (i + 1) }) rfl
      fun k hk hkN => by
        show Function.update s.threads (s.round, i) _ (s.round, k) = _
        rw [Function.update_of_ne fun heq => Nat.ne_of_gt hk (Prod.mk.inj heq).2]
        exact hthreads k (by omega) hkN
    refine ⟨.thread (s.round, i) :: .init :: as, s', ?_, h⟩
    rw [← hrun]
    simp [step, threadFunc, concurrencyControlInit, hth, hph, hlt, State.setThread]

variable (P)

/-- Without a lock, with two threads of two iterations or more and no wrapping : the values
printed are those from 2 to the number of increments of a round, and each of them is printed
in some run. -/
theorem unlocked_range (hty : P.type = .null ∨ P.type = .max) (hN : 2 ≤ P.threadCnt)
    (hM : 2 ≤ P.iterations) (hT : 0 < P.testCnt) (hfit : P.threadCnt * P.iterations < 2 ^ 32)
    (result v : ℕ) :
    (∃ as s, Transition.run (step P) (init result) as = some s ∧ v ∈ s.printed) ↔
      2 ≤ v ∧ v ≤ P.threadCnt * P.iterations := by
  have hpos : 0 < P.threadCnt := by omega
  constructor
  · rintro ⟨as, s, hrun, hv⟩
    have h : Unlocked P s :=
      Transition.inv_run (fun _ _ _ => unlocked_step hpos hfit) (unlocked_init result) hrun
    obtain ⟨hlow, hhigh⟩ := h.printed v hv
    exact ⟨by omega, hhigh⟩
  · rintro ⟨hlow, hhigh⟩
    have hreset : step P (init result) .init =
        some { init result with result := 0, phase := .create 0 } := by
      simp [step, concurrencyControlInit, init, hT]
    obtain ⟨as, s, hcreate, hphase, hprinted, hresult, hthreads⟩ :=
      run_creates P.threadCnt (Nat.zero_add _)
        (s := { init result with result := 0, phase := .create 0 }) rfl
        fun k hk => absurd hk (Nat.not_lt_zero k)
    have hs : Transition.run (step P) (init result) (.init :: as) = some s := by
      rw [Transition.run_cons, hreset, Option.bind_some, hcreate]
    have hinv : Unlocked P s :=
      Transition.inv_run (fun _ _ _ => unlocked_step hpos hfit) (unlocked_init result) hs
    obtain ⟨xs, a, hxs, hcount, hworkers⟩ := RacyCounter.exists_run
      (S := Finset.range P.threadCnt) Nat.zero_ne_one (Finset.mem_range.mpr hpos)
      (Finset.mem_range.mpr (by omega)) hM hlow (by rwa [Finset.card_range])
    have hfirst : Matches P s RacyCounter.init := ⟨hphase, hprinted, hresult, hthreads⟩
    obtain ⟨bs, t, ht, hmatch⟩ := lift_run hpos hty hfit hinv hfirst hxs
    obtain ⟨cs, u, hu, hlast⟩ := run_joins P.threadCnt (Nat.zero_add _) hmatch.phase
      fun k _ hk => by
        rw [hmatch.threads k hk, hworkers k (Finset.mem_range.mpr hk)]
        rfl
    refine ⟨.init :: as ++ (bs ++ cs), u, ?_, ?_⟩
    · rw [Transition.run_append, hs, Option.bind_some, Transition.run_append, ht,
        Option.bind_some, hu]
    · rw [hlast, hmatch.result, hcount]
      simp

/-- The threads, iterations and rounds of the module : a round that prints 2. -/
theorem unlocked_range_module :
    ∃ as s, Transition.run (step ⟨2, 2000000, 10, .null⟩) (init 0) as = some s ∧
      2 ∈ s.printed :=
  (unlocked_range ⟨2, 2000000, 10, .null⟩ (Or.inl rfl) (by simp) (by simp) (by simp)
    (by simp) 0 2).mpr (by simp)

end ConcurrencyControl

end LinuxDriverKb
